import NumericJit.Proofs.Statement.Predictive

/-!
# Statement by statement, inside the tokens

A statement that cannot be read fails at one of its own tokens, so it makes no difference whether
tokens are skipped from there or from its first one (`Parse.skipStatement_of_error`), and segments
are read on their own (`segments_read_independently`).

Asking for the next statement follows `ReadsAs`, rule by rule: at the end of the input there is
none, a `;` is left out, and a segment gives one result. So a list of tokens that ends with the end
of the input is read without ever looking behind it, every statement takes tokens, and there are no
more of them than there are segments (`reading_ends_inside`).
-/

namespace NumericJit

open TokenCursor (HasStop Passed)

section
variable {tokens rest : List Token}

theorem EndsInput.of_suffix (h : EndsInput tokens) (hsuffix : rest <:+ tokens) (hne : rest ≠ []) :
    EndsInput rest := by
  obtain ⟨stop, hlast, hk⟩ := h
  obtain ⟨before, rfl⟩ := hsuffix
  refine ⟨stop, ?_, hk⟩
  rwa [List.getLast?_append, Option.or_of_isSome (List.getLast?_isSome.mpr hne)] at hlast

theorem EndsInput.closed (h : EndsInput tokens) : Parse.Closed tokens := by
  obtain ⟨stop, hlast, hk⟩ := h
  exact ⟨stop, List.mem_of_getLast? hlast, hk⟩

theorem Parse.Closed.hasStop (h : Parse.Closed tokens) (last : Option Token) :
    HasStop ⟨last, tokens⟩ := by
  obtain ⟨stop, hmem, hk⟩ := h
  exact ⟨stop, hmem, .inr hk⟩

end

namespace Parse

-- ---------------------------------------------------------------------------
-- Expressions
-- ---------------------------------------------------------------------------

section
variable {c d : TokenCursor}

theorem expression_followedBy (h : IsSegment stop c.rest) (behind : List Token) :
    expression (c.followedBy behind) =
      (expression c).map fun r => (r.1, r.2.followedBy behind) := by
  have hmoved : ∀ c : TokenCursor, c.moved ⟨stop, .identity, behind⟩ = c.followedBy behind := by
    intro c
    unfold TokenCursor.moved TokenCursor.followedBy
    rw [map_relocate_identity]
    exact congrArg (TokenCursor.mk · _) (Option.map_id_apply)
  have halong := expression_along (p := ⟨stop, .identity, behind⟩) h
  rw [hmoved] at halong
  generalize expression c = r at halong ⊢
  generalize expression (c.followedBy behind) = r' at halong ⊢
  cases halong with
  | error f => exact congrArg Except.error f.relocate_identity
  | ok hread =>
    cases hread with
    | mk e _ _ => exact congrArg Except.ok (Prod.ext e.relocate_identity (hmoved _))

theorem followedBy_append (c : TokenCursor) (rest behind : List Token) :
    (c.followedBy rest).followedBy behind = c.followedBy (rest ++ behind) :=
  congrArg (TokenCursor.mk c.last) (List.append_assoc ..)

/-- No more is looked at than the tokens up to the first that ends a statement. -/
theorem expression_behind (hc : c.HasStop) (behind : List Token) :
    expression (c.followedBy behind) =
      (expression c).map fun r => (r.1, r.2.followedBy behind) := by
  obtain ⟨last, tokens⟩ := c
  obtain ⟨t, ht, hstop⟩ := hc
  obtain ⟨stop, segment, rest, rfl, hsegment⟩ := exists_isSegment ht hstop
  change expression ((TokenCursor.followedBy ⟨last, segment⟩ rest).followedBy behind) =
    (expression (TokenCursor.followedBy ⟨last, segment⟩ rest)).map _
  rw [followedBy_append, expression_followedBy (c := ⟨last, segment⟩) hsegment,
    expression_followedBy (c := ⟨last, segment⟩) hsegment]
  cases expression ⟨last, segment⟩ with
  | error f => rfl
  | ok r => exact congrArg (fun c => Except.ok (r.1, c)) (followedBy_append r.2 rest behind).symm

theorem expression_inside (hc : c.HasStop) : ExpressionInside c := by
  refine ⟨?_, expression_behind hc⟩
  have hfollows := follows_expression hc
  generalize expression c = r at hfollows
  cases hfollows with
  | ok r hpassed _ hrun =>
    exact ⟨.met r.2, hrun [] _ .done, .met r.1 r.2, (hpassed.hasStop hc).ne_nil, hpassed.suffix⟩
  | fail d expected hpassed hrun =>
    exact ⟨.unmet d expected, hrun [], .unmet d expected, (hpassed.hasStop hc).ne_nil,
      hpassed.suffix⟩

end

-- ---------------------------------------------------------------------------
-- The next statement
-- ---------------------------------------------------------------------------

section
variable {t stop : Token} {segment rest : List Token}

theorem nextStatement_of_end (h : t.kind = .endOfInput) :
    nextStatement (t :: rest) = (none, t :: rest) := by
  rw [nextStatement, skipEmpty_of_ne (by rw [h]; exact nofun)]
  exact if_pos h

theorem nextStatement_of_semicolon (h : t.kind = .char ';') :
    nextStatement (t :: rest) = nextStatement rest := by
  rw [nextStatement, nextStatement, skipEmpty_of_eq h]

theorem nextStatement_of_ok (ht : ¬ t.IsStop)
    (h : statement (.ofTokens (t :: rest)) = .ok (s, c)) :
    nextStatement (t :: rest) = (some (.ok s), c.rest) := by
  obtain ⟨hsemicolon, hend⟩ := not_or.mp ht
  rw [nextStatement, skipEmpty_of_ne hsemicolon]
  dsimp only
  rw [if_neg hend, h]

theorem nextStatement_of_error (ht : ¬ t.IsStop)
    (h : statement (.ofTokens (t :: rest)) = .error f) :
    nextStatement (t :: rest) = (some (.error f), skipStatement (t :: rest)) := by
  obtain ⟨hsemicolon, hend⟩ := not_or.mp ht
  rw [nextStatement, skipEmpty_of_ne hsemicolon]
  dsimp only
  rw [if_neg hend, h]

/-- A segment gives the statement that it holds, and the next one begins behind it. -/
theorem nextStatement_segment (ht : ¬ t.IsStop) (h : IsSegment stop segment) (rest : List Token) :
    nextStatement (t :: (segment ++ rest)) =
      (some (first (t :: segment)), Placement.next ⟨stop, .identity, rest⟩) := by
  have hskip := skipStatement_moved (p := ⟨stop, .identity, rest⟩) (.cons ht h)
  have halong := statement_along (p := ⟨stop, .identity, rest⟩) (c := .ofTokens (t :: segment))
    (.cons ht h)
  have hmoved : TokenCursor.moved ⟨stop, .identity, rest⟩ (.ofTokens (t :: segment)) =
      .ofTokens (t :: (segment ++ rest)) :=
    congrArg (fun tokens => TokenCursor.ofTokens (tokens ++ rest)) (map_relocate_identity _)
  rw [map_relocate_identity] at hskip
  rw [hmoved] at halong
  unfold first
  generalize statement (.ofTokens (t :: segment)) = r at halong ⊢
  generalize hread : statement (.ofTokens (t :: (segment ++ rest))) = r' at halong
  cases halong with
  | error f =>
    rw [f.relocate_identity] at hread
    rw [nextStatement_of_error ht hread]
    exact congrArg (Prod.mk _) hskip
  | @ok a a' h =>
    rw [nextStatement_of_ok ht hread]
    refine Prod.ext ?_ h.2
    exact congrArg some ((congrArg Except.ok h.1).trans (relocated_identity (.ok a.1)))

theorem next_suffix (h : IsSegment stop segment) (rest : List Token) :
    Placement.next ⟨stop, .identity, rest⟩ <:+ segment ++ rest := by
  obtain ⟨tokens, rfl, -⟩ := h.exists_append
  rw [List.append_assoc]
  refine List.IsSuffix.trans ?_ (List.suffix_append tokens _)
  obtain hk | hk := h.isStop.2
  · rw [Placement.next_of_semicolon hk]
    exact List.suffix_cons _ _
  · rw [Placement.next_of_end hk]
    exact List.suffix_refl _

theorem next_append (stop : Token) (rest behind : List Token) :
    Placement.next ⟨stop, .identity, rest ++ behind⟩ =
      Placement.next ⟨stop, .identity, rest⟩ ++ behind := by
  unfold Placement.next
  split <;> rfl

theorem skipStatement_passed (h : Passed c d) : skipStatement c.rest = skipStatement d.rest := by
  obtain ⟨read, hrest, hread⟩ := h
  rw [hrest]
  clear hrest
  induction read with
  | nil => rfl
  | cons t read ih =>
    obtain ⟨ht, hread⟩ := List.forall_mem_cons.mp hread
    obtain ⟨hsemicolon, hend⟩ := not_or.mp ht
    rw [List.cons_append, skipStatement, if_neg hend, if_neg hsemicolon, ih hread]

/-- Skipping from the token that a statement failed at ends where skipping from its first token
does. -/
theorem skipStatement_of_error (hc : HasStop c) (h : statement c = .error f) :
    ∃ d expected, Run [.statement] c (.unmet d expected) ∧
      Agrees (statement c) (.unmet d expected) ∧ HasStop d ∧
      skipStatement c.rest = skipStatement d.rest := by
  have hfinishes := statement_finishes hc
  generalize statement c = r at h hfinishes ⊢
  cases hfinishes with
  | semicolon s d hpassed hk hrun => cases h
  | input s d hpassed hk hrun => cases h
  | fail d expected hpassed hrun =>
    exact ⟨d, expected, hrun, .unmet d expected, hpassed.hasStop hc, skipStatement_passed hpassed⟩

theorem exists_run (ht : ¬ t.IsStop) (hc : HasStop (.ofTokens (t :: rest)))
    (hne : (nextStatement (t :: rest)).2 ≠ []) :
    ∃ ending, Run [.statement] (.ofTokens (t :: rest)) ending ∧
      Agrees (statement (.ofTokens (t :: rest))) ending ∧ ending.cursor.rest ≠ [] ∧
      (nextStatement (t :: rest)).2 = ending.next := by
  cases hread : statement (.ofTokens (t :: rest)) with
  | error f =>
    obtain ⟨d, expected, hrun, hagrees, hd, hskip⟩ := skipStatement_of_error hc hread
    rw [hread] at hagrees
    rw [nextStatement_of_error ht hread]
    exact ⟨.unmet d expected, hrun, hagrees, hd.ne_nil, hskip⟩
  | ok r =>
    obtain ⟨s, d⟩ := r
    have hfinishes := statement_finishes hc
    rw [nextStatement_of_ok ht hread] at hne ⊢
    rw [hread] at hfinishes
    cases hfinishes with
    | semicolon _ d hpassed hk hrun => exact ⟨.met d.advance, hrun, .met s d.advance, hne, rfl⟩
    | input _ _ hpassed hk hrun => exact ⟨.met d, hrun, .met s d, hne, rfl⟩

end

namespace ReadsAs

variable {tokens : List Token}

theorem ne_nil (h : ReadsAs tokens results) : tokens ≠ [] := by
  cases h <;> exact List.cons_ne_nil _ _

theorem statement_inside (h : ReadsAs tokens results) : StatementInside tokens := by
  induction h with
  | finish h =>
    refine ⟨?_, ?_, fun behind => ?_⟩
    · rw [nextStatement_of_end h]
      exact ⟨List.cons_ne_nil _ _, List.suffix_refl _⟩
    · rw [nextStatement_of_end h]
      exact fun result hresult => absurd hresult.symm (Option.some_ne_none result)
    · rw [List.cons_append, nextStatement_of_end h, nextStatement_of_end h]
      rfl
  | skip h hrest ih =>
    refine ⟨?_, ?_, fun behind => ?_⟩
    · rw [nextStatement_of_semicolon h]
      exact ⟨ih.inside.1, ih.inside.2.trans (List.suffix_cons _ _)⟩
    · rw [nextStatement_of_semicolon h, skipEmpty_of_eq h]
      exact fun result hresult => (ih.run result hresult).imp_left Nat.lt_succ_of_lt
    · rw [List.cons_append, nextStatement_of_semicolon h, nextStatement_of_semicolon h, ih.behind]
  | @read _ t stop segment rest ht hsegment hrest ih =>
    have hnext := nextStatement_segment ht hsegment rest
    refine ⟨?_, fun result _ => ⟨?_, ?_⟩, fun behind => ?_⟩
    · rw [hnext]
      exact ⟨hrest.ne_nil, (next_suffix hsegment rest).trans (List.suffix_cons _ _)⟩
    · have hlength := Placement.next_length_le ⟨stop, .identity, rest⟩
      have hpos := hsegment.length_pos
      rw [hnext, List.length_cons, List.length_append]
      dsimp only at hlength ⊢
      omega
    · have hstop : HasStop (.ofTokens (t :: (segment ++ rest))) :=
        ⟨stop, List.mem_cons_of_mem t (List.mem_append_left rest hsegment.isStop.1),
          hsegment.isStop.2⟩
      rw [skipEmpty_of_ne (not_or.mp ht).1]
      exact exists_run ht hstop (by rw [hnext]; exact hrest.ne_nil)
    · rw [hnext, List.cons_append, List.append_assoc, nextStatement_segment ht hsegment,
        next_append]

theorem yields (h : ReadsAs tokens results) : Yields tokens results := by
  induction h with
  | finish h => exact .none (nextStatement_of_end h)
  | skip h hrest ih =>
    cases ih with
    | none hnone => exact .none ((nextStatement_of_semicolon h).trans hnone)
    | some hsome hmore => exact .some ((nextStatement_of_semicolon h).trans hsome) hmore
  | read ht hsegment hrest ih => exact .some (nextStatement_segment ht hsegment _) ih

theorem length_le (h : ReadsAs tokens results) :
    results.length ≤ tokens.countP (fun t => t.kind = .char ';') + 1 := by
  induction h with
  | finish h => exact Nat.zero_le _
  | skip h hrest ih =>
    exact Nat.le_trans ih (Nat.succ_le_succ (List.sublist_cons_self _ _).countP_le)
  | @read results t stop segment rest ht hsegment hrest ih =>
    rw [List.length_cons, List.countP_cons, List.countP_append]
    obtain hk | hk := hsegment.isStop.2
    · have hone : 0 < segment.countP (fun t => t.kind = .char ';') :=
        List.countP_pos_iff.mpr ⟨stop, hsegment.isStop.1, decide_eq_true hk⟩
      rw [Placement.next_of_semicolon hk] at ih
      dsimp only at ih
      omega
    · -- nothing is read behind the end of the input
      rw [← hrest.statements_eq, (reads_next_of_end hk rest).statements_eq]
      exact Nat.succ_le_succ (Nat.zero_le _)

end ReadsAs

end Parse

/-- Tokens that end behind a `;` and those that follow are read apart. So a text gives, segment by
segment, what each one gives alone, and other tokens in one segment leave what is read before it and
behind it as it was. -/
theorem segments_read_independently :
    (∀ before rest e, Parse.Ended before → EndsOnce rest → e.kind = .endOfInput →
      Parse.statements (before ++ rest) =
        Parse.statements (before ++ [e]) ++ Parse.statements rest) ∧
    (∀ text tokens e, tokenize text = .ok tokens → e.kind = .endOfInput →
      parseStatements text =
        (segments tokens).flatMap (fun s => Parse.statements (s.1 ++ [s.2, e])) ∧
      (segments tokens).flatMap (fun s => s.1 ++ [s.2]) = tokens ∧
      ∀ s ∈ segments tokens, Unended s.1 ∧ s.2.IsStop ∧
        (Parse.statements (s.1 ++ [s.2, e])).length = if s.1 = [] then 0 else 1) ∧
    ∀ before tokens stop rest e, Parse.Ended before → Unended tokens → stop.kind = .char ';' →
      EndsOnce rest → e.kind = .endOfInput →
      Parse.statements (before ++ (tokens ++ stop :: rest)) =
        Parse.statements (before ++ [e]) ++
          (Parse.statements (tokens ++ [stop, e]) ++ Parse.statements rest) := by
  refine ⟨fun before rest e hbefore hrest he => Parse.statements_append hbefore he hrest.closed,
    fun text tokens e htokens he => ?_,
    fun before tokens stop rest e hbefore htokens hstop hrest he =>
      Parse.statements_between hbefore htokens hstop hrest.closed he⟩
  have hends := tokenize_endsOnce htokens
  have hparse : parseStatements text = Parse.statements tokens := by rw [parseStatements, htokens]
  refine ⟨hparse.trans (Parse.statements_segments hends he), hends.join_segments, fun s hs => ?_⟩
  obtain ⟨hunended, hstop⟩ := mem_segments hs
  rw [Parse.statements_segment hunended hstop he]
  exact ⟨hunended, hstop, Parse.length_ofSegment s.1 s.2⟩

/-- A statement that cannot be read, an empty one and one that the end of the input cuts off, with
others around them. -/
theorem segments_read_independently_around_errors :
    let text := "a; + ); ; b; f(1"
    let before : List Token := [⟨.identifier "a", {}⟩, ⟨.char ';', {}⟩]
    let bad : List Token := [⟨.char '+', {}⟩, ⟨.char ')', {}⟩]
    let semicolon : Token := ⟨.char ';', {}⟩
    let rest : List Token := [⟨.identifier "b", {}⟩, ⟨.endOfInput, {}⟩]
    let e : Token := ⟨.endOfInput, {}⟩
    (∃ tokens, tokenize text = .ok tokens ∧ (segments tokens).length = 5 ∧
      parseStatements text =
        (segments tokens).flatMap (fun s => Parse.statements (s.1 ++ [s.2, e])) ∧
      (parseStatements text).map Except.isOk = [true, false, true, false]) ∧
    Parse.statements (before ++ (bad ++ semicolon :: rest)) =
      Parse.statements (before ++ [e]) ++
        (Parse.statements (bad ++ [semicolon, e]) ++ Parse.statements rest) ∧
    Parse.statements (before ++ rest) =
      Parse.statements (before ++ [e]) ++ Parse.statements rest := by
  intro text before bad semicolon rest e
  have hbefore : Parse.Ended before := by
    refine ⟨?_, ?_⟩ <;> decide
  have hbad : Unended bad := by
    unfold Unended
    decide
  have hrest : EndsOnce rest := ⟨[⟨.identifier "b", {}⟩], e, rfl, rfl, by decide⟩
  obtain ⟨happend, htext, hbetween⟩ := segments_read_independently
  refine ⟨?_, hbetween before bad semicolon rest e hbefore hbad rfl hrest rfl,
    happend before rest e hbefore hrest rfl⟩
  have hcount : (tokenize text).toOption.map (fun tokens => (segments tokens).length) = some 5 := by
    decide +kernel
  cases htokens : tokenize text with
  | error failure => rw [htokens] at hcount; cases hcount
  | ok tokens =>
    rw [htokens] at hcount
    exact ⟨tokens, rfl, Option.some.inj hcount, (htext text tokens e htokens rfl).1,
      by decide +kernel⟩

/-- Tokens that end with the end of the input, wherever reading begins in them: an expression and
the next statement are read by a finite run that looks at tokens of the list only and leaves at
least one, so nothing behind the list has a part in it. Every result takes at least one token, and
asking again until there is none gives at most one result more than there are `;`. -/
theorem reading_ends_inside (hend : EndsInput tokens) :
    (∀ c : TokenCursor, c.rest ≠ [] → c.rest <:+ tokens → Parse.ExpressionInside c) ∧
    (∀ rest, rest ≠ [] → rest <:+ tokens → Parse.StatementInside rest) ∧
    Parse.Yields tokens (Parse.statements tokens) ∧
    (Parse.statements tokens).length ≤ tokens.countP (fun t => t.kind = .char ';') + 1 := by
  obtain ⟨results, hresults⟩ := Parse.exists_reads hend.closed
  rw [hresults.statements_eq]
  refine ⟨fun c hne hsuffix => ?_, fun rest hne hsuffix => ?_, hresults.yields, hresults.length_le⟩
  · exact Parse.expression_inside ((hend.of_suffix hsuffix hne).closed.hasStop c.last)
  · obtain ⟨results, hresults⟩ := Parse.exists_reads (hend.of_suffix hsuffix hne).closed
    exact hresults.statement_inside

/-- A call that is not closed, an end of the input where more tokens follow, and a call there. -/
theorem reading_ends_inside_malformed :
    let start : List Token := [⟨.identifier "f", {}⟩, ⟨.char '(', {}⟩, ⟨.char ';', {}⟩,
      ⟨.identifier "a", {}⟩, ⟨.endOfInput, {}⟩]
    let more : List Token := [⟨.char ';', {}⟩, ⟨.identifier "g", {}⟩, ⟨.char '(', {}⟩,
      ⟨.endOfInput, {}⟩]
    EndsInput (start ++ more) ∧ Parse.ExpressionInside ⟨none, more.drop 1⟩ ∧
      Parse.StatementInside start ∧ Parse.StatementInside more ∧
      Parse.Yields (start ++ more) (Parse.statements (start ++ more)) ∧
      (Parse.statements (start ++ more)).map Except.isOk = [false, true] := by
  intro start more
  have hstart : EndsInput start := ⟨⟨.endOfInput, {}⟩, rfl, rfl⟩
  have hends : EndsInput (start ++ more) := ⟨⟨.endOfInput, {}⟩, rfl, rfl⟩
  have hmore : more <:+ start ++ more := List.suffix_append start more
  obtain ⟨hexpression, hstatement, hyields, -⟩ := reading_ends_inside hends
  refine ⟨hends, hexpression _ (List.cons_ne_nil _ _) ((List.drop_suffix 1 more).trans hmore),
    (reading_ends_inside hstart).2.1 start (List.cons_ne_nil _ _) (List.suffix_refl start),
    hstatement more (List.cons_ne_nil _ _) hmore, hyields, ?_⟩
  decide +kernel

end NumericJit
