import NumericJit.Proofs.Statement.Segments

/-!
# The statements of a text and of its parts

A list of tokens with an end is read segment by segment, as `ReadsAs` says. So places matter to
nothing but places (`Parse.statements_relocate`), and the statements of tokens that are joined
behind a `;` are those of the two parts (`Parse.statements_append`).
-/

namespace NumericJit

-- ---------------------------------------------------------------------------
-- Moving nothing
-- ---------------------------------------------------------------------------

mutual
theorem Expr.relocate_identity : ∀ e : Expr, e.relocate .identity = e
  | .number _ _ | .variable _ _ => rfl
  | .binary _ lhs rhs _ => by
    rw [Expr.relocate, Expr.relocate_identity lhs, Expr.relocate_identity rhs]
    rfl
  | .call _ args _ => by
    rw [Expr.relocate, Expr.relocateArgs_identity args]
    rfl
  | .branch condition yes no _ => by
    rw [Expr.relocate, Expr.relocate_identity condition, Expr.relocate_identity yes,
      Expr.relocate_identity no]
    rfl
  | .loop _ start stop step body _ => by
    rw [Expr.relocate, Expr.relocate_identity start, Expr.relocate_identity stop,
      Expr.relocateStep_identity step, Expr.relocate_identity body]
    rfl
  | .locals bindings body _ => by
    rw [Expr.relocate, Expr.relocateBindings_identity bindings, Expr.relocate_identity body]
    rfl

theorem Expr.relocateArgs_identity : ∀ es : List Expr, Expr.relocateArgs .identity es = es
  | [] => rfl
  | e :: es => by rw [Expr.relocateArgs, Expr.relocate_identity e, Expr.relocateArgs_identity es]

theorem Expr.relocateStep_identity : ∀ step : Option Expr, Expr.relocateStep .identity step = step
  | none => rfl
  | some e => by rw [Expr.relocateStep, Expr.relocate_identity e]

theorem Expr.relocateBinding_identity :
    ∀ b : String × Option Expr, Expr.relocateBinding .identity b = b
  | (_, none) => rfl
  | (_, some e) => by rw [Expr.relocateBinding, Expr.relocate_identity e]

theorem Expr.relocateBindings_identity :
    ∀ bs : List (String × Option Expr), Expr.relocateBindings .identity bs = bs
  | [] => rfl
  | b :: bs => by
    rw [Expr.relocateBindings, Expr.relocateBinding_identity b, Expr.relocateBindings_identity bs]
end

theorem Failure.relocate_identity (f : Failure) : f.relocate .identity = f := by
  obtain ⟨cause, span⟩ := f
  cases cause with
  | invalidTarget target =>
    exact congrArg (fun e => (⟨.invalidTarget e, span⟩ : Failure)) target.relocate_identity
  | _ => rfl

theorem relocated_identity (r : Except Failure Statement) : relocated .identity r = r := by
  cases r with
  | error f => exact congrArg Except.error f.relocate_identity
  | ok s =>
    refine congrArg Except.ok ?_
    cases s with
    | definition proto body => exact congrArg (Statement.definition proto) body.relocate_identity
    | declaration proto => rfl
    | expression e => exact congrArg Statement.expression e.relocate_identity

-- ---------------------------------------------------------------------------
-- Reading segment by segment
-- ---------------------------------------------------------------------------

namespace Parse

def first (segment : List Token) : Except Failure Statement :=
  (statement (.ofTokens segment)).map Prod.fst

inductive ReadsAs : List Token → List (Except Failure Statement) → Prop where
  | finish (h : t.kind = .endOfInput) : ReadsAs (t :: rest) []
  | skip (h : t.kind = .char ';') (hrest : ReadsAs rest results) : ReadsAs (t :: rest) results
  | read {t stop : Token} {segment rest : List Token} (ht : ¬ t.IsStop)
      (hsegment : IsSegment stop segment)
      (hrest : ReadsAs (Placement.next ⟨stop, .identity, rest⟩) results) :
      ReadsAs (t :: (segment ++ rest)) (first (t :: segment) :: results)

section
variable {p : Placement} {t : Token} {segment : List Token}

theorem skipEmpty_of_ne (h : t.kind ≠ .char ';') : skipEmpty (t :: rest) = t :: rest :=
  List.dropWhile_cons_of_neg (by simpa using h)

theorem skipEmpty_of_eq (h : t.kind = .char ';') : skipEmpty (t :: rest) = skipEmpty rest :=
  List.dropWhile_cons_of_pos (by simpa using h)

theorem skipStatement_moved (h : IsSegment p.stop segment) :
    skipStatement (segment.map (Token.relocate p.move) ++ p.behind) = p.next := by
  induction h with
  | stop h =>
    obtain hk | hk := h
    · rw [Placement.next_of_semicolon hk]
      simp [skipStatement, Token.relocate, hk]
    · rw [Placement.next_of_end hk]
      simp [skipStatement, Token.relocate, hk]
  | cons h hrest ih =>
    obtain ⟨hsemicolon, hend⟩ := not_or.mp h
    simpa [skipStatement, Token.relocate, hsemicolon, hend] using ih

theorem statementsWith_segment (fuel : Nat) (ht : ¬ t.IsStop) (h : IsSegment p.stop segment) :
    statementsWith (fuel + 1) ((t :: segment).map (Token.relocate p.move) ++ p.behind) =
      relocated p.move (first (t :: segment)) :: statementsWith fuel p.next := by
  obtain ⟨hsemicolon, hend⟩ := not_or.mp ht
  have hskip := skipStatement_moved (.cons ht h)
  rw [List.map_cons, List.cons_append] at hskip ⊢
  rw [statementsWith, skipEmpty_of_ne (by exact hsemicolon)]
  dsimp only
  rw [if_neg (by exact hend), hskip]
  have halong := statement_along (c := .ofTokens (t :: segment)) (.cons ht h)
  have hmoved : TokenCursor.moved p (.ofTokens (t :: segment)) =
      .ofTokens (t.relocate p.move :: (segment.map (Token.relocate p.move) ++ p.behind)) := rfl
  rw [hmoved] at halong
  rw [first]
  generalize statement (.ofTokens (t :: segment)) = r at halong ⊢
  generalize statement (.ofTokens (t.relocate p.move :: _)) = r' at halong ⊢
  cases halong with
  | error f => rfl
  | @ok a a' hread =>
    obtain ⟨s, c⟩ := a
    obtain ⟨s', c'⟩ := a'
    obtain ⟨hs, hrest⟩ := hread
    dsimp only at hs hrest ⊢
    rw [hs, hrest]
    rfl

end

theorem map_relocate_identity (tokens : List Token) :
    tokens.map (Token.relocate .identity) = tokens := List.map_id _

theorem exists_fuel {t : Token} (h : (t :: rest).length ≤ fuel) : ∃ n, fuel = n + 1 :=
  Nat.exists_eq_add_one.mpr (Nat.lt_of_lt_of_le (Nat.succ_pos _) h)

namespace ReadsAs

theorem statementsWith_eq (h : ReadsAs tokens results) (hfuel : tokens.length ≤ fuel) :
    statementsWith fuel tokens = results := by
  induction h generalizing fuel with
  | finish h =>
    obtain ⟨fuel, rfl⟩ := exists_fuel hfuel
    rw [statementsWith, skipEmpty_of_ne (by rw [h]; exact nofun)]
    exact if_pos h
  | skip h hrest ih =>
    obtain ⟨fuel, rfl⟩ := exists_fuel hfuel
    rw [← ih (Nat.le_of_succ_le hfuel), statementsWith, statementsWith, skipEmpty_of_eq h]
  | @read _ t stop segment rest ht hsegment hrest ih =>
    obtain ⟨fuel, rfl⟩ := exists_fuel hfuel
    have hone := statementsWith_segment (p := ⟨stop, .identity, rest⟩) fuel ht hsegment
    rw [map_relocate_identity, relocated_identity] at hone
    have hnext := Placement.next_length_le ⟨stop, .identity, rest⟩
    have hpos := hsegment.length_pos
    rw [List.length_cons, List.length_append] at hfuel
    rw [ih (by dsimp only at hnext; omega)] at hone
    exact hone

theorem statements_eq (h : ReadsAs tokens results) : statements tokens = results :=
  h.statementsWith_eq (Nat.le_refl _)

end ReadsAs

-- ---------------------------------------------------------------------------
-- Other places
-- ---------------------------------------------------------------------------

theorem first_relocate (m : Relocation) {t stop : Token} {segment : List Token} (ht : ¬ t.IsStop)
    (h : IsSegment stop segment) :
    first ((t :: segment).map (Token.relocate m)) = relocated m (first (t :: segment)) := by
  have hread : ∀ r r', Along m (StatementMoved ⟨stop, m, []⟩) r r' →
      r'.map Prod.fst = relocated m (r.map Prod.fst) := by
    rintro _ _ (⟨hs, hrest⟩ | f)
    · exact congrArg Except.ok hs
    · rfl
  have halong := statement_along (p := ⟨stop, m, []⟩) (c := .ofTokens (t :: segment)) (.cons ht h)
  rw [first, first, ← hread _ _ halong]
  exact congrArg (fun tokens => (statement (.ofTokens tokens)).map Prod.fst)
    (List.append_nil _).symm

theorem ReadsAs.relocate (m : Relocation) (h : ReadsAs tokens results) :
    ReadsAs (tokens.map (Token.relocate m)) (results.map (relocated m)) := by
  induction h with
  | finish h => exact .finish h
  | skip h hrest ih => exact .skip h ih
  | @read _ t stop segment rest ht hsegment hrest ih =>
    rw [List.map_cons, List.map_append, List.map_cons, ← first_relocate m ht hsegment]
    refine .read ht (hsegment.relocate m) ?_
    have hnext : Placement.next ⟨stop.relocate m, .identity, rest.map (Token.relocate m)⟩ =
        (Placement.next ⟨stop, .identity, rest⟩).map (Token.relocate m) := by
      unfold Placement.next
      rw [apply_ite (List.map _)]
      rfl
    rw [hnext]
    exact ih

-- ---------------------------------------------------------------------------
-- Parts
-- ---------------------------------------------------------------------------

def Closed (tokens : List Token) : Prop := ∃ t ∈ tokens, t.kind = .endOfInput

/-- Ends behind a statement and goes on. -/
structure Ended (tokens : List Token) : Prop where
  open_end : ∀ t ∈ tokens, t.kind ≠ .endOfInput
  semicolon : ∀ t ∈ tokens.getLast?, t.kind = .char ';'

theorem exists_reads : ∀ {tokens}, Closed tokens → ∃ results, ReadsAs tokens results
  | [], h => nomatch h
  | t :: tokens, ⟨e, he, hend⟩ => by
    by_cases ht : t.kind = .endOfInput
    · exact ⟨[], .finish ht⟩
    have he : e ∈ tokens := (List.mem_cons.mp he).resolve_left fun h => ht (h ▸ hend)
    by_cases ht' : t.kind = .char ';'
    · obtain ⟨results, hresults⟩ := exists_reads ⟨e, he, hend⟩
      exact ⟨results, .skip ht' hresults⟩
    obtain ⟨stop, segment, rest, htokens, hsegment⟩ := exists_isSegment he (.inr hend)
    have hlength : rest.length ≤ tokens.length :=
      htokens ▸ (List.sublist_append_right segment rest).length_le
    obtain ⟨results, hresults⟩ :
        ∃ results, ReadsAs (Placement.next ⟨stop, .identity, rest⟩) results := by
      obtain hk | hk := hsegment.isStop.2
      · rw [Placement.next_of_semicolon hk]
        have he : e ∈ rest := (List.mem_append.mp (htokens ▸ he)).resolve_left fun h => by
          have heq := hsegment.eq_of_isStop h (.inr hend)
          rw [heq, hk] at hend
          cases hend
        exact exists_reads ⟨e, he, hend⟩
      · rw [Placement.next_of_end hk]
        exact ⟨[], .finish hk⟩
    rw [htokens]
    exact ⟨_, .read (not_or.mpr ⟨ht', ht⟩) hsegment hresults⟩
termination_by tokens => tokens.length

theorem Ended.of_append (h : Ended (before ++ rest)) : Ended rest := by
  refine ⟨fun t ht => h.open_end t (List.mem_append_right before ht), fun t ht => ?_⟩
  refine h.semicolon t ?_
  rw [List.getLast?_append, Option.mem_def.mp ht]
  rfl

/-- What stands before a statement is read on its own. -/
theorem Ended.reads : ∀ {tokens}, Ended tokens →
    ∃ results, ∀ {rest more}, ReadsAs rest more → ReadsAs (tokens ++ rest) (results ++ more)
  | [], _ => ⟨[], id⟩
  | t :: tokens, h => by
    have htokens : Ended tokens := Ended.of_append (show Ended ([t] ++ tokens) from h)
    by_cases ht : t.kind = .char ';'
    · obtain ⟨results, hresults⟩ := htokens.reads
      exact ⟨results, fun hrest => .skip ht (hresults hrest)⟩
    obtain ⟨s, hs⟩ : ∃ s, tokens.getLast? = some s := by
      refine Option.ne_none_iff_exists'.mp fun hnone => ?_
      obtain rfl := List.getLast?_eq_none_iff.mp hnone
      exact ht (h.semicolon t rfl)
    obtain ⟨stop, segment, rest, heq, hsegment⟩ :=
      exists_isSegment (List.mem_of_getLast? hs) (.inl (htokens.semicolon s hs))
    have hlength : rest.length ≤ tokens.length :=
      heq ▸ (List.sublist_append_right segment rest).length_le
    have hrest : Ended rest := Ended.of_append (heq ▸ htokens)
    have hk : stop.kind = .char ';' :=
      hsegment.isStop.2.resolve_right
        (htokens.open_end stop (heq ▸ List.mem_append_left rest hsegment.isStop.1))
    obtain ⟨results, hresults⟩ := hrest.reads
    refine ⟨first (t :: segment) :: results, fun {behind more} hbehind => ?_⟩
    rw [heq, List.cons_append, List.append_assoc, List.cons_append]
    refine .read (not_or.mpr ⟨ht, h.open_end _ (List.mem_cons_self ..)⟩) hsegment ?_
    rw [Placement.next_of_semicolon hk]
    exact hresults hbehind
termination_by tokens => tokens.length

/-- Places matter to nothing but places. -/
theorem statements_relocate (m : Relocation) (h : Closed tokens) :
    statements (tokens.map (Token.relocate m)) = (statements tokens).map (relocated m) := by
  obtain ⟨results, hresults⟩ := exists_reads h
  rw [hresults.statements_eq, (hresults.relocate m).statements_eq]

/-- Tokens that are joined behind a `;` are read one part after the other. -/
theorem statements_append (h : Ended before) (he : e.kind = .endOfInput) (hrest : Closed rest) :
    statements (before ++ rest) = statements (before ++ [e]) ++ statements rest := by
  obtain ⟨results, hresults⟩ := h.reads
  obtain ⟨more, hmore⟩ := exists_reads hrest
  rw [(hresults hmore).statements_eq, (hresults (.finish he)).statements_eq, hmore.statements_eq,
    List.append_nil]

end Parse

end NumericJit
