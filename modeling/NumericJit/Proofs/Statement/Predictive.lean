import NumericJit.Proofs.Statement.Derivations
import NumericJit.Proofs.Statement.Independence
import NumericJit.Statement.Predictive

/-!
# Reading is a run over a stack of goals

The functions that read statements have fuel and look past the last token, where they see it again.
Neither ever matters as long as some token ends the statement: what they do is a run over a stack of
goals, which is finite and always has a token in front (`Parse.follow` for expressions,
`Parse.statement_finishes` for statements).
-/

namespace NumericJit

namespace TokenCursor

def HasStop (c : TokenCursor) : Prop := ∃ t ∈ c.rest, t.IsStop

def Passed (c d : TokenCursor) : Prop := ∃ read, c.rest = read ++ d.rest ∧ Unended read

variable {c d e : TokenCursor}

theorem Passed.refl (c : TokenCursor) : c.Passed c := ⟨[], rfl, List.forall_mem_nil _⟩

theorem Passed.trans (h : c.Passed d) (h' : d.Passed e) : c.Passed e := by
  obtain ⟨read, hc, hread⟩ := h
  obtain ⟨more, hd, hmore⟩ := h'
  exact ⟨read ++ more, by rw [hc, hd, List.append_assoc],
    List.forall_mem_append.mpr ⟨hread, hmore⟩⟩

theorem Passed.suffix (h : c.Passed d) : d.rest <:+ c.rest := by
  obtain ⟨read, hrest, -⟩ := h
  exact ⟨read, hrest.symm⟩

theorem Passed.hasStop (h : c.Passed d) (hc : c.HasStop) : d.HasStop := by
  obtain ⟨read, hrest, hread⟩ := h
  obtain ⟨t, ht, hstop⟩ := hc
  rw [hrest] at ht
  exact ⟨t, (List.mem_append.mp ht).resolve_left fun hmem => hread t hmem hstop, hstop⟩

theorem HasStop.exists_cons (h : c.HasStop) :
    ∃ last t rest, c = ⟨last, t :: rest⟩ ∧ c.kind = t.kind := by
  obtain ⟨last, rest⟩ := c
  cases rest with
  | nil =>
    obtain ⟨t, ht, -⟩ := h
    cases ht
  | cons t rest => exact ⟨last, t, rest, rfl, rfl⟩

theorem HasStop.not_isEmpty (h : c.HasStop) : ¬ c.rest.isEmpty = true := by
  obtain ⟨last, t, rest, rfl, -⟩ := h.exists_cons
  exact Bool.false_ne_true

theorem HasStop.ne_nil (h : c.HasStop) : c.rest ≠ [] := by
  obtain ⟨t, ht, -⟩ := h
  exact List.ne_nil_of_mem ht

theorem HasStop.next (h : c.HasStop) (hk : c.kind = k) : c.Next k c.advance := by
  obtain ⟨last, t, rest, rfl, -⟩ := h.exists_cons
  exact ⟨⟨t, rfl, hk⟩, rfl⟩

theorem Next.passed (h : c.Next k d) (hk : k ≠ .char ';') (hk' : k ≠ .endOfInput) :
    c.Passed d := by
  obtain ⟨t, hrest, rfl⟩ := h.rest
  exact ⟨[t], hrest, List.forall_mem_singleton.mpr (not_or.mpr ⟨hk, hk'⟩)⟩

end TokenCursor

open TokenCursor (HasStop Passed)

namespace Parse

-- ---------------------------------------------------------------------------
-- Runs
-- ---------------------------------------------------------------------------

namespace Run

variable {c : TokenCursor}

theorem read_next (h : c.Next k d) (hmove : goal.move k = .read) (hrun : Run goals d ending) :
    Run (goal :: goals) c ending := by
  obtain ⟨last, t, rest, rfl, rfl, rfl⟩ := h.eq
  exact .read hmove hrun

theorem become_at (hc : c.HasStop) (hmove : goal.move c.kind = .become instead)
    (hrun : Run (instead ++ goals) c ending) : Run (goal :: goals) c ending := by
  obtain ⟨last, t, rest, rfl, hk⟩ := hc.exists_cons
  exact .become (hk ▸ hmove) hrun

theorem fail_at (hc : c.HasStop) (hmove : goal.move c.kind = .fail expected) :
    Run (goal :: goals) c (.unmet c expected) := by
  obtain ⟨last, t, rest, rfl, hk⟩ := hc.exists_cons
  exact .fail (hk ▸ hmove)

end Run

/-- What reading comes to, as the beginning of a run: with fewer than `n` tokens left, the run goes
on with other goals, or it has ended. The cursor is found in the result by `view`. -/
inductive Follows (view : α → TokenCursor) (n : Nat) (goals : List Goal) (c : TokenCursor) :
    Except Failure α → Prop where
  | ok (a : α) (hpassed : c.Passed (view a)) (hlength : (view a).rest.length < n)
    (hrun : ∀ more ending, Run more (view a) ending → Run (goals ++ more) c ending) :
    Follows view n goals c (.ok a)
  | fail (d : TokenCursor) (expected : Expectation) (hpassed : c.Passed d)
    (hrun : ∀ more, Run (goals ++ more) c (.unmet d expected)) :
    Follows view n goals c (d.fail expected)

namespace Follows

variable {view : α → TokenCursor} {view' : β → TokenCursor} {c d : TokenCursor}

theorem mono {r : Except Failure α} (h : Follows view n goals c r) (hle : n ≤ m) :
    Follows view m goals c r := by
  cases h with
  | ok a hpassed hlength hrun => exact .ok a hpassed (Nat.lt_of_lt_of_le hlength hle) hrun
  | fail d expected hpassed hrun => exact .fail d expected hpassed hrun

theorem done (a : α) (h : c.rest.length < n) : Follows Prod.snd n [] c (.ok (a, c)) :=
  .ok (a, c) (.refl c) h fun _ _ hrun => hrun

theorem bind_ok {x : Except Failure α} {k : α → Except Failure β} (hc : c.HasStop)
    (hx : Follows view m [goal] c x)
    (hk : ∀ a, x = .ok a → (view a).HasStop → (view a).rest.length < m →
      Follows view' n goals (view a) (k a)) :
    Follows view' n (goal :: goals) c (x >>= k) := by
  cases hx with
  | fail d expected hpassed hrun => exact .fail d expected hpassed fun more => hrun (goals ++ more)
  | ok a hpassed hlength hrun =>
    have hgo := hk a rfl (hpassed.hasStop hc) hlength
    change Follows view' n (goal :: goals) c (k a)
    generalize k a = r at hgo
    cases hgo with
    | fail d expected hpassed' hrun' =>
      exact .fail d expected (hpassed.trans hpassed') fun more => hrun _ _ (hrun' more)
    | ok b hpassed' hlength' hrun' =>
      exact .ok b (hpassed.trans hpassed') hlength' fun more ending h =>
        hrun _ _ (hrun' more ending h)

theorem bind {x : Except Failure α} {k : α → Except Failure β} (hc : c.HasStop)
    (hx : Follows view m [goal] c x)
    (hk : ∀ a, (view a).HasStop → (view a).rest.length < m →
      Follows view' n goals (view a) (k a)) :
    Follows view' n (goal :: goals) c (x >>= k) := .bind_ok hc hx fun a _ => hk a

theorem bind_expected {x : Except Failure TokenCursor} {k : TokenCursor → Except Failure β}
    (hc : c.HasStop) (hx : Follows id m [goal] c x)
    (hk : ∀ d, d.HasStop → d.rest.length < m → Follows view' n goals d (k d)) :
    Follows view' n (goal :: goals) c (x >>= k) := .bind hc hx hk

theorem become {r : Except Failure α} (hc : c.HasStop) (hmove : goal.move c.kind = .become instead)
    (h : Follows view n instead c r) : Follows view n [goal] c r := by
  cases h with
  | ok a hpassed hlength hrun =>
    exact .ok a hpassed hlength fun more ending h => .become_at hc hmove (hrun more ending h)
  | fail d expected hpassed hrun =>
    exact .fail d expected hpassed fun more => .become_at hc hmove (hrun more)

theorem fail_at (hc : c.HasStop) (hmove : goal.move c.kind = .fail expected) :
    Follows view n [goal] c (c.fail expected) :=
  .fail c expected (.refl c) fun _ => .fail_at hc hmove

theorem next {a : α} (h : c.Next k (view a)) (hmove : goal.move k = .read) (hk : k ≠ .char ';')
    (hk' : k ≠ .endOfInput) (hlength : c.rest.length ≤ n) : Follows view n [goal] c (.ok a) := by
  refine .ok a (h.passed hk hk') ?_ fun more ending hrun => .read_next h hmove hrun
  have := h.length
  omega

theorem read_next {r : Except Failure α} (hc : c.HasStop) (h : c.Next k d)
    (hmove : goal.move k = .read) (hk : k ≠ .char ';') (hk' : k ≠ .endOfInput)
    (hr : d.HasStop → d.rest.length < c.rest.length → Follows view n goals d r) :
    Follows view n (goal :: goals) c r := by
  have hlength := h.length
  have hgo := hr ((h.passed hk hk').hasStop hc) (by omega)
  cases hgo with
  | ok a hpassed hlength hrun =>
    exact .ok a ((h.passed hk hk').trans hpassed) hlength fun more ending hmore =>
      .read_next h hmove (hrun more ending hmore)
  | fail e expected hpassed hrun =>
    exact .fail e expected ((h.passed hk hk').trans hpassed) fun more =>
      .read_next h hmove (hrun more)

end Follows

section
variable {c : TokenCursor}

theorem char_move (ch : Char) : (Goal.char ch).move (.char ch) = .read := if_pos rfl

theorem keyword_move (word : Keyword) : (Goal.keyword word).move (.keyword word) = .read :=
  if_pos rfl

theorem follows_expectChar (hc : c.HasStop) (hch : ch ≠ ';') :
    Follows id c.rest.length [.char ch] c (c.expectChar ch) := by
  unfold TokenCursor.expectChar
  split
  · rename_i his
    have hk : c.kind = .char ch := of_decide_eq_true his
    exact .next (a := c.advance) (hc.next hk) (char_move ch) (by simpa using hch) nofun
      (Nat.le_refl _)
  · rename_i his
    exact .fail_at hc (if_neg fun hk => his (decide_eq_true hk))

theorem follows_expectKeyword (hc : c.HasStop) (word : Keyword) :
    Follows id c.rest.length [.keyword word] c (c.expectKeyword word) := by
  unfold TokenCursor.expectKeyword
  split
  · rename_i hk
    exact .next (a := c.advance) (hc.next hk) (keyword_move word) nofun nofun (Nat.le_refl _)
  · rename_i hk
    exact .fail_at hc (if_neg hk)

theorem follows_expectIdentifier (hc : c.HasStop) (expected : Expectation) :
    Follows Prod.snd c.rest.length [.identifier expected] c (c.expectIdentifier expected) := by
  unfold TokenCursor.expectIdentifier
  cases hk : c.kind with
  | identifier name =>
    exact .next (a := (name, c.advance)) (hc.next hk) rfl nofun nofun
      (Nat.le_refl _)
  | _ => exact .fail_at hc (by rw [hk]; rfl)

end

-- ---------------------------------------------------------------------------
-- Expressions
-- ---------------------------------------------------------------------------

/-- What the functions that read expressions do with some fuel, as runs. The bounds on the fuel are
those that their calls of each other keep. -/
structure Follow (fuel : Nat) : Prop where
  expression : ∀ {c : TokenCursor}, c.HasStop → 3 * c.rest.length ≤ fuel + 1 →
    Follows Prod.snd c.rest.length [.expression] c (expressionWith fuel c)
  operators : ∀ {least lhs} {c : TokenCursor}, c.HasStop → 3 * c.rest.length ≤ fuel + 2 →
    Follows Prod.snd (c.rest.length + 1) [.operators least] c (operators fuel least lhs c)
  primary : ∀ {c : TokenCursor}, c.HasStop → 3 * c.rest.length ≤ fuel + 2 →
    Follows Prod.snd c.rest.length [.primary] c (primary fuel c)
  arguments : ∀ {c : TokenCursor}, c.HasStop → 3 * c.rest.length ≤ fuel →
    Follows Prod.snd c.rest.length [.argumentList] c (arguments fuel c)
  bindings : ∀ {c : TokenCursor}, c.HasStop → 3 * c.rest.length ≤ fuel + 2 →
    Follows Prod.snd c.rest.length [.bindings] c (bindings fuel c)

theorem arguments_close (h : arguments fuel c = .ok (args, c')) : c'.kind = .char ')' := by
  induction fuel generalizing c args with
  | zero => cases h
  | succ fuel ih =>
    rw [arguments] at h
    obtain ⟨⟨e, c₁⟩, -, h⟩ := bind_ok.mp h
    dsimp only at h
    split at h
    · rename_i hclose
      cases h
      exact of_decide_eq_true hclose
    · obtain ⟨c₂, -, h⟩ := bind_ok.mp h
      obtain ⟨⟨es, c₃⟩, hrest, h⟩ := bind_ok.mp h
      cases h
      exact ih hrest

theorem argumentsOf_close (h : argumentsOf fuel c = .ok (args, c')) : c'.kind = .char ')' := by
  unfold argumentsOf at h
  split at h
  · rename_i hclose
    cases h
    exact of_decide_eq_true hclose
  · exact arguments_close h

namespace Follow

variable {fuel : Nat} {c : TokenCursor}

theorem expression_succ (ih : Follow fuel) (hc : c.HasStop) (h : 3 * c.rest.length ≤ fuel + 2) :
    Follows Prod.snd c.rest.length [.expression] c (expressionWith (fuel + 1) c) := by
  rw [expressionWith]
  refine .become hc rfl (.bind hc (ih.primary hc h) fun r hr hlt => ?_)
  exact (ih.operators hr (by omega)).mono hlt

theorem operand_move (level : Nat) (c : TokenCursor) :
    (Goal.operand level).move c.kind =
      .become ((c.operator?.bind (innerLeast level)).elim [] fun least => [.operators least]) := by
  rw [show c.operator? = c.kind.operator? from rfl, Goal.move]
  cases c.kind.operator? with
  | none => rfl
  | some next =>
    simp only [Option.bind_some, innerLeast]
    split
    · rfl
    · split <;> rfl

theorem operand {first : Expr} (ih : Follow fuel) (hc : c.HasStop)
    (h : 3 * c.rest.length ≤ fuel + 2) :
    Follows Prod.snd (c.rest.length + 1) [.operand level] c (Parse.operand fuel level first c) := by
  refine .become hc (operand_move level c) ?_
  unfold Parse.operand
  cases c.operator?.bind (innerLeast level) with
  | none => exact .done first (Nat.lt_succ_self _)
  | some least => exact ih.operators hc h

theorem operators_move_none (h : c.operator? = none) :
    (Goal.operators least).move c.kind = .become [] := by
  change c.kind.operator? = none at h
  rw [Goal.move, h]

theorem operators_move_some (least : Nat) (h : c.operator? = some (op, level)) :
    (Goal.operators least).move c.kind =
      if level < least then .become []
      else .become [.char op, .primary, .operand level, .operators least] := by
  change c.kind.operator? = some (op, level) at h
  rw [Goal.move, h]

theorem operators_succ (ih : Follow fuel) (hc : c.HasStop) (h : 3 * c.rest.length ≤ fuel + 3) :
    Follows Prod.snd (c.rest.length + 1) [.operators least] c
      (Parse.operators (fuel + 1) least lhs c) := by
  cases hop : c.operator? with
  | none =>
    rw [Parse.operators, hop]
    exact .become hc (operators_move_none hop) (.done lhs (Nat.lt_succ_self _))
  | some found =>
    obtain ⟨op, level⟩ := found
    have hmove := operators_move_some least hop
    by_cases hlevel : level < least
    · rw [Parse.operators, hop]
      dsimp only
      rw [if_pos hlevel] at hmove ⊢
      exact .become hc hmove (.done lhs (Nat.lt_succ_self _))
    · rw [if_neg hlevel] at hmove
      rw [operators_of_operator? hop (Nat.not_lt.mp hlevel)]
      obtain ⟨hk, hne⟩ := kind_of_operator? hop
      refine .become hc hmove (.read_next hc (hc.next hk) (char_move op) (by simpa using hne)
        nofun fun hc₁ hlt₁ => ?_)
      refine .bind hc₁ (ih.primary hc₁ (by omega)) fun first hc₂ hlt₂ => ?_
      refine .bind hc₂ (ih.operand hc₂ (by omega)) fun rhs hc₃ hlt₃ => ?_
      exact (ih.operators hc₃ (by omega)).mono (by omega)

theorem optional (ih : Follow fuel) (hch : ch ≠ ';') (hc : c.HasStop)
    (h : 3 * c.rest.length ≤ fuel + 2) :
    Follows Prod.snd (c.rest.length + 1) [.optional ch] c (Parse.optional fuel ch c) := by
  unfold Parse.optional
  split
  · rename_i his
    have hk : c.kind = .char ch := of_decide_eq_true his
    refine .become hc (if_pos hk) (.read_next hc (hc.next hk) (char_move ch) (by simpa using hch)
      nofun fun hc₁ hlt₁ => ?_)
    refine .bind hc₁ (ih.expression hc₁ (by omega)) fun r hc₂ hlt₂ => ?_
    exact .done (some r.1) (by omega)
  · rename_i his
    refine .become hc (if_neg fun hk => his (decide_eq_true hk)) ?_
    exact .done none (Nat.lt_succ_self _)

theorem argumentsOf (ih : Follow fuel) (hc : c.HasStop) (h : 3 * c.rest.length ≤ fuel) :
    Follows Prod.snd (c.rest.length + 1) [.arguments] c (Parse.argumentsOf fuel c) := by
  unfold Parse.argumentsOf
  split
  · rename_i hclose
    refine .become hc (if_pos (of_decide_eq_true hclose)) ?_
    exact .done [] (Nat.lt_succ_self _)
  · rename_i hclose
    refine .become hc (if_neg fun hk => hclose (decide_eq_true hk)) ?_
    exact (ih.arguments hc h).mono (Nat.le_succ _)

theorem arguments_succ (ih : Follow fuel) (hc : c.HasStop) (h : 3 * c.rest.length ≤ fuel + 1) :
    Follows Prod.snd c.rest.length [.argumentList] c (Parse.arguments (fuel + 1) c) := by
  rw [Parse.arguments]
  refine .become hc rfl (.bind hc (ih.expression hc h) fun e hc₁ hlt₁ => ?_)
  dsimp only
  split
  · rename_i hclose
    refine .become hc₁ (if_pos (of_decide_eq_true hclose)) ?_
    exact .done [e.1] hlt₁
  · rename_i hclose
    refine .become hc₁ (if_neg fun hk => hclose (decide_eq_true hk)) ?_
    refine .bind_expected hc₁ (follows_expectChar hc₁ (by decide)) fun c₂ hc₂ hlt₂ => ?_
    refine .bind hc₂ (ih.arguments hc₂ (by omega)) fun es hc₃ hlt₃ => ?_
    exact .done (e.1 :: es.1) (by omega)

theorem bindings_succ (ih : Follow fuel) (hc : c.HasStop) (h : 3 * c.rest.length ≤ fuel + 3) :
    Follows Prod.snd c.rest.length [.bindings] c (Parse.bindings (fuel + 1) c) := by
  rw [Parse.bindings_succ]
  refine .become hc rfl (.bind hc (follows_expectIdentifier hc _) fun name hc₁ hlt₁ => ?_)
  refine .bind hc₁ (ih.optional (by decide) hc₁ (by omega)) fun value hc₂ hlt₂ => ?_
  dsimp only
  split
  · rename_i hcomma
    have hk : value.2.kind = .char ',' := of_decide_eq_true hcomma
    refine .become hc₂ (if_pos hk) (.read_next hc₂ (hc₂.next hk) (char_move ',') (by decide) nofun
      fun hc₃ hlt₃ => ?_)
    refine .bind hc₃ (ih.bindings hc₃ (by omega)) fun others hc₄ hlt₄ => ?_
    exact .done ((name.1, value.1) :: others.1) (by omega)
  · rename_i hcomma
    refine .become hc₂ (if_neg fun hk => hcomma (decide_eq_true hk)) ?_
    exact .done [(name.1, value.1)] (by omega)

theorem identifier (ih : Follow fuel) (hc : c.HasStop) (hk : c.kind = .identifier name)
    (h : 3 * c.rest.length ≤ fuel + 3) :
    Follows Prod.snd c.rest.length [.primary] c (Parse.primary (fuel + 1) c) := by
  have hnext := hc.next hk
  have hmove : Goal.primary.move c.kind = .become [.identifier .expression, .call] := by
    rw [hk]
    rfl
  refine .become hc hmove (.read_next hc hnext rfl nofun nofun fun hc₁ hlt₁ => ?_)
  by_cases hopen : c.advance.kind = .char '('
  · rw [primary_call hnext (decide_eq_true hopen)]
    refine .become hc₁ (if_pos hopen) (.read_next hc₁ (hc₁.next hopen) (char_move '(') (by decide)
      nofun fun hc₂ hlt₂ => ?_)
    -- the arguments stop at the closing parenthesis, which is then passed without another look
    refine .bind_ok hc₂ (ih.argumentsOf hc₂ (by omega)) fun args hargs hc₃ hlt₃ => ?_
    exact .next (hc₃.next (argumentsOf_close hargs)) (char_move ')') (by decide) nofun (by omega)
  · rw [Parse.primary, if_neg hc.not_isEmpty, hk]
    dsimp only
    rw [TokenCursor.isChar_eq_false hopen]
    exact .become hc₁ (if_neg hopen) (.done _ hlt₁)

theorem branch (ih : Follow fuel) (hc : c.HasStop) (hk : c.kind = .keyword .ifWord)
    (h : 3 * c.rest.length ≤ fuel + 3) :
    Follows Prod.snd c.rest.length [.primary] c (Parse.primary (fuel + 1) c) := by
  rw [Parse.primary, if_neg hc.not_isEmpty, hk]
  refine .become hc (by rw [hk]; rfl) (.read_next hc (hc.next hk) (keyword_move _) nofun nofun
    fun hc₁ hlt₁ => ?_)
  refine .bind hc₁ (ih.expression hc₁ (by omega)) fun condition hc₂ hlt₂ => ?_
  refine .bind_expected hc₂ (follows_expectKeyword hc₂ _) fun c₃ hc₃ hlt₃ => ?_
  refine .bind hc₃ (ih.expression hc₃ (by omega)) fun yes hc₄ hlt₄ => ?_
  refine .bind_expected hc₄ (follows_expectKeyword hc₄ _) fun c₅ hc₅ hlt₅ => ?_
  refine .bind hc₅ (ih.expression hc₅ (by omega)) fun no hc₆ hlt₆ => ?_
  exact .done _ (by omega)

theorem loop (ih : Follow fuel) (hc : c.HasStop) (hk : c.kind = .keyword .forWord)
    (h : 3 * c.rest.length ≤ fuel + 3) :
    Follows Prod.snd c.rest.length [.primary] c (Parse.primary (fuel + 1) c) := by
  rw [primary_loop (hc.next hk)]
  refine .become hc (by rw [hk]; rfl) (.read_next hc (hc.next hk) (keyword_move _) nofun nofun
    fun hc₁ hlt₁ => ?_)
  refine .bind hc₁ (follows_expectIdentifier hc₁ _) fun counter hc₂ hlt₂ => ?_
  refine .bind_expected hc₂ (follows_expectChar hc₂ (by decide)) fun c₃ hc₃ hlt₃ => ?_
  refine .bind hc₃ (ih.expression hc₃ (by omega)) fun start hc₄ hlt₄ => ?_
  refine .bind_expected hc₄ (follows_expectChar hc₄ (by decide)) fun c₅ hc₅ hlt₅ => ?_
  refine .bind hc₅ (ih.expression hc₅ (by omega)) fun stop hc₆ hlt₆ => ?_
  refine .bind hc₆ (ih.optional (by decide) hc₆ (by omega)) fun step hc₇ hlt₇ => ?_
  refine .bind_expected hc₇ (follows_expectKeyword hc₇ _) fun c₈ hc₈ hlt₈ => ?_
  refine .bind hc₈ (ih.expression hc₈ (by omega)) fun body hc₉ hlt₉ => ?_
  exact .done _ (by omega)

theorem locals (ih : Follow fuel) (hc : c.HasStop) (hk : c.kind = .keyword .varWord)
    (h : 3 * c.rest.length ≤ fuel + 3) :
    Follows Prod.snd c.rest.length [.primary] c (Parse.primary (fuel + 1) c) := by
  rw [Parse.primary, if_neg hc.not_isEmpty, hk]
  refine .become hc (by rw [hk]; rfl) (.read_next hc (hc.next hk) (keyword_move _) nofun nofun
    fun hc₁ hlt₁ => ?_)
  refine .bind hc₁ (ih.bindings hc₁ (by omega)) fun bound hc₂ hlt₂ => ?_
  refine .bind_expected hc₂ (follows_expectKeyword hc₂ _) fun c₃ hc₃ hlt₃ => ?_
  refine .bind hc₃ (ih.expression hc₃ (by omega)) fun body hc₄ hlt₄ => ?_
  exact .done _ (by omega)

theorem parens (ih : Follow fuel) (hc : c.HasStop) (hk : c.kind = .char '(')
    (h : 3 * c.rest.length ≤ fuel + 3) :
    Follows Prod.snd c.rest.length [.primary] c (Parse.primary (fuel + 1) c) := by
  rw [Parse.primary, if_neg hc.not_isEmpty, hk]
  refine .become hc (by rw [hk]; rfl) (.read_next hc (hc.next hk) (char_move '(') (by decide) nofun
    fun hc₁ hlt₁ => ?_)
  refine .bind hc₁ (ih.expression hc₁ (by omega)) fun e hc₂ hlt₂ => ?_
  refine .bind_expected hc₂ (follows_expectChar hc₂ (by decide)) fun c₃ hc₃ hlt₃ => ?_
  exact .done _ (by omega)

theorem primary_succ (ih : Follow fuel) (hc : c.HasStop) (h : 3 * c.rest.length ≤ fuel + 3) :
    Follows Prod.snd c.rest.length [.primary] c (Parse.primary (fuel + 1) c) := by
  cases hk : c.kind with
  | number value =>
    rw [Parse.primary, if_neg hc.not_isEmpty, hk]
    exact .next (hc.next hk) rfl nofun nofun (Nat.le_refl _)
  | identifier name => exact ih.identifier hc hk h
  | char ch =>
    by_cases hch : ch = '('
    · exact ih.parens hc (hch ▸ hk) h
    · rw [primary_fail (.inr ⟨ch, hk, hch⟩)]
      refine .fail_at hc ?_
      rw [hk]
      unfold Goal.move
      split <;> simp_all
  | keyword word =>
    cases word with
    | ifWord => exact ih.branch hc hk h
    | forWord => exact ih.loop hc hk h
    | varWord => exact ih.locals hc hk h
    | _ =>
      rw [Parse.primary, if_neg hc.not_isEmpty, hk]
      exact .fail_at hc (by rw [hk]; rfl)
  | endOfInput =>
    rw [primary_fail (.inl hk)]
    exact .fail_at hc (by rw [hk]; rfl)

end Follow

theorem follow (fuel : Nat) : Follow fuel := by
  induction fuel with
  | zero =>
    -- some token is in front, so the bounds ask for fuel
    have hnone : ∀ {c : TokenCursor}, c.HasStop → ¬ 3 * c.rest.length ≤ 2 := by
      intro c hc
      obtain ⟨last, t, rest, rfl, -⟩ := hc.exists_cons
      simp only [List.length_cons]
      omega
    refine ⟨fun hc h => ?_, fun hc h => ?_, fun hc h => ?_, fun hc h => ?_, fun hc h => ?_⟩ <;>
      exact absurd (by omega) (hnone hc)
  | succ fuel ih =>
    exact ⟨ih.expression_succ, ih.operators_succ, ih.primary_succ, ih.arguments_succ,
      ih.bindings_succ⟩

-- ---------------------------------------------------------------------------
-- Statements
-- ---------------------------------------------------------------------------

section
variable {c : TokenCursor}

theorem follows_expression (hc : c.HasStop) :
    Follows Prod.snd c.rest.length [.expression] c (expression c) :=
  (follow _).expression hc (by unfold fuelFor; omega)

theorem follows_parameters (function : String) {last : Option Token} {rest : List Token}
    (hc : HasStop ⟨last, rest⟩) :
    Follows Prod.snd rest.length [.parameters function] ⟨last, rest⟩
      (parameters function last rest) := by
  induction rest generalizing last with
  | nil => exact absurd rfl hc.not_isEmpty
  | cons t rest ih =>
    rw [parameters]
    split
    · rename_i name hk
      refine .become hc (congrArg (Goal.parameters function).move hk)
        (.read_next hc (hc.next hk) rfl (by simp) (by simp) fun hc₁ _ => ?_)
      exact .bind hc₁ (ih hc₁) fun names _ hlt => .done _ (Nat.lt_succ_of_lt hlt)
    · rename_i hk
      refine .become hc (congrArg (Goal.parameters function).move hk)
        (.read_next hc (hc.next hk) (char_move ',') (by decide) (by simp) fun hc₁ _ => ?_)
      exact (ih hc₁).mono (Nat.le_succ _)
    · rename_i hk
      exact .next (hc.next hk) rfl (by decide) (by simp) (Nat.le_refl _)
    · rename_i hname hcomma hclose
      refine .fail_at hc ?_
      change (Goal.parameters function).move t.kind = _
      unfold Goal.move
      split <;> simp_all

theorem follows_prototype (hc : c.HasStop) :
    Follows Prod.snd c.rest.length [.prototype] c (prototype c) := by
  unfold prototype TokenCursor.expectIdentifier
  cases hk : c.kind with
  | identifier name =>
    refine .become hc (by rw [hk]; rfl) (.read_next hc (hc.next hk) rfl nofun nofun
      fun hc₁ hlt₁ => ?_)
    refine .bind_expected hc₁ (follows_expectChar hc₁ (by decide)) fun c₂ hc₂ hlt₂ => ?_
    refine .bind hc₂ (follows_parameters name hc₂) fun params hc₃ hlt₃ => ?_
    exact .done _ (by omega)
  | _ => exact .fail_at hc (by rw [hk]; rfl)

theorem follows_statementBody (hc : c.HasStop) :
    Follows Prod.snd c.rest.length [.statementBody] c (statementBody c) := by
  unfold statementBody
  split
  · rename_i hk
    refine .become hc (by rw [hk]; rfl) (.read_next hc (hc.next hk) (keyword_move _) nofun nofun
      fun hc₁ hlt₁ => ?_)
    refine .bind hc₁ (follows_prototype hc₁) fun proto hc₂ hlt₂ => ?_
    refine .bind hc₂ (follows_expression hc₂) fun body hc₃ hlt₃ => ?_
    exact .done _ (by omega)
  · rename_i hk
    refine .become hc (by rw [hk]; rfl) (.read_next hc (hc.next hk) (keyword_move _) nofun nofun
      fun hc₁ hlt₁ => ?_)
    refine .bind hc₁ (follows_prototype hc₁) fun proto hc₂ hlt₂ => ?_
    exact .done _ (by omega)
  · rename_i hdef hword
    have hmove : Goal.statementBody.move c.kind = .become [.expression] := by
      unfold Goal.move
      split <;> simp_all
    refine .become hc hmove (.bind hc (follows_expression hc) fun e hc₁ hlt₁ => ?_)
    exact .done _ hlt₁

/-- What reading a statement comes to, with the run that leads there: it is read up to a `;` or to
the end of the input, or no further than some token before them. -/
inductive Finishes (c : TokenCursor) : Except Failure (Statement × TokenCursor) → Prop where
  | semicolon (s : Statement) (d : TokenCursor) (hpassed : c.Passed d) (hk : d.kind = .char ';')
    (hrun : Run [.statement] c (.met d.advance)) : Finishes c (.ok (s, d.advance))
  | input (s : Statement) (d : TokenCursor) (hpassed : c.Passed d) (hk : d.kind = .endOfInput)
    (hrun : Run [.statement] c (.met d)) : Finishes c (.ok (s, d))
  | fail (d : TokenCursor) (expected : Expectation) (hpassed : c.Passed d)
    (hrun : Run [.statement] c (.unmet d expected)) : Finishes c (d.fail expected)

theorem statement_finishes (hc : c.HasStop) : Finishes c (statement c) := by
  have hbody := follows_statementBody hc
  have hmove : Goal.statement.move c.kind = .become [.statementBody, .statementEnd] := rfl
  unfold statement
  cases hread : statementBody c with
  | error f =>
    rw [hread] at hbody
    cases hbody with
    | fail d expected hpassed hrun =>
      exact .fail d expected hpassed (.become_at hc hmove (hrun _))
  | ok r =>
    obtain ⟨s, d⟩ := r
    rw [hread] at hbody
    cases hbody with
    | ok _ hpassed _ hrun =>
      have hd := hpassed.hasStop hc
      -- once the body is read, the end of the statement is the only goal left
      have hend : ∀ {ending}, Run [.statementEnd] d ending → Run [.statement] c ending :=
        fun h => .become_at hc hmove (hrun [.statementEnd] _ h)
      change Finishes c
        (if d.isChar ';' then .ok (s, d.advance)
        else if d.kind = .endOfInput then .ok (s, d) else d.fail .statementEnd)
      split
      · rename_i hchar
        have hk : d.kind = .char ';' := of_decide_eq_true hchar
        exact .semicolon s d hpassed hk (hend (.read_next (hd.next hk) rfl .done))
      split
      · rename_i hk
        have hmove' := congrArg Goal.statementEnd.move hk
        exact .input s d hpassed hk (hend (.become_at hd hmove' .done))
      · rename_i hchar hk
        have hfail : Goal.statementEnd.move d.kind = .fail .statementEnd := by
          have hchar : d.kind ≠ .char ';' := fun h => hchar (decide_eq_true h)
          unfold Goal.move
          split <;> simp_all
        exact .fail d .statementEnd hpassed (hend (.fail_at hd hfail))

end

end Parse
end NumericJit
