import NumericJit.Proofs.Statement.Acceptance
import NumericJit.Proofs.Statement.Printing

/-!
# Texts of statements read back

The text of a statement that can be written is read as that statement, but for the places. What was
read from a text can be written unless one of its literals is infinite, so it reads back as well.
-/

namespace NumericJit

namespace Parse

open TokenCursor

-- ---------------------------------------------------------------------------
-- Reading what was written
-- ---------------------------------------------------------------------------

section
variable {c c' : TokenCursor}

/-- An expression is read up to certain tokens, and it is the given one but for its places. -/
def ReadsBack (reads : TokenCursor → Expr → TokenCursor → Prop) (c : TokenCursor) (e : Expr)
    (ks : List TokenKind) : Prop :=
  ∃ e' c', reads c e' c' ∧ e'.relocate .erase = e.relocate .erase ∧ c'.kinds = ks

theorem ReadsPrimary.alone (h : ReadsPrimary c e c') (hk : EndsExpression k)
    (hc' : c'.kinds = k :: ks) : ReadsExpression c e c' := by
  refine .mk h (.none ?_)
  rw [operator?_eq_none hk hc']
  exact nofun

theorem ReadsBack.expression (h : ReadsBack ReadsPrimary c e (k :: ks)) (hk : EndsExpression k) :
    ReadsBack ReadsExpression c e (k :: ks) := by
  obtain ⟨e', c', hread, hsame, hc'⟩ := h
  exact ⟨e', c', hread.alone hk hc', hsame, hc'⟩

theorem precedence?_of_mem (h : binaryOperators.contains op = true) :
    op ≠ '(' ∧ ∃ level, precedence? op = some level := by
  have hmem := List.contains_iff_mem.mp h
  refine ⟨?_, Option.isSome_iff_exists.mp (mem_binaryOperators.mp hmem)⟩
  rintro rfl
  exact absurd hmem (by decide)

theorem reads_binary (hop : binaryOperators.contains op = true) (hopen : c.Next (.char '(') c₁)
    (hlhs : ReadsPrimary c₁ lhs c₂) (hnext : c₂.Next (.char op) c₃) (hrhs : ReadsPrimary c₃ rhs c₄)
    (hclose : c₄.Next (.char ')') c₅) :
    ReadsPrimary c (.binary op lhs rhs (lhs.span.to rhs.span)) c₅ := by
  obtain ⟨-, level, hlevel⟩ := precedence?_of_mem hop
  have hfound : c₂.operator? = some (op, level) := operator?_of_kinds hlevel hnext.kinds
  have hnone : c₄.operator? = none := operator?_eq_none endsExpression_close hclose.kinds
  refine .parens hopen
    (.mk hlhs (.more hfound (Nat.zero_le _) hnext hrhs (.alone ?_) (.none ?_))) hclose
  · rw [hnone]
    rfl
  · rw [hnone]
    exact nofun

theorem bindingPasses_eq (t : Expr.Test) (name : String) (value : Option Expr) :
    Expr.bindingPasses t (name, value) = (t.name name && Expr.stepPasses t value) := by
  cases value with
  | none => exact (Bool.and_true _).symm
  | some e => rfl

theorem relocateBinding_eq (h : Expr.relocateStep m value = Expr.relocateStep m value') :
    Expr.relocateBinding m (name, value) = Expr.relocateBinding m (name, value') := by
  have hpair : ∀ value,
      Expr.relocateBinding m (name, value) = (name, Expr.relocateStep m value) := by
    rintro (_ | e) <;> rfl
  rw [hpair, hpair, h]

theorem exists_optionTokens (value : Option Expr) (ks : List TokenKind)
    (hch : EndsExpression (.char ch)) (hk : EndsExpression k) :
    ∃ k' ks', Expr.optionTokens ch value (k :: ks) = k' :: ks' ∧ EndsExpression k' := by
  cases value with
  | none => exact ⟨k, ks, rfl, hk⟩
  | some e => exact ⟨_, _, rfl, hch⟩

end

mutual
theorem readsBack : ∀ (e : Expr) {c k ks}, e.passes .writable = true →
    TokenCursor.kinds c = e.tokens (k :: ks) → k ≠ .char '(' → ReadsBack ReadsPrimary c e (k :: ks)
  | .number value _, c, k, ks, he, hc, hk => by
    obtain ⟨hnext, hc₁⟩ := next_of_kinds hc
    exact ⟨_, _, .number hnext, rfl, hc₁⟩
  | .variable name _, c, k, ks, he, hc, hk => by
    obtain ⟨hnext, hc₁⟩ := next_of_kinds hc
    exact ⟨_, _, .variable hnext (by rwa [kind_of_kinds hc₁]), rfl, hc₁⟩
  | .binary op lhs rhs _, c, k, ks, he, hc, hk => by
    simp only [Expr.passes, Bool.and_eq_true] at he
    obtain ⟨⟨hop, hlhs⟩, hrhs⟩ := he
    obtain ⟨hne, -⟩ := precedence?_of_mem hop
    obtain ⟨hopen, hc₁⟩ := next_of_kinds hc
    obtain ⟨lhs', c₂, hlhs, hsame, hc₂⟩ :=
      readsBack lhs hlhs hc₁ (fun h => hne (TokenKind.char.inj h))
    obtain ⟨hnext, hc₃⟩ := next_of_kinds hc₂
    obtain ⟨rhs', c₄, hrhs, hsame', hc₄⟩ := readsBack rhs hrhs hc₃ (by decide)
    obtain ⟨hclose, hc₅⟩ := next_of_kinds hc₄
    refine ⟨_, _, reads_binary hop hopen hlhs hnext hrhs hclose, ?_, hc₅⟩
    rw [Expr.relocate, Expr.relocate, hsame, hsame']
    rfl
  | .call callee args _, c, k, ks, he, hc, hk => by
    simp only [Expr.passes, Bool.and_eq_true] at he
    obtain ⟨-, hargs⟩ := he
    obtain ⟨hname, hc₁⟩ := next_of_kinds hc
    obtain ⟨hopen, hc₂⟩ := next_of_kinds hc₁
    obtain ⟨args', c₃, hargs, hsame, hc₃⟩ : ∃ args' c₃, ReadsArguments _ args' c₃ ∧
        Expr.relocateArgs .erase args' = Expr.relocateArgs .erase args ∧
        c₃.kinds = .char ')' :: k :: ks := by
      by_cases hne : args = []
      · subst hne
        exact ⟨[], _, .none (kind_of_kinds hc₂), rfl, hc₂⟩
      · obtain ⟨args', c₃, hread, hsame, hc₃⟩ := readsBack_args args hargs hne hc₂
        exact ⟨args', c₃, .some hread, hsame, hc₃⟩
    obtain ⟨hclose, hc₄⟩ := next_of_kinds hc₃
    refine ⟨_, _, .call hname hopen hargs hclose, ?_, hc₄⟩
    rw [Expr.relocate, Expr.relocate, hsame]
    rfl
  | .branch condition yes no _, c, k, ks, he, hc, hk => by
    simp only [Expr.passes, Bool.and_eq_true] at he
    obtain ⟨⟨hcondition, hyes⟩, hno⟩ := he
    obtain ⟨hopen, hc₁⟩ := next_of_kinds hc
    obtain ⟨hif, hc₂⟩ := next_of_kinds hc₁
    obtain ⟨condition', c₃, hcondition, hsame, hc₃⟩ :=
      (readsBack condition hcondition hc₂ nofun).expression (endsExpression_keyword _)
    obtain ⟨hthen, hc₄⟩ := next_of_kinds hc₃
    obtain ⟨yes', c₅, hyes, hsame', hc₅⟩ :=
      (readsBack yes hyes hc₄ nofun).expression (endsExpression_keyword _)
    obtain ⟨helse, hc₆⟩ := next_of_kinds hc₅
    obtain ⟨no', c₇, hno, hsame'', hc₇⟩ :=
      (readsBack no hno hc₆ (by decide)).expression endsExpression_close
    obtain ⟨hclose, hc₈⟩ := next_of_kinds hc₇
    have hbranch := ReadsPrimary.branch hif hcondition hthen hyes helse hno
    refine ⟨_, _, .parens hopen (hbranch.alone endsExpression_close hc₇) hclose, ?_, hc₈⟩
    rw [Expr.relocate, Expr.relocate, hsame, hsame', hsame'']
    rfl
  | .loop counter start stop step body _, c, k, ks, he, hc, hk => by
    simp only [Expr.passes, Bool.and_eq_true] at he
    obtain ⟨⟨⟨⟨-, hstart⟩, hstop⟩, hstep⟩, hbody⟩ := he
    obtain ⟨hopen, hc₁⟩ := next_of_kinds hc
    obtain ⟨hfor, hc₂⟩ := next_of_kinds hc₁
    obtain ⟨hname, hc₃⟩ := next_of_kinds hc₂
    obtain ⟨heq, hc₄⟩ := next_of_kinds hc₃
    obtain ⟨start', c₅, hstart, hsame, hc₅⟩ :=
      (readsBack start hstart hc₄ (by decide)).expression endsExpression_comma
    obtain ⟨hcomma, hc₆⟩ := next_of_kinds hc₅
    obtain ⟨k', ks', hk', hends⟩ := exists_optionTokens step
      (body.tokens (.char ')' :: k :: ks)) endsExpression_comma (endsExpression_keyword .inWord)
    rw [hk'] at hc₆
    obtain ⟨stop', c₇, hstop, hsame₁, hc₇⟩ := (readsBack stop hstop hc₆ hends.1).expression hends
    rw [← hk'] at hc₇
    obtain ⟨step', c₈, hstep, hsame₂, hc₈⟩ :=
      readsBack_option step hstep hc₇ (endsExpression_keyword _) nofun
    obtain ⟨hin, hc₉⟩ := next_of_kinds hc₈
    obtain ⟨body', c₁₀, hbody, hsame₃, hc₁₀⟩ :=
      (readsBack body hbody hc₉ (by decide)).expression endsExpression_close
    obtain ⟨hclose, hc₁₁⟩ := next_of_kinds hc₁₀
    have hloop := ReadsPrimary.loop hfor hname heq hstart hcomma hstop hstep hin hbody
    refine ⟨_, _, .parens hopen (hloop.alone endsExpression_close hc₁₀) hclose, ?_, hc₁₁⟩
    rw [Expr.relocate, Expr.relocate, hsame, hsame₁, hsame₂, hsame₃]
    rfl
  | .locals bindings body _, c, k, ks, he, hc, hk => by
    simp only [Expr.passes, Bool.and_eq_true] at he
    obtain ⟨⟨hcount, hbindings⟩, hbody⟩ := he
    obtain ⟨hopen, hc₁⟩ := next_of_kinds hc
    obtain ⟨hvar, hc₂⟩ := next_of_kinds hc₁
    obtain ⟨bindings', c₃, hbindings, hsame, hc₃⟩ :=
      readsBack_bindings bindings hbindings (by rintro rfl; cases hcount) hc₂
    obtain ⟨hin, hc₄⟩ := next_of_kinds hc₃
    obtain ⟨body', c₅, hbody, hsame', hc₅⟩ :=
      (readsBack body hbody hc₄ (by decide)).expression endsExpression_close
    obtain ⟨hclose, hc₆⟩ := next_of_kinds hc₅
    have hlocals := ReadsPrimary.locals hvar hbindings hin hbody
    refine ⟨_, _, .parens hopen (hlocals.alone endsExpression_close hc₅) hclose, ?_, hc₆⟩
    rw [Expr.relocate, Expr.relocate, hsame, hsame']
    rfl

theorem readsBack_args : ∀ (args : List Expr) {c ks}, Expr.argsPass .writable args = true →
    args ≠ [] → TokenCursor.kinds c = Expr.argsTokens args (.char ')' :: ks) →
    ∃ args' c', ReadsArgumentList c args' c' ∧
      Expr.relocateArgs .erase args' = Expr.relocateArgs .erase args ∧ c'.kinds = .char ')' :: ks
  | [], c, ks, hargs, hne, hc => absurd rfl hne
  | [e], c, ks, hargs, hne, hc => by
    simp only [Expr.argsPass, Bool.and_true] at hargs
    obtain ⟨e', c₁, he, hsame, hc₁⟩ :=
      (readsBack e hargs hc (by decide)).expression endsExpression_close
    exact ⟨[e'], c₁, .last he (kind_of_kinds hc₁), List.cons_eq_cons.mpr ⟨hsame, rfl⟩, hc₁⟩
  | e :: e₁ :: es, c, ks, hargs, hne, hc => by
    rw [Expr.argsPass, Bool.and_eq_true] at hargs
    obtain ⟨e', c₁, he, hsame, hc₁⟩ :=
      (readsBack e hargs.1 hc (by decide)).expression endsExpression_comma
    obtain ⟨hcomma, hc₂⟩ := next_of_kinds hc₁
    obtain ⟨es', c₃, hes, hsame', hc₃⟩ := readsBack_args (e₁ :: es) hargs.2 nofun hc₂
    exact ⟨e' :: es', c₃, .more he hcomma hes, List.cons_eq_cons.mpr ⟨hsame, hsame'⟩, hc₃⟩

theorem readsBack_option : ∀ (value : Option Expr) {ch c k ks},
    Expr.stepPasses .writable value = true →
    TokenCursor.kinds c = Expr.optionTokens ch value (k :: ks) → EndsExpression k → k ≠ .char ch →
    ∃ value' c', ReadsOptional ch c value' c' ∧
      Expr.relocateStep .erase value' = Expr.relocateStep .erase value ∧ c'.kinds = k :: ks
  | none, ch, c, k, ks, hvalue, hc, hk, hne => ⟨none, c, .none (by rwa [kind_of_kinds hc]), rfl, hc⟩
  | some e, ch, c, k, ks, hvalue, hc, hk, hne => by
    obtain ⟨hnext, hc₁⟩ := next_of_kinds hc
    obtain ⟨e', c₂, he, hsame, hc₂⟩ := (readsBack e hvalue hc₁ hk.1).expression hk
    exact ⟨some e', c₂, .some hnext he, congrArg some hsame, hc₂⟩

theorem readsBack_bindings : ∀ (bindings : List (String × Option Expr)) {c ks},
    Expr.bindingsPass .writable bindings = true → bindings ≠ [] →
    TokenCursor.kinds c = Expr.bindingsTokens bindings (.keyword .inWord :: ks) →
    ∃ bindings' c', ReadsBindings c bindings' c' ∧
      Expr.relocateBindings .erase bindings' = Expr.relocateBindings .erase bindings ∧
      c'.kinds = .keyword .inWord :: ks
  | [], c, ks, hbs, hne, hc => absurd rfl hne
  | [(name, value)], c, ks, hbs, hne, hc => by
    rw [Expr.bindingsPass, bindingPasses_eq, Bool.and_eq_true, Bool.and_eq_true] at hbs
    obtain ⟨hname, hc₁⟩ := next_of_kinds hc
    obtain ⟨value', c₂, hvalue, hsame, hc₂⟩ :=
      readsBack_option value hbs.1.2 hc₁ (endsExpression_keyword _) nofun
    refine ⟨[(name, value')], c₂, .last hname hvalue ?_, ?_, hc₂⟩
    · rw [kind_of_kinds hc₂]
      exact nofun
    · exact List.cons_eq_cons.mpr ⟨relocateBinding_eq hsame, rfl⟩
  | (name, value) :: b :: bs, c, ks, hbs, hne, hc => by
    rw [Expr.bindingsPass, bindingPasses_eq, Bool.and_eq_true, Bool.and_eq_true] at hbs
    obtain ⟨hname, hc₁⟩ := next_of_kinds hc
    obtain ⟨value', c₂, hvalue, hsame, hc₂⟩ :=
      readsBack_option value hbs.1.2 hc₁ endsExpression_comma (by decide)
    obtain ⟨hcomma, hc₃⟩ := next_of_kinds hc₂
    obtain ⟨bs', c₄, hrest, hsame', hc₄⟩ := readsBack_bindings (b :: bs) hbs.2 nofun hc₃
    refine ⟨(name, value') :: bs', c₄, .more hname hvalue hcomma hrest, ?_, hc₄⟩
    exact List.cons_eq_cons.mpr ⟨relocateBinding_eq hsame, hsame'⟩
end

theorem readsBack_params {c : TokenCursor}
    (hc : c.kinds = params.map .identifier ++ .char ')' :: ks) :
    ∃ c', ReadsParameters c params c' ∧ c'.kinds = ks := by
  induction params generalizing c with
  | nil =>
    obtain ⟨hclose, hc₁⟩ := next_of_kinds hc
    exact ⟨_, .close hclose, hc₁⟩
  | cons p params ih =>
    obtain ⟨hname, hc₁⟩ := next_of_kinds hc
    obtain ⟨c₂, hparams, hc₂⟩ := ih hc₁
    exact ⟨c₂, .name hname hparams, hc₂⟩

theorem readsBack_prototype {c : TokenCursor} {p : Prototype} (hc : c.kinds = p.tokens ks) :
    ∃ p' c', ReadsPrototype c p' c' ∧ p'.relocate .erase = p.relocate .erase ∧ c'.kinds = ks := by
  obtain ⟨hname, hc₁⟩ := next_of_kinds hc
  obtain ⟨hopen, hc₂⟩ := next_of_kinds hc₁
  obtain ⟨c₃, hparams, hc₃⟩ := readsBack_params hc₂
  exact ⟨_, c₃, .mk hname hopen hparams, rfl, hc₃⟩

theorem readsBack_statement {c : TokenCursor} {s : Statement} (hs : s.passes .writable = true)
    (hk : EndsExpression k) (hc : c.kinds = s.tokens (k :: ks)) :
    ∃ s' c', ReadsStatement c s' c' ∧ s'.relocate .erase = s.relocate .erase ∧
      c'.kinds = k :: ks := by
  cases s with
  | definition p body =>
    rw [Statement.passes, Bool.and_eq_true] at hs
    obtain ⟨hdef, hc₁⟩ := next_of_kinds hc
    obtain ⟨p', c₂, hproto, hsame, hc₂⟩ := readsBack_prototype hc₁
    obtain ⟨body', c₃, hbody, hsame', hc₃⟩ := (readsBack body hs.2 hc₂ hk.1).expression hk
    refine ⟨_, c₃, .definition hdef hproto hbody, ?_, hc₃⟩
    rw [Statement.relocate, Statement.relocate, hsame, hsame']
  | declaration p =>
    obtain ⟨hword, hc₁⟩ := next_of_kinds hc
    obtain ⟨p', c₂, hproto, hsame, hc₂⟩ := readsBack_prototype hc₁
    refine ⟨_, c₂, .declaration hword hproto, ?_, hc₂⟩
    rw [Statement.relocate, Statement.relocate, hsame]
  | expression e =>
    obtain ⟨e', c₁, he, hsame, hc₁⟩ := (readsBack e hs hc hk.1).expression hk
    refine ⟨_, c₁, .expression he, ?_, hc₁⟩
    rw [Statement.relocate, Statement.relocate, hsame]

-- ---------------------------------------------------------------------------
-- One statement
-- ---------------------------------------------------------------------------

theorem ReadsStatement.begins {c : TokenCursor} (h : ReadsStatement c s c') :
    ∃ k c₁, c.Next k c₁ ∧ k ≠ .char ';' ∧ k ≠ .endOfInput := by
  cases h with
  | definition h _ _ | declaration h _ => exact ⟨_, _, h, nofun, nofun⟩
  | expression h =>
    obtain ⟨first, _⟩ := h
    cases first with
    | number h | «variable» h _ | call h _ _ _ | branch h _ _ _ _ _ | loop h _ _ _ _ _ _ _ _
    | locals h _ _ _ => exact ⟨_, _, h, nofun, nofun⟩
    | parens h _ _ => exact ⟨_, _, h, by decide, nofun⟩

theorem statements_of_reads {tokens : List Token} (h : ReadsStatement (.ofTokens tokens) s c')
    (hend : c'.kinds = [.endOfInput]) : statements tokens = [.ok s] := by
  obtain ⟨k, c₁, ⟨⟨t, htokens, rfl⟩, -⟩, hne, hne'⟩ := h.begins
  obtain rfl : tokens = t :: c₁.rest := htokens
  have hstatement : statement (.ofTokens (t :: c₁.rest)) = .ok (s, c') := by
    have hk : c'.kind = .endOfInput := kind_of_kinds hend
    refine bind_ok.mpr ⟨_, h.run, ?_⟩
    dsimp only
    rw [isChar_eq_false (by rw [hk]; exact nofun), if_neg nofun, if_pos hk]
  have hlast : ∀ fuel, statementsWith fuel c'.rest = [] := by
    intro fuel
    obtain ⟨e, hrest, he⟩ := List.map_eq_singleton_iff.mp hend
    cases fuel with
    | zero => rfl
    | succ fuel => rw [hrest, (ReadsAs.finish he).statementsWith_eq (Nat.le_add_left 1 fuel)]
  rw [statements, List.length_cons, statementsWith, skipEmpty_of_ne hne]
  dsimp only
  rw [if_neg hne', hstatement]
  dsimp only
  rw [hlast]

end Parse

-- ---------------------------------------------------------------------------
-- Writing what was read
-- ---------------------------------------------------------------------------

namespace Grammar

mutual
theorem Spells.writable : Spells e w → (∀ k ∈ w, k.isFound = true) → e.passes .finite = true →
    e.passes .writable = true
  | .number, hw, he => by
    have hfound := hw _ (List.mem_singleton_self _)
    rw [TokenKind.isFound, Bool.or_eq_true] at hfound
    exact hfound.resolve_right (Bool.eq_false_iff.mp (Bool.not_eq_true' _ ▸ he))
  | .variable, hw, he => hw _ (List.mem_singleton_self _)
  | .binary hop hl hr, hw, he => by
    simp only [List.forall_mem_append, List.forall_mem_cons] at hw
    obtain ⟨hw, -, hv⟩ := hw
    simp only [Expr.passes, Bool.and_eq_true] at he ⊢
    exact ⟨⟨List.contains_iff_mem.mpr hop, hl.writable hw he.1.2⟩, hr.writable hv he.2⟩
  | .call hargs, hw, he => by
    simp only [List.forall_mem_append, List.forall_mem_cons] at hw
    simp only [Expr.passes, Bool.and_eq_true] at he ⊢
    exact ⟨hw.1, hargs.writable hw.2.2.1 he.2⟩
  | .branch hcondition hyes hno, hw, he => by
    simp only [List.forall_mem_append, List.forall_mem_cons] at hw
    obtain ⟨-, hw, -, hw₁, -, hw₂⟩ := hw
    simp only [Expr.passes, Bool.and_eq_true] at he ⊢
    exact ⟨⟨hcondition.writable hw he.1.1, hyes.writable hw₁ he.1.2⟩, hno.writable hw₂ he.2⟩
  | .loop hstart hstop hstep hbody, hw, he => by
    simp only [List.forall_mem_append, List.forall_mem_cons] at hw
    obtain ⟨-, hname, -, hw, -, hw₁, hw₂, -, hw₃⟩ := hw
    simp only [Expr.passes, Bool.and_eq_true] at he ⊢
    obtain ⟨⟨⟨⟨-, hstart'⟩, hstop'⟩, hstep'⟩, hbody'⟩ := he
    exact ⟨⟨⟨⟨hname, hstart.writable hw hstart'⟩, hstop.writable hw₁ hstop'⟩,
      hstep.writable hw₂ hstep'⟩, hbody.writable hw₃ hbody'⟩
  | .locals hbindings hbody, hw, he => by
    simp only [List.forall_mem_append, List.forall_mem_cons] at hw
    obtain ⟨-, hw, -, hw₁⟩ := hw
    simp only [Expr.passes, Bool.and_eq_true] at he ⊢
    obtain ⟨hcount, hpass⟩ := hbindings.writable hw he.1.2
    exact ⟨⟨hcount, hpass⟩, hbody.writable hw₁ he.2⟩
  | .parens h, hw, he => by
    simp only [List.forall_mem_append, List.forall_mem_cons] at hw
    exact h.writable hw.2.1 he

theorem SpellsArguments.writable : SpellsArguments args w → (∀ k ∈ w, k.isFound = true) →
    Expr.argsPass .finite args = true → Expr.argsPass .writable args = true
  | .none, hw, he => rfl
  | .some h, hw, he => h.writable hw he

theorem SpellsArgumentList.writable : SpellsArgumentList args w → (∀ k ∈ w, k.isFound = true) →
    Expr.argsPass .finite args = true → Expr.argsPass .writable args = true
  | .last h, hw, he => by
    simp only [Expr.argsPass, Bool.and_true] at he ⊢
    exact h.writable hw he
  | .more h hrest, hw, he => by
    simp only [List.forall_mem_append, List.forall_mem_cons] at hw
    rw [Expr.argsPass, Bool.and_eq_true] at he ⊢
    exact ⟨h.writable hw.1 he.1, hrest.writable hw.2.2 he.2⟩

theorem SpellsOptional.writable : SpellsOptional ch value w → (∀ k ∈ w, k.isFound = true) →
    Expr.stepPasses .finite value = true → Expr.stepPasses .writable value = true
  | .none, hw, he => rfl
  | .some h, hw, he => h.writable (List.forall_mem_cons.mp hw).2 he

theorem SpellsBindings.writable : SpellsBindings bindings w → (∀ k ∈ w, k.isFound = true) →
    Expr.bindingsPass .finite bindings = true →
    (bindings.length != 0) = true ∧ Expr.bindingsPass .writable bindings = true
  | .last hvalue, hw, he => by
    obtain ⟨hname, hw⟩ := List.forall_mem_cons.mp hw
    rw [Expr.bindingsPass, Parse.bindingPasses_eq, Bool.and_eq_true, Bool.and_eq_true] at he ⊢
    exact ⟨rfl, ⟨hname, hvalue.writable hw he.1.2⟩, rfl⟩
  | .more hvalue hrest, hw, he => by
    simp only [List.forall_mem_append, List.forall_mem_cons] at hw
    obtain ⟨hname, hw, -, hv⟩ := hw
    rw [Expr.bindingsPass, Parse.bindingPasses_eq, Bool.and_eq_true, Bool.and_eq_true] at he ⊢
    exact ⟨rfl, ⟨hname, hvalue.writable hw he.1.2⟩, (hrest.writable hv he.2).2⟩
end

theorem SpellsPrototype.writable (h : SpellsPrototype proto w) (hw : ∀ k ∈ w, k.isFound = true) :
    proto.passes .writable = true := by
  cases h with
  | mk hparams =>
    simp only [List.forall_mem_append, List.forall_mem_cons] at hw
    obtain ⟨hname, -, hw, -⟩ := hw
    rw [Prototype.passes, Bool.and_eq_true, List.all_eq_true]
    refine ⟨hname, fun p hp => ?_⟩
    have hmem : TokenKind.identifier p ∈ proto.params.map .identifier := List.mem_map_of_mem hp
    rw [← hparams] at hmem
    exact hw _ (List.mem_of_mem_filter hmem)

theorem SpellsStatement.writable (h : SpellsStatement s w) (hw : ∀ k ∈ w, k.isFound = true)
    (hs : s.passes .finite = true) : s.passes .writable = true := by
  cases h with
  | definition hproto hbody =>
    simp only [List.forall_mem_append, List.forall_mem_cons] at hw
    obtain ⟨-, hw, hv⟩ := hw
    rw [Statement.passes, Bool.and_eq_true] at hs ⊢
    exact ⟨hproto.writable hw, hbody.writable hv hs.2⟩
  | declaration hproto => exact hproto.writable (List.forall_mem_cons.mp hw).2
  | expression he => exact he.writable hw hs

end Grammar

theorem exists_spells_of_parse (h : .ok s ∈ parseStatements text) :
    ∃ w, Grammar.SpellsStatement s w ∧ ∀ k ∈ w, k.isFound = true := by
  unfold parseStatements at h
  split at h
  next tokens htokens =>
    have hends := tokenize_endsOnce htokens
    rw [(Parse.reads_segments hends).statements_eq] at h
    obtain ⟨⟨front, stop⟩, hmem, hs⟩ := List.mem_flatMap.mp h
    obtain ⟨hfront, hstop⟩ := mem_segments hmem
    unfold Parse.ofSegment at hs
    split at hs
    next => cases hs
    next =>
      obtain ⟨c', hread, -⟩ := (first_eq_ok (isSegment_append hfront hstop)).mp
        (List.mem_singleton.mp hs).symm
      obtain ⟨w, hw, hspells⟩ := hread.spells
      refine ⟨w, hspells, fun k hk => ?_⟩
      have hk : k ∈ TokenCursor.kinds (.ofTokens (front ++ [stop])) :=
        hw ▸ List.mem_append_left _ hk
      obtain ⟨t, ht, rfl⟩ := List.mem_map.mp hk
      refine tokenize_found htokens ?_
      rw [← hends.join_segments]
      exact List.mem_flatMap.mpr ⟨_, hmem, ht⟩
  next => cases List.mem_singleton.mp h

theorem parseStatement_text {s : Statement} (hs : s.passes .writable = true) :
    ∃ s', parseStatement s.text = .ok s' ∧ s'.relocate .erase = s.relocate .erase := by
  obtain ⟨tokens, htokens, hkinds⟩ := Statement.tokenize_text hs
  obtain ⟨s', c', hread, hsame, hc'⟩ :=
    Parse.readsBack_statement (c := .ofTokens tokens) hs Parse.endsExpression_endOfInput hkinds
  refine ⟨s', ?_, hsame⟩
  rw [parseStatement, parseStatements, htokens]
  dsimp only
  rw [Parse.statements_of_reads hread hc']

/-- The text of a statement that can be written is read as that statement, but for the places. What
is read from a text can be written unless a literal is infinite. Two statements of one text are the
same but for their places. -/
theorem statement_text_reads_back :
    (∀ s : Statement, s.passes .writable = true →
      ∃ s', parseStatement s.text = .ok s' ∧ s'.relocate .erase = s.relocate .erase) ∧
    (∀ text s, .ok s ∈ parseStatements text → s.passes .finite = true →
      s.passes .writable = true ∧
        ∃ s', parseStatement s.text = .ok s' ∧ s'.relocate .erase = s.relocate .erase) ∧
    ∀ s t : Statement, s.passes .writable = true → t.passes .writable = true → s.text = t.text →
      s.relocate .erase = t.relocate .erase := by
  refine ⟨fun s hs => parseStatement_text hs, fun text s hmem hs => ?_, fun s t hs ht htext => ?_⟩
  · obtain ⟨w, hspells, hw⟩ := exists_spells_of_parse hmem
    have hwritable := hspells.writable hw hs
    exact ⟨hwritable, parseStatement_text hwritable⟩
  · obtain ⟨s', hread, hsame⟩ := parseStatement_text hs
    obtain ⟨t', hread', hsame'⟩ := parseStatement_text ht
    rw [htext, hread'] at hread
    rw [← hsame, ← hsame', Except.ok.inj hread]

/-- A loop in a definition, with a literal that has no finite binary expansion, and a text with a
statement that cannot be read. -/
theorem statement_text_reads_back_of_loop :
    let tenth : Number := ⟨0x3FB999999999999A⟩
    let x (span : Span) : Expr := .variable "x" span
    let loop (span : Span) : Expr :=
      .loop "i" (.number .zero {}) (.binary '<' (.variable "i" {}) (x span) {})
        (some (.number tenth {}))
        (.locals [("y", none), ("z", some (.call "g" [x {}, .number .one span] {}))]
          (.branch (x span) (.binary '=' (.variable "y" {}) (.variable "z" span) span) (x {}) {})
          {}) {}
    let s (span : Span) : Statement := .definition ⟨"f", ["x", "a1"], span⟩ (loop span)
    let there : Span := ⟨⟨3, 4⟩, ⟨5, 6⟩⟩
    let text := "x = y < .1 = x; 1 +; g(2.50"
    ((s there).passes .writable = true ∧
      ∃ s', parseStatement (s there).text = .ok s' ∧
        s'.relocate .erase = (s there).relocate .erase) ∧
    (∃ t, .ok t ∈ parseStatements text ∧ t.passes .finite = true ∧ t.passes .writable = true ∧
      ∃ t', parseStatement t.text = .ok t' ∧ t'.relocate .erase = t.relocate .erase) ∧
    (s {}).text = (s there).text ∧ (s {}).relocate .erase = (s there).relocate .erase := by
  intro tenth x loop s there text
  obtain ⟨hwritten, hread, hsame⟩ := statement_text_reads_back
  have hthere : (s there).passes .writable = true := by decide +kernel
  have hhere : (s {}).passes .writable = true := by decide +kernel
  refine ⟨⟨hthere, hwritten _ hthere⟩, ?_, rfl, hsame _ _ hhere hthere rfl⟩
  have hfinite :
      (parseStatements text).any (fun r => r.toOption.any (·.passes .finite)) = true := by
    decide +kernel
  obtain ⟨r, hmem, ht⟩ := List.any_eq_true.mp hfinite
  cases r with
  | ok t => exact ⟨t, hmem, ht, hread text t hmem ht⟩
  | error failure => cases ht

end NumericJit
