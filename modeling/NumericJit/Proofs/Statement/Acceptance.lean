import NumericJit.Proofs.Statement.Derivations
import NumericJit.Proofs.Statement.Independence
import NumericJit.Proofs.Statement.Words
import NumericJit.Statement.Grammar

/-!
# What is accepted

Tokens without a `;` are read as one statement exactly if the grammar derives them, and the tree
that they are read into spells them (`statements_accept_grammar`). That what is read is spelled
follows the rules of reading. That what is derived is read takes an argument, as the grammar is
ambiguous and reading never takes back a choice: the last expression of a branch, a loop or a
binding takes all operators behind it, and a chain of operators is cut up by precedence. Neither
loses anything, because an expression with more operators behind it is an expression again.
-/

namespace NumericJit

open Grammar

/-- The operators of the grammar are those that have a precedence. -/
theorem mem_binaryOperators : op ∈ binaryOperators ↔ (precedence? op).isSome = true := by
  constructor
  · have hall : ∀ op ∈ binaryOperators, (precedence? op).isSome = true := List.all_eq_true.mp rfl
    exact hall op
  · intro h
    unfold precedence? at h
    split at h
    all_goals first | decide | cases h

-- ---------------------------------------------------------------------------
-- What a tree spells is derived
-- ---------------------------------------------------------------------------

namespace Grammar

theorem Operations.append : Operations w → Operations v → Operations (w ++ v)
  | .none, h => h
  | .more hop operand others, h => by
    rw [List.cons_append, List.append_assoc]
    exact .more hop operand (others.append h)

theorem Expression.append (h : Expression w) (hv : Operations v) : Expression (w ++ v) := by
  cases h with
  | mk first others =>
    rw [List.append_assoc]
    exact .mk first (others.append hv)

theorem Primary.length_pos (h : Primary w) : 0 < w.length := by
  cases h <;> exact Nat.succ_pos _

theorem Primary.expression (h : Primary w) : Expression w := by
  have := Expression.mk h .none
  rwa [List.append_nil] at this

mutual
theorem Spells.expression : Spells e w → Expression w
  | .number => Primary.number.expression
  | .variable => Primary.variable.expression
  | .binary hop hl hr => by
    cases hr.expression with
    | mk first others => exact hl.expression.append (.more hop first others)
  | .call hargs => (Primary.call hargs.arguments).expression
  | .branch hcondition hyes hno =>
    (Primary.branch hcondition.expression hyes.expression hno.expression).expression
  | .loop hstart hstop hstep hbody =>
    (Primary.loop hstart.expression hstop.expression hstep.optional hbody.expression).expression
  | .locals hbindings hbody => (Primary.locals hbindings.bindings hbody.expression).expression
  | .parens h => (Primary.parens h.expression).expression

theorem SpellsArguments.arguments : SpellsArguments args w → Arguments w
  | .none => .none
  | .some h => .some h.argumentList

theorem SpellsArgumentList.argumentList : SpellsArgumentList args w → ArgumentList w
  | .last he => .last he.expression
  | .more he hrest => .more he.expression hrest.argumentList

theorem SpellsOptional.optional : SpellsOptional ch value w → Optional ch w
  | .none => .none
  | .some he => .some he.expression

theorem SpellsBindings.bindings : SpellsBindings bound w → Bindings w
  | .last hvalue => .last hvalue.optional
  | .more hvalue hrest => .more hvalue.optional hrest.bindings
end

theorem SpellsPrototype.prototype (h : SpellsPrototype proto w) : Prototype w := by
  cases h with
  | mk hparams =>
    refine .mk fun k hk => ?_
    by_cases hcomma : k = .char ','
    · exact .inl hcomma
    · have hmem := hparams ▸ List.mem_filter.mpr ⟨hk, decide_eq_true hcomma⟩
      obtain ⟨name, -, rfl⟩ := List.mem_map.mp hmem
      exact .inr ⟨name, rfl⟩

theorem Statement.length_pos (h : Statement w) : 0 < w.length := by
  cases h with
  | definition _ _ | declaration _ => exact Nat.succ_pos _
  | expression e =>
    cases e with
    | mk first _ =>
      rw [List.length_append]
      exact Nat.add_pos_left first.length_pos _

theorem SpellsStatement.statement (h : SpellsStatement s w) : Grammar.Statement w := by
  cases h with
  | definition hproto hbody => exact .definition hproto.prototype hbody.expression
  | declaration hproto => exact .declaration hproto.prototype
  | expression he => exact .expression he.expression

end Grammar

-- ---------------------------------------------------------------------------
-- What is read is spelled
-- ---------------------------------------------------------------------------

namespace Parse

mutual
theorem ReadsExpression.spells : ReadsExpression c e c' →
    ∃ w, c.kinds = w ++ c'.kinds ∧ Spells e w
  | .mk first others => by
    obtain ⟨w, hw, hlhs⟩ := first.spells
    obtain ⟨v, hv, he⟩ := others.spells hlhs
    exact ⟨w ++ v, by rw [hw, hv, List.append_assoc], he⟩

theorem ReadsOperators.spells : ReadsOperators least lhs c e c' → Spells lhs w →
    ∃ v, c.kinds = v ++ c'.kinds ∧ Spells e (w ++ v)
  | .none _, hlhs => ⟨[], rfl, by rwa [List.append_nil]⟩
  | .more hop _ hnext first inner others, hlhs => by
    obtain ⟨v₁, hv₁, hfirst⟩ := first.spells
    obtain ⟨v₂, hv₂, hrhs⟩ := inner.spells hfirst
    have hop := mem_binaryOperators.mpr (TokenCursor.operator?_precedence hop)
    obtain ⟨v₃, hv₃, he⟩ := others.spells (.binary hop hlhs hrhs)
    refine ⟨.char _ :: (v₁ ++ v₂ ++ v₃), ?_, by simpa using he⟩
    rw [hnext.kinds, hv₁, hv₂, hv₃]
    simp

theorem ReadsOperand.spells : ReadsOperand level lhs c e c' → Spells lhs w →
    ∃ v, c.kinds = v ++ c'.kinds ∧ Spells e (w ++ v)
  | .alone _, hlhs => ⟨[], rfl, by rwa [List.append_nil]⟩
  | .folded _ others, hlhs => others.spells hlhs

theorem ReadsPrimary.spells : ReadsPrimary c e c' → ∃ w, c.kinds = w ++ c'.kinds ∧ Spells e w
  | .number h => ⟨_, h.kinds, .number⟩
  | .variable h _ => ⟨_, h.kinds, .variable⟩
  | .call h hopen hargs hclose => by
    obtain ⟨w, hw, hargs⟩ := hargs.spells
    refine ⟨_, ?_, .call hargs⟩
    rw [h.kinds, hopen.kinds, hw, hclose.kinds]
    simp
  | .parens hopen he hclose => by
    obtain ⟨w, hw, he⟩ := he.spells
    refine ⟨_, ?_, .parens he⟩
    rw [hopen.kinds, hw, hclose.kinds]
    simp
  | .branch hif hcondition hthen hyes helse hno => by
    obtain ⟨w, hw, hcondition⟩ := hcondition.spells
    obtain ⟨w₁, hw₁, hyes⟩ := hyes.spells
    obtain ⟨w₂, hw₂, hno⟩ := hno.spells
    refine ⟨_, ?_, .branch hcondition hyes hno⟩
    rw [hif.kinds, hw, hthen.kinds, hw₁, helse.kinds, hw₂]
    simp
  | .loop hfor hname heq hstart hcomma hstop hstep hin hbody => by
    obtain ⟨w, hw, hstart⟩ := hstart.spells
    obtain ⟨w₁, hw₁, hstop⟩ := hstop.spells
    obtain ⟨w₂, hw₂, hstep⟩ := hstep.spells
    obtain ⟨w₃, hw₃, hbody⟩ := hbody.spells
    refine ⟨_, ?_, .loop hstart hstop hstep hbody⟩
    rw [hfor.kinds, hname.kinds, heq.kinds, hw, hcomma.kinds, hw₁, hw₂, hin.kinds, hw₃]
    simp
  | .locals hvar hbindings hin hbody => by
    obtain ⟨w, hw, hbindings⟩ := hbindings.spells
    obtain ⟨w₁, hw₁, hbody⟩ := hbody.spells
    refine ⟨_, ?_, .locals hbindings hbody⟩
    rw [hvar.kinds, hw, hin.kinds, hw₁]
    simp

theorem ReadsArguments.spells : ReadsArguments c args c' →
    ∃ w, c.kinds = w ++ c'.kinds ∧ SpellsArguments args w
  | .none _ => ⟨[], rfl, .none⟩
  | .some h => by
    obtain ⟨w, hw, hargs⟩ := h.spells
    exact ⟨w, hw, .some hargs⟩

theorem ReadsArgumentList.spells : ReadsArgumentList c args c' →
    ∃ w, c.kinds = w ++ c'.kinds ∧ SpellsArgumentList args w
  | .last he _ => by
    obtain ⟨w, hw, he⟩ := he.spells
    exact ⟨w, hw, .last he⟩
  | .more he hcomma hrest => by
    obtain ⟨w, hw, he⟩ := he.spells
    obtain ⟨v, hv, hrest⟩ := hrest.spells
    refine ⟨_, ?_, .more he hrest⟩
    rw [hw, hcomma.kinds, hv]
    simp

theorem ReadsOptional.spells : ReadsOptional ch c value c' →
    ∃ w, c.kinds = w ++ c'.kinds ∧ SpellsOptional ch value w
  | .none _ => ⟨[], rfl, .none⟩
  | .some h he => by
    obtain ⟨w, hw, he⟩ := he.spells
    refine ⟨_, ?_, .some he⟩
    rw [h.kinds, hw]
    rfl

theorem ReadsBindings.spells : ReadsBindings c bound c' →
    ∃ w, c.kinds = w ++ c'.kinds ∧ SpellsBindings bound w
  | .last hname hvalue _ => by
    obtain ⟨w, hw, hvalue⟩ := hvalue.spells
    refine ⟨_, ?_, .last hvalue⟩
    rw [hname.kinds, hw]
    rfl
  | .more hname hvalue hcomma hrest => by
    obtain ⟨w, hw, hvalue⟩ := hvalue.spells
    obtain ⟨v, hv, hrest⟩ := hrest.spells
    refine ⟨_, ?_, .more hvalue hrest⟩
    rw [hname.kinds, hw, hcomma.kinds, hv]
    simp
end

theorem ReadsParameters.spells (h : ReadsParameters c names c') :
    ∃ w, c.kinds = w ++ .char ')' :: c'.kinds ∧
      w.filter (· ≠ .char ',') = names.map .identifier := by
  induction h with
  | close h => exact ⟨[], h.kinds, rfl⟩
  | name h _ ih =>
    obtain ⟨w, hw, hparams⟩ := ih
    refine ⟨_ :: w, by rw [h.kinds, hw]; rfl, ?_⟩
    rw [List.filter_cons_of_pos (by simp), hparams, List.map_cons]
  | comma h _ ih =>
    obtain ⟨w, hw, hparams⟩ := ih
    exact ⟨_ :: w, by rw [h.kinds, hw]; rfl, by rwa [List.filter_cons_of_neg (by simp)]⟩

theorem ReadsPrototype.spells (h : ReadsPrototype c proto c') :
    ∃ w, c.kinds = w ++ c'.kinds ∧ SpellsPrototype proto w := by
  cases h with
  | mk hname hopen hparams =>
    obtain ⟨w, hw, hparams⟩ := hparams.spells
    refine ⟨_, ?_, SpellsPrototype.mk hparams⟩
    rw [hname.kinds, hopen.kinds, hw]
    simp

theorem ReadsStatement.spells (h : ReadsStatement c s c') :
    ∃ w, c.kinds = w ++ c'.kinds ∧ SpellsStatement s w := by
  cases h with
  | definition hdef hproto hbody =>
    obtain ⟨w, hw, hproto⟩ := hproto.spells
    obtain ⟨v, hv, hbody⟩ := hbody.spells
    refine ⟨_, ?_, .definition hproto hbody⟩
    rw [hdef.kinds, hw, hv]
    simp
  | declaration hword hproto =>
    obtain ⟨w, hw, hproto⟩ := hproto.spells
    refine ⟨_, ?_, .declaration hproto⟩
    rw [hword.kinds, hw]
    rfl
  | expression he =>
    obtain ⟨w, hw, he⟩ := he.spells
    exact ⟨w, hw, .expression he⟩

-- ---------------------------------------------------------------------------
-- What is derived is read
-- ---------------------------------------------------------------------------

/-- Ends an expression: neither an operator nor a parenthesis that would make a call of a name. -/
def EndsExpression (k : TokenKind) : Prop :=
  k ≠ .char '(' ∧ ∀ op, k = .char op → precedence? op = none

theorem endsExpression_keyword (word : Keyword) : EndsExpression (.keyword word) :=
  ⟨nofun, nofun⟩

theorem endsExpression_endOfInput : EndsExpression .endOfInput := ⟨nofun, nofun⟩

theorem endsExpression_comma : EndsExpression (.char ',') := by
  refine ⟨by decide, fun op h => ?_⟩
  obtain rfl := TokenKind.char.inj h
  rfl

theorem endsExpression_close : EndsExpression (.char ')') := by
  refine ⟨by decide, fun op h => ?_⟩
  obtain rfl := TokenKind.char.inj h
  rfl

theorem operator?_of_kinds {c : TokenCursor} (hop : precedence? op = some level)
    (hc : c.kinds = .char op :: ks) : c.operator? = some (op, level) := by
  rw [TokenCursor.operator?, TokenCursor.kind_of_kinds hc]
  dsimp only
  rw [hop]
  rfl

theorem operator?_eq_none {c : TokenCursor} (h : EndsExpression k) (hc : c.kinds = k :: ks) :
    c.operator? = none := by
  have hk := TokenCursor.kind_of_kinds hc
  unfold TokenCursor.operator?
  split
  · rename_i op hop
    rw [h.2 op (hk.symm.trans hop)]
    rfl
  · rfl

def ReadsUpTo (n : Nat) : Prop :=
  ∀ {w k ks c}, w.length ≤ n → Expression w → EndsExpression k → c.kinds = w ++ k :: ks →
    ∃ e c', ReadsExpression c e c' ∧ c'.kinds = k :: ks

section
variable {n : Nat} {c : TokenCursor}

theorem exists_readsArgumentList (ih : ReadsUpTo n) : ∀ {w c}, ArgumentList w → w.length ≤ n →
    c.kinds = w ++ .char ')' :: ks →
    ∃ args c', ReadsArgumentList c args c' ∧ c'.kinds = .char ')' :: ks
  | _, _, .last e, hlength, hc => by
    obtain ⟨e, c₁, he, hc₁⟩ := ih hlength e endsExpression_close hc
    exact ⟨[e], c₁, .last he (TokenCursor.kind_of_kinds hc₁), hc₁⟩
  | _, _, .more e others, hlength, hc => by
    simp only [List.length_append, List.length_cons] at hlength
    rw [List.append_assoc] at hc
    obtain ⟨e, c₁, he, hc₁⟩ := ih (by omega) e endsExpression_comma hc
    obtain ⟨hcomma, hc₂⟩ := TokenCursor.next_of_kinds hc₁
    obtain ⟨args, c₃, hargs, hc₃⟩ := exists_readsArgumentList ih others (by omega) hc₂
    exact ⟨e :: args, c₃, .more he hcomma hargs, hc₃⟩

theorem exists_readsArguments (ih : ReadsUpTo n) (h : Arguments w) (hlength : w.length ≤ n)
    (hc : c.kinds = w ++ .char ')' :: ks) :
    ∃ args c', ReadsArguments c args c' ∧ c'.kinds = .char ')' :: ks := by
  cases h with
  | none => exact ⟨[], c, .none (TokenCursor.kind_of_kinds hc), hc⟩
  | some h =>
    obtain ⟨args, c₁, hargs, hc₁⟩ := exists_readsArgumentList ih h hlength hc
    exact ⟨args, c₁, .some hargs, hc₁⟩

theorem exists_readsOptional (ih : ReadsUpTo n) (h : Optional ch w) (hlength : w.length ≤ n)
    (hk : EndsExpression k) (hne : k ≠ .char ch) (hc : c.kinds = w ++ k :: ks) :
    ∃ value c', ReadsOptional ch c value c' ∧ c'.kinds = k :: ks := by
  cases h with
  | none => exact ⟨none, c, .none (by rwa [TokenCursor.kind_of_kinds hc]), hc⟩
  | some e =>
    obtain ⟨hnext, hc₁⟩ := TokenCursor.next_of_kinds hc
    obtain ⟨e, c₂, he, hc₂⟩ := ih (Nat.le_of_succ_le hlength) e hk hc₁
    exact ⟨some e, c₂, .some hnext he, hc₂⟩

theorem endsExpression_optional (h : Optional ch w) (hch : EndsExpression (.char ch))
    (hk : EndsExpression k) :
    ∃ k' ks', w ++ k :: ks = k' :: ks' ∧ EndsExpression k' := by
  cases h with
  | none => exact ⟨k, ks, rfl, hk⟩
  | some _ => exact ⟨_, _, rfl, hch⟩

theorem exists_readsBindings (ih : ReadsUpTo n) : ∀ {w c}, Bindings w → w.length ≤ n →
    c.kinds = w ++ .keyword .inWord :: ks →
    ∃ bound c', ReadsBindings c bound c' ∧ c'.kinds = .keyword .inWord :: ks
  | _, _, .last value, hlength, hc => by
    obtain ⟨hname, hc₁⟩ := TokenCursor.next_of_kinds hc
    obtain ⟨value, c₂, hvalue, hc₂⟩ := exists_readsOptional ih value (Nat.le_of_succ_le hlength)
      (endsExpression_keyword .inWord) nofun hc₁
    have hend : c₂.kind ≠ .char ',' := by rw [TokenCursor.kind_of_kinds hc₂]; exact nofun
    exact ⟨_, c₂, .last hname hvalue hend, hc₂⟩
  | _, _, .more value others, hlength, hc => by
    simp only [List.length_append, List.length_cons] at hlength
    rw [List.cons_append, List.append_assoc] at hc
    obtain ⟨hname, hc₁⟩ := TokenCursor.next_of_kinds hc
    obtain ⟨value, c₂, hvalue, hc₂⟩ :=
      exists_readsOptional ih value (by omega) endsExpression_comma (by decide) hc₁
    obtain ⟨hcomma, hc₃⟩ := TokenCursor.next_of_kinds hc₂
    obtain ⟨bound, c₄, hbound, hc₄⟩ := exists_readsBindings ih others (by omega) hc₃
    exact ⟨_, c₄, .more hname hvalue hcomma hbound, hc₄⟩

/-- A primary is read. If it ends with an expression, that takes the operators behind it. -/
theorem exists_readsPrimary (ih : ReadsUpTo n) (h : Primary w) (hv : Operations v)
    (hlength : (w ++ v).length ≤ n + 1) (hk : EndsExpression k)
    (hc : c.kinds = w ++ (v ++ k :: ks)) :
    ∃ e c' v', ReadsPrimary c e c' ∧ Operations v' ∧ v'.length ≤ v.length ∧
      c'.kinds = v' ++ k :: ks := by
  cases h with
  | number =>
    obtain ⟨hnext, hc₁⟩ := TokenCursor.next_of_kinds hc
    exact ⟨_, _, v, .number hnext, hv, Nat.le_refl _, hc₁⟩
  | «variable» =>
    obtain ⟨hnext, hc₁⟩ := TokenCursor.next_of_kinds hc
    have hopen : c.advance.kind ≠ .char '(' := by
      cases hv with
      | none => rw [TokenCursor.kind_of_kinds hc₁]; exact hk.1
      | more hop _ _ =>
        rw [TokenCursor.kind_of_kinds hc₁]
        rintro ⟨⟩
        exact absurd hop (by decide)
    exact ⟨_, _, v, .variable hnext hopen, hv, Nat.le_refl _, hc₁⟩
  | call args =>
    simp only [List.length_append, List.length_cons] at hlength
    simp only [List.cons_append, List.append_assoc, List.nil_append] at hc
    obtain ⟨hname, hc₁⟩ := TokenCursor.next_of_kinds hc
    obtain ⟨hopen, hc₂⟩ := TokenCursor.next_of_kinds hc₁
    obtain ⟨args, c₃, hargs, hc₃⟩ := exists_readsArguments ih args (by omega) hc₂
    obtain ⟨hclose, hc₄⟩ := TokenCursor.next_of_kinds hc₃
    exact ⟨_, _, v, .call hname hopen hargs hclose, hv, Nat.le_refl _, hc₄⟩
  | parens inner =>
    simp only [List.length_append, List.length_cons] at hlength
    simp only [List.cons_append, List.append_assoc, List.nil_append] at hc
    obtain ⟨hopen, hc₁⟩ := TokenCursor.next_of_kinds hc
    obtain ⟨e, c₂, he, hc₂⟩ := ih (by omega) inner endsExpression_close hc₁
    obtain ⟨hclose, hc₃⟩ := TokenCursor.next_of_kinds hc₂
    exact ⟨_, _, v, .parens hopen he hclose, hv, Nat.le_refl _, hc₃⟩
  | branch condition yes no =>
    simp only [List.length_append, List.length_cons] at hlength
    simp only [List.cons_append, List.append_assoc] at hc
    obtain ⟨hif, hc₁⟩ := TokenCursor.next_of_kinds hc
    obtain ⟨condition, c₂, hcondition, hc₂⟩ :=
      ih (by omega) condition (endsExpression_keyword _) hc₁
    obtain ⟨hthen, hc₃⟩ := TokenCursor.next_of_kinds hc₂
    obtain ⟨yes, c₄, hyes, hc₄⟩ := ih (by omega) yes (endsExpression_keyword _) hc₃
    obtain ⟨helse, hc₅⟩ := TokenCursor.next_of_kinds hc₄
    rw [← List.append_assoc] at hc₅
    obtain ⟨no, c₆, hno, hc₆⟩ :=
      ih (by rw [List.length_append]; omega) (no.append hv) hk hc₅
    exact ⟨_, c₆, [], .branch hif hcondition hthen hyes helse hno, .none, Nat.zero_le _, hc₆⟩
  | loop start stop step body =>
    simp only [List.length_append, List.length_cons] at hlength
    simp only [List.cons_append, List.append_assoc] at hc
    obtain ⟨hfor, hc₁⟩ := TokenCursor.next_of_kinds hc
    obtain ⟨hname, hc₂⟩ := TokenCursor.next_of_kinds hc₁
    obtain ⟨heq, hc₃⟩ := TokenCursor.next_of_kinds hc₂
    obtain ⟨start, c₄, hstart, hc₄⟩ := ih (by omega) start endsExpression_comma hc₃
    obtain ⟨hcomma, hc₅⟩ := TokenCursor.next_of_kinds hc₄
    obtain ⟨k', ks', hends, hk'⟩ :=
      endsExpression_optional step endsExpression_comma (endsExpression_keyword .inWord)
    rw [hends] at hc₅
    obtain ⟨stop, c₆, hstop, hc₆⟩ := ih (by omega) stop hk' hc₅
    rw [← hends] at hc₆
    obtain ⟨step, c₇, hstep, hc₇⟩ :=
      exists_readsOptional ih step (by omega) (endsExpression_keyword _) nofun hc₆
    obtain ⟨hin, hc₈⟩ := TokenCursor.next_of_kinds hc₇
    rw [← List.append_assoc] at hc₈
    obtain ⟨body, c₉, hbody, hc₉⟩ :=
      ih (by rw [List.length_append]; omega) (body.append hv) hk hc₈
    exact ⟨_, c₉, [], .loop hfor hname heq hstart hcomma hstop hstep hin hbody, .none,
      Nat.zero_le _, hc₉⟩
  | locals bindings body =>
    simp only [List.length_append, List.length_cons] at hlength
    simp only [List.cons_append, List.append_assoc] at hc
    obtain ⟨hvar, hc₁⟩ := TokenCursor.next_of_kinds hc
    obtain ⟨bound, c₂, hbound, hc₂⟩ := exists_readsBindings ih bindings (by omega) hc₁
    obtain ⟨hin, hc₃⟩ := TokenCursor.next_of_kinds hc₂
    rw [← List.append_assoc] at hc₃
    obtain ⟨body, c₄, hbody, hc₄⟩ :=
      ih (by rw [List.length_append]; omega) (body.append hv) hk hc₃
    exact ⟨_, c₄, [], .locals hvar hbound hin hbody, .none, Nat.zero_le _, hc₄⟩

theorem exists_readsOperators (ih : ReadsUpTo n) (least : Nat) (lhs : Expr) (hv : Operations v)
    (hlength : v.length ≤ n) (hk : EndsExpression k) (hc : c.kinds = v ++ k :: ks) :
    ∃ e c' v', ReadsOperators least lhs c e c' ∧ Operations v' ∧ v'.length ≤ v.length ∧
      c'.kinds = v' ++ k :: ks ∧ (least = 0 → v' = []) := by
  -- by induction on the length of the chain: both the inner and the outer rest of it are shorter
  induction hm : v.length using Nat.strongRecOn generalizing v least lhs c with
  | ind m ihm =>
    cases hv with
    | none =>
      have hop := operator?_eq_none hk hc
      exact ⟨lhs, c, [], .none (by simp [hop]), .none, Nat.zero_le _, hc, fun _ => rfl⟩
    | @more op w v hmem operand others =>
      obtain ⟨level, hlevel⟩ := Option.isSome_iff_exists.mp (mem_binaryOperators.mp hmem)
      have hop := operator?_of_kinds hlevel hc
      by_cases hless : level < least
      · refine ⟨lhs, c, _, .none ?_, .more hmem operand others, Nat.le_of_eq hm, hc, ?_⟩
        · simpa [hop] using hless
        · rintro rfl
          exact absurd hless (Nat.not_lt_zero _)
      simp only [List.length_cons, List.length_append] at hlength hm
      rw [List.cons_append, List.append_assoc] at hc
      obtain ⟨hnext, hc₁⟩ := TokenCursor.next_of_kinds hc
      obtain ⟨first, c₂, v₂, hfirst, hv₂, hle₂, hc₂⟩ := exists_readsPrimary ih operand others
        (by rw [List.length_append]; omega) hk hc₁
      obtain ⟨rhs, c₃, v₃, hinner, hv₃, hle₃, hc₃⟩ : ∃ rhs c₃ v₃,
          ReadsOperand level first c₂ rhs c₃ ∧ Operations v₃ ∧ v₃.length ≤ v₂.length ∧
            c₃.kinds = v₃ ++ k :: ks := by
        cases hinner : c₂.operator?.bind (innerLeast level) with
        | none => exact ⟨first, c₂, v₂, .alone hinner, hv₂, Nat.le_refl _, hc₂⟩
        | some least' =>
          obtain ⟨rhs, c₃, v₃, hothers, hv₃, hle₃, hc₃, -⟩ :=
            ihm v₂.length (by omega) least' first hv₂ (by omega) hc₂ rfl
          exact ⟨rhs, c₃, v₃, .folded hinner hothers, hv₃, hle₃, hc₃⟩
      obtain ⟨e, c₄, v₄, hothers, hv₄, hle₄, hc₄, hzero⟩ :=
        ihm v₃.length (by omega) least (.binary op lhs rhs (lhs.span.to rhs.span)) hv₃ (by omega)
          hc₃ rfl
      exact ⟨e, c₄, v₄, .more hop (Nat.not_lt.mp hless) hnext hfirst hinner hothers, hv₄, by omega,
        hc₄, hzero⟩

/-- Every expression is read, up to what ends it. -/
theorem readsUpTo (n : Nat) : ReadsUpTo n := by
  induction n with
  | zero =>
    intro w k ks c hlength h
    cases h with
    | mk first _ =>
      have := first.length_pos
      rw [List.length_append] at hlength
      omega
  | succ n ih =>
    intro w k ks c hlength h hk hc
    cases h with
    | mk first others =>
      have := first.length_pos
      rw [List.append_assoc] at hc
      obtain ⟨lhs, c₁, v₁, hfirst, hv₁, hle₁, hc₁⟩ :=
        exists_readsPrimary ih first others hlength hk hc
      rw [List.length_append] at hlength
      obtain ⟨e, c₂, v₂, hothers, -, -, hc₂, hzero⟩ :=
        exists_readsOperators ih 0 lhs hv₁ (by omega) hk hc₁
      rw [hzero rfl] at hc₂
      exact ⟨e, c₂, .mk hfirst hothers, hc₂⟩

theorem exists_readsParameters (h : ∀ k ∈ w, k = .char ',' ∨ ∃ name, k = .identifier name)
    (hc : c.kinds = w ++ .char ')' :: ks) :
    ∃ names c', ReadsParameters c names c' ∧ c'.kinds = ks := by
  induction w generalizing c with
  | nil =>
    obtain ⟨hclose, hc₁⟩ := TokenCursor.next_of_kinds hc
    exact ⟨[], _, .close hclose, hc₁⟩
  | cons k w ih =>
    obtain ⟨hk, hw⟩ := List.forall_mem_cons.mp h
    obtain ⟨hnext, hc₁⟩ := TokenCursor.next_of_kinds hc
    obtain ⟨names, c₂, hnames, hc₂⟩ := ih hw hc₁
    obtain rfl | ⟨name, rfl⟩ := hk
    · exact ⟨names, c₂, .comma hnext hnames, hc₂⟩
    · exact ⟨name :: names, c₂, .name hnext hnames, hc₂⟩

theorem exists_readsPrototype (h : Grammar.Prototype w) (hc : c.kinds = w ++ ks) :
    ∃ proto c', ReadsPrototype c proto c' ∧ c'.kinds = ks := by
  cases h with
  | mk params =>
    simp only [List.cons_append, List.append_assoc, List.nil_append] at hc
    obtain ⟨hname, hc₁⟩ := TokenCursor.next_of_kinds hc
    obtain ⟨hopen, hc₂⟩ := TokenCursor.next_of_kinds hc₁
    obtain ⟨names, c₃, hnames, hc₃⟩ := exists_readsParameters params hc₂
    exact ⟨_, c₃, .mk hname hopen hnames, hc₃⟩

theorem exists_readsStatement (h : Grammar.Statement w) (hk : EndsExpression k)
    (hc : c.kinds = w ++ k :: ks) :
    ∃ s c', ReadsStatement c s c' ∧ c'.kinds = k :: ks := by
  cases h with
  | definition proto body =>
    rw [List.cons_append, List.append_assoc] at hc
    obtain ⟨hdef, hc₁⟩ := TokenCursor.next_of_kinds hc
    obtain ⟨proto, c₂, hproto, hc₂⟩ := exists_readsPrototype proto hc₁
    obtain ⟨body, c₃, hbody, hc₃⟩ := readsUpTo _ (Nat.le_refl _) body hk hc₂
    exact ⟨_, c₃, .definition hdef hproto hbody, hc₃⟩
  | declaration proto =>
    obtain ⟨hword, hc₁⟩ := TokenCursor.next_of_kinds hc
    obtain ⟨proto, c₂, hproto, hc₂⟩ := exists_readsPrototype proto hc₁
    exact ⟨_, c₂, .declaration hword hproto, hc₂⟩
  | expression e =>
    obtain ⟨e, c₁, he, hc₁⟩ := readsUpTo _ (Nat.le_refl _) e hk hc
    exact ⟨_, c₁, .expression he, hc₁⟩

end

end Parse

-- ---------------------------------------------------------------------------
-- Token lists
-- ---------------------------------------------------------------------------

section
variable {w : List Token} {stop : Token}

theorem first_eq_ok (h : IsSegment stop tokens) :
    Parse.first tokens = .ok s ↔
      ∃ c', Parse.ReadsStatement (.ofTokens tokens) s c' ∧ c'.rest = [stop] := by
  rw [← Parse.statement_ok_iff (c := .ofTokens tokens) h, Parse.first, map_ok]
  constructor
  · rintro ⟨⟨_, c'⟩, hc', rfl⟩
    exact ⟨c', hc'⟩
  · rintro ⟨c', hc'⟩
    exact ⟨_, hc', rfl⟩

theorem statements_eq_ok (hw : Unended w) (hne : w ≠ []) (hend : stop.kind = .endOfInput) :
    Parse.statements (w ++ [stop]) = [.ok s] ↔
      ∃ c', Parse.ReadsStatement (.ofTokens (w ++ [stop])) s c' ∧ c'.rest = [stop] := by
  rw [(Parse.reads_last hw hend).statements_eq, Parse.ofSegment, if_neg hne, List.singleton_inj,
    first_eq_ok (isSegment_append hw (.inr hend))]

end

/-- Tokens without a `;` are read as one statement exactly if the grammar derives them, and then the
tree spells all of them in order. -/
theorem statements_accept_grammar (w : List Token) (stop : Token) (hw : Unended w)
    (hend : stop.kind = .endOfInput) :
    ((∃ s, Parse.statements (w ++ [stop]) = [.ok s]) ↔ Grammar.Statement (w.map Token.kind)) ∧
    ∀ s, Parse.statements (w ++ [stop]) = [.ok s] →
      Grammar.SpellsStatement s (w.map Token.kind) := by
  by_cases hne : w = []
  · subst hne
    have hnone : ∀ s, Parse.statements ([] ++ [stop]) ≠ [.ok s] := by
      intro s
      rw [(Parse.reads_last hw hend).statements_eq]
      exact (List.cons_ne_nil _ _).symm
    refine ⟨⟨?_, fun h => absurd h.length_pos (Nat.lt_irrefl 0)⟩, fun s hs => absurd hs (hnone s)⟩
    rintro ⟨s, hs⟩
    exact absurd hs (hnone s)
  -- the cursor before the tokens sees their kinds and the end, the one behind them only the end
  have hkinds : TokenCursor.kinds (.ofTokens (w ++ [stop])) = w.map Token.kind ++ [stop.kind] :=
    List.map_append
  have hspells : ∀ s, Parse.statements (w ++ [stop]) = [.ok s] →
      Grammar.SpellsStatement s (w.map Token.kind) := by
    intro s hs
    obtain ⟨c', hread, hrest⟩ := (statements_eq_ok hw hne hend).mp hs
    obtain ⟨v, hv, hspells⟩ := hread.spells
    rw [hkinds, TokenCursor.kinds, hrest] at hv
    rwa [List.append_cancel_right hv]
  refine ⟨⟨?_, fun h => ?_⟩, hspells⟩
  · rintro ⟨s, hs⟩
    exact (hspells s hs).statement
  have hends : Parse.EndsExpression stop.kind := hend ▸ Parse.endsExpression_endOfInput
  obtain ⟨s, c', hread, hc'⟩ := Parse.exists_readsStatement h hends hkinds
  have hsegment := (Parse.reads_statement (isSegment_append hw (.inr hend)) hread.run).2
  refine ⟨s, (statements_eq_ok hw hne hend).mpr ⟨c', hread, ?_⟩⟩
  exact TokenCursor.eq_stop (p := ⟨stop, .identity, []⟩) hsegment
    (.inr ((TokenCursor.kind_of_kinds hc').trans hend))

/-- A branch whose last expression takes the operators behind it, as an operand, and a call. -/
theorem statements_accept_nested_branch :
    let tokens : List Token := [.identifier "x", .char '=', .keyword .ifWord, .identifier "a",
      .char '<', .number .one, .keyword .thenWord, .identifier "f", .char '(', .identifier "a",
      .char ',', .char '(', .identifier "b", .char ')', .char ')', .keyword .elseWord,
      .number .zero, .char '+', .identifier "x", .char '*', .identifier "x"].map (⟨·, {}⟩)
    Grammar.Statement (tokens.map Token.kind) ∧
      ∃ s, Parse.statements (tokens ++ [⟨.endOfInput, {}⟩]) = [.ok s] ∧
        Grammar.SpellsStatement s (tokens.map Token.kind) := by
  intro tokens
  have hw : Unended tokens := by
    unfold Unended
    decide
  obtain ⟨s, hs⟩ : ∃ s, Parse.statements (tokens ++ [⟨.endOfInput, {}⟩]) = [.ok s] := ⟨_, rfl⟩
  have h := statements_accept_grammar tokens ⟨.endOfInput, {}⟩ hw rfl
  exact ⟨h.1.mp ⟨s, hs⟩, s, hs, h.2 s hs⟩

end NumericJit
