import Mathlib.Data.List.TakeWhile
import NumericJit.Statement.Grouping

/-!
# Two ways to group operators

Under either rule a chain of operands and operators has at most one grouping (`Follows.unique`). By
associativity it has one (`exists_associative`), and that is the one that the levels of the grammar
give (`assignment_iff`). What is grouped by neighbours is grouped by associativity too exactly if no
assignment is late (`Follows.associativity_iff`).
-/

namespace NumericJit

-- ---------------------------------------------------------------------------
-- Levels
-- ---------------------------------------------------------------------------

theorem bindingLevel_eq (h : precedence? op = some level) : bindingLevel op = level := by
  rw [bindingLevel, h, Option.getD_some]

theorem isRightAssociative_iff : isRightAssociative op = true ↔ op = '=' := beq_iff_eq

theorem bindingLevel_cases (op : Char) :
    bindingLevel op = 0 ∧ precedence? op = none ∧ op ∉ ['=', '<', '>', '+', '-', '*'] ∨
    bindingLevel op = 2 ∧ op = '=' ∨ bindingLevel op = 10 ∧ (op = '<' ∨ op = '>') ∨
    bindingLevel op = 20 ∧ (op = '+' ∨ op = '-') ∨ bindingLevel op = 40 ∧ op = '*' := by
  unfold bindingLevel precedence?
  split <;> simp_all

theorem eq_assign_iff : op = '=' ↔ bindingLevel op = 2 := by
  constructor
  · rintro rfl
    rfl
  · have := bindingLevel_cases op
    grind

/-- Operators of one level group to the same side. -/
theorem isRightAssociative_congr (h : bindingLevel op = bindingLevel op') :
    isRightAssociative op = isRightAssociative op' := by
  rw [Bool.eq_iff_iff, isRightAssociative_iff, isRightAssociative_iff, eq_assign_iff, eq_assign_iff,
    h]

theorem assign_lt (h : (precedence? op).isSome) (hne : op ≠ '=') : 2 < bindingLevel op := by
  have := bindingLevel_cases op
  grind

namespace Grouping

variable {rule : GroupingRule} {t t' lhs rhs : Grouping}

theorem length_operands (t : Grouping) : t.operands.length = t.operators.length + 1 := by
  induction t with
  | operand e => rfl
  | binary op lhs rhs ihl ihr =>
    simp only [operands, operators, List.length_append, List.length_cons, ihl, ihr]
    omega

theorem operators_ne_nil (op : Char) (lhs rhs : Grouping) : (binary op lhs rhs).operators ≠ [] := by
  simp [operators]

-- ---------------------------------------------------------------------------
-- One grouping for each chain
-- ---------------------------------------------------------------------------

/-- Of two operators that bind as tightly, the rule does not let each be inside the other. -/
def Strict (rule : GroupingRule) : Prop :=
  ∀ {op op' before between behind}, bindingLevel op = bindingLevel op' →
    rule.right op (between ++ op' :: behind) → ¬ rule.left op' (before ++ op :: between)

theorem strict_associativity : Strict .associativity := by
  intro op op' before between behind hlevel hright hleft
  have hcongr := isRightAssociative_congr hlevel
  rw [hright, hleft] at hcongr
  cases hcongr

theorem strict_neighbours : Strict .neighbours := by
  rintro op op' before between behind hlevel ⟨hop, hhead⟩ hleft
  have hop' : isRightAssociative op' = true := isRightAssociative_congr hlevel ▸ hop
  have hchain := hleft hop'
  rw [List.append_assoc, List.cons_append] at hchain
  -- the operator right behind the first one is an assignment too
  obtain ⟨next, others, hnext, hright⟩ : ∃ next others, between ++ [op'] = next :: others ∧
      isRightAssociative next = true := by
    cases between with
    | nil => exact ⟨op', [], rfl, hop'⟩
    | cons next others =>
      obtain rfl : next = op := Option.some.inj hhead
      exact ⟨next, others ++ [op'], rfl, hop⟩
  rw [hnext, List.isChain_append_cons_cons] at hchain
  exact hchain.2.1 ⟨hop, hright⟩

/-- The last operator to be grouped is the same one. -/
theorem Follows.not_inside (hstrict : Strict rule) (h : Follows rule (.binary op lhs rhs))
    (h' : Follows rule (.binary op' lhs' rhs'))
    (hleft : lhs'.operators = lhs.operators ++ op :: between)
    (hright : rhs.operators = between ++ op' :: rhs'.operators) : False := by
  cases h with
  | binary _ right _ _ =>
    cases h' with
    | binary left _ _ _ =>
      have hop' := right op' (by simp [hright])
      have hop := left op (by simp [hleft])
      have hlevel : bindingLevel op = bindingLevel op' := by omega
      obtain hlt | ⟨-, hin⟩ := hop'
      · exact absurd hlevel hlt.ne
      obtain hlt | ⟨-, hin'⟩ := hop
      · exact absurd hlevel hlt.ne'
      rw [hright] at hin
      rw [hleft] at hin'
      exact hstrict hlevel hin hin'

theorem Follows.unique (hstrict : Strict rule) (h : t.Follows rule) (h' : t'.Follows rule)
    (hsame : t.SameChain t') : t = t' := by
  obtain ⟨hoperands, hoperators⟩ := hsame
  induction h generalizing t' with
  | operand =>
    cases t' with
    | operand e' => rw [List.singleton_inj.mp hoperands]
    | binary op' lhs' rhs' => exact absurd hoperators.symm (operators_ne_nil op' lhs' rhs')
  | @binary op lhs rhs left right hlhs hrhs ihl ihr =>
    cases t' with
    | operand e' => exact absurd hoperators (operators_ne_nil op lhs rhs)
    | binary op' lhs' rhs' =>
      have ht := Follows.binary left right hlhs hrhs
      obtain ⟨hl, rfl, hr⟩ :
          lhs.operators = lhs'.operators ∧ op = op' ∧ rhs.operators = rhs'.operators := by
        obtain ⟨between, hl, hr⟩ | ⟨between, hl, hr⟩ := List.append_eq_append_iff.mp hoperators
        · cases between with
          | nil => simpa [hl, eq_comm] using hr
          | cons _ between =>
            obtain ⟨rfl, hbehind⟩ := List.cons.inj hr
            exact (ht.not_inside hstrict h' hl hbehind).elim
        · cases between with
          | nil => simpa [hl, eq_comm] using hr
          | cons _ between =>
            obtain ⟨rfl, hbehind⟩ := List.cons.inj hr
            exact (h'.not_inside hstrict ht hl hbehind).elim
      have hlength : lhs.operands.length = lhs'.operands.length := by
        rw [length_operands, length_operands, hl]
      obtain ⟨hl', hr'⟩ := List.append_inj hoperands hlength
      cases h' with
      | binary _ _ hlhs' hrhs' => rw [ihl hlhs' hl' hl, ihr hrhs' hr' hr]

def push (op : Char) (e : Expr) : Grouping → Grouping
  | .operand first => .binary op (.operand first) (.operand e)
  | .binary outer lhs rhs =>
    if bindingLevel outer < bindingLevel op ∨
        bindingLevel outer = bindingLevel op ∧ isRightAssociative outer = true then
      .binary outer lhs (rhs.push op e)
    else .binary op (.binary outer lhs rhs) (.operand e)

theorem operands_push (op : Char) (e : Expr) (t : Grouping) :
    (t.push op e).operands = t.operands ++ [e] := by
  induction t with
  | operand first => rfl
  | binary outer lhs rhs ihl ihr =>
    rw [push]
    split
    · simp [operands, ihr]
    · rfl

theorem operators_push (op : Char) (e : Expr) (t : Grouping) :
    (t.push op e).operators = t.operators ++ [op] := by
  induction t with
  | operand first => rfl
  | binary outer lhs rhs ihl ihr =>
    rw [push]
    split
    · simp [operators, ihr]
    · rfl

theorem Follows.push (h : t.Follows .associativity) (op : Char) (e : Expr) :
    (t.push op e).Follows .associativity := by
  induction h with
  | operand => exact .binary nofun nofun .operand .operand
  | @binary outer lhs rhs left right hlhs hrhs ihl ihr =>
    rw [Grouping.push]
    split
    next hinside =>
      refine .binary left ?_ hlhs ihr
      intro inner hinner
      rw [operators_push, List.mem_append, List.mem_singleton] at hinner
      obtain hinner | rfl := hinner
      · exact right inner hinner
      · exact hinside
    next houtside =>
      refine .binary ?_ nofun (.binary left right hlhs hrhs) .operand
      have houter : bindingLevel op < bindingLevel outer ∨
          bindingLevel op = bindingLevel outer ∧ isRightAssociative op = false := by
        by_cases hlevel : bindingLevel op = bindingLevel outer
        · rw [isRightAssociative_congr hlevel]
          grind
        · omega
      intro inner hinner
      have hle : bindingLevel outer ≤ bindingLevel inner := by
        obtain hl | hr := List.mem_append.mp hinner
        · have := left inner hl
          omega
        obtain rfl | hr := List.mem_cons.mp hr
        · exact le_rfl
        · have := right inner hr
          omega
      obtain hlt | ⟨heq, hright⟩ := houter
      · exact .inl (hlt.trans_le hle)
      · exact (Nat.lt_or_eq_of_le (heq ▸ hle)).imp_right (⟨·, hright⟩)

theorem exists_associative (e : Expr) (links : List (Char × Expr)) :
    ∃ t : Grouping, t.Follows .associativity ∧ t.operands = e :: links.map Prod.snd ∧
      t.operators = links.map Prod.fst := by
  induction links using List.reverseRecOn with
  | nil => exact ⟨.operand e, .operand, rfl, rfl⟩
  | append_singleton links link ih =>
    obtain ⟨t, ht, hoperands, hoperators⟩ := ih
    refine ⟨t.push link.1 link.2, ht.push _ _, ?_, ?_⟩
    · rw [operands_push, hoperands, List.map_append]
      rfl
    · rw [operators_push, hoperators, List.map_append]
      rfl

theorem Follows.le_inner (h : Follows rule (.binary op lhs rhs)) :
    ∀ inner ∈ (Grouping.binary op lhs rhs).operators, bindingLevel op ≤ bindingLevel inner := by
  cases h with
  | binary left right _ _ =>
    simp only [operators, List.mem_append, List.mem_cons]
    rintro inner (hinner | rfl | hinner)
    · have := left inner hinner
      omega
    · exact le_rfl
    · have := right inner hinner
      omega

-- ---------------------------------------------------------------------------
-- Levels of the grammar
-- ---------------------------------------------------------------------------

/-- Grouped by associativity, with operators that bind at least as tightly as given. -/
def Above (n : Nat) (t : Grouping) : Prop :=
  t.Follows .associativity ∧ ∀ op ∈ t.operators, n ≤ bindingLevel op

theorem Above.mono (h : Above m t) (hle : n ≤ m) : Above n t :=
  ⟨h.1, fun op hop => hle.trans (h.2 op hop)⟩

theorem above_operand : Above n (.operand e) := ⟨.operand, nofun⟩

theorem inside_iff {ops : List Char} {strict : Bool} :
    (∀ inner ∈ ops, n < bindingLevel inner ∨ n = bindingLevel inner ∧ strict = false) ↔
      ∀ inner ∈ ops, n + strict.toNat ≤ bindingLevel inner := by
  refine forall₂_congr fun inner _ => ?_
  cases strict with
  | false =>
    rw [and_iff_left rfl]
    exact Nat.le_iff_lt_or_eq.symm
  | true =>
    rw [or_iff_left fun h => Bool.noConfusion h.2]
    exact Nat.succ_le_iff.symm

theorem above_binary : Above n (.binary op lhs rhs) ↔ n ≤ bindingLevel op ∧
    Above (bindingLevel op + (isRightAssociative op).toNat) lhs ∧
    Above (bindingLevel op + (!isRightAssociative op).toNat) rhs := by
  unfold Above
  rw [← inside_iff, ← inside_iff, Bool.not_eq_false']
  constructor
  · rintro ⟨hfollows, habove⟩
    cases hfollows with
    | binary left right hlhs hrhs =>
      exact ⟨habove op (by simp [operators]), ⟨hlhs, left⟩, ⟨hrhs, right⟩⟩
  · rintro ⟨hop, ⟨hlhs, left⟩, ⟨hrhs, right⟩⟩
    have hfollows : Follows .associativity (.binary op lhs rhs) := .binary left right hlhs hrhs
    exact ⟨hfollows, fun inner hinner => hop.trans (hfollows.le_inner inner hinner)⟩

theorem folded_iff {level : List Char} {Inner : Grouping → Prop}
    (hlevel : ∀ op, op ∈ level ↔ bindingLevel op = n) (hn : n ≠ 2)
    (hinner : ∀ t, Inner t ↔ Above (n + 1) t) (t : Grouping) :
    Folded level Inner t ↔ Above n t := by
  have hleft : ∀ op, bindingLevel op = n → isRightAssociative op = false := by
    intro op hop
    rw [Bool.eq_false_iff, Ne, isRightAssociative_iff, eq_assign_iff, hop]
    exact hn
  constructor
  · intro h
    induction h with
    | inner h => exact ((hinner _).mp h).mono (Nat.le_succ n)
    | more hop _ hrhs ihl =>
      have hop := (hlevel _).mp hop
      rw [above_binary, hleft _ hop, hop]
      exact ⟨le_rfl, ihl, (hinner _).mp hrhs⟩
  · intro h
    induction t with
    | operand e => exact .inner ((hinner _).mpr above_operand)
    | binary op lhs rhs ihl ihr =>
      obtain ⟨hle, hlhs, hrhs⟩ := above_binary.mp h
      obtain hlt | rfl := Nat.lt_or_eq_of_le hle
      · exact .inner ((hinner _).mpr (above_binary.mpr ⟨hlt, hlhs, hrhs⟩))
      · rw [hleft op rfl] at hlhs hrhs
        exact .more ((hlevel op).mpr rfl) (ihl hlhs) ((hinner rhs).mpr hrhs)

theorem above_congr (h : ∀ op, n ≤ bindingLevel op ↔ m ≤ bindingLevel op) (t : Grouping) :
    Above n t ↔ Above m t := by
  unfold Above
  simp only [h]

theorem single_iff (t : Grouping) : Single t ↔ Above 41 t := by
  cases t with
  | operand e => exact ⟨fun _ => above_operand, fun _ => .operand⟩
  | binary op lhs rhs =>
    refine ⟨nofun, fun h => ?_⟩
    have := (above_binary.mp h).1
    have := bindingLevel_cases op
    omega

theorem product_iff (t : Grouping) : Product t ↔ Above 21 t := by
  refine (folded_iff ?_ (by decide) single_iff t).trans (above_congr ?_ t) <;> intro op
  · have := bindingLevel_cases op
    grind
  · have := bindingLevel_cases op
    omega

theorem sum_iff (t : Grouping) : Sum t ↔ Above 11 t := by
  refine (folded_iff ?_ (by decide) product_iff t).trans (above_congr ?_ t) <;> intro op
  · have := bindingLevel_cases op
    grind
  · have := bindingLevel_cases op
    omega

theorem comparison_iff (t : Grouping) : Comparison t ↔ Above 3 t := by
  refine (folded_iff ?_ (by decide) sum_iff t).trans (above_congr ?_ t) <;> intro op
  · have := bindingLevel_cases op
    grind
  · have := bindingLevel_cases op
    omega

/-- The levels of the grammar group by associativity. -/
theorem assignment_iff (t : Grouping) : Assignment t ↔ Above 2 t := by
  constructor
  · intro h
    induction h with
    | comparison h => exact ((comparison_iff _).mp h).mono (by decide)
    | assign hlhs _ ihr => exact above_binary.mpr ⟨le_rfl, (comparison_iff _).mp hlhs, ihr⟩
  · intro h
    induction t with
    | operand e => exact .comparison ((comparison_iff _).mpr above_operand)
    | binary op lhs rhs ihl ihr =>
      obtain ⟨hle, hlhs, hrhs⟩ := above_binary.mp h
      obtain hlt | heq := Nat.lt_or_eq_of_le hle
      · exact .comparison ((comparison_iff _).mpr (above_binary.mpr ⟨hlt, hlhs, hrhs⟩))
      · obtain rfl := eq_assign_iff.mpr heq.symm
        exact .assign ((comparison_iff _).mpr hlhs) (ihr hrhs)

theorem assignment_iff_follows (hknown : ∀ op ∈ t.operators, (precedence? op).isSome) :
    Assignment t ↔ t.Follows .associativity := by
  rw [assignment_iff, Above, and_iff_left]
  intro op hop
  by_cases hassign : op = '='
  · exact (eq_assign_iff.mp hassign).ge
  · exact (assign_lt (hknown op hop) hassign).le

-- ---------------------------------------------------------------------------
-- Where the two rules agree
-- ---------------------------------------------------------------------------

theorem hasLateAssignment_of_not_mem (h : '=' ∉ ops) : hasLateAssignment ops = false := by
  have hnone : ops.dropWhile (· ≠ '=') = [] := by
    rw [List.dropWhile_eq_nil_iff]
    intro op hop
    simpa using ne_of_mem_of_not_mem hop h
  rw [hasLateAssignment, hnone]
  rfl

theorem hasLateAssignment_append (h : '=' ∉ before) (behind : List Char) :
    hasLateAssignment (before ++ '=' :: behind) = (behind.dropWhile (· = '=')).contains '=' := by
  have hbefore : (before ++ '=' :: behind).dropWhile (· ≠ '=') = '=' :: behind := by
    rw [List.dropWhile_append_of_pos]
    · rfl
    · intro op hop
      simpa using ne_of_mem_of_not_mem hop h
  rw [hasLateAssignment, hbefore]
  rfl

theorem not_mem_of_lt {ops : List Char} (h : ∀ op ∈ ops, 2 < bindingLevel op) : '=' ∉ ops :=
  fun hmem => absurd (h '=' hmem) (by decide)

/-- Behind assignments that are apart from each other, an assignment is late. -/
theorem hasLateAssignment_of_mem (hmem : '=' ∈ before)
    (h : (before ++ ['=']).IsChain GroupingRule.Apart) (behind : List Char) :
    hasLateAssignment (before ++ '=' :: behind) = true := by
  obtain ⟨others, between, rfl, hfirst⟩ := List.eq_append_cons_of_mem hmem
  rw [List.append_assoc, List.cons_append, hasLateAssignment_append hfirst]
  cases between with
  | nil =>
    rw [List.append_assoc, List.cons_append, List.nil_append, List.isChain_append_cons_cons] at h
    exact absurd ⟨rfl, rfl⟩ h.2.1
  | cons next between =>
    rw [List.append_assoc, List.cons_append, List.cons_append, List.isChain_append_cons_cons] at h
    have hne : next ≠ '=' := fun heq => h.2.1 ⟨rfl, isRightAssociative_iff.mpr heq⟩
    rw [List.cons_append, List.dropWhile_cons_of_neg (by simpa using hne)]
    simp

theorem hasLateAssignment_of_head (h : '=' ∈ ops → ops.head? = some '=') :
    (ops.dropWhile (· = '=')).contains '=' = hasLateAssignment ops := by
  by_cases hmem : '=' ∈ ops
  · obtain ⟨rest, rfl⟩ := List.head?_eq_some_iff.mp (h hmem)
    have hfirst : '=' ∉ ([] : List Char) := nofun
    exact (hasLateAssignment_append hfirst rest).symm
  · rw [hasLateAssignment_of_not_mem hmem, Bool.eq_false_iff, Ne, List.contains_iff_mem]
    exact fun hin => hmem ((List.dropWhile_sublist _).mem hin)

theorem Follows.not_mem_of_ne (h : Follows rule (.binary op lhs rhs))
    (hop : (precedence? op).isSome) (hassign : op ≠ '=') :
    '=' ∉ (Grouping.binary op lhs rhs).operators :=
  not_mem_of_lt fun inner hinner => (assign_lt hop hassign).trans_le (h.le_inner inner hinner)

theorem Follows.hasLateAssignment_binary (hop : (precedence? op).isSome)
    (h : Follows .neighbours (.binary op lhs rhs)) :
    hasLateAssignment (Grouping.binary op lhs rhs).operators = false ↔
      (op = '=' → '=' ∉ lhs.operators) ∧ hasLateAssignment lhs.operators = false ∧
        hasLateAssignment rhs.operators = false := by
  by_cases hassign : op = '='
  · subst hassign
    cases h with
    | binary left right _ _ =>
      simp only [operators, forall_const]
      by_cases hmem : '=' ∈ lhs.operators
      · obtain hlt | ⟨-, hapart⟩ := left '=' hmem
        · exact absurd hlt (lt_irrefl _)
        · rw [hasLateAssignment_of_mem hmem (hapart rfl)]
          exact iff_of_false nofun fun hnone => hnone.1 hmem
      · have hhead : '=' ∈ rhs.operators → rhs.operators.head? = some '=' := by
          intro hmem
          obtain hlt | ⟨-, -, hhead⟩ := right '=' hmem
          · exact absurd hlt (lt_irrefl _)
          · exact hhead
        rw [hasLateAssignment_append hmem, hasLateAssignment_of_head hhead,
          hasLateAssignment_of_not_mem hmem]
        exact ⟨fun hlate => ⟨hmem, rfl, hlate⟩, fun hlate => hlate.2.2⟩
  · have hnone := h.not_mem_of_ne hop hassign
    simp only [operators, List.mem_append, List.mem_cons, not_or] at hnone
    refine iff_of_true (hasLateAssignment_of_not_mem (h.not_mem_of_ne hop hassign)) ?_
    exact ⟨fun heq => absurd heq hassign, hasLateAssignment_of_not_mem hnone.1,
      hasLateAssignment_of_not_mem hnone.2.2⟩

/-- By its neighbours, an operator is on the wrong side only if it is an assignment in the left
operand of another one. -/
theorem Follows.associativity_binary (h : Follows .neighbours (.binary op lhs rhs)) :
    Follows .associativity (.binary op lhs rhs) ↔
      (op = '=' → '=' ∉ lhs.operators) ∧ Follows .associativity lhs ∧
        Follows .associativity rhs := by
  constructor
  · intro hassociative
    cases hassociative with
    | binary left _ hlhs hrhs =>
      refine ⟨?_, hlhs, hrhs⟩
      rintro rfl hmem
      obtain hlt | ⟨-, hassociative⟩ := left '=' hmem
      · exact lt_irrefl _ hlt
      · cases hassociative
  · rintro ⟨hassign, hlhs, hrhs⟩
    cases h with
    | binary left right _ _ =>
      refine .binary (fun inner hinner => ?_) (fun inner hinner => ?_) hlhs hrhs
      · obtain hlt | ⟨heq, -⟩ := left inner hinner
        · exact .inl hlt
        · refine .inr ⟨heq, Bool.eq_false_iff.mpr fun hright => ?_⟩
          have hop := isRightAssociative_iff.mp hright
          have hinner' := isRightAssociative_iff.mp (isRightAssociative_congr heq ▸ hright)
          exact hassign hop (hinner' ▸ hinner)
      · exact (right inner hinner).imp_right fun hright => ⟨hright.1, hright.2.1⟩

theorem Follows.associativity_iff (hknown : ∀ op ∈ t.operators, (precedence? op).isSome)
    (h : t.Follows .neighbours) :
    t.Follows .associativity ↔ hasLateAssignment t.operators = false := by
  induction h with
  | operand => exact ⟨fun _ => rfl, fun _ => .operand⟩
  | @binary op lhs rhs left right hlhs hrhs ihl ihr =>
    have h := Follows.binary left right hlhs hrhs
    simp only [operators, List.forall_mem_append, List.forall_mem_cons] at hknown
    obtain ⟨hl, hop, hr⟩ := hknown
    rw [h.associativity_binary, h.hasLateAssignment_binary hop, ihl hl, ihr hr]

theorem isChain_of_not_mem (h : '=' ∉ ops) : (ops ++ ['=']).IsChain GroupingRule.Apart := by
  induction ops with
  | nil => exact List.isChain_singleton _
  | cons op ops ih =>
    rw [List.mem_cons, not_or] at h
    refine List.isChain_cons.mpr ⟨fun next _ hboth => ?_, ih h.2⟩
    exact h.1 (isRightAssociative_iff.mp hboth.1).symm

end Grouping

end NumericJit
