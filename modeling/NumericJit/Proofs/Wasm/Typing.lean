import NumericJit.Proofs.Lowering.Meaning
import NumericJit.Wasm.Validity

/-!
# Lowered code is well typed

The code of a well-formed expression can be assembled in a unit that knows its callees, and its
operations leave exactly one number on top of whatever operands they find, inside any labels
(`formed_typed`). A loop is the only place with a jump, and the jump leads to the loop's own label.
-/

namespace NumericJit.Wasm

section
variable {u : CodeUnit} {name : String} {cx : CheckContext} {labels : List Label}

theorem opsOfCode_append (h₁ : opsOfCode u name labels c = .ok ops)
    (h₂ : opsOfCode u name labels d = .ok others) :
    opsOfCode u name labels (c ++ d) = .ok (ops ++ others) := by
  induction c generalizing ops with
  | nil =>
    cases h₁
    exact h₂
  | cons i rest ih =>
    simp only [opsOfCode, bind_ok] at h₁
    obtain ⟨first, hi, more, hrest, heq⟩ := h₁
    cases heq
    simp only [List.cons_append, opsOfCode, hi, ih hrest, List.append_assoc]
    rfl

theorem checkOps_append (ops others : List Op) (stack : List ValType) :
    checkOps cx labels (ops ++ others) stack =
      (checkOps cx labels ops stack).bind (checkOps cx labels others) := by
  induction ops generalizing stack with
  | nil => rfl
  | cons op rest ih =>
    simp only [List.cons_append, checkOps, Option.bind_assoc]
    exact congrArg _ (funext fun stack => ih stack)

end

/-- Code of a function that can be assembled and takes operands of some types to others. Around
the labels stands the one of the function itself. -/
def Typed (u : CodeUnit) (name : String) (cx : CheckContext) (labels : List Label) (code : Code)
    (before after : List ValType) : Prop :=
  ∃ ops, opsOfCode u name labels code = .ok ops ∧
    checkOps cx (labels ++ [.block]) ops before = some after

section
variable {u : CodeUnit} {name : String} {cx : CheckContext} {labels : List Label}
  {before between after : List ValType}

theorem Typed.append (h₁ : Typed u name cx labels c before between)
    (h₂ : Typed u name cx labels d between after) :
    Typed u name cx labels (c ++ d) before after := by
  obtain ⟨ops, hops, hcheck⟩ := h₁
  obtain ⟨others, hothers, hcheck'⟩ := h₂
  refine ⟨ops ++ others, opsOfCode_append hops hothers, ?_⟩
  rw [checkOps_append, hcheck]
  exact hcheck'

theorem Typed.cons {i : Instr} (h₁ : Typed u name cx labels [i] before between)
    (h₂ : Typed u name cx labels rest between after) :
    Typed u name cx labels (i :: rest) before after := h₁.append h₂

theorem Typed.const (x : Number) : Typed u name cx labels [.const x] before (.num :: before) :=
  ⟨[.const x], rfl, rfl⟩

theorem Typed.load (h : i < cx.slots) :
    Typed u name cx labels [.load i] before (.num :: before) :=
  ⟨[.localGet i], rfl, by simp [checkOps, checkOp, h]⟩

theorem Typed.store (h : i < cx.slots) :
    Typed u name cx labels [.store i] (.num :: before) before :=
  ⟨[.localSet i], rfl, by simp [checkOps, checkOp, popTypes?, h]⟩

theorem Typed.tee (h : i < cx.slots) :
    Typed u name cx labels [.tee i] (.num :: before) (.num :: before) :=
  ⟨[.localTee i], rfl, by simp [checkOps, checkOp, popTypes?, h]⟩

theorem Typed.add : Typed u name cx labels [.add] (.num :: .num :: before) (.num :: before) :=
  ⟨[.add], rfl, rfl⟩

theorem Typed.ltUnordered :
    Typed u name cx labels [.ltUnordered] (.num :: .num :: before) (.flag :: before) :=
  ⟨[.ge, .eqz], rfl, rfl⟩

theorem Typed.boolToNumber :
    Typed u name cx labels [.boolToNumber] (.flag :: before) (.num :: before) :=
  ⟨[.convert], rfl, rfl⟩

theorem Typed.numberToBool :
    Typed u name cx labels [.numberToBool] (.num :: before) (.flag :: before) :=
  ⟨[.abs, .const .zero, .gt], rfl, rfl⟩

theorem Typed.drop : Typed u name cx labels [.drop] (t :: before) before := ⟨[.drop], rfl, rfl⟩

theorem Typed.operator (hop : isOperator op = true) (hne : op ≠ '>') :
    Typed u name cx labels ((Lower.operatorCode? op).getD []) (.num :: .num :: before)
      (.num :: before) := by
  simp only [isOperator, Bool.or_eq_true, beq_iff_eq] at hop
  rcases hop with (((rfl | rfl) | rfl) | rfl) | rfl
  · exact Typed.ltUnordered.cons .boolToNumber
  · exact absurd rfl hne
  · exact ⟨[.add], rfl, rfl⟩
  · exact ⟨[.sub], rfl, rfl⟩
  · exact ⟨[.mul], rfl, rfl⟩

theorem popTypes?_replicate (n : Nat) (stack : List ValType) :
    popTypes? (List.replicate n .num) (List.replicate n .num ++ stack) = some stack := by
  induction n with
  | zero => rfl
  | succ n ih => simpa [List.replicate_succ, popTypes?] using ih

theorem Typed.call (h : u.callTarget? callee = some (index, count))
    (hcx : cx.arity? index = some count) :
    Typed u name cx labels [.call callee count] (List.replicate count .num ++ before)
      (.num :: before) := by
  refine ⟨[.call index], ?_, ?_⟩
  · simp [opsOfCode, opsOfInstr, h, bind, Except.bind]
  · simp [checkOps, checkOp, hcx, popTypes?_replicate]

theorem Typed.branch (hy : Typed u name cx (.block :: labels) yes [] [.num])
    (hn : Typed u name cx (.block :: labels) no [] [.num]) :
    Typed u name cx labels [.branch yes no] (.flag :: before) (.num :: before) := by
  obtain ⟨yesOps, hyOps, hyCheck⟩ := hy
  obtain ⟨noOps, hnOps, hnCheck⟩ := hn
  refine ⟨[.ifElse yesOps noOps], ?_, ?_⟩
  · simp [opsOfCode, opsOfInstr, hyOps, hnOps, bind, Except.bind]
  · rw [List.cons_append] at hyCheck hnCheck
    simp [checkOps, checkOp, popTypes?, hyCheck, hnCheck]

theorem Typed.loop {round : Code} (h : Typed u name cx (.loop :: labels) round [] [.flag]) :
    Typed u name cx labels [.loop (round ++ [.continueIf])] before before := by
  have hcontinue : Typed u name cx (.loop :: labels) [.continueIf] [.flag] [] :=
    ⟨[.brIf 0], rfl, rfl⟩
  obtain ⟨ops, hops, hcheck⟩ := h.append hcontinue
  refine ⟨[.loop ops], ?_, ?_⟩
  · simp [opsOfCode, opsOfInstr, hops, bind, Except.bind, Except.map]
  · rw [List.cons_append] at hcheck
    simp [checkOps, checkOp, hcheck]

end

-- ---------------------------------------------------------------------------
-- Expressions
-- ---------------------------------------------------------------------------

def TypesAs (u : CodeUnit) (name : String) (cx : CheckContext) (names : List String) (e : Expr) :
    Prop :=
  ∀ {scope : SlotMap} {n : Nat} {labels : List Label} {before : List ValType}, scope.Names names →
    scope.Fits n → n + e.slotCount ≤ cx.slots →
    Typed u name cx labels (e.code scope n) before (.num :: before)

section
variable {u : CodeUnit} {name : String} {cx : CheckContext} {labels : List Label}
  {before : List ValType} {scope : SlotMap} {n : Nat}

theorem slot_lt (hn : scope.Names names) (hf : scope.Fits n) (hle : n ≤ cx.slots)
    (hin : var ∈ names) : (scope var).getD 0 < cx.slots := by
  obtain ⟨i, hi⟩ := Option.isSome_iff_exists.mp ((hn var).mp hin)
  rw [hi]
  exact Nat.lt_of_lt_of_le (hf.below hi) hle

theorem args_typed (ih : ∀ e ∈ args, TypesAs u name cx names e) (hn : scope.Names names)
    (hf : scope.Fits n) (hsize : n + Expr.argSlots args ≤ cx.slots) :
    Typed u name cx labels (Expr.argCode scope n args) before
      (List.replicate args.length .num ++ before) := by
  induction args generalizing n before with
  | nil => exact ⟨[], rfl, rfl⟩
  | cons e es ihes =>
    simp only [Expr.argSlots] at hsize
    have he : Typed u name cx labels (e.code scope n) before (.num :: before) :=
      ih e (by simp) hn hf (by omega)
    have hes : Typed u name cx labels (Expr.argCode scope (n + e.slotCount) es) (.num :: before)
        (List.replicate es.length .num ++ .num :: before) :=
      ihes (fun e he => ih e (by simp [he])) (hf.mono (Nat.le_add_right n e.slotCount)) (by omega)
    have hcount : List.replicate (e :: es).length ValType.num ++ before =
        List.replicate es.length .num ++ .num :: before := by
      simp [List.replicate_succ', List.append_assoc]
    rw [hcount]
    exact he.append hes

theorem step_typed (ih : ∀ e ∈ step, TypesAs u name cx names e) (hn : scope.Names names)
    (hf : scope.Fits n) (hsize : n + Expr.stepSlots step ≤ cx.slots) :
    Typed u name cx labels (Expr.stepCode scope n step) before before := by
  cases step with
  | none => exact ⟨[], rfl, rfl⟩
  | some e =>
    simp only [Expr.stepSlots] at hsize
    exact (ih e rfl hn hf (by omega)).append (.store (by omega))

theorem stepInstr_typed (hsize : n + Expr.stepSlots step ≤ cx.slots) :
    Typed u name cx labels [Expr.stepInstr n step] before (.num :: before) := by
  cases step with
  | none => exact .const .one
  | some e =>
    simp only [Expr.stepSlots] at hsize
    exact .load (by omega)

theorem round_typed (ihb : TypesAs u name cx names body) (ihs : TypesAs u name cx names stop)
    (hn : scope.Names names) (hf : scope.Fits n) (hslot : slot < cx.slots)
    (hsize : n + Expr.stepSlots step + body.slotCount + stop.slotCount ≤ cx.slots) :
    Typed u name cx labels (Expr.roundCode scope slot n step body stop) [] [.flag] := by
  refine Typed.append (ihb hn (hf.mono (by omega)) (by omega)) ?_
  refine Typed.drop.cons ((Typed.load hslot).cons ((stepInstr_typed (by omega)).cons ?_))
  refine Typed.add.cons ((Typed.tee hslot).cons ?_)
  exact (ihs hn (hf.mono (by omega)) (by omega)).append .ltUnordered

theorem loop_typed {span : Span} (ihs : TypesAs u name cx names start)
    (ihStep : ∀ e ∈ step, TypesAs u name cx names e)
    (ihb : TypesAs u name cx (counter :: names) body)
    (ihe : TypesAs u name cx (counter :: names) stop) :
    TypesAs u name cx names (.loop counter start stop step body span) := by
  intro scope n labels before hn hf hsize
  simp only [Expr.slotCount] at hsize
  rw [Expr.code_loop]
  have hinner : (scope.bind counter n).Fits (n + 1 + start.slotCount) :=
    (hf.bind counter (Nat.le_refl n)).mono (by omega)
  refine (ihs hn (hf.mono (by omega)) (by omega)).append ((Typed.store (by omega)).cons ?_)
  refine (step_typed ihStep hn (hf.mono (by omega)) (by omega)).append ?_
  refine (Typed.loop ?_).cons (.const .zero)
  exact round_typed ihb ihe (hn.bind counter n) hinner (by omega) (by omega)

theorem initial_typed (ih : ∀ e ∈ b.2, TypesAs u name cx names e) (hn : scope.Names names)
    (hf : scope.Fits n) (hsize : n + Expr.initialSlots b ≤ cx.slots) :
    Typed u name cx labels (Expr.initialCode scope n b) before (.num :: before) := by
  obtain ⟨var, initial⟩ := b
  cases initial with
  | none => exact .const .zero
  | some e => exact ih e rfl hn hf hsize

/-- The code of a well-formed expression leaves one number on top of the operands it finds. The
unit has to know every callee under the arity that the expression was checked with. -/
theorem formed_typed (h : Expr.Formed arityOf names e)
    (hcalls : ∀ {c k}, arityOf c = .ok k →
      ∃ index, u.callTarget? c = some (index, k) ∧ cx.arity? index = some k) :
    TypesAs u name cx names e := by
  induction h with
  | number x span =>
    intro scope n labels before _ _ _
    exact .const x
  | var h span =>
    intro scope n labels before hn hf hsize
    exact .load (slot_lt hn hf hsize h)
  | assign target _ h span ih =>
    intro scope n labels before hn hf hsize
    simp only [Expr.slotCount] at hsize
    exact (ih hn hf (by omega)).append (.tee (slot_lt hn hf (by omega) h))
  | @operator op names lhs rhs hop _ _ span ihl ihr =>
    intro scope n labels before hn hf hsize
    have hassign : op ≠ '=' := ne_assign_of_isOperator hop
    simp only [Expr.slotCount] at hsize
    simp only [Expr.code, hassign, ↓reduceIte]
    by_cases hgt : op = '>'
    · subst hgt
      simp only [↓reduceIte] at hsize
      simp only [↓reduceIte, List.append_assoc, List.cons_append]
      refine (ihl hn hf (by omega)).append ((Typed.store (by omega)).cons ?_)
      refine (ihr hn (hf.mono (by omega)) (by omega)).append ?_
      exact (Typed.load (by omega)).cons (Typed.ltUnordered.cons .boolToNumber)
    · simp only [hgt, ↓reduceIte] at hsize
      simp only [hgt, ↓reduceIte, List.append_assoc]
      refine (ihl hn hf (by omega)).append ?_
      exact (ihr hn (hf.mono (by omega)) (by omega)).append (.operator hop hgt)
  | call h _ span ih =>
    intro scope n labels before hn hf hsize
    obtain ⟨index, htarget, hcx⟩ := hcalls h
    exact (args_typed ih hn hf hsize).append (.call htarget hcx)
  | branch _ _ _ span ihc ihy ihn =>
    intro scope n labels before hn hf hsize
    simp only [Expr.slotCount] at hsize
    refine (ihc hn hf (by omega)).append (Typed.numberToBool.cons (.branch ?_ ?_))
    · exact ihy hn (hf.mono (by omega)) (by omega)
    · exact ihn hn (hf.mono (by omega)) (by omega)
  | loop _ _ _ _ span ihs ihStep ihb ihe => exact loop_typed ihs ihStep ihb ihe
  | body _ span ih =>
    intro scope n labels before hn hf hsize
    simp only [Expr.slotCount, Expr.localSlots, Nat.zero_add] at hsize
    exact ih hn hf hsize
  | @localVar b names rest body span _ _ ih ihrest =>
    intro scope n labels before hn hf hsize
    simp only [Expr.slotCount, Expr.localSlots] at hsize
    have hle : n ≤ n + Expr.initialSlots b := Nat.le_add_right n _
    refine (initial_typed ih hn hf (by omega)).append ((Typed.store (by omega)).cons ?_)
    exact ihrest (hn.bind b.1 _) (hf.bind b.1 hle) (by simp only [Expr.slotCount]; omega)

end

end NumericJit.Wasm
