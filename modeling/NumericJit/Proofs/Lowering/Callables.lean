import NumericJit.Lowering.Statement
import NumericJit.Proofs.Runs

/-!
# What lowering does to the unit

Lowering a body changes the unit in one way only: a resident function that the body calls, and that
the unit does not know yet, is declared with its recorded arity (`CodeUnit.use`). The arity under
which a name can be called stays what it was (`arityIn_useAll`), so it can be settled before
lowering begins, and a name the unit knows keeps its arity (`arity?_useAll`).
-/

namespace NumericJit

namespace CodeUnit

theorem arity?_external {u : CodeUnit} (h : u.arity? name = none) (other : String) :
    ({ u with externals := u.externals ++ [(name, arity)] } : CodeUnit).arity? other =
      if other = name then some arity else u.arity? other := by
  simp only [arity?, function?] at h ⊢
  by_cases ho : other = name
  · subst ho
    cases hf : u.functions.find? fun f => f.name == other with
    | some f => simp [hf] at h
    | none =>
      simp only [hf] at h
      simp [List.lookup_append, h]
  · cases u.functions.find? fun f => f.name == other with
    | some f => simp [ho]
    | none => simp [List.lookup_append, List.lookup_cons, beq_eq_false_iff_ne.mpr ho, ho]

theorem arity?_function {u : CodeUnit} (h : u.arity? f.name = none) (other : String) :
    ({ u with functions := u.functions ++ [f] } : CodeUnit).arity? other =
      if other = f.name then some f.arity else u.arity? other := by
  simp only [arity?, function?] at h ⊢
  by_cases ho : other = f.name
  · subst ho
    cases hf : u.functions.find? fun g => g.name == f.name with
    | some g => simp [hf] at h
    | none => simp [hf]
  · have hb : (f.name == other) = false := beq_eq_false_iff_ne.mpr (Ne.symm ho)
    cases hf : u.functions.find? fun g => g.name == other <;> simp [hf, hb, ho]

theorem declare_new {u : CodeUnit} (h : u.arity? name = none) :
    u.declare name arity = .ok { u with externals := u.externals ++ [(name, arity)] } := by
  simp [declare, h]

theorem declare_known {u : CodeUnit} (h : u.arity? name = some arity) :
    u.declare name arity = .ok u := by
  simp [declare, h]

theorem add_new {u : CodeUnit} (h : u.arity? f.name = none) :
    u.add f = .ok { u with functions := u.functions ++ [f] } := by
  simp [add, h]

/-- The unit after a callee was looked up inside the function `own`: what is resident with a
recorded arity, and new to the unit, is declared. -/
def use (around : Surroundings) (own : String) (u : CodeUnit) (callee : String) : CodeUnit :=
  if callee = own ∨ (u.arity? callee).isSome ∨ around.resident callee = false then u
  else
    match around.arities.get? callee with
    | some arity => { u with externals := u.externals ++ [(callee, arity)] }
    | none => u

def useAll (around : Surroundings) (own : String) (u : CodeUnit) (callees : List String) :
    CodeUnit :=
  callees.foldl (use around own) u

@[simp] theorem useAll_nil (around : Surroundings) (own : String) (u : CodeUnit) :
    u.useAll around own [] = u := rfl

theorem useAll_append (around : Surroundings) (own : String) (u : CodeUnit) (l₁ l₂ : List String) :
    u.useAll around own (l₁ ++ l₂) = (u.useAll around own l₁).useAll around own l₂ :=
  List.foldl_append

/-- Looking a callee up changes nothing, or declares a resident function that the unit did not
know. -/
theorem use_cases (around : Surroundings) (own : String) (u : CodeUnit) (callee : String) :
    u.use around own callee = u ∨
      ∃ arity, callee ≠ own ∧ u.arity? callee = none ∧ around.resident callee = true ∧
        around.arities.get? callee = some arity ∧
        u.use around own callee = { u with externals := u.externals ++ [(callee, arity)] } := by
  unfold use
  split
  · exact .inl rfl
  · rename_i h
    simp only [not_or, Bool.not_eq_true, Bool.not_eq_false, Option.isSome_eq_false_iff,
      Option.isNone_iff_eq_none] at h
    obtain ⟨hown, hnew, hres⟩ := h
    cases ha : around.arities.get? callee with
    | none => exact .inl rfl
    | some arity => exact .inr ⟨arity, hown, hnew, hres, rfl, rfl⟩

theorem useAll_induction {P : CodeUnit → Prop} (around : Surroundings) (own : String)
    (callees : List String)
    (step : ∀ u callee, callee ∈ callees → P u → P (u.use around own callee))
    (h : P u) : P (u.useAll around own callees) := by
  induction callees generalizing u with
  | nil => exact h
  | cons c cs ih =>
    refine ih (fun u callee hc => step u callee (List.mem_cons_of_mem _ hc)) ?_
    exact step u c (by simp) h

section
variable {around : Surroundings} {own name callee : String} {callees : List String} {u : CodeUnit}

theorem arity?_use (h : u.arity? name = some arity) :
    (u.use around own callee).arity? name = some arity := by
  rcases use_cases around own u callee with he | ⟨a, -, hnew, -, -, he⟩
  · rw [he]; exact h
  · rw [he, arity?_external hnew]
    have hne : name ≠ callee := by
      rintro rfl
      simp [hnew] at h
    simp [hne, h]

theorem arity?_useAll (h : u.arity? name = some arity) :
    (u.useAll around own callees).arity? name = some arity :=
  useAll_induction (P := fun v => v.arity? name = some arity) around own callees
    (fun _ _ _ => arity?_use) h

theorem arity?_use_own (h : u.arity? own = none) : (u.use around own callee).arity? own = none := by
  rcases use_cases around own u callee with he | ⟨a, hown, hnew, -, -, he⟩
  · rw [he]; exact h
  · rw [he, arity?_external hnew]
    simp [Ne.symm hown, h]

theorem arity?_useAll_own (h : u.arity? own = none) :
    (u.useAll around own callees).arity? own = none :=
  useAll_induction (P := fun v => v.arity? own = none) around own callees
    (fun _ _ _ => arity?_use_own) h

@[simp] theorem functions_use : (u.use around own callee).functions = u.functions := by
  rcases use_cases around own u callee with he | ⟨a, -, -, -, -, he⟩ <;> rw [he]

@[simp] theorem functions_useAll : (u.useAll around own callees).functions = u.functions :=
  useAll_induction (P := fun v => v.functions = u.functions) around own callees
    (fun _ _ _ h => functions_use.trans h) rfl

@[simp] theorem id_use : (u.use around own callee).id = u.id := by
  rcases use_cases around own u callee with he | ⟨a, -, -, -, -, he⟩ <;> rw [he]

@[simp] theorem id_useAll : (u.useAll around own callees).id = u.id :=
  useAll_induction (P := fun v => v.id = u.id) around own callees
    (fun _ _ _ h => id_use.trans h) rfl

end

end CodeUnit

/-- The arity under which a name can be called inside the function `own`, or why it cannot. -/
def arityIn (around : Surroundings) (own : String) (arity : Nat) (u : CodeUnit) (callee : String) :
    Except Cause Nat :=
  if callee = own then .ok arity
  else
    match u.arity? callee with
    | some known => .ok known
    | none =>
      if around.resident callee = false then .error (.unknownFunction callee)
      else
        match around.arities.get? callee with
        | none => .error (.arityUnrecorded callee)
        | some known => .ok known

theorem arityIn_use (around : Surroundings) (own : String) (arity : Nat) (u : CodeUnit)
    (callee : String) :
    arityIn around own arity (u.use around own callee) = arityIn around own arity u := by
  funext name
  rcases CodeUnit.use_cases around own u callee with he | ⟨a, hown, hnew, hres, ha, he⟩
  · rw [he]
  · simp only [arityIn, he, CodeUnit.arity?_external hnew]
    by_cases hn : name = callee
    · subst hn
      simp [hown, hnew, hres, ha]
    · simp [hn]

theorem arityIn_useAll (around : Surroundings) (own : String) (arity : Nat) (u : CodeUnit)
    (callees : List String) :
    arityIn around own arity (u.useAll around own callees) = arityIn around own arity u :=
  CodeUnit.useAll_induction (P := fun v => arityIn around own arity v = arityIn around own arity u)
    around own callees (fun v callee _ h => (arityIn_use around own arity v callee).trans h) rfl

theorem arity?_use_callee (hown : callee ≠ own) (h : arityIn around own arity u callee = .ok k) :
    (u.use around own callee).arity? callee = some k := by
  simp only [arityIn, hown, if_false] at h
  unfold CodeUnit.use
  cases hk : u.arity? callee with
  | some known =>
    simp only [hk] at h
    cases h
    simp [hk]
  | none =>
    simp only [hk] at h
    cases hr : around.resident callee with
    | false => simp [hr] at h
    | true =>
      cases ha : around.arities.get? callee with
      | none => simp [hr, ha] at h
      | some known =>
        simp only [hr, ha] at h
        cases h
        simp [hown, CodeUnit.arity?_external hk]

end NumericJit
