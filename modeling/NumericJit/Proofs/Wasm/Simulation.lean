import NumericJit.Proofs.Lowering.Meaning
import NumericJit.Proofs.Wasm.Encoding
import NumericJit.Wasm.Exec

/-!
# Module code does what slot code does

An instruction becomes one operation or a few, names of callees become indices, and going back to
the innermost loop becomes a jump over the labels in between. Run on the same frame and world, both
kinds of code end in the same way (`code_same`): they go on or stop alike, and where slot code goes
back to its loop, module code jumps to the label of that loop. A whole function of a well-formed
body then gives the value of that body (`call_of_tree`).
-/

namespace NumericJit

-- ---------------------------------------------------------------------------
-- Numbers
-- ---------------------------------------------------------------------------

namespace Number

theorem magnitude_abs (x : Number) : x.abs.magnitude = x.magnitude := by
  simp [abs, magnitude, UInt64.and_assoc]

theorem magnitude_lt (x : Number) : x.magnitude.toNat < 0x8000000000000000 := by
  have h : x.magnitude.toNat ≤ 0x7FFFFFFFFFFFFFFF := by
    simp only [magnitude, UInt64.toNat_and]
    exact Nat.and_le_right
  omega

theorem rank_abs (x : Number) : x.abs.rank.toNat = 0x8000000000000000 + x.magnitude.toNat := by
  have hsign : x.abs.isNegative = false := by
    rw [isNegative, magnitude_abs]
    exact bne_self_eq_false x.magnitude
  have hlt := x.magnitude_lt
  rw [rank, hsign, if_neg Bool.false_ne_true, magnitude_abs, UInt64.toNat_add]
  exact Nat.mod_eq_of_lt (by simp; omega)

theorem gt_zero_abs (x : Number) : x.abs.gt .zero = x.isTrue := by
  have hordered : isOrdered x.abs .zero = !x.isNaN := by
    have hnan : x.abs.isNaN = x.isNaN := by rw [isNaN, isNaN, magnitude_abs]
    have hzero : Number.zero.isNaN = false := by decide
    rw [isOrdered, hnan, hzero, Bool.not_false, Bool.and_true]
  have hrank : Number.zero.rank < x.abs.rank ↔ x.magnitude ≠ 0 := by
    have hzero : Number.zero.rank.toNat = 0x8000000000000000 := by decide
    rw [UInt64.lt_iff_toNat_lt, hzero, rank_abs, ne_eq, ← UInt64.toNat_inj]
    simp only [UInt64.toNat_zero]
    omega
  rw [gt, isTrue, hordered, Bool.eq_iff_iff]
  simp [hrank]

end Number

-- ---------------------------------------------------------------------------
-- Code that ends in the same way
-- ---------------------------------------------------------------------------

namespace Wasm

/-- Slot code and module code that end in the same way. `back` is the depth of the label that
stands for going back to the innermost loop. -/
inductive SameFlow {W : Type} (back : Option Nat) : Flow Unit W → Flow Nat W → Prop where
  | next (f : Frame) (w : W) : SameFlow back (.next f w) (.next f w)
  | jump (h : back = some depth) (f : Frame) (w : W) :
    SameFlow back (.jump () f w) (.jump depth f w)
  | halt (why : Halt) (w : W) : SameFlow back (.halt why w) (.halt why w)

section
variable {W : Type} {back : Option Nat} {flow : Flow Unit W} {flow' : Flow Nat W}

theorem SameFlow.andThen {k : Frame → W → Flow Unit W} {k' : Frame → W → Flow Nat W}
    (h : SameFlow back flow flow') (hk : ∀ f w, SameFlow back (k f w) (k' f w)) :
    SameFlow back (flow.andThen k) (flow'.andThen k') := by
  cases h with
  | next f w => exact hk f w
  | jump h f w => exact .jump h f w
  | halt why w => exact .halt why w

theorem SameFlow.ofFrame? (w : W) (f? : Option Frame) :
    SameFlow back (Flow.ofFrame? w f?) (Flow.ofFrame? w f?) := by
  cases f? with
  | some f => exact .next f w
  | none => exact .halt .stuck w

theorem SameFlow.ofCall (f : Frame) (result : CallResult W) :
    SameFlow back (Flow.ofCall f result) (Flow.ofCall f result) := by
  obtain ⟨value, w⟩ := result
  cases value with
  | ok v => exact .next _ w
  | error why => exact .halt why w

/-- A branch has a label of its own, so the loop around it is one label further out inside. -/
theorem SameFlow.block {body : Frame → W → Flow Unit W} {body' : Frame → W → Flow Nat W}
    (h : ∀ f w, SameFlow (back.map (· + 1)) (body f w) (body' f w)) (f : Frame) (w : W) :
    SameFlow back (Flow.block .inr body f w) (Flow.block leaveBranch body' f w) := by
  unfold Flow.block
  have hbody := h { f with operands := [] } w
  generalize body { f with operands := [] } w = flow at hbody
  generalize body' { f with operands := [] } w = flow' at hbody
  cases hbody with
  | next f₁ w₁ => exact .next _ w₁
  | jump hback f₁ w₁ =>
    obtain ⟨depth, hdepth, rfl⟩ := Option.map_eq_some_iff.mp hback
    exact .jump hdepth f₁ w₁
  | halt why w₁ => exact .halt why w₁

/-- A jump in a loop leads to its own start, so none leaves the loop. -/
theorem SameFlow.loop {body : Frame → W → Flow Unit W} {body' : Frame → W → Flow Nat W}
    (h : ∀ f w, SameFlow (some 0) (body f w) (body' f w)) (around : List Operand) (fuel : Nat)
    (f : Frame) (w : W) :
    SameFlow back (Flow.loop (fun _ => none) body around fuel f w)
      (Flow.loop leaveLoop body' around fuel f w) := by
  induction fuel generalizing f w with
  | zero => exact .halt .unfinished w
  | succ fuel ih =>
    simp only [Flow.loop]
    have hbody := h { f with operands := [] } w
    generalize body { f with operands := [] } w = flow at hbody
    generalize body' { f with operands := [] } w = flow' at hbody
    cases hbody with
    | next f₁ w₁ => exact .next _ w₁
    | jump hback f₁ w₁ =>
      cases hback
      exact ih f₁ w₁
    | halt why w₁ => exact .halt why w₁

theorem SameFlow.result (h : SameFlow none flow flow') (returns : Nat → Bool) :
    flow'.result returns = flow.result fun _ => false := by
  cases h with
  | next f w => rfl
  | jump h f w => cases h
  | halt why w => rfl

end

-- ---------------------------------------------------------------------------
-- From instructions to operations
-- ---------------------------------------------------------------------------

section
variable {W : Type} (callees : Callees W) (fuel : Nat)

theorem Op.runAll_ge_eqz (f : Frame) (w : W) :
    Op.runAll callees fuel [.ge, .eqz] f w =
      Flow.ofFrame? w (f.combine? fun x y => .flag (x.ltUnordered y)) := by
  obtain ⟨slots, operands⟩ := f
  match operands with
  | .num y :: .num x :: rest =>
    show Flow.next ⟨slots, .flag (!x.ge y) :: rest⟩ w =
      .next ⟨slots, .flag (x.ltUnordered y) :: rest⟩ w
    rw [Number.ltUnordered_eq_not_ge]
  | [] | [.num _] | .flag _ :: _ | .num _ :: .flag _ :: _ => rfl

theorem Op.runAll_abs_gt (f : Frame) (w : W) :
    Op.runAll callees fuel [.abs, .const .zero, .gt] f w =
      Flow.ofFrame? w (f.popNumber?.map fun (x, f) => f.push (.flag x.isTrue)) := by
  obtain ⟨slots, operands⟩ := f
  match operands with
  | .num x :: rest =>
    show Flow.next ⟨slots, .flag (x.abs.gt .zero) :: rest⟩ w =
      .next ⟨slots, .flag x.isTrue :: rest⟩ w
    rw [Number.gt_zero_abs]
  | [] | .flag _ :: _ => rfl

end

theorem loopDepth?_block (labels : List Label) :
    loopDepth? (.block :: labels) = (loopDepth? labels).map (· + 1) := by
  simp [loopDepth?, List.findIdx?_cons]

/-- What a call by name comes to in a module: a call by the index that the unit gives the name. -/
def Callees.byName {W : Type} (callees : Callees W) (u : CodeUnit) (callee : String)
    (args : List Number) (w : W) : CallResult W :=
  match u.callTarget? callee with
  | some (index, _) => callees.call index args w
  | none => (.error .stuck, w)

/-- Every index that a unit calls takes as many arguments as the unit says. -/
def Callees.Fit {W : Type} (callees : Callees W) (u : CodeUnit) : Prop :=
  ∀ {c i k}, u.callTarget? c = some (i, k) → callees.arity? i = some k

section
variable {W : Type} {u : CodeUnit} {name : String} {callees : Callees W} (fuel : Nat)

theorem effect_same {call : String → List Number → W → CallResult W} {i : Instr} {op : Op}
    {f : Frame} {w : W} (hi : Instr.run call fuel i f w = Flow.ofFrame? w (i.effect? f))
    (hop : Op.run callees fuel op f w = Flow.ofFrame? w (i.effect? f))
    (h : (.ok [op] : Except Failure (List Op)) = .ok ops) :
    SameFlow back (Instr.run call fuel i f w) (Op.runAll callees fuel ops f w) := by
  cases h
  rw [Op.runAll_single, hi, hop]
  exact .ofFrame? w _

theorem call_same (hfit : callees.Fit u)
    (h : opsOfInstr u name labels (.call callee argCount) = .ok ops) (f : Frame) (w : W) :
    SameFlow back (Instr.run (callees.byName u) fuel (.call callee argCount) f w)
      (Op.runAll callees fuel ops f w) := by
  rw [opsOfInstr] at h
  split at h
  · cases h
  · rename_i index arity htarget
    split at h <;> cases h
    rename_i heq
    subst heq
    rw [Op.runAll_single, Instr.run, Op.run, hfit htarget, Option.bind_some]
    cases Frame.popArgs? arity [] f with
    | none => exact .halt .stuck w
    | some taken =>
      simp only [Callees.byName, htarget]
      exact .ofCall _ _

mutual
theorem instr_same (hfit : callees.Fit u) {labels : List Label} {ops : List Op} : (i : Instr) →
    opsOfInstr u name labels i = .ok ops → ∀ f w,
    SameFlow (loopDepth? labels) (Instr.run (callees.byName u) fuel i f w)
      (Op.runAll callees fuel ops f w)
  | .const value, h, _, _ => effect_same fuel rfl rfl h
  | .load slot, h, _, _ => effect_same fuel rfl rfl h
  | .store slot, h, _, _ => effect_same fuel rfl rfl h
  | .tee slot, h, _, _ => effect_same fuel rfl rfl h
  | .add, h, _, _ => effect_same fuel rfl rfl h
  | .sub, h, _, _ => effect_same fuel rfl rfl h
  | .mul, h, _, _ => effect_same fuel rfl rfl h
  | .ltUnordered, h, f, w => by
    cases h
    rw [Op.runAll_ge_eqz]
    exact .ofFrame? w _
  | .boolToNumber, h, _, _ => effect_same fuel rfl rfl h
  | .numberToBool, h, f, w => by
    cases h
    rw [Op.runAll_abs_gt]
    exact .ofFrame? w _
  | .call callee argCount, h, f, w => call_same fuel hfit h f w
  | .drop, h, _, _ => effect_same fuel rfl rfl h
  | .loop body, h, f, w => by
    obtain ⟨inner, hinner, rfl⟩ := map_ok.mp h
    rw [Op.runAll_single]
    exact .loop (code_same hfit body hinner) f.operands fuel f w
  | .continueIf, h, f, w => by
    rw [opsOfInstr] at h
    split at h <;> cases h
    rename_i depth hdepth
    rw [Op.runAll_single, Instr.run, Op.run]
    cases hflag : f.popFlag? with
    | none => exact .halt .stuck w
    | some taken =>
      obtain ⟨b, f₁⟩ := taken
      cases b with
      | true => exact .jump hdepth f₁ w
      | false => exact .next f₁ w
  | .branch yes no, h, f, w => by
    simp only [opsOfInstr, bind_ok] at h
    obtain ⟨yesOps, hyes, noOps, hno, heq⟩ := h
    cases heq
    have hyes' := code_same hfit yes hyes
    have hno' := code_same hfit no hno
    rw [loopDepth?_block] at hyes' hno'
    rw [Op.runAll_single, Instr.run, Op.run]
    cases hflag : f.popFlag? with
    | none => exact .halt .stuck w
    | some taken =>
      obtain ⟨b, f₁⟩ := taken
      cases b with
      | true => exact .block hyes' f₁ w
      | false => exact .block hno' f₁ w

/-- Module code ends as the slot code that it was made of. -/
theorem code_same (hfit : callees.Fit u) {labels : List Label} {ops : List Op} : (code : Code) →
    opsOfCode u name labels code = .ok ops → ∀ f w,
    SameFlow (loopDepth? labels) (Code.run (callees.byName u) fuel code f w)
      (Op.runAll callees fuel ops f w)
  | [], h, f, w => by
    cases h
    exact .next f w
  | i :: rest, h, f, w => by
    simp only [opsOfCode, bind_ok] at h
    obtain ⟨first, hfirst, others, hothers, heq⟩ := h
    cases heq
    rw [Code.run_cons, Op.runAll_append]
    exact (instr_same hfit i hfirst f w).andThen (code_same hfit rest hothers)
end

end

end Wasm

-- ---------------------------------------------------------------------------
-- Functions
-- ---------------------------------------------------------------------------

theorem Agree.bindFrom {scope : SlotMap} {slots : Array Number} {vars : Variables}
    (h : Agree scope slots vars) (hlen : args.length = params.length)
    (hargs : ∀ i, i < args.length → slots[slot + i]? = args[i]?) :
    Agree (scope.bindFrom slot params) slots
      ((params.zip args).foldl (fun vars (name, x) => vars.set name x) vars) := by
  induction params generalizing scope slot vars args with
  | nil => exact h
  | cons name rest ih =>
    cases args with
    | nil => cases hlen
    | cons x xs =>
      have hx : slots[slot]? = some x := hargs 0 (Nat.zero_lt_succ _)
      refine ih (h.enter hx name) (Nat.succ.inj hlen) fun i hi => ?_
      rw [Nat.add_assoc, Nat.add_comm 1]
      exact hargs (i + 1) (Nat.succ_lt_succ hi)

theorem agree_ofArgs (hlen : args.length = params.length) (locals : Nat) :
    Agree (.ofParams params) (Frame.ofArgs args locals).slots (.ofParams params args) := by
  refine Agree.bindFrom (fun _ => rfl) hlen fun i hi => ?_
  simp only [Frame.ofArgs, Nat.zero_add, List.getElem?_toArray]
  exact List.getElem?_append_left hi

section
variable {W : Type} {arityOf : String → Except Cause Nat} {params : List String} {body : Expr}
  {args : List Number}

theorem SlotFunction.run_ofTree {call : String → List Number → W → CallResult W} {fuel : Nat}
    (hbody : body.Formed arityOf params) (hlen : args.length = params.length) (name : String)
    (w : W) :
    (SlotFunction.ofTree name params body).run call fuel args w =
      body.asFunction call fuel params args w := by
  have hsize : params.length + body.slotCount ≤ (Frame.ofArgs args body.slotCount).slots.size := by
    simp [Frame.ofArgs, hlen]
  have h := code_realises call fuel hbody (SlotMap.names_ofParams params)
    (SlotMap.fits_ofParams params) (w := w) hsize (agree_ofArgs hlen body.slotCount)
  have hlocals : (SlotFunction.ofTree name params body).localCount = body.slotCount :=
    Nat.add_sub_cancel_left params.length body.slotCount
  have hcode : (SlotFunction.ofTree name params body).body =
      body.code (.ofParams params) params.length := rfl
  rw [SlotFunction.run, hlocals, hcode, Expr.asFunction]
  unfold Realises at h
  split at h
  · rename_i v s hrun
    obtain ⟨⟨slots, operands⟩, hflow, rfl, -⟩ := h
    rw [hflow, hrun]
    rfl
  · rename_i why s hrun
    rw [h, hrun]
    rfl

open Wasm in
theorem CodeUnit.Sound.call_of_tree {u : CodeUnit} {callees : Callees W} (h : u.Sound)
    (hfit : callees.Fit u) (fuel : Nat) (hf : .ofTree name params body ∈ u.functions)
    (hbody : body.Formed arityOf params) (hlen : args.length = params.length) (w : W) :
    Wasm.call callees fuel (SlotFunction.ofTree name params body).localCount
        (bodyOps u (.ofTree name params body)) args w =
      body.asFunction (callees.byName u) fuel params args w := by
  obtain ⟨ops, hops, -⟩ := h.body_typed hf
  have hbodyOps : bodyOps u (.ofTree name params body) = ops := by
    simp only [bodyOps, hops]
  rw [hbodyOps, ← SlotFunction.run_ofTree hbody hlen name w]
  exact (code_same fuel hfit _ hops _ w).result fun depth => depth == 0

end

end NumericJit
