import NumericJit.Proofs.Machine

/-!
# Bounds only cut short

How often loops may go round, and how many calls may be inside each other, are bounds on running.
Code that is run with larger bounds ends as before, unless it was cut short (`runAll_upto`), so a
value that is found within some bounds is found within all larger ones. Which ways of halting count
as being cut short is left open: endless loops alone, or deep recursion too.
-/

namespace NumericJit

/-- The first run was cut short, or both end alike. -/
inductive Flow.Upto {J W : Type} (short : Halt → Prop) : Flow J W → Flow J W → Prop where
  | same (flow : Flow J W) : Upto short flow flow
  | cut (h : short why) (w : W) (flow : Flow J W) : Upto short (.halt why w) flow

inductive CallResult.Upto {W : Type} (short : Halt → Prop) :
    CallResult W → CallResult W → Prop where
  | same (result : CallResult W) : Upto short result result
  | cut (h : short why) (w : W) (result : CallResult W) : Upto short (.error why, w) result

section
variable {J W : Type} {short : Halt → Prop}

theorem CallResult.Upto.eq {result result' : CallResult W}
    (h : CallResult.Upto short result result')
    (hdone : ∀ why, result.1 = .error why → ¬ short why) : result' = result := by
  cases h with
  | same => rfl
  | cut hwhy w => exact absurd hwhy (hdone _ rfl)

theorem CallResult.Upto.ok {result' : CallResult W} {w : W}
    (h : CallResult.Upto short (.ok v, w) result') : result' = (.ok v, w) := h.eq (by simp)

namespace Flow.Upto

variable {flow flow' : Flow J W}

theorem andThen {k k' : Frame → W → Flow J W} (h : Flow.Upto short flow flow')
    (hk : ∀ f w, Flow.Upto short (k f w) (k' f w)) :
    Flow.Upto short (flow.andThen k) (flow'.andThen k') := by
  cases h with
  | same =>
    cases flow with
    | next f w => exact hk f w
    | jump target f w => exact .same _
    | halt why w => exact .same _
  | cut h w => exact .cut h w _

theorem ofCall (f : Frame) {result result' : CallResult W}
    (h : CallResult.Upto short result result') :
    Flow.Upto short (Flow.ofCall f result : Flow J W) (Flow.ofCall f result') := by
  cases h with
  | same => exact .same _
  | cut h w => exact .cut h w _

theorem block {body body' : Frame → W → Flow J W} (leave : J → Nat ⊕ J)
    (h : ∀ f w, Flow.Upto short (body f w) (body' f w)) (f : Frame) (w : W) :
    Flow.Upto short (Flow.block leave body f w) (Flow.block leave body' f w) := by
  unfold Flow.block
  have hbody := h { f with operands := [] } w
  generalize body { f with operands := [] } w = flow at hbody
  generalize body' { f with operands := [] } w = flow' at hbody
  cases hbody with
  | same => exact .same _
  | cut h w => exact .cut h w _

theorem loop {body body' : Frame → W → Flow J W} (leave : J → Option J) (around : List Operand)
    (hshort : short .unfinished) (h : ∀ f w, Flow.Upto short (body f w) (body' f w))
    (hfuel : fuel ≤ fuel') (f : Frame) (w : W) :
    Flow.Upto short (Flow.loop leave body around fuel f w)
      (Flow.loop leave body' around fuel' f w) := by
  induction fuel generalizing fuel' f w with
  | zero => exact .cut hshort w _
  | succ fuel ih =>
    cases fuel' with
    | zero => cases hfuel
    | succ fuel' =>
      simp only [Flow.loop]
      have hbody := h { f with operands := [] } w
      generalize body { f with operands := [] } w = flow at hbody
      generalize body' { f with operands := [] } w = flow' at hbody
      cases hbody with
      | cut h w => exact .cut h w _
      | same =>
        cases flow with
        | next f₁ w₁ => exact .same _
        | halt why w₁ => exact .same _
        | jump target f₁ w₁ =>
          simp only
          cases leave target with
          | none => exact ih (Nat.le_of_succ_le_succ hfuel) f₁ w₁
          | some outer => exact .same _

theorem result (h : Flow.Upto short flow flow') (returns : J → Bool) :
    CallResult.Upto short (flow.result returns) (flow'.result returns) := by
  cases h with
  | same => exact .same _
  | cut h w => exact .cut h w _

end Flow.Upto

end

namespace Wasm

structure Callees.Upto {W : Type} (short : Halt → Prop) (callees callees' : Callees W) : Prop where
  arity? : callees'.arity? = callees.arity?
  call : ∀ index args w,
    CallResult.Upto short (callees.call index args w) (callees'.call index args w)

section
variable {W : Type} {short : Halt → Prop} {callees callees' : Callees W} {fuel fuel' : Nat}

mutual
theorem run_upto (hshort : short .unfinished) (h : callees.Upto short callees')
    (hfuel : fuel ≤ fuel') : (op : Op) → ∀ f w,
    Flow.Upto short (Op.run callees fuel op f w) (Op.run callees' fuel' op f w)
  | .call index, f, w => by
    simp only [Op.run, h.arity?]
    cases (callees.arity? index).bind fun count => Frame.popArgs? count [] f with
    | none => exact .same _
    | some taken => exact .ofCall _ (h.call index _ w)
  | .loop body, f, w =>
    .loop leaveLoop f.operands hshort (runAll_upto hshort h hfuel body) hfuel f w
  | .ifElse yes no, f, w => by
    simp only [Op.run]
    cases f.popFlag? with
    | none => exact .same _
    | some taken =>
      obtain ⟨b, f₁⟩ := taken
      cases b with
      | true => exact .block leaveBranch (runAll_upto hshort h hfuel yes) f₁ w
      | false => exact .block leaveBranch (runAll_upto hshort h hfuel no) f₁ w
  | .brIf _, _, _ => .same _
  | .const _, _, _ | .localGet _, _, _ | .localSet _, _, _ | .localTee _, _, _ => .same _
  | .add, _, _ | .sub, _, _ | .mul, _, _ | .abs, _, _ | .ge, _, _ | .gt, _, _ => .same _
  | .eqz, _, _ | .convert, _, _ | .drop, _, _ => .same _

/-- Code that is run with larger bounds ends as before, unless it was cut short. -/
theorem runAll_upto (hshort : short .unfinished) (h : callees.Upto short callees')
    (hfuel : fuel ≤ fuel') : (ops : List Op) → ∀ f w,
    Flow.Upto short (Op.runAll callees fuel ops f w) (Op.runAll callees' fuel' ops f w)
  | [], _, _ => .same _
  | op :: rest, f, w => by
    simp only [Op.runAll_cons]
    exact (run_upto hshort h hfuel op f w).andThen (runAll_upto hshort h hfuel rest)
end

theorem call_upto (hshort : short .unfinished) (h : callees.Upto short callees')
    (hfuel : fuel ≤ fuel') (locals : Nat) (ops : List Op) (args : List Number) (w : W) :
    CallResult.Upto short (Wasm.call callees fuel locals ops args w)
      (Wasm.call callees' fuel' locals ops args w) :=
  (runAll_upto hshort h hfuel ops _ w).result _

end

end Wasm

end NumericJit
