import NumericJit.Proofs.Machine

/-!
# Code in related worlds

Code acts on a world only through the functions that it calls. If the same code is run in two
worlds, and every call answers alike in both and leaves them related, then the code goes the same
way in both and leaves them related too (`Wasm.call_alike`).
-/

namespace NumericJit

variable {J W W' : Type} {R : W → W' → Prop}

inductive Flow.Alike (R : W → W' → Prop) : Flow J W → Flow J W' → Prop where
  | next (f : Frame) (hw : R w w') : Alike R (.next f w) (.next f w')
  | jump (target : J) (f : Frame) (hw : R w w') : Alike R (.jump target f w) (.jump target f w')
  | halt (why : Halt) (hw : R w w') : Alike R (.halt why w) (.halt why w')

structure CallResult.Alike (R : W → W' → Prop) (r : CallResult W) (r' : CallResult W') : Prop where
  answer : r.1 = r'.1
  world : R r.2 r'.2

namespace Flow.Alike

variable {flow : Flow J W} {flow' : Flow J W'} {w : W} {w' : W'}

theorem andThen {k : Frame → W → Flow J W} {k' : Frame → W' → Flow J W'}
    (h : Flow.Alike R flow flow')
    (hk : ∀ f {w w'}, R w w' → Flow.Alike R (k f w) (k' f w')) :
    Flow.Alike R (flow.andThen k) (flow'.andThen k') := by
  cases h with
  | next f hw => exact hk f hw
  | jump target f hw => exact .jump target f hw
  | halt why hw => exact .halt why hw

theorem ofFrame? (f? : Option Frame) (hw : R w w') :
    Flow.Alike R (Flow.ofFrame? w f? : Flow J W) (Flow.ofFrame? w' f?) := by
  cases f? with
  | some f => exact .next f hw
  | none => exact .halt .stuck hw

theorem ofCall (f : Frame) {r : CallResult W} {r' : CallResult W'} (h : CallResult.Alike R r r') :
    Flow.Alike R (Flow.ofCall f r : Flow J W) (Flow.ofCall f r') := by
  obtain ⟨answer, w⟩ := r
  obtain ⟨answer', w'⟩ := r'
  obtain ⟨rfl, hw⟩ := h
  cases answer with
  | ok v => exact .next _ hw
  | error why => exact .halt why hw

theorem block {body : Frame → W → Flow J W} {body' : Frame → W' → Flow J W'} (leave : J → Nat ⊕ J)
    (h : ∀ f {w w'}, R w w' → Flow.Alike R (body f w) (body' f w')) (f : Frame) (hw : R w w') :
    Flow.Alike R (Flow.block leave body f w) (Flow.block leave body' f w') := by
  unfold Flow.block
  have hbody := h { f with operands := [] } hw
  generalize body { f with operands := [] } w = flow at hbody
  generalize body' { f with operands := [] } w' = flow' at hbody
  cases hbody with
  | next f₁ hw₁ => exact .next _ hw₁
  | halt why hw₁ => exact .halt why hw₁
  | jump target f₁ hw₁ =>
    simp only
    cases leave target with
    | inl count => exact .next _ hw₁
    | inr outer => exact .jump outer f₁ hw₁

theorem loop {body : Frame → W → Flow J W} {body' : Frame → W' → Flow J W'} (leave : J → Option J)
    (around : List Operand) (h : ∀ f {w w'}, R w w' → Flow.Alike R (body f w) (body' f w'))
    (fuel : Nat) (f : Frame) (hw : R w w') :
    Flow.Alike R (Flow.loop leave body around fuel f w)
      (Flow.loop leave body' around fuel f w') := by
  induction fuel generalizing f w w' with
  | zero => exact .halt .unfinished hw
  | succ fuel ih =>
    simp only [Flow.loop]
    have hbody := h { f with operands := [] } hw
    generalize body { f with operands := [] } w = flow at hbody
    generalize body' { f with operands := [] } w' = flow' at hbody
    cases hbody with
    | next f₁ hw₁ => exact .next _ hw₁
    | halt why hw₁ => exact .halt why hw₁
    | jump target f₁ hw₁ =>
      simp only
      cases leave target with
      | none => exact ih f₁ hw₁
      | some outer => exact .jump outer f₁ hw₁

theorem result (h : Flow.Alike R flow flow') (returns : J → Bool) :
    CallResult.Alike R (flow.result returns) (flow'.result returns) := by
  cases h with
  | halt why hw => exact ⟨rfl, hw⟩
  | next f hw =>
    simp only [Flow.result]
    split <;> exact ⟨rfl, hw⟩
  | jump target f hw =>
    simp only [Flow.result]
    split <;> exact ⟨rfl, hw⟩

end Flow.Alike

namespace Wasm

structure Callees.Alike (R : W → W' → Prop) (callees : Callees W) (callees' : Callees W') :
    Prop where
  arity? : callees'.arity? = callees.arity?
  call : ∀ index args {w w'}, R w w' →
    CallResult.Alike R (callees.call index args w) (callees'.call index args w')

section
variable {callees : Callees W} {callees' : Callees W'} (fuel : Nat)

theorem effect_alike {op : Op} {f : Frame} {w : W} {w' : W'}
    (hop : Op.run callees fuel op f w = Flow.ofFrame? w (op.effect? f))
    (hop' : Op.run callees' fuel op f w' = Flow.ofFrame? w' (op.effect? f)) (hw : R w w') :
    Flow.Alike R (Op.run callees fuel op f w) (Op.run callees' fuel op f w') := by
  rw [hop, hop']
  exact .ofFrame? _ hw

mutual
theorem run_alike (h : callees.Alike R callees') : (op : Op) → ∀ (f : Frame) {w w'}, R w w' →
    Flow.Alike R (Op.run callees fuel op f w) (Op.run callees' fuel op f w')
  | .call index, f, w, w', hw => by
    simp only [Op.run, h.arity?]
    cases (callees.arity? index).bind fun count => Frame.popArgs? count [] f with
    | none => exact .halt .stuck hw
    | some taken => exact .ofCall _ (h.call index _ hw)
  | .loop body, f, _, _, hw => .loop leaveLoop f.operands (runAll_alike h body) fuel f hw
  | .brIf depth, f, w, w', hw => by
    simp only [Op.run]
    cases f.popFlag? with
    | none => exact .halt .stuck hw
    | some taken =>
      obtain ⟨b, f₁⟩ := taken
      cases b with
      | true => exact .jump depth f₁ hw
      | false => exact .next f₁ hw
  | .ifElse yes no, f, w, w', hw => by
    simp only [Op.run]
    cases f.popFlag? with
    | none => exact .halt .stuck hw
    | some taken =>
      obtain ⟨b, f₁⟩ := taken
      cases b with
      | true => exact .block leaveBranch (runAll_alike h yes) f₁ hw
      | false => exact .block leaveBranch (runAll_alike h no) f₁ hw
  | .const _, _, _, _, hw | .localGet _, _, _, _, hw | .localSet _, _, _, _, hw
  | .localTee _, _, _, _, hw | .add, _, _, _, hw | .sub, _, _, _, hw | .mul, _, _, _, hw
  | .abs, _, _, _, hw | .ge, _, _, _, hw | .gt, _, _, _, hw | .eqz, _, _, _, hw
  | .convert, _, _, _, hw | .drop, _, _, _, hw => effect_alike fuel rfl rfl hw

theorem runAll_alike (h : callees.Alike R callees') : (ops : List Op) → ∀ (f : Frame) {w w'},
    R w w' → Flow.Alike R (Op.runAll callees fuel ops f w) (Op.runAll callees' fuel ops f w')
  | [], f, _, _, hw => .next f hw
  | op :: rest, f, w, w', hw => by
    simp only [Op.runAll_cons]
    exact (run_alike h op f hw).andThen (runAll_alike h rest)
end

theorem call_alike (h : callees.Alike R callees') (locals : Nat) (ops : List Op)
    (args : List Number) {w : W} {w' : W'} (hw : R w w') :
    CallResult.Alike R (Wasm.call callees fuel locals ops args w)
      (Wasm.call callees' fuel locals ops args w') :=
  (runAll_alike fuel h ops _ hw).result _

end

end Wasm

end NumericJit
