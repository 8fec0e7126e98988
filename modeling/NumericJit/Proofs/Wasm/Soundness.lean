import NumericJit.Proofs.Machine
import NumericJit.Wasm.Validity

/-!
# Valid code does not get stuck

Operations that pass the check, run on a frame with operands of the types they were checked with,
end in one of three ways (`Safe`): they go on with operands of the types the check gives, they jump
to a label that is there, or they halt for a reason other than being stuck. What they call has to
answer without being stuck (`Callees.Answer`). A whole function then gives a number or is stopped
(`call_safe`).
-/

namespace NumericJit.Wasm

def typeOf : Operand → ValType
  | .num _ => .num
  | .flag _ => .flag

structure Fits (cx : CheckContext) (stack : List ValType) (f : Frame) : Prop where
  slots : f.slots.size = cx.slots
  operands : f.operands.map typeOf = stack

section
variable {cx : CheckContext} {stack : List ValType} {f : Frame}

theorem popTypes?_ok : popTypes? ts stack = some rest ↔ stack = ts ++ rest := by
  induction ts generalizing stack with
  | nil => simp [popTypes?]
  | cons t ts ih =>
    cases stack with
    | nil => simp [popTypes?]
    | cons s stack =>
      simp only [popTypes?, Option.ite_none_right_eq_some, ih, List.cons_append, List.cons.injEq]
      exact and_congr_left fun _ => eq_comm

theorem Fits.push (h : Fits cx stack f) (v : Operand) : Fits cx (typeOf v :: stack) (f.push v) :=
  ⟨h.slots, by simp [Frame.push, h.operands]⟩

theorem Fits.pop (h : Fits cx (t :: stack) f) :
    ∃ v rest, f.operands = v :: rest ∧ typeOf v = t ∧
      Fits cx stack { f with operands := rest } := by
  obtain ⟨slots, operands⟩ := f
  obtain ⟨hslots, hoperands⟩ := h
  cases operands with
  | nil => cases hoperands
  | cons v rest =>
    cases hoperands
    exact ⟨v, rest, rfl, rfl, hslots, rfl⟩

theorem Fits.number (h : Fits cx (.num :: stack) f) : ∃ x rest, f.operands = .num x :: rest := by
  obtain ⟨v, rest, hoperands, hv, -⟩ := h.pop
  cases v with
  | num x => exact ⟨x, rest, hoperands⟩
  | flag b => cases hv

theorem Fits.popNumber (h : Fits cx (.num :: stack) f) :
    ∃ x f', f.popNumber? = some (x, f') ∧ Fits cx stack f' := by
  obtain ⟨v, rest, hoperands, hv, hrest⟩ := h.pop
  cases v with
  | num x => exact ⟨x, _, by simp [Frame.popNumber?, hoperands], hrest⟩
  | flag b => cases hv

theorem Fits.popFlag (h : Fits cx (.flag :: stack) f) :
    ∃ b f', f.popFlag? = some (b, f') ∧ Fits cx stack f' := by
  obtain ⟨v, rest, hoperands, hv, hrest⟩ := h.pop
  cases v with
  | num x => cases hv
  | flag b => exact ⟨b, _, by simp [Frame.popFlag?, hoperands], hrest⟩

theorem Fits.combine (h : Fits cx (.num :: .num :: stack) f) (op : Number → Number → Operand)
    (hop : ∀ x y, typeOf (op x y) = t) :
    ∃ f', f.combine? op = some f' ∧ Fits cx (t :: stack) f' := by
  obtain ⟨v, rest, hoperands, hv, hrest⟩ := h.pop
  obtain ⟨v', rest', hoperands', hv', hrest'⟩ := hrest.pop
  cases hoperands'
  cases v with
  | flag b => cases hv
  | num y =>
    cases v' with
    | flag b => cases hv'
    | num x =>
      refine ⟨{ f with operands := op x y :: rest' }, by simp [Frame.combine?, hoperands],
        hrest'.slots, ?_⟩
      simp [hop, hrest'.operands]

theorem Fits.setSlot (h : Fits cx stack f) (hi : i < cx.slots) (x : Number) :
    ∃ f', f.setSlot? i x = some f' ∧ Fits cx stack f' :=
  ⟨{ f with slots := f.slots.setIfInBounds i x }, by simp [Frame.setSlot?, h.slots, hi],
    by simp [h.slots], h.operands⟩

theorem Fits.popArgs (h : Fits cx (List.replicate count .num ++ stack) f) (taken : List Number) :
    ∃ args f', Frame.popArgs? count taken f = some (args, f') ∧
      args.length = count + taken.length ∧ Fits cx stack f' := by
  induction count generalizing f taken with
  | zero => exact ⟨taken, f, rfl, by simp, h⟩
  | succ count ih =>
    obtain ⟨x, f', hpop, hf'⟩ := h.popNumber
    obtain ⟨args, f'', hargs, hlen, hf''⟩ := ih hf' (x :: taken)
    refine ⟨args, f'', by simp [Frame.popArgs?, hpop, hargs], ?_, hf''⟩
    simp only [hlen, List.length_cons]
    omega

theorem Fits.empty (h : Fits cx stack f) : Fits cx [] { f with operands := [] } := ⟨h.slots, rfl⟩

end

-- ---------------------------------------------------------------------------
-- How code may end
-- ---------------------------------------------------------------------------

/-- Ways of ending that are not stuck. A jump to the end of a branch or of the function brings a
number along. -/
inductive Safe {W : Type} (cx : CheckContext) (labels : List Label) (after : List ValType) :
    Flow Nat W → Prop where
  | next (h : Fits cx after f) (w : W) : Safe cx labels after (.next f w)
  | jump (depth : Nat) (hlabel : labels[depth]? = some label) (hslots : f.slots.size = cx.slots)
    (hvalue : label = .block → ∃ v rest, f.operands = .num v :: rest) (w : W) :
    Safe cx labels after (.jump depth f w)
  | halt (h : why ≠ .stuck) (w : W) : Safe cx labels after (.halt why w)

/-- Callees that take the arguments they were checked with and answer without being stuck. -/
def Callees.Answer {W : Type} (callees : Callees W) (cx : CheckContext) : Prop :=
  ∀ {index arity}, cx.arity? index = some arity → callees.arity? index = some arity ∧
    ∀ {args w}, args.length = arity → (callees.call index args w).1 ≠ .error .stuck

section
variable {W : Type} {cx : CheckContext} {labels : List Label} {before between after : List ValType}
  {flow : Flow Nat W} {f : Frame}

theorem Safe.andThen {k : Frame → W → Flow Nat W} (h : Safe cx labels between flow)
    (hk : ∀ {f w}, Fits cx between f → Safe cx labels after (k f w)) :
    Safe cx labels after (flow.andThen k) := by
  cases h with
  | next h w => exact hk h
  | jump depth hlabel hslots hvalue w => exact .jump depth hlabel hslots hvalue w
  | halt h w => exact .halt h w

theorem Safe.ofFrame? (h : f? = some f) (hf : Fits cx after f) (w : W) :
    Safe cx labels after (Flow.ofFrame? w f?) := by
  subst h
  exact .next hf w

theorem Safe.ofCall (hf : Fits cx after f) {result : CallResult W}
    (h : result.1 ≠ .error .stuck) : Safe cx labels (.num :: after) (Flow.ofCall f result) := by
  obtain ⟨value, w⟩ := result
  cases value with
  | ok v => exact .next (hf.push (.num v)) w
  | error why =>
    refine .halt (fun hwhy => h ?_) w
    simp [hwhy]

theorem Safe.block {body : Frame → W → Flow Nat W} (hf : Fits cx after f)
    (h : ∀ {f w}, Fits cx [] f → Safe cx (.block :: labels) [.num] (body f w)) (w : W) :
    Safe cx labels (.num :: after) (Flow.block leaveBranch body f w) := by
  unfold Flow.block
  have hbody := h (w := w) hf.empty
  generalize body { f with operands := [] } w = flow at hbody
  cases hbody with
  | next hf₁ w₁ =>
    apply Safe.next
    exact ⟨hf₁.slots, by simp [hf₁.operands, hf.operands]⟩
  | @jump _ f₁ depth hlabel hslots hvalue w₁ =>
    cases depth with
    | zero =>
      cases hlabel
      obtain ⟨v, rest, hoperands⟩ := hvalue rfl
      apply Safe.next
      exact ⟨hslots, by simp [hoperands, hf.operands, typeOf]⟩
    | succ depth => exact .jump depth hlabel hslots hvalue w₁
  | halt hwhy w₁ => exact .halt hwhy w₁

/-- However often a loop goes round, it leaves the operands around it as they are. -/
theorem Safe.loop {body : Frame → W → Flow Nat W} (haround : around.map typeOf = after)
    (h : ∀ {f w}, Fits cx [] f → Safe cx (.loop :: labels) [] (body f w)) (fuel : Nat)
    (hf : f.slots.size = cx.slots) (w : W) :
    Safe cx labels after (Flow.loop leaveLoop body around fuel f w) := by
  induction fuel generalizing f w with
  | zero => exact .halt (by simp) w
  | succ fuel ih =>
    simp only [Flow.loop]
    have hbody := h (f := { f with operands := [] }) (w := w) ⟨hf, rfl⟩
    generalize body { f with operands := [] } w = flow at hbody
    cases hbody with
    | next hf₁ w₁ =>
      apply Safe.next
      exact ⟨hf₁.slots, by simp [hf₁.operands, haround]⟩
    | @jump _ f₁ depth hlabel hslots hvalue w₁ =>
      cases depth with
      | zero => exact ih hslots w₁
      | succ depth => exact .jump depth hlabel hslots hvalue w₁
    | halt hwhy w₁ => exact .halt hwhy w₁

theorem Safe.result (h : Safe cx [.block] [.num] flow) :
    (flow.result fun depth => depth == 0).1 ≠ .error .stuck := by
  cases h with
  | @next f hf w =>
    obtain ⟨v, rest, hoperands, hv, hrest⟩ := hf.pop
    have hnil : rest = [] := List.map_eq_nil_iff.mp hrest.operands
    cases v with
    | num x => simp [Flow.result, hoperands, hnil]
    | flag b => cases hv
  | @jump _ f depth hlabel hslots hvalue w =>
    cases depth with
    | zero =>
      cases hlabel
      obtain ⟨v, rest, hoperands⟩ := hvalue rfl
      simp [Flow.result, hoperands]
    | succ depth => simp at hlabel
  | halt hwhy w => simpa [Flow.result] using hwhy

-- ---------------------------------------------------------------------------
-- Operations
-- ---------------------------------------------------------------------------

variable {callees : Callees W} (fuel : Nat)

theorem Fits.combine_safe (hf : Fits cx before f) (h : popTypes? [.num, .num] before = some stack)
    (op : Number → Number → Operand) (hop : ∀ x y, typeOf (op x y) = t) (w : W) :
    Safe cx labels (t :: stack) (Flow.ofFrame? w (f.combine? op)) := by
  obtain rfl := popTypes?_ok.mp h
  obtain ⟨f', hcombine, hf'⟩ := hf.combine op hop
  exact .ofFrame? hcombine hf' w

theorem checkOp_brIf (h : checkOp cx labels (.brIf depth) before = some after) :
    before = .flag :: after ∧ ∃ label, labels[depth]? = some label ∧
      (label = .block → ∃ rest, after = .num :: rest) := by
  simp only [checkOp, Option.bind_eq_some_iff, popTypes?_ok] at h
  obtain ⟨rest, rfl, h⟩ := h
  cases hlabel : labels[depth]? with
  | none => simp [hlabel] at h
  | some label =>
    cases label with
    | loop =>
      simp only [hlabel, Option.some.injEq] at h
      exact ⟨by simp [h], .loop, rfl, by simp⟩
    | block =>
      simp only [hlabel, Option.ite_none_right_eq_some, Option.some.injEq] at h
      obtain ⟨hhead, rfl⟩ := h
      exact ⟨rfl, .block, rfl, fun _ => List.head?_eq_some_iff.mp hhead⟩

mutual
theorem checkOp_safe (hcallees : callees.Answer cx) {labels : List Label}
    {before after : List ValType} : (op : Op) → checkOp cx labels op before = some after →
    ∀ {f w}, Fits cx before f → Safe cx labels after (Op.run callees fuel op f w)
  | .const value, h, _, w, hf => by
    cases h
    exact .ofFrame? rfl (hf.push (.num value)) w
  | .localGet i, h, f, w, hf => by
    simp only [checkOp, Option.ite_none_right_eq_some, Option.some.injEq] at h
    obtain ⟨hi, rfl⟩ := h
    have hget : f.slots[i]? = some (f.slots.getD i .zero) := by simp [hf.slots, hi]
    refine .ofFrame? ?_ (hf.push (.num (f.slots.getD i .zero))) w
    simp only [Op.effect?, hget, Option.map_some]
  | .localSet i, h, f, w, hf => by
    simp only [checkOp, Option.ite_none_right_eq_some, popTypes?_ok] at h
    obtain ⟨hi, rfl⟩ := h
    obtain ⟨x, f₁, hpop, hf₁⟩ := hf.popNumber
    obtain ⟨f₂, hset, hf₂⟩ := hf₁.setSlot hi x
    exact .ofFrame? (by simp [Op.effect?, hpop, hset]) hf₂ w
  | .localTee i, h, f, w, hf => by
    simp only [checkOp, Option.ite_none_right_eq_some, Option.map_eq_some_iff, popTypes?_ok] at h
    obtain ⟨hi, rest, rfl, rfl⟩ := h
    obtain ⟨x, f₁, hpop, -⟩ := hf.popNumber
    obtain ⟨f₂, hset, hf₂⟩ := hf.setSlot hi x
    exact .ofFrame? (by simp [Op.effect?, hpop, hset]) hf₂ w
  | .add, h, f, w, hf => by
    obtain ⟨rest, hpop, rfl⟩ := Option.map_eq_some_iff.mp h
    exact hf.combine_safe hpop (fun x y => .num (x.add y)) (fun _ _ => rfl) w
  | .sub, h, f, w, hf => by
    obtain ⟨rest, hpop, rfl⟩ := Option.map_eq_some_iff.mp h
    exact hf.combine_safe hpop (fun x y => .num (x.sub y)) (fun _ _ => rfl) w
  | .mul, h, f, w, hf => by
    obtain ⟨rest, hpop, rfl⟩ := Option.map_eq_some_iff.mp h
    exact hf.combine_safe hpop (fun x y => .num (x.mul y)) (fun _ _ => rfl) w
  | .ge, h, f, w, hf => by
    obtain ⟨rest, hpop, rfl⟩ := Option.map_eq_some_iff.mp h
    exact hf.combine_safe hpop (fun x y => .flag (x.ge y)) (fun _ _ => rfl) w
  | .gt, h, f, w, hf => by
    obtain ⟨rest, hpop, rfl⟩ := Option.map_eq_some_iff.mp h
    exact hf.combine_safe hpop (fun x y => .flag (x.gt y)) (fun _ _ => rfl) w
  | .abs, h, f, w, hf => by
    simp only [checkOp, Option.map_eq_some_iff, popTypes?_ok] at h
    obtain ⟨rest, rfl, rfl⟩ := h
    obtain ⟨x, f₁, hpop, hf₁⟩ := hf.popNumber
    exact .ofFrame? (by simp [Op.effect?, hpop]) (hf₁.push (.num x.abs)) w
  | .eqz, h, f, w, hf => by
    simp only [checkOp, Option.map_eq_some_iff, popTypes?_ok] at h
    obtain ⟨rest, rfl, rfl⟩ := h
    obtain ⟨b, f₁, hpop, hf₁⟩ := hf.popFlag
    exact .ofFrame? (by simp [Op.effect?, hpop]) (hf₁.push (.flag !b)) w
  | .convert, h, f, w, hf => by
    simp only [checkOp, Option.map_eq_some_iff, popTypes?_ok] at h
    obtain ⟨rest, rfl, rfl⟩ := h
    obtain ⟨b, f₁, hpop, hf₁⟩ := hf.popFlag
    exact .ofFrame? (by simp [Op.effect?, hpop]) (hf₁.push (.num (.ofBool b))) w
  | .call index, h, f, w, hf => by
    simp only [checkOp, Option.bind_eq_some_iff, Option.map_eq_some_iff, popTypes?_ok] at h
    obtain ⟨arity, harity, rest, rfl, rfl⟩ := h
    obtain ⟨hknown, hanswer⟩ := hcallees harity
    obtain ⟨args, f₁, hpop, hlen, hf₁⟩ := hf.popArgs []
    simp only [Op.run, hknown, Option.bind_some, hpop]
    exact .ofCall hf₁ (hanswer (by simpa using hlen))
  | .drop, h, f, w, hf => by
    cases before with
    | nil => cases h
    | cons t rest =>
      cases h
      obtain ⟨v, operands, hoperands, -, hf₁⟩ := hf.pop
      exact .ofFrame? (by simp [Op.effect?, hoperands]) hf₁ w
  | .loop body, h, f, w, hf => by
    simp only [checkOp, Option.ite_none_right_eq_some, Option.some.injEq] at h
    obtain ⟨hbody, rfl⟩ := h
    exact .loop hf.operands (checkOps_safe hcallees body hbody) fuel hf.slots w
  | .brIf depth, h, f, w, hf => by
    obtain ⟨rfl, label, hlabel, hvalue⟩ := checkOp_brIf h
    obtain ⟨b, f₁, hpop, hf₁⟩ := hf.popFlag
    simp only [Op.run, hpop]
    cases b with
    | false => exact .next hf₁ w
    | true =>
      refine .jump depth hlabel hf₁.slots (fun hblock => ?_) w
      obtain ⟨rest, rfl⟩ := hvalue hblock
      exact hf₁.number
  | .ifElse yes no, h, f, w, hf => by
    simp only [checkOp, Option.bind_eq_some_iff, popTypes?_ok, Option.ite_none_right_eq_some,
      Option.some.injEq] at h
    obtain ⟨rest, rfl, ⟨hyes, hno⟩, rfl⟩ := h
    obtain ⟨b, f₁, hpop, hf₁⟩ := hf.popFlag
    simp only [Op.run, hpop]
    cases b with
    | true => exact .block hf₁ (checkOps_safe hcallees yes hyes) w
    | false => exact .block hf₁ (checkOps_safe hcallees no hno) w

theorem checkOps_safe (hcallees : callees.Answer cx) {labels : List Label}
    {before after : List ValType} : (ops : List Op) → checkOps cx labels ops before = some after →
    ∀ {f w}, Fits cx before f → Safe cx labels after (Op.runAll callees fuel ops f w)
  | [], h, _, w, hf => by
    cases h
    exact .next hf w
  | op :: rest, h, f, w, hf => by
    simp only [checkOps, Option.bind_eq_some_iff] at h
    obtain ⟨between, hop, hrest⟩ := h
    rw [Op.runAll_cons]
    exact (checkOp_safe hcallees op hop hf).andThen (checkOps_safe hcallees rest hrest)
end

/-- A function whose body passed the check gives a number, unless it is stopped. -/
theorem call_safe (hcallees : callees.Answer cx) {ops : List Op}
    (h : checkOps cx [.block] ops [] = some [.num]) (hslots : args.length + locals = cx.slots)
    (w : W) : (Wasm.call callees fuel locals ops args w).1 ≠ .error .stuck := by
  have hframe : Fits cx [] (.ofArgs args locals) := ⟨by simpa [Frame.ofArgs] using hslots, rfl⟩
  exact (checkOps_safe fuel hcallees ops h hframe).result

end

end NumericJit.Wasm
