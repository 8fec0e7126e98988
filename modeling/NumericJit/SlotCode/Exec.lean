import NumericJit.Machine

/-!
# Running slot code

Calls go by name. `continueIf` jumps to the start of the innermost loop, out of any branches in
between, and drops the operands pushed since that loop was entered.
-/

namespace NumericJit

def Instr.effect? : Instr → Frame → Option Frame
  | .const value, f => some (f.push (.num value))
  | .load slot, f => f.slots[slot]?.map fun x => f.push (.num x)
  | .store slot, f => f.popNumber?.bind fun (x, f) => f.setSlot? slot x
  | .tee slot, f => f.popNumber?.bind fun (x, _) => f.setSlot? slot x
  | .add, f => f.combine? fun x y => .num (x.add y)
  | .sub, f => f.combine? fun x y => .num (x.sub y)
  | .mul, f => f.combine? fun x y => .num (x.mul y)
  | .ltUnordered, f => f.combine? fun x y => .flag (x.ltUnordered y)
  | .boolToNumber, f => f.popFlag?.map fun (b, f) => f.push (.num (.ofBool b))
  | .numberToBool, f => f.popNumber?.map fun (x, f) => f.push (.flag x.isTrue)
  | .drop, f =>
    match f.operands with
    | _ :: rest => some { f with operands := rest }
    | [] => none
  | _, _ => none

variable {W : Type}

mutual
def Instr.run (call : String → List Number → W → CallResult W) (fuel : Nat) :
    Instr → Frame → W → Flow Unit W
  | .call callee argCount, f, w =>
    match Frame.popArgs? argCount [] f with
    | some (args, f) => Flow.ofCall f (call callee args w)
    | none => .halt .stuck w
  | .loop body, f, w =>
    Flow.loop (fun _ => none) (fun f w => Code.run call fuel body f w) f.operands fuel f w
  | .continueIf, f, w =>
    match f.popFlag? with
    | some (true, f) => .jump () f w
    | some (false, f) => .next f w
    | none => .halt .stuck w
  | .branch yes no, f, w =>
    match f.popFlag? with
    | some (true, f) => Flow.block .inr (fun f w => Code.run call fuel yes f w) f w
    | some (false, f) => Flow.block .inr (fun f w => Code.run call fuel no f w) f w
    | none => .halt .stuck w
  | i, f, w => Flow.ofFrame? w (i.effect? f)

def Code.run (call : String → List Number → W → CallResult W) (fuel : Nat) :
    List Instr → Frame → W → Flow Unit W
  | [], f, w => .next f w
  | i :: rest, f, w =>
    match Instr.run call fuel i f w with
    | .next f w => Code.run call fuel rest f w
    | other => other
end

def SlotFunction.run (call : String → List Number → W → CallResult W) (fuel : Nat)
    (f : SlotFunction) (args : List Number) (w : W) : CallResult W :=
  (Code.run call fuel f.body (.ofArgs args f.localCount) w).result fun _ => false

end NumericJit
