import NumericJit.Machine
import NumericJit.Wasm.Module

/-!
# Running module code

Calls go by index. A jump leads to the label with the given number of labels inside it: the start
of a loop, or the end of a branch or of the function.
-/

namespace NumericJit.Wasm

def Op.effect? : Op → Frame → Option Frame
  | .const value, f => some (f.push (.num value))
  | .localGet i, f => f.slots[i]?.map fun x => f.push (.num x)
  | .localSet i, f => f.popNumber?.bind fun (x, f) => f.setSlot? i x
  | .localTee i, f => f.popNumber?.bind fun (x, _) => f.setSlot? i x
  | .add, f => f.combine? fun x y => .num (x.add y)
  | .sub, f => f.combine? fun x y => .num (x.sub y)
  | .mul, f => f.combine? fun x y => .num (x.mul y)
  | .abs, f => f.popNumber?.map fun (x, f) => f.push (.num x.abs)
  | .ge, f => f.combine? fun x y => .flag (x.ge y)
  | .gt, f => f.combine? fun x y => .flag (x.gt y)
  | .eqz, f => f.popFlag?.map fun (b, f) => f.push (.flag !b)
  | .convert, f => f.popFlag?.map fun (b, f) => f.push (.num (.ofBool b))
  | .drop, f =>
    match f.operands with
    | _ :: rest => some { f with operands := rest }
    | [] => none
  | _, _ => none

def leaveLoop : Nat → Option Nat
  | 0 => none
  | depth + 1 => some depth

def leaveBranch : Nat → Nat ⊕ Nat
  | 0 => .inl 1
  | depth + 1 => .inr depth

/-- What running code needs to know of functions: how many arguments each takes, and what calling
it comes to. -/
structure Callees (W : Type) where
  arity? : Nat → Option Nat
  call : Nat → List Number → W → CallResult W

variable {W : Type}

mutual
def Op.run (callees : Callees W) (fuel : Nat) : Op → Frame → W → Flow Nat W
  | .call index, f, w =>
    match (callees.arity? index).bind fun count => Frame.popArgs? count [] f with
    | some (args, f) => Flow.ofCall f (callees.call index args w)
    | none => .halt .stuck w
  | .loop body, f, w =>
    Flow.loop leaveLoop (fun f w => Op.runAll callees fuel body f w) f.operands fuel f w
  | .brIf depth, f, w =>
    match f.popFlag? with
    | some (true, f) => .jump depth f w
    | some (false, f) => .next f w
    | none => .halt .stuck w
  | .ifElse yes no, f, w =>
    match f.popFlag? with
    | some (true, f) => Flow.block leaveBranch (fun f w => Op.runAll callees fuel yes f w) f w
    | some (false, f) => Flow.block leaveBranch (fun f w => Op.runAll callees fuel no f w) f w
    | none => .halt .stuck w
  | op, f, w => Flow.ofFrame? w (op.effect? f)

def Op.runAll (callees : Callees W) (fuel : Nat) : List Op → Frame → W → Flow Nat W
  | [], f, w => .next f w
  | op :: rest, f, w =>
    match Op.run callees fuel op f w with
    | .next f w => Op.runAll callees fuel rest f w
    | other => other
end

def call (callees : Callees W) (fuel : Nat) (locals : Nat) (body : List Op) (args : List Number)
    (w : W) : CallResult W :=
  (Op.runAll callees fuel body (.ofArgs args locals) w).result fun depth => depth == 0

end NumericJit.Wasm
