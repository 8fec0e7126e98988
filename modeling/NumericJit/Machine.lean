import NumericJit.Failure

/-!
# Running structured code

What slot code and module code have in common when they run: operands and slots, the ways in which
a piece of code can end, and loops. Every block works on operands of its own, which are put on top
of the operands around it when it is done.

Running is total. A loop may go round as often as its fuel allows and is then given up as
unfinished, which is different from every way in which code ends.
-/

namespace NumericJit

inductive Operand where
  | num (x : Number)
  | flag (b : Bool)
deriving DecidableEq

inductive Halt where
  | trap (t : Trap)
  /-- A loop ran out of fuel. -/
  | unfinished
  /-- An instruction found no fitting operand, slot, callee or loop. -/
  | stuck
deriving DecidableEq

structure Frame where
  slots : Array Number
  operands : List Operand := []
deriving DecidableEq

namespace Frame

def push (f : Frame) (v : Operand) : Frame := { f with operands := v :: f.operands }

def setSlot? (f : Frame) (slot : Nat) (x : Number) : Option Frame :=
  if slot < f.slots.size then some { f with slots := f.slots.setIfInBounds slot x } else none

def popNumber? (f : Frame) : Option (Number × Frame) :=
  match f.operands with
  | .num x :: rest => some (x, { f with operands := rest })
  | _ => none

def popFlag? (f : Frame) : Option (Bool × Frame) :=
  match f.operands with
  | .flag b :: rest => some (b, { f with operands := rest })
  | _ => none

/-- Replaces the top two numbers, the right one on top, by one operand. -/
def combine? (f : Frame) (op : Number → Number → Operand) : Option Frame :=
  match f.operands with
  | .num y :: .num x :: rest => some { f with operands := op x y :: rest }
  | _ => none

/-- Takes `count` numbers, the last one on top, in front of those already taken. -/
def popArgs? : Nat → List Number → Frame → Option (List Number × Frame)
  | 0, args, f => some (args, f)
  | count + 1, args, f =>
    match f.popNumber? with
    | some (x, f) => popArgs? count (x :: args) f
    | none => none

/-- The frame of a call: the arguments, then slots that start at zero. -/
def ofArgs (args : List Number) (locals : Nat) : Frame :=
  { slots := (args ++ List.replicate locals Number.zero).toArray }

end Frame

/-- How a piece of code ends: it goes on behind itself, jumps, or stops. `J` says where jumps
lead, `W` is the world that calls act on. -/
inductive Flow (J W : Type) where
  | next (f : Frame) (w : W)
  | jump (target : J) (f : Frame) (w : W)
  | halt (why : Halt) (w : W)

abbrev CallResult (W : Type) := Except Halt Number × W

namespace Flow

variable {J W : Type}

def ofFrame? (w : W) : Option Frame → Flow J W
  | some f => .next f w
  | none => .halt .stuck w

def ofCall (f : Frame) : CallResult W → Flow J W
  | (.ok v, w) => .next (f.push (.num v)) w
  | (.error why, w) => .halt why w

/-- Runs a block on operands of its own. `leave` says where a jump out of the block leads: behind
the block with the given number of operands, or on to a target outside. -/
def block (leave : J → Nat ⊕ J) (body : Frame → W → Flow J W) (f : Frame) (w : W) : Flow J W :=
  match body { f with operands := [] } w with
  | .next f' w' => .next { f' with operands := f'.operands ++ f.operands } w'
  | .jump target f' w' =>
    match leave target with
    | .inl count => .next { f' with operands := f'.operands.take count ++ f.operands } w'
    | .inr outer => .jump outer f' w'
  | .halt why w' => .halt why w'

/-- Runs a block again and again. `leave` says where a jump leads: back to the start of the
block, or to a target outside. -/
def loop (leave : J → Option J) (body : Frame → W → Flow J W) (around : List Operand) :
    Nat → Frame → W → Flow J W
  | 0, _, w => .halt .unfinished w
  | fuel + 1, f, w =>
    match body { f with operands := [] } w with
    | .next f' w' => .next { f' with operands := f'.operands ++ around } w'
    | .jump target f' w' =>
      match leave target with
      | none => loop leave body around fuel f' w'
      | some outer => .jump outer f' w'
    | .halt why w' => .halt why w'

/-- The value of a function: what its body leaves as its only operand. `returns` says which jumps
lead to the end of the function. -/
def result (returns : J → Bool) : Flow J W → CallResult W
  | .next f w =>
    match f.operands with
    | [.num v] => (.ok v, w)
    | _ => (.error .stuck, w)
  | .jump target f w =>
    match returns target, f.operands with
    | true, .num v :: _ => (.ok v, w)
    | _, _ => (.error .stuck, w)
  | .halt why w => (.error why, w)

end Flow
end NumericJit
