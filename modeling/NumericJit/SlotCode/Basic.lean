import NumericJit.Number

/-!
# Slot code

The code that statements are lowered to: instructions over an operand stack and numbered slots,
with structured loops and branches. Parameters are the first slots of their function. A unit
gathers functions together with the functions outside it that they call.
-/

namespace NumericJit

inductive Instr where
  | const (value : Number)
  | load (slot : Nat)
  | store (slot : Nat)
  | tee (slot : Nat)
  | add
  | sub
  | mul
  /-- Unordered or less; leaves a truth value. -/
  | ltUnordered
  | boolToNumber
  /-- Ordered and not zero; leaves a truth value. -/
  | numberToBool
  | call (callee : String) (argCount : Nat)
  | drop
  /-- Runs its body once; a `continueIf` inside may send it back to its start. -/
  | loop (body : List Instr)
  /-- Takes a truth value and goes back to the start of the innermost loop if it holds. -/
  | continueIf
  /-- Takes a truth value and runs one of two blocks, each of which leaves one number. -/
  | branch (yes no : List Instr)
deriving Inhabited

abbrev Code := List Instr

/-- A function of a unit. `slots` counts its parameters too. -/
structure SlotFunction where
  name : String
  params : List String
  slots : Nat
  body : Code
deriving Inhabited

namespace SlotFunction

def arity (f : SlotFunction) : Nat := f.params.length

def localCount (f : SlotFunction) : Nat := f.slots - f.params.length

end SlotFunction

structure CodeUnit where
  id : Nat
  externals : List (String × Nat) := []
  functions : List SlotFunction := []
deriving Inhabited

namespace CodeUnit

def isEmpty (u : CodeUnit) : Bool := u.externals.isEmpty && u.functions.isEmpty

def function? (u : CodeUnit) (name : String) : Option SlotFunction :=
  u.functions.find? fun f => f.name == name

def defines (u : CodeUnit) (name : String) : Bool := (u.function? name).isSome

def arity? (u : CodeUnit) (name : String) : Option Nat :=
  match u.function? name with
  | some f => some f.arity
  | none => u.externals.lookup name

end CodeUnit

inductive RegionKind where
  | loop
  | yes
  | no (taken : Code)

end NumericJit
