import NumericJit.SlotCode.Exec
import NumericJit.Wasm.Exec

/-!
# Calls inside a unit

A unit runs on its own once it is settled how the functions outside it behave, and so does its
module. Slot code calls by name: a function of the unit, or one from outside. Module code calls by
index: the imports come first, then the functions of the module. Either way every call is noted
with its arguments before it is made, and only calls inside the unit take room on the call stack.
-/

namespace NumericJit

structure Traced (W : Type) where
  world : W
  calls : List (String × List Number) := []
deriving DecidableEq

abbrev Outside (W : Type) := String → List Number → W → CallResult W

variable {W : Type}

namespace Traced

def note (t : Traced W) (name : String) (args : List Number) : Traced W :=
  { t with calls := t.calls ++ [(name, args)] }

def leave (t : Traced W) (outside : Outside W) (name : String) (args : List Number) :
    CallResult (Traced W) :=
  let (value, world) := outside name args t.world
  (value, { t.note name args with world })

end Traced

/-- Calls a function by its name. `fuel` bounds the rounds of a loop, the next argument how many
calls may be inside each other. -/
def CodeUnit.call (u : CodeUnit) (outside : Outside W) (fuel : Nat) :
    Nat → String → List Number → Traced W → CallResult (Traced W)
  | depth, name, args, t =>
    match u.function? name, depth with
    | some f, depth + 1 => f.run (u.call outside fuel depth) fuel args (t.note name args)
    | some _, 0 => (.error (.trap .callStackExhausted), t)
    | none, _ =>
      match u.externals.lookup name with
      | some _ => t.leave outside name args
      | none => (.error .stuck, t)

/-- A call gives a value, if it is only given the time and the room it takes. -/
def CodeUnit.Returns (u : CodeUnit) (outside : Outside W) (name : String) (args : List Number)
    (t : Traced W) (v : Number) (t' : Traced W) : Prop :=
  ∃ fuel depth, u.call outside fuel depth name args t = (.ok v, t')

namespace Wasm

def Module.exportName (m : Module) (index : Nat) : String :=
  ((m.exports.find? fun e => e.2 == index).map Prod.fst).getD ""

def Module.call (m : Module) (outside : Outside W) (fuel : Nat) :
    Nat → Nat → List Number → Traced W → CallResult (Traced W)
  | depth, index, args, t =>
    match m.imports[index]?, m.functions[index - m.imports.length]?, depth with
    | some (name, _), _, _ => t.leave outside name args
    | none, some f, depth + 1 =>
      Wasm.call ⟨m.arity?, m.call outside fuel depth⟩ fuel f.locals f.body args
        (t.note (m.exportName index) args)
    | none, some _, 0 => (.error (.trap .callStackExhausted), t)
    | none, none, _ => (.error .stuck, t)

def Module.Returns (m : Module) (outside : Outside W) (index : Nat) (args : List Number)
    (t : Traced W) (v : Number) (t' : Traced W) : Prop :=
  ∃ fuel depth, m.call outside fuel depth index args t = (.ok v, t')

end Wasm
end NumericJit
