import NumericJit.Failure

/-!
# Filling a unit

A unit knows each name under one arity: declaring an outside function again changes nothing, and a
function can only be added under a name that is new to the unit.
-/

namespace NumericJit.CodeUnit

def declare (u : CodeUnit) (name : String) (arity : Nat) : Except Failure CodeUnit :=
  match u.arity? name with
  | some known =>
    if known = arity then .ok u else .error { cause := .conflictingArity name u.id known arity }
  | none => .ok { u with externals := u.externals ++ [(name, arity)] }

def add (u : CodeUnit) (f : SlotFunction) : Except Failure CodeUnit :=
  if (u.arity? f.name).isSome then .error { cause := .alreadyDeclared f.name u.id }
  else .ok { u with functions := u.functions ++ [f] }

inductive Built : CodeUnit → Prop where
  | empty (id : Nat) : Built { id }
  | declare (u : CodeUnit) (h : Built u) (hok : u.declare name arity = .ok u') : Built u'
  | add (u : CodeUnit) (h : Built u) (hok : u.add f = .ok u') : Built u'

def assemble (id : Nat) (externals : List (String × Nat)) (functions : List SlotFunction) :
    Except Failure CodeUnit := do
  let declared ← externals.foldlM (fun u e => u.declare e.1 e.2) { id }
  functions.foldlM add declared

end NumericJit.CodeUnit
