import NumericJit.Failure

/-!
# Modules

The part of Wasm that units are turned into: functions over binary64 numbers with one result,
structured control, and calls by index. Indices count the imports first, then the functions of the
module.
-/

namespace NumericJit.Wasm

inductive Op where
  | const (value : Number)
  | localGet (index : Nat)
  | localSet (index : Nat)
  | localTee (index : Nat)
  | add
  | sub
  | mul
  | abs
  | ge
  | gt
  | eqz
  | convert
  | call (index : Nat)
  | drop
  /-- A block without operands and results whose label is its start. -/
  | loop (body : List Op)
  /-- Takes a truth value and jumps to the label with this many labels inside it if it holds. -/
  | brIf (depth : Nat)
  /-- Two blocks without operands and with one number as result. -/
  | ifElse (yes no : List Op)
deriving Inhabited

structure Func where
  typeIndex : Nat
  locals : Nat
  body : List Op
deriving Inhabited

structure Module where
  /-- Function types by their number of parameters. -/
  types : List Nat
  imports : List (String × Nat)
  functions : List Func
  exports : List (String × Nat)

def Module.function? (m : Module) (index : Nat) : Option Func :=
  if index < m.imports.length then none else m.functions[index - m.imports.length]?

def Module.arity? (m : Module) (index : Nat) : Option Nat :=
  ((m.imports.map Prod.snd ++ m.functions.map Func.typeIndex)[index]?).bind (m.types[·]?)

end NumericJit.Wasm
