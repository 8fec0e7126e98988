import NumericJit.Wasm.Module

/-!
# Modules from units

Each arity of a unit becomes one type, in order of first use; its outside functions become
imports, its functions become functions and exports of the module. Names of callees become
indices, and going back to a loop becomes a jump over the labels in between.
-/

namespace NumericJit

namespace CodeUnit

/-- Every function that a unit can call, with its arity, in the order of module indices. -/
def callables (u : CodeUnit) : List (String × Nat) :=
  u.externals ++ u.functions.map fun f => (f.name, f.arity)

def callTarget? (u : CodeUnit) (name : String) : Option (Nat × Nat) :=
  let callables := u.callables
  (callables.findIdx? fun c => c.1 == name).bind fun index =>
    callables[index]?.map fun c => (index, c.2)

end CodeUnit

namespace Wasm

/-- What a label stands for, innermost first where they are listed. -/
inductive Label where
  | loop
  | block
deriving DecidableEq

def loopDepth? (labels : List Label) : Option Nat := labels.findIdx? (· == .loop)

mutual
def opsOfInstr (u : CodeUnit) (name : String) (labels : List Label) :
    Instr → Except Failure (List Op)
  | .const value => .ok [.const value]
  | .load slot => .ok [.localGet slot]
  | .store slot => .ok [.localSet slot]
  | .tee slot => .ok [.localTee slot]
  | .add => .ok [.add]
  | .sub => .ok [.sub]
  | .mul => .ok [.mul]
  | .ltUnordered => .ok [.ge, .eqz]
  | .boolToNumber => .ok [.convert]
  | .numberToBool => .ok [.abs, .const .zero, .gt]
  | .call callee argCount =>
    match u.callTarget? callee with
    | none => .error { cause := .undeclaredCallee name callee }
    | some (index, arity) =>
      if arity = argCount then .ok [.call index]
      else .error { cause := .callArity name callee argCount arity }
  | .drop => .ok [.drop]
  | .loop body => (opsOfCode u name (.loop :: labels) body).map fun ops => [.loop ops]
  | .continueIf =>
    match loopDepth? labels with
    | some depth => .ok [.brIf depth]
    | none => .error { cause := .continueOutsideLoop name }
  | .branch yes no => do
    let yes ← opsOfCode u name (.block :: labels) yes
    let no ← opsOfCode u name (.block :: labels) no
    .ok [.ifElse yes no]

def opsOfCode (u : CodeUnit) (name : String) (labels : List Label) :
    List Instr → Except Failure (List Op)
  | [] => .ok []
  | i :: rest => do
    let ops ← opsOfInstr u name labels i
    let others ← opsOfCode u name labels rest
    .ok (ops ++ others)
end

def firsts : List Nat → List Nat
  | [] => []
  | n :: rest => n :: (firsts rest).filter (· != n)

def typesOf (u : CodeUnit) : List Nat := firsts (u.callables.map Prod.snd)

def funcOf (u : CodeUnit) (f : SlotFunction) : Except Failure Func := do
  let body ← opsOfCode u f.name [] f.body
  .ok { typeIndex := (typesOf u).idxOf f.arity, locals := f.localCount, body }

def funcsOf (u : CodeUnit) : List SlotFunction → Except Failure (List Func)
  | [] => .ok []
  | f :: rest => do
    let func ← funcOf u f
    let others ← funcsOf u rest
    .ok (func :: others)

def moduleOf (u : CodeUnit) : Except Failure Module := do
  let functions ← funcsOf u u.functions
  .ok {
    types := typesOf u
    imports := u.externals.map fun (name, arity) => (name, (typesOf u).idxOf arity)
    functions
    exports := u.functions.zipIdx.map fun (f, i) => (f.name, u.externals.length + i) }

end Wasm
end NumericJit
