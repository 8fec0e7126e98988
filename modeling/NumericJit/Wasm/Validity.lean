import NumericJit.Wasm.Assembly
import NumericJit.Wasm.Bytes

/-!
# Valid modules

Validity is decided before anything runs: every index is in range, every operation finds operands
of its types among those of its own block, a loop leaves nothing, each branch and each function
leaves one number, and no two exports have the same name.

Types, functions, their bodies and names are limited in size, and so are all the functions together
that link a module to others. These limits are not part of the format but those of the validator
that every module is handed to.
-/

namespace NumericJit.Wasm

inductive ValType where
  | num
  | flag
deriving DecidableEq

def maxParams : Nat := 1000

/-- No function has more parameters and locals than this. -/
def maxLocals : Nat := 50000

def maxNameSize : Nat := 100000

def linkSizeBound : Nat := 1000000

/-- The locals and the body of a function have no more bytes than this. -/
def maxBodySize : Nat := 7654321

structure CheckContext where
  slots : Nat
  arity? : Nat → Option Nat

def popTypes? : List ValType → List ValType → Option (List ValType)
  | [], stack => some stack
  | t :: ts, s :: stack => if t = s then popTypes? ts stack else none
  | _ :: _, [] => none

mutual
/-- The operand types behind an operation, from those in front of it. -/
def checkOp (cx : CheckContext) (labels : List Label) : Op → List ValType → Option (List ValType)
  | .const _, stack => some (.num :: stack)
  | .localGet i, stack => if i < cx.slots then some (.num :: stack) else none
  | .localSet i, stack => if i < cx.slots then popTypes? [.num] stack else none
  | .localTee i, stack =>
    if i < cx.slots then (popTypes? [.num] stack).map (.num :: ·) else none
  | .add, stack => (popTypes? [.num, .num] stack).map (.num :: ·)
  | .sub, stack => (popTypes? [.num, .num] stack).map (.num :: ·)
  | .mul, stack => (popTypes? [.num, .num] stack).map (.num :: ·)
  | .abs, stack => (popTypes? [.num] stack).map (.num :: ·)
  | .ge, stack => (popTypes? [.num, .num] stack).map (.flag :: ·)
  | .gt, stack => (popTypes? [.num, .num] stack).map (.flag :: ·)
  | .eqz, stack => (popTypes? [.flag] stack).map (.flag :: ·)
  | .convert, stack => (popTypes? [.flag] stack).map (.num :: ·)
  | .call index, stack =>
    (cx.arity? index).bind fun arity =>
      (popTypes? (List.replicate arity .num) stack).map (.num :: ·)
  | .drop, stack => stack.tail?
  | .loop body, stack =>
    if checkOps cx (.loop :: labels) body [] = some [] then some stack else none
  | .brIf depth, stack =>
    (popTypes? [.flag] stack).bind fun stack =>
      match labels[depth]? with
      | some .loop => some stack
      | some .block => if stack.head? = some .num then some stack else none
      | none => none
  | .ifElse yes no, stack =>
    (popTypes? [.flag] stack).bind fun stack =>
      if checkOps cx (.block :: labels) yes [] = some [.num]
          ∧ checkOps cx (.block :: labels) no [] = some [.num] then some (.num :: stack)
      else none

def checkOps (cx : CheckContext) (labels : List Label) :
    List Op → List ValType → Option (List ValType)
  | [], stack => some stack
  | op :: rest, stack => (checkOp cx labels op stack).bind (checkOps cx labels rest)
end

def Func.isValid (m : Module) (f : Func) : Bool :=
  match m.types[f.typeIndex]? with
  | none => false
  | some params =>
    params + f.locals ≤ maxLocals
      && checkOps ⟨params + f.locals, m.arity?⟩ [.block] f.body [] = some [.num]

/-- The parameter counts of the functions that link a module to others: its imports, then its
exports. -/
def Module.linkedArities (m : Module) : List Nat :=
  m.imports.filterMap (fun i => m.types[i.2]?) ++ m.exports.filterMap fun e => m.arity? e.2

/-- What a function type counts for: its parameters, its result, and two for the type itself. -/
def typeSize (params : Nat) : Nat := params + 3

/-- One for the module, and the type of every function that links it to others, as often as it
occurs. -/
def linkSize (arities : List Nat) : Nat :=
  arities.foldl (fun size params => size + typeSize params) 1

def Module.linkSize (m : Module) : Nat := Wasm.linkSize m.linkedArities

def Module.isValid (m : Module) : Bool :=
  m.types.all (· ≤ maxParams)
    && (m.imports ++ m.exports).all (·.1.utf8ByteSize ≤ maxNameSize)
    && m.linkSize < linkSizeBound
    && m.functions.all (·.isValid m)
    && m.functions.all (·.content.length ≤ maxBodySize)
    && (m.exports.map Prod.fst).Nodup

end NumericJit.Wasm
