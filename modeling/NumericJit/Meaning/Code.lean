import NumericJit.Lowering.Expression
import NumericJit.Meaning.Footprint
import NumericJit.Wasm.Assembly
import NumericJit.Wasm.Bytes

/-!
# The code of an expression

`Expr.code` is the code of an expression as a function of its tree, of the slots of the variables
in scope and of the number of slots in use. How many bytes code takes in a module can be read off
the code: each instruction takes a fixed number of them, and as many besides as its slot, the index
of its callee or the depth of its label needs.
-/

namespace NumericJit

abbrev SlotMap := String → Option Nat

namespace SlotMap

def bind (scope : SlotMap) (name : String) (slot : Nat) : SlotMap :=
  fun other => if other = name then some slot else scope other

/-- Binds names to slots that follow each other; of two equal names the later counts. -/
def bindFrom (scope : SlotMap) (slot : Nat) : List String → SlotMap
  | [] => scope
  | name :: rest => (scope.bind name slot).bindFrom (slot + 1) rest

def ofParams (params : List String) : SlotMap := bindFrom (fun _ => none) 0 params

end SlotMap

def Expr.stepInstr (slots : Nat) : Option Expr → Instr
  | none => .const .one
  | some e => .load (slots + Expr.slotCount e)

mutual
/-- The code of an expression when `slots` slots are in use. -/
def Expr.code (scope : SlotMap) (slots : Nat) : Expr → Code
  | .number value _ => [.const value]
  | .variable name _ => [.load ((scope name).getD 0)]
  | .binary op lhs rhs _ =>
    if op = '=' then
      match lhs with
      | .variable name _ => Expr.code scope slots rhs ++ [.tee ((scope name).getD 0)]
      | _ => []
    else if op = '>' then
      let scratch := slots + Expr.slotCount lhs
      Expr.code scope slots lhs ++ .store scratch :: Expr.code scope (scratch + 1) rhs
        ++ [.load scratch, .ltUnordered, .boolToNumber]
    else
      Expr.code scope slots lhs ++ Expr.code scope (slots + Expr.slotCount lhs) rhs
        ++ (Lower.operatorCode? op).getD []
  | .call callee args _ => Expr.argCode scope slots args ++ [.call callee args.length]
  | .branch condition yes no _ =>
    let afterCondition := slots + Expr.slotCount condition
    Expr.code scope slots condition ++ [.numberToBool,
      .branch (Expr.code scope afterCondition yes)
        (Expr.code scope (afterCondition + Expr.slotCount yes) no)]
  | .loop counter start stop step body _ =>
    let afterStart := slots + 1 + Expr.slotCount start
    let afterStep := afterStart + Expr.stepSlots step
    let inner := scope.bind counter slots
    Expr.code scope (slots + 1) start ++ .store slots :: Expr.stepCode scope afterStart step
      ++ [.loop (Expr.code inner afterStep body
          ++ [.drop, .load slots, Expr.stepInstr afterStart step, .add, .tee slots]
          ++ Expr.code inner (afterStep + Expr.slotCount body) stop
          ++ [.ltUnordered, .continueIf]),
        .const .zero]
  | .locals bindings body _ =>
    Expr.localCode scope slots bindings fun scope slots => Expr.code scope slots body

def Expr.argCode (scope : SlotMap) (slots : Nat) : List Expr → Code
  | [] => []
  | e :: es => Expr.code scope slots e ++ Expr.argCode scope (slots + Expr.slotCount e) es

def Expr.stepCode (scope : SlotMap) (slots : Nat) : Option Expr → Code
  | none => []
  | some e => Expr.code scope slots e ++ [.store (slots + Expr.slotCount e)]

def Expr.initialCode (scope : SlotMap) (slots : Nat) : String × Option Expr → Code
  | (_, none) => [.const .zero]
  | (_, some e) => Expr.code scope slots e

def Expr.localCode (scope : SlotMap) (slots : Nat) :
    List (String × Option Expr) → (SlotMap → Nat → Code) → Code
  | [], inner => inner scope slots
  | b :: rest, inner =>
    let slot := slots + Expr.initialSlots b
    Expr.initialCode scope slots b
      ++ .store slot :: Expr.localCode (scope.bind b.1 slot) (slot + 1) rest inner
end

def SlotFunction.ofTree (name : String) (params : List String) (body : Expr) : SlotFunction where
  name := name
  params := params
  slots := params.length + body.slotCount
  body := body.code (.ofParams params) params.length

-- ---------------------------------------------------------------------------
-- Sizes
-- ---------------------------------------------------------------------------

def Wasm.indexedSize (index : Nat) : Nat := 1 + (leb index).length

mutual
/-- The bytes of an instruction inside labels, where functions are called by their place in a
list. -/
def Instr.byteSize (callables : List (String × Nat)) (labels : List Wasm.Label) : Instr → Nat
  | .const _ => 9
  | .load slot => Wasm.indexedSize slot
  | .store slot => Wasm.indexedSize slot
  | .tee slot => Wasm.indexedSize slot
  | .add => 1
  | .sub => 1
  | .mul => 1
  | .ltUnordered => 2
  | .boolToNumber => 1
  | .numberToBool => 11
  | .call callee _ => Wasm.indexedSize (callables.findIdx fun c => c.1 == callee)
  | .drop => 1
  | .loop body => 3 + Code.byteSize callables (.loop :: labels) body
  | .continueIf => Wasm.indexedSize ((Wasm.loopDepth? labels).getD 0)
  | .branch yes no =>
    4 + Code.byteSize callables (.block :: labels) yes
      + Code.byteSize callables (.block :: labels) no

def Code.byteSize (callables : List (String × Nat)) (labels : List Wasm.Label) : Code → Nat
  | [] => 0
  | i :: rest => Instr.byteSize callables labels i + Code.byteSize callables labels rest
end

/-- The bytes of a function: its locals, its body and the mark behind it. -/
def SlotFunction.byteSize (callables : List (String × Nat)) (f : SlotFunction) : Nat :=
  (Wasm.localsBytes f.localCount).length + Code.byteSize callables [] f.body + 1

end NumericJit
