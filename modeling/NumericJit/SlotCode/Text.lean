import NumericJit.Decimal.Notation
import NumericJit.SlotCode.Basic
import NumericJit.Text.Quoted

/-!
# Slot code as text

A listing shows one instruction a line, indented by the blocks around it. The outline writes a
block in one line, as messages quote it.
-/

namespace NumericJit

def slotText (slot : Nat) : String := "%" ++ toString slot

def indentation (depth : Nat) : String := String.join (List.replicate depth "    ")

mutual
def Instr.listing (depth : Nat) : Instr → String
  | .const value => indentation depth ++ "const " ++ value.plain ++ "\n"
  | .load slot => indentation depth ++ "load " ++ slotText slot ++ "\n"
  | .store slot => indentation depth ++ "store " ++ slotText slot ++ "\n"
  | .tee slot => indentation depth ++ "tee " ++ slotText slot ++ "\n"
  | .add => indentation depth ++ "add\n"
  | .sub => indentation depth ++ "sub\n"
  | .mul => indentation depth ++ "mul\n"
  | .ltUnordered => indentation depth ++ "lt.unordered\n"
  | .boolToNumber => indentation depth ++ "bool_to_number\n"
  | .numberToBool => indentation depth ++ "number_to_bool\n"
  | .call callee argCount =>
    indentation depth ++ "call " ++ callee ++ "/" ++ toString argCount ++ "\n"
  | .drop => indentation depth ++ "drop\n"
  | .continueIf => indentation depth ++ "continue_if\n"
  | .loop body =>
    indentation depth ++ "loop \x7b\n" ++ Code.listing (depth + 1) body ++ indentation depth
      ++ "\x7d\n"
  | .branch yes no =>
    indentation depth ++ "if \x7b\n" ++ Code.listing (depth + 1) yes ++ indentation depth
      ++ "\x7d else \x7b\n" ++ Code.listing (depth + 1) no ++ indentation depth ++ "\x7d\n"

def Code.listing (depth : Nat) : List Instr → String
  | [] => ""
  | i :: rest => Instr.listing depth i ++ Code.listing depth rest
end

def SlotFunction.listing (f : SlotFunction) : String :=
  let param := fun (name, slot) => name ++ ": " ++ slotText slot
  "fn " ++ f.name ++ "(" ++ String.intercalate ", " (f.params.zipIdx.map param) ++ ") locals "
    ++ toString f.localCount ++ " \x7b\n" ++ Code.listing 1 f.body ++ "\x7d\n"

def CodeUnit.listing (u : CodeUnit) : String :=
  "; unit " ++ toString u.id ++ "\n"
    ++ String.join (u.externals.map fun (name, arity) =>
      "extern " ++ name ++ "/" ++ toString arity ++ "\n")
    ++ String.join (u.functions.map SlotFunction.listing)

def slotOutline (slot : Nat) : String := "(SlotId(" ++ toString slot ++ "))"

mutual
def Instr.outline : Instr → String
  | .const value => "Const(" ++ value.literal ++ ")"
  | .load slot => "LoadSlot" ++ slotOutline slot
  | .store slot => "StoreSlot" ++ slotOutline slot
  | .tee slot => "TeeSlot" ++ slotOutline slot
  | .add => "Add"
  | .sub => "Sub"
  | .mul => "Mul"
  | .ltUnordered => "LessThanUnordered"
  | .boolToNumber => "BoolToNumber"
  | .numberToBool => "NumberToBool"
  | .call callee argCount =>
    "Call \x7b callee: " ++ Text.quoted callee ++ ", argument_count: " ++ toString argCount
      ++ " \x7d"
  | .drop => "Drop"
  | .continueIf => "ContinueIf"
  | .loop body => "Loop([" ++ Code.outlineItems body ++ "])"
  | .branch yes no =>
    "IfElse \x7b then_block: [" ++ Code.outlineItems yes ++ "], else_block: ["
      ++ Code.outlineItems no ++ "] \x7d"

def Code.outlineItems : List Instr → String
  | [] => ""
  | [i] => i.outline
  | i :: rest => i.outline ++ ", " ++ Code.outlineItems rest
end

def Code.outline (code : Code) : String := "[" ++ Code.outlineItems code ++ "]"

def RegionKind.outline : RegionKind → String
  | .loop => "Loop"
  | .yes => "Then"
  | .no taken => "Else \x7b then_block: " ++ Code.outline taken ++ " \x7d"

end NumericJit
