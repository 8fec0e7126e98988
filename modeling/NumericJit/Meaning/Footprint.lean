import NumericJit.Expr

/-!
# What expressions take up

The functions that an expression calls, in the order in which their names are looked up, its
operators, and the slots that it needs besides those of the variables around it: one for the left
operand of `>`, one for each loop counter and given step, and one for each local variable.
-/

namespace NumericJit

mutual
def Expr.callees : Expr → List String
  | .number _ _ => []
  | .variable _ _ => []
  | .binary _ lhs rhs _ => Expr.callees lhs ++ Expr.callees rhs
  | .call callee args _ => callee :: Expr.argCallees args
  | .branch condition yes no _ => Expr.callees condition ++ Expr.callees yes ++ Expr.callees no
  | .loop _ start stop step body _ =>
    Expr.callees start ++ Expr.stepCallees step ++ Expr.callees body ++ Expr.callees stop
  | .locals bindings body _ => Expr.localCallees bindings ++ Expr.callees body

def Expr.argCallees : List Expr → List String
  | [] => []
  | e :: es => Expr.callees e ++ Expr.argCallees es

def Expr.stepCallees : Option Expr → List String
  | none => []
  | some e => Expr.callees e

def Expr.initialCallees : String × Option Expr → List String
  | (_, none) => []
  | (_, some e) => Expr.callees e

def Expr.localCallees : List (String × Option Expr) → List String
  | [] => []
  | b :: rest => Expr.initialCallees b ++ Expr.localCallees rest
end

mutual
def Expr.operators : Expr → List Char
  | .number _ _ => []
  | .variable _ _ => []
  | .binary op lhs rhs _ => op :: (Expr.operators lhs ++ Expr.operators rhs)
  | .call _ args _ => Expr.argOperators args
  | .branch condition yes no _ =>
    Expr.operators condition ++ Expr.operators yes ++ Expr.operators no
  | .loop _ start stop step body _ =>
    Expr.operators start ++ Expr.stepOperators step ++ Expr.operators body ++ Expr.operators stop
  | .locals bindings body _ => Expr.localOperators bindings ++ Expr.operators body

def Expr.argOperators : List Expr → List Char
  | [] => []
  | e :: es => Expr.operators e ++ Expr.argOperators es

def Expr.stepOperators : Option Expr → List Char
  | none => []
  | some e => Expr.operators e

def Expr.initialOperators : String × Option Expr → List Char
  | (_, none) => []
  | (_, some e) => Expr.operators e

def Expr.localOperators : List (String × Option Expr) → List Char
  | [] => []
  | b :: rest => Expr.initialOperators b ++ Expr.localOperators rest
end

mutual
def Expr.slotCount : Expr → Nat
  | .number _ _ => 0
  | .variable _ _ => 0
  | .binary op lhs rhs _ =>
    Expr.slotCount lhs + (if op = '>' then 1 else 0) + Expr.slotCount rhs
  | .call _ args _ => Expr.argSlots args
  | .branch condition yes no _ =>
    Expr.slotCount condition + Expr.slotCount yes + Expr.slotCount no
  | .loop _ start stop step body _ =>
    1 + Expr.slotCount start + Expr.stepSlots step + Expr.slotCount body + Expr.slotCount stop
  | .locals bindings body _ => Expr.localSlots bindings + Expr.slotCount body

def Expr.argSlots : List Expr → Nat
  | [] => 0
  | e :: es => Expr.slotCount e + Expr.argSlots es

def Expr.stepSlots : Option Expr → Nat
  | none => 0
  | some e => Expr.slotCount e + 1

def Expr.initialSlots : String × Option Expr → Nat
  | (_, none) => 0
  | (_, some e) => Expr.slotCount e

def Expr.localSlots : List (String × Option Expr) → Nat
  | [] => 0
  | b :: rest => Expr.initialSlots b + 1 + Expr.localSlots rest
end

end NumericJit
