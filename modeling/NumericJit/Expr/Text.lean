import NumericJit.Decimal.Notation
import NumericJit.Expr

/-!
# Statements as text

Every compound expression is written in its own parentheses, so the text shows the tree.
-/

namespace NumericJit

mutual
def Expr.text : Expr → String
  | .number value _ => value.plain
  | .variable name _ => name
  | .binary op lhs rhs _ =>
    "(" ++ lhs.text ++ " " ++ String.singleton op ++ " " ++ rhs.text ++ ")"
  | .call callee args _ => callee ++ "(" ++ Expr.argsText args ++ ")"
  | .branch condition yes no _ =>
    "(if " ++ condition.text ++ " then " ++ yes.text ++ " else " ++ no.text ++ ")"
  | .loop counter start stop step body _ =>
    "(for " ++ counter ++ " = " ++ start.text ++ ", " ++ stop.text ++ Expr.stepText step ++ " in "
      ++ body.text ++ ")"
  | .locals bindings body _ => "(var " ++ Expr.bindingsText bindings ++ " in " ++ body.text ++ ")"

def Expr.argsText : List Expr → String
  | [] => ""
  | [e] => e.text
  | e :: es => e.text ++ ", " ++ Expr.argsText es

def Expr.stepText : Option Expr → String
  | none => ""
  | some e => ", " ++ e.text

def Expr.bindingText : String × Option Expr → String
  | (name, none) => name
  | (name, some e) => name ++ " = " ++ e.text

def Expr.bindingsText : List (String × Option Expr) → String
  | [] => ""
  | [b] => Expr.bindingText b
  | b :: bs => Expr.bindingText b ++ ", " ++ Expr.bindingsText bs
end

def Prototype.text (p : Prototype) : String :=
  p.name ++ "(" ++ String.intercalate " " p.params ++ ")"

def Statement.text : Statement → String
  | .definition p body => "def " ++ p.text ++ " " ++ body.text
  | .declaration p => "extern " ++ p.text
  | .expression e => e.text

end NumericJit
