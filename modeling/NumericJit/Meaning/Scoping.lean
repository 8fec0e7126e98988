import NumericJit.Failure

/-!
# Well-formed expressions

An expression is well formed if its variables are in scope, it assigns to variables only, its
operators are known, and its calls fit the functions they name. The check names the first
violation; the rules of scope stand here by themselves, with a scope as a list of names.
-/

namespace NumericJit

def isOperator (op : Char) : Bool := op == '<' || op == '>' || op == '+' || op == '-' || op == '*'

def inScope (scope : List String) (name : String) (span : Span) : Except Failure Unit :=
  if name ∈ scope then .ok () else .error { cause := .unknownVariable name, span }

mutual
/-- Finds the first violation. `arityOf` gives the arity of a callable name, or why it cannot be
called. -/
def Expr.check (arityOf : String → Except Cause Nat) (scope : List String) :
    Expr → Except Failure Unit
  | .number _ _ => .ok ()
  | .variable name span => inScope scope name span
  | .binary op lhs rhs span =>
    if op = '=' then
      match lhs with
      | .variable name target => do
        Expr.check arityOf scope rhs
        inScope scope name target
      | _ => .error { cause := .invalidTarget lhs, span }
    else do
      Expr.check arityOf scope lhs
      Expr.check arityOf scope rhs
      if isOperator op then .ok () else .error { cause := .unknownOperator op, span }
  | .call callee args span =>
    match arityOf callee with
    | .error cause => .error { cause, span }
    | .ok arity => do
      Expr.checkArgs arityOf scope args
      if arity = args.length then .ok ()
      else .error { cause := .wrongArgumentCount callee arity args.length, span }
  | .branch condition yes no _ => do
    Expr.check arityOf scope condition
    Expr.check arityOf scope yes
    Expr.check arityOf scope no
  | .loop counter start stop step body _ => do
    Expr.check arityOf scope start
    Expr.checkStep arityOf scope step
    Expr.check arityOf (counter :: scope) body
    Expr.check arityOf (counter :: scope) stop
  | .locals bindings body _ => do
    let inner ← Expr.checkLocals arityOf scope bindings
    Expr.check arityOf inner body

def Expr.checkArgs (arityOf : String → Except Cause Nat) (scope : List String) :
    List Expr → Except Failure Unit
  | [] => .ok ()
  | e :: es => do
    Expr.check arityOf scope e
    Expr.checkArgs arityOf scope es

def Expr.checkStep (arityOf : String → Except Cause Nat) (scope : List String) :
    Option Expr → Except Failure Unit
  | none => .ok ()
  | some e => Expr.check arityOf scope e

def Expr.checkLocal (arityOf : String → Except Cause Nat) (scope : List String) :
    String × Option Expr → Except Failure Unit
  | (_, none) => .ok ()
  | (_, some e) => Expr.check arityOf scope e

/-- Checks initial values, each in the scope of the names before it, and gives the scope of the
body. -/
def Expr.checkLocals (arityOf : String → Except Cause Nat) (scope : List String) :
    List (String × Option Expr) → Except Failure (List String)
  | [] => .ok scope
  | b :: rest => do
    Expr.checkLocal arityOf scope b
    Expr.checkLocals arityOf (b.1 :: scope) rest
end

end NumericJit
