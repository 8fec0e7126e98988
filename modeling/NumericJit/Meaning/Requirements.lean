import NumericJit.Meaning.Scoping

/-!
# What an expression requires

Everything that an expression needs of its surroundings, place by place and in the order in which
the places are looked at. Each place that needs a variable comes with the names that are in scope
there:

* an assignment needs a variable on its left, then what its value needs, then the variable to be in
  scope;
* another operator comes behind both its operands;
* a call needs its callee to be callable, then what its arguments need, then as many arguments as
  the callee takes;
* a loop is looked at in the order start, step, body, end, with the counter in scope in the last
  two;
* initial values come in order, each in the scope of the names before it, and then the body.
-/

namespace NumericJit

inductive Need where
  | inScope (scope : List String) (name : String)
  | isVariable (target : Expr)
  | isOperator (op : Char)
  | callable (callee : String)
  /-- A callee that can be called takes this many arguments. -/
  | takes (callee : String) (given : Nat)

structure Requirement where
  need : Need
  span : Span

/-- Why a need is not met, if it is not. `arityOf` gives the arity of a callable name, or why it
cannot be called. -/
def Need.unmet? (arityOf : String → Except Cause Nat) : Need → Option Cause
  | .inScope scope name => if name ∈ scope then none else some (.unknownVariable name)
  | .isVariable (.variable _ _) => none
  | .isVariable target => some (.invalidTarget target)
  | .isOperator op => if NumericJit.isOperator op then none else some (.unknownOperator op)
  | .callable callee =>
    match arityOf callee with
    | .ok _ => none
    | .error cause => some cause
  | .takes callee given =>
    match arityOf callee with
    | .ok arity => if arity = given then none else some (.wrongArgumentCount callee arity given)
    | .error _ => none

def Requirement.violation? (arityOf : String → Except Cause Nat) (r : Requirement) :
    Option Failure :=
  (r.need.unmet? arityOf).map fun cause => { cause, span := r.span }

/-- What the left side of an assignment needs once the value is there. -/
def Expr.targetRequirements (scope : List String) : Expr → List Requirement
  | .variable name span => [⟨.inScope scope name, span⟩]
  | _ => []

def localScope (scope : List String) (bindings : List (String × Option Expr)) : List String :=
  (bindings.map Prod.fst).reverse ++ scope

mutual
def Expr.requirements (scope : List String) : Expr → List Requirement
  | .number _ _ => []
  | .variable name span => [⟨.inScope scope name, span⟩]
  | .binary op lhs rhs span =>
    if op = '=' then
      ⟨.isVariable lhs, span⟩ :: (Expr.requirements scope rhs ++ lhs.targetRequirements scope)
    else Expr.requirements scope lhs ++ Expr.requirements scope rhs ++ [⟨.isOperator op, span⟩]
  | .call callee args span =>
    ⟨.callable callee, span⟩ ::
      (Expr.argRequirements scope args ++ [⟨.takes callee args.length, span⟩])
  | .branch condition yes no _ =>
    Expr.requirements scope condition ++ Expr.requirements scope yes ++ Expr.requirements scope no
  | .loop counter start stop step body _ =>
    Expr.requirements scope start ++ Expr.stepRequirements scope step
      ++ Expr.requirements (counter :: scope) body ++ Expr.requirements (counter :: scope) stop
  | .locals bindings body _ =>
    Expr.localRequirements scope bindings ++ Expr.requirements (localScope scope bindings) body

def Expr.argRequirements (scope : List String) : List Expr → List Requirement
  | [] => []
  | e :: es => Expr.requirements scope e ++ Expr.argRequirements scope es

def Expr.stepRequirements (scope : List String) : Option Expr → List Requirement
  | none => []
  | some e => Expr.requirements scope e

def Expr.initialRequirements (scope : List String) : String × Option Expr → List Requirement
  | (_, none) => []
  | (_, some e) => Expr.requirements scope e

def Expr.localRequirements (scope : List String) : List (String × Option Expr) → List Requirement
  | [] => []
  | b :: rest =>
    Expr.initialRequirements scope b ++ Expr.localRequirements (b.1 :: scope) rest
end

end NumericJit
