import NumericJit.Statement.Grammar

/-!
# Statements that have a text of their own

Not every tree can be written down: a name has to be a word and not a keyword, an operator one that
is read as such, and a literal must have neither a sign nor a value that only a word stands for.
-/

namespace NumericJit

/-- Neither NaN nor infinite, and without a sign. -/
def Number.isPlain (x : Number) : Bool := !x.isNaN && !x.isInfinite && !x.isNegative

/-- A letter, letters and digits behind it, and not a keyword. -/
def isName (word : String) : Bool :=
  match word.toList with
  | [] => false
  | c :: cs => c.isAlpha && cs.all Char.isAlphanum && (Keyword.ofSpelling? word).isNone

structure Expr.Test where
  name : String → Bool := fun _ => true
  literal : Number → Bool := fun _ => true
  operator : Char → Bool := fun _ => true
  count : Nat → Bool := fun _ => true

mutual
def Expr.passes (t : Expr.Test) : Expr → Bool
  | .number value _ => t.literal value
  | .variable name _ => t.name name
  | .binary op lhs rhs _ => t.operator op && lhs.passes t && rhs.passes t
  | .call callee args _ => t.name callee && Expr.argsPass t args
  | .branch condition yes no _ => condition.passes t && yes.passes t && no.passes t
  | .loop counter start stop step body _ =>
    t.name counter && start.passes t && stop.passes t && Expr.stepPasses t step && body.passes t
  | .locals bindings body _ =>
    t.count bindings.length && Expr.bindingsPass t bindings && body.passes t

def Expr.argsPass (t : Expr.Test) : List Expr → Bool
  | [] => true
  | e :: es => e.passes t && Expr.argsPass t es

def Expr.stepPasses (t : Expr.Test) : Option Expr → Bool
  | none => true
  | some e => e.passes t

def Expr.bindingPasses (t : Expr.Test) : String × Option Expr → Bool
  | (name, none) => t.name name
  | (name, some e) => t.name name && e.passes t

def Expr.bindingsPass (t : Expr.Test) : List (String × Option Expr) → Bool
  | [] => true
  | b :: bs => Expr.bindingPasses t b && Expr.bindingsPass t bs
end

def Prototype.passes (t : Expr.Test) (p : Prototype) : Bool := t.name p.name && p.params.all t.name

def Statement.passes (t : Expr.Test) : Statement → Bool
  | .definition proto body => proto.passes t && body.passes t
  | .declaration proto => proto.passes t
  | .expression e => e.passes t

def Expr.Test.writable : Expr.Test where
  name := isName
  literal := Number.isPlain
  operator := fun op => binaryOperators.contains op
  count := fun n => n != 0

def Expr.Test.finite : Expr.Test where
  literal := fun value => !value.isInfinite

end NumericJit
