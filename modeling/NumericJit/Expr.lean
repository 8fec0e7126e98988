import NumericJit.Number
import NumericJit.Source.Position

/-!
# Expressions and statements

The trees that statements are read into. Every node carries the span it was read from.
-/

namespace NumericJit

inductive Expr where
  | number (value : Number) (span : Span)
  | variable (name : String) (span : Span)
  | binary (op : Char) (lhs rhs : Expr) (span : Span)
  | call (callee : String) (args : List Expr) (span : Span)
  | branch (condition yes no : Expr) (span : Span)
  /-- A counting loop: the body runs first, the counter grows by the step, and the loop goes on
  while the counter has not reached the end. -/
  | loop (counter : String) (start stop : Expr) (step : Option Expr) (body : Expr) (span : Span)
  | locals (bindings : List (String × Option Expr)) (body : Expr) (span : Span)
deriving Inhabited

def Expr.span : Expr → Span
  | .number _ s => s
  | .variable _ s => s
  | .binary _ _ _ s => s
  | .call _ _ s => s
  | .branch _ _ _ s => s
  | .loop _ _ _ _ _ s => s
  | .locals _ _ s => s

structure Prototype where
  name : String
  params : List String
  span : Span
deriving DecidableEq

def Prototype.arity (p : Prototype) : Nat := p.params.length

inductive Statement where
  | definition (proto : Prototype) (body : Expr)
  | declaration (proto : Prototype)
  | expression (e : Expr)

def Statement.span : Statement → Span
  | .definition p _ => p.span
  | .declaration p => p.span
  | .expression e => e.span

end NumericJit
