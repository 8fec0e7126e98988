import Mathlib.Data.List.Chain
import NumericJit.Statement.Grammar
import NumericJit.Statement.Parse

/-!
# How operators are grouped

Operands with operators between them are grouped by twos, until one expression is left. A grouping
keeps the order of both, and an operator that binds more tightly is inside one that binds less
tightly. Between operators that bind as tightly a rule decides which of them is inside:

* by associativity, an operator is in the left operand of the next one, and an assignment in the
  right operand of the one before;
* by neighbours, an assignment takes all that follows as its right operand if the very next
  operator is an assignment too, and is in the left operand of the next one otherwise.

The first rule is also given as a grammar, with one level for each precedence: products of
operands, sums of products, comparisons of sums, and assignments.
-/

namespace NumericJit

inductive Grouping where
  | operand (e : Expr)
  | binary (op : Char) (lhs rhs : Grouping)

namespace Grouping

def operands : Grouping → List Expr
  | .operand e => [e]
  | .binary _ lhs rhs => lhs.operands ++ rhs.operands

def operators : Grouping → List Char
  | .operand _ => []
  | .binary op lhs rhs => lhs.operators ++ op :: rhs.operators

def expr : Grouping → Expr
  | .operand e => e
  | .binary op lhs rhs => .binary op lhs.expr rhs.expr (lhs.expr.span.to rhs.expr.span)

def SameChain (t t' : Grouping) : Prop := t.operands = t'.operands ∧ t.operators = t'.operators

end Grouping

-- ---------------------------------------------------------------------------
-- Rules
-- ---------------------------------------------------------------------------

/-- How tightly an operator binds; what is not an operator comes before all operators. -/
def bindingLevel (op : Char) : Nat := (precedence? op).getD 0

/-- Which operators that bind as tightly as a given one may be in its left and in its right
operand, by all the operators that are there. -/
structure GroupingRule where
  left : Char → List Char → Prop
  right : Char → List Char → Prop

namespace GroupingRule

def associativity : GroupingRule where
  left op _ := isRightAssociative op = false
  right op _ := isRightAssociative op = true

def Apart (op next : Char) : Prop :=
  ¬ (isRightAssociative op = true ∧ isRightAssociative next = true)

def neighbours : GroupingRule where
  left op inner := isRightAssociative op = true → (inner ++ [op]).IsChain Apart
  right op inner := isRightAssociative op = true ∧ inner.head? = some op

end GroupingRule

inductive Grouping.Follows (rule : GroupingRule) : Grouping → Prop where
  | operand : Follows rule (.operand e)
  | binary {op : Char} {lhs rhs : Grouping}
    (left : ∀ inner ∈ lhs.operators, bindingLevel op < bindingLevel inner ∨
      bindingLevel op = bindingLevel inner ∧ rule.left op lhs.operators)
    (right : ∀ inner ∈ rhs.operators, bindingLevel op < bindingLevel inner ∨
      bindingLevel op = bindingLevel inner ∧ rule.right op rhs.operators)
    (hlhs : Follows rule lhs) (hrhs : Follows rule rhs) : Follows rule (.binary op lhs rhs)

/-- An assignment stands behind another operator that itself stands behind an assignment. -/
def hasLateAssignment (operators : List Char) : Bool :=
  ((operators.dropWhile (· ≠ '=')).dropWhile (· = '=')).contains '='

-- ---------------------------------------------------------------------------
-- Levels
-- ---------------------------------------------------------------------------

namespace Grouping

inductive Single : Grouping → Prop where
  | operand : Single (.operand e)

/-- One or more of what is inside, with operators of one level between them, folded from the
left. -/
inductive Folded (level : List Char) (Inner : Grouping → Prop) : Grouping → Prop where
  | inner (h : Inner t) : Folded level Inner t
  | more (hop : op ∈ level) (hlhs : Folded level Inner lhs) (hrhs : Inner rhs) :
    Folded level Inner (.binary op lhs rhs)

def Product : Grouping → Prop := Folded ['*'] Single

def Sum : Grouping → Prop := Folded ['+', '-'] Product

def Comparison : Grouping → Prop := Folded ['<', '>'] Sum

inductive Assignment : Grouping → Prop where
  | comparison (h : Comparison t) : Assignment t
  | assign (hlhs : Comparison lhs) (hrhs : Assignment rhs) : Assignment (.binary '=' lhs rhs)

end Grouping

-- ---------------------------------------------------------------------------
-- Tokens
-- ---------------------------------------------------------------------------

/-- A primary that cannot go on with what follows: it is closed, or it is one token. -/
inductive Grammar.Operand : List TokenKind → Prop where
  | number : Operand [.number value]
  | «variable» : Operand [.identifier name]
  | call (args : Arguments w) : Operand (.identifier name :: .char '(' :: (w ++ [.char ')']))
  | parens (inner : Expression w) : Operand (.char '(' :: (w ++ [.char ')']))

structure OperatorChain where
  first : List Token
  links : List (Token × List Token)
  isOperand : ∀ w ∈ first :: links.map Prod.snd, Grammar.Operand (w.map Token.kind)
  isOperator : ∀ link ∈ links, ∃ op, link.1.kind = .char op ∧ op ∈ binaryOperators

namespace OperatorChain

def operands (chain : OperatorChain) : List (List Token) :=
  chain.first :: chain.links.map Prod.snd

def operators (chain : OperatorChain) : List TokenKind := chain.links.map (·.1.kind)

def tokens (chain : OperatorChain) : List Token :=
  chain.first ++ chain.links.flatMap fun link => link.1 :: link.2

end OperatorChain

end NumericJit
