import NumericJit.Token.Lexeme
import NumericJit.Failure

/-!
# Places of a tree and of its tokens

A node of a tree is laid out as tokens of its own and direct sub-expressions, in the order of the
text. A tree is spelled by a list of tokens if each node is, with parentheses around any of them. So
every node has the tokens that it comes from, and its place can be held against theirs.
-/

namespace NumericJit

structure Span.Within (a b : Span) : Prop where
  start : b.start.AtMost a.start
  stop : a.stop.AtMost b.stop

inductive Part where
  | token (kind : TokenKind)
  | sub (e : Expr)

namespace Part

def sub? : Part → Option Expr
  | .token _ => none
  | .sub e => some e

def separated (pieces : List (List Part)) : List Part :=
  List.intercalate [.token (.char ',')] pieces

def optional (ch : Char) : Option Expr → List Part
  | none => []
  | some e => [.token (.char ch), .sub e]

def binding (b : String × Option Expr) : List Part :=
  .token (.identifier b.1) :: optional '=' b.2

end Part

namespace Expr

def layout : Expr → List Part
  | .number value _ => [.token (.number value)]
  | .variable name _ => [.token (.identifier name)]
  | .binary op lhs rhs _ => [.sub lhs, .token (.char op), .sub rhs]
  | .call name args _ =>
    [.token (.identifier name), .token (.char '(')] ++
      Part.separated (args.map fun e => [.sub e]) ++ [.token (.char ')')]
  | .branch condition yes no _ =>
    [.token (.keyword .ifWord), .sub condition, .token (.keyword .thenWord), .sub yes,
      .token (.keyword .elseWord), .sub no]
  | .loop counter start stop step body _ =>
    [.token (.keyword .forWord), .token (.identifier counter), .token (.char '='), .sub start,
      .token (.char ','), .sub stop] ++ Part.optional ',' step ++
      [.token (.keyword .inWord), .sub body]
  | .locals bindings body _ =>
    [.token (.keyword .varWord)] ++ Part.separated (bindings.map Part.binding) ++
      [.token (.keyword .inWord), .sub body]

def children (e : Expr) : List Expr := e.layout.filterMap Part.sub?

/-- A node's span is one, is inside that of the tokens, and has the spans of the direct
sub-expressions in it, one behind the other. -/
structure Nests (e : Expr) (tokens : List Token) : Prop where
  ordered : e.span.start.AtMost e.span.stop
  within : ∃ first last, tokens.head? = some first ∧ tokens.getLast? = some last ∧
    e.span.Within (first.span.to last.span)
  contains : ∀ child ∈ e.children, child.span.Within e.span
  siblings : e.children.Pairwise fun child later => child.span.stop.AtMost later.span.start

mutual
/-- A tree is spelled by tokens, and something holds of every node and the tokens that it comes
from, with and without the parentheses around it. -/
inductive SpelledBy (P : Expr → List Token → Prop) : Expr → List Token → Prop where
  | node (h : LaidOut P e.layout ts) (hnode : P e ts) : SpelledBy P e ts
  | parens {opening closing : Token} (hopen : opening.kind = .char '(') (h : SpelledBy P e ts)
    (hclose : closing.kind = .char ')') (hnode : P e (opening :: (ts ++ [closing]))) :
    SpelledBy P e (opening :: (ts ++ [closing]))

inductive LaidOut (P : Expr → List Token → Prop) : List Part → List Token → Prop where
  | nil : LaidOut P [] []
  | token {t : Token} (hk : t.kind = kind) (h : LaidOut P parts ts) :
    LaidOut P (.token kind :: parts) (t :: ts)
  | sub (he : SpelledBy P e ts) (h : LaidOut P parts us) :
    LaidOut P (.sub e :: parts) (ts ++ us)
end

end Expr

/-- Every node of a statement that was read from the tokens is at the place that they are at. A
body comes behind the prototype. -/
def Statement.Nests (tokens : List Token) : Statement → Prop
  | .definition _ body => ∃ front behind, tokens = front ++ behind ∧
    body.SpelledBy Expr.Nests behind
  | .declaration _ => True
  | .expression e => e.SpelledBy Expr.Nests tokens

/-- What was read from a segment has its places there. An error is at one of the tokens or at the
one that ends them. -/
def PlacedIn (segment : List Token × Token) : Except Failure Statement → Prop
  | .ok s => s.Nests segment.1
  | .error f => ∃ t ∈ segment.1 ++ [segment.2], f.span = t.span

end NumericJit
