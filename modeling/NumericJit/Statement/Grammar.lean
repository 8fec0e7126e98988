import NumericJit.Expr
import NumericJit.Token

/-!
# The grammar of statements

Which lists of tokens are statements:

* statement: `def` prototype expression, or `extern` prototype, or expression
* prototype: identifier `(` identifiers and commas in any order `)`
* expression: primary, and then any number of times an operator and a primary
* operator: `=`, `<`, `>`, `+`, `-` or `*`
* primary: number, or identifier, or identifier `(` arguments `)`, or `(` expression `)`, or
  `if` expression `then` expression `else` expression, or
  `for` identifier `=` expression `,` expression, perhaps `,` expression, `in` expression, or
  `var` bindings `in` expression
* arguments: expressions with commas between them, perhaps none
* bindings: one or more with commas between them, each an identifier, perhaps with `=` expression

The grammar is ambiguous, and it says nothing about trees. A tree spells a list of tokens if its
tokens in order, with parentheses around some of its expressions and with commas among its
parameters, are that list.
-/

namespace NumericJit

def binaryOperators : List Char := ['=', '<', '>', '+', '-', '*']

namespace Grammar

mutual
inductive Expression : List TokenKind → Prop where
  | mk (first : Primary w) (others : Operations v) : Expression (w ++ v)

inductive Operations : List TokenKind → Prop where
  | none : Operations []
  | more (hop : op ∈ binaryOperators) (operand : Primary w) (others : Operations v) :
    Operations (.char op :: (w ++ v))

inductive Primary : List TokenKind → Prop where
  | number : Primary [.number value]
  | «variable» : Primary [.identifier name]
  | call (args : Arguments w) : Primary (.identifier name :: .char '(' :: (w ++ [.char ')']))
  | parens (inner : Expression w) : Primary (.char '(' :: (w ++ [.char ')']))
  | branch (condition : Expression w) (yes : Expression w₁) (no : Expression w₂) :
    Primary (.keyword .ifWord :: (w ++ .keyword .thenWord :: (w₁ ++ .keyword .elseWord :: w₂)))
  | loop (start : Expression w) (stop : Expression w₁) (step : Optional ',' w₂)
    (body : Expression w₃) :
    Primary (.keyword .forWord :: .identifier counter :: .char '=' ::
      (w ++ .char ',' :: (w₁ ++ (w₂ ++ .keyword .inWord :: w₃))))
  | locals (bindings : Bindings w) (body : Expression w₁) :
    Primary (.keyword .varWord :: (w ++ .keyword .inWord :: w₁))

inductive Arguments : List TokenKind → Prop where
  | none : Arguments []
  | some (h : ArgumentList w) : Arguments w

inductive ArgumentList : List TokenKind → Prop where
  | last (e : Expression w) : ArgumentList w
  | more (e : Expression w) (others : ArgumentList v) : ArgumentList (w ++ .char ',' :: v)

inductive Optional : Char → List TokenKind → Prop where
  | none : Optional ch []
  | some (e : Expression w) : Optional ch (.char ch :: w)

inductive Bindings : List TokenKind → Prop where
  | last (value : Optional '=' w) : Bindings (.identifier name :: w)
  | more (value : Optional '=' w) (others : Bindings v) :
    Bindings (.identifier name :: (w ++ .char ',' :: v))
end

inductive Prototype : List TokenKind → Prop where
  | mk (params : ∀ k ∈ w, k = .char ',' ∨ ∃ name, k = .identifier name) :
    Prototype (.identifier name :: .char '(' :: (w ++ [.char ')']))

inductive Statement : List TokenKind → Prop where
  | definition (proto : Prototype w) (body : Expression v) :
    Statement (.keyword .defWord :: (w ++ v))
  | declaration (proto : Prototype w) : Statement (.keyword .externWord :: w)
  | expression (e : Expression w) : Statement w

-- ---------------------------------------------------------------------------
-- Trees
-- ---------------------------------------------------------------------------

mutual
inductive Spells : Expr → List TokenKind → Prop where
  | number : Spells (.number value span) [.number value]
  | «variable» : Spells (.variable name span) [.identifier name]
  | binary (hop : op ∈ binaryOperators) (hl : Spells lhs w) (hr : Spells rhs v) :
    Spells (.binary op lhs rhs span) (w ++ .char op :: v)
  | call (hargs : SpellsArguments args w) :
    Spells (.call name args span) (.identifier name :: .char '(' :: (w ++ [.char ')']))
  | branch (hcondition : Spells condition w) (hyes : Spells yes w₁) (hno : Spells no w₂) :
    Spells (.branch condition yes no span)
      (.keyword .ifWord :: (w ++ .keyword .thenWord :: (w₁ ++ .keyword .elseWord :: w₂)))
  | loop (hstart : Spells start w) (hstop : Spells stop w₁) (hstep : SpellsOptional ',' step w₂)
    (hbody : Spells body w₃) :
    Spells (.loop counter start stop step body span)
      (.keyword .forWord :: .identifier counter :: .char '=' ::
        (w ++ .char ',' :: (w₁ ++ (w₂ ++ .keyword .inWord :: w₃))))
  | locals (hbindings : SpellsBindings bindings w) (hbody : Spells body w₁) :
    Spells (.locals bindings body span) (.keyword .varWord :: (w ++ .keyword .inWord :: w₁))
  | parens (h : Spells e w) : Spells e (.char '(' :: (w ++ [.char ')']))

inductive SpellsArguments : List Expr → List TokenKind → Prop where
  | none : SpellsArguments [] []
  | some (h : SpellsArgumentList args w) : SpellsArguments args w

inductive SpellsArgumentList : List Expr → List TokenKind → Prop where
  | last (he : Spells e w) : SpellsArgumentList [e] w
  | more (he : Spells e w) (hrest : SpellsArgumentList es v) :
    SpellsArgumentList (e :: es) (w ++ .char ',' :: v)

inductive SpellsOptional : Char → Option Expr → List TokenKind → Prop where
  | none : SpellsOptional ch none []
  | some (he : Spells e w) : SpellsOptional ch (some e) (.char ch :: w)

inductive SpellsBindings : List (String × Option Expr) → List TokenKind → Prop where
  | last (hvalue : SpellsOptional '=' value w) :
    SpellsBindings [(name, value)] (.identifier name :: w)
  | more (hvalue : SpellsOptional '=' value w) (hrest : SpellsBindings bindings v) :
    SpellsBindings ((name, value) :: bindings) (.identifier name :: (w ++ .char ',' :: v))
end

/-- Without its commas, what stands between the parentheses is the parameters. -/
inductive SpellsPrototype : NumericJit.Prototype → List TokenKind → Prop where
  | mk (params : w.filter (· ≠ .char ',') = proto.params.map .identifier) :
    SpellsPrototype proto (.identifier proto.name :: .char '(' :: (w ++ [.char ')']))

inductive SpellsStatement : NumericJit.Statement → List TokenKind → Prop where
  | definition (hproto : SpellsPrototype proto w) (hbody : Spells body v) :
    SpellsStatement (.definition proto body) (.keyword .defWord :: (w ++ v))
  | declaration (hproto : SpellsPrototype proto w) :
    SpellsStatement (.declaration proto) (.keyword .externWord :: w)
  | expression (he : Spells e w) : SpellsStatement (.expression e) w

end Grammar

end NumericJit
