import NumericJit.Statement.Parse

/-!
# Reading with a stack of goals

Statements can be read by looking at one token at a time. The token in front decides what becomes of
the goal on top of a stack: it reads the token, other goals take its place, or it cannot be met. A
run follows the goals until all of them are met or one cannot be. There is no rule for a goal with
no token in front, so a run never looks past the last token, and a run that exists is finite.
-/

namespace NumericJit

def TokenKind.operator? : TokenKind → Option (Char × Nat)
  | .char op => (precedence? op).map fun level => (op, level)
  | _ => none

namespace Parse

inductive Goal where
  | char (ch : Char)
  | keyword (word : Keyword)
  | identifier (expected : Expectation)
  | expression
  | operators (least : Nat)
  /-- What is folded into an operand behind an operator of this precedence. -/
  | operand (level : Nat)
  | primary
  | call
  | arguments
  | argumentList
  | moreArguments
  | optional (ch : Char)
  | bindings
  | moreBindings
  | prototype
  | parameters (function : String)
  | statement
  | statementBody
  | statementEnd

inductive Move where
  | read
  | become (goals : List Goal)
  | fail (expected : Expectation)

def Goal.move : Goal → TokenKind → Move
  | .char ch, kind => if kind = .char ch then .read else .fail (.char ch)
  | .keyword word, kind => if kind = .keyword word then .read else .fail (.keyword word)
  | .identifier _, .identifier _ => .read
  | .identifier expected, _ => .fail expected
  | .expression, _ => .become [.primary, .operators 0]
  | .operators least, kind =>
    match kind.operator? with
    | none => .become []
    | some (op, level) =>
      if level < least then .become []
      else .become [.char op, .primary, .operand level, .operators least]
  | .operand level, kind =>
    match kind.operator? with
    | none => .become []
    | some (next, tightness) =>
      if level < tightness then .become [.operators (level + 1)]
      else if level = tightness && isRightAssociative next then .become [.operators level]
      else .become []
  | .primary, .number _ => .read
  | .primary, .identifier _ => .become [.identifier .expression, .call]
  | .primary, .char '(' => .become [.char '(', .expression, .char ')']
  | .primary, .keyword .ifWord =>
    .become [.keyword .ifWord, .expression, .keyword .thenWord, .expression, .keyword .elseWord,
      .expression]
  | .primary, .keyword .forWord =>
    .become [.keyword .forWord, .identifier .loopVariable, .char '=', .expression, .char ',',
      .expression, .optional ',', .keyword .inWord, .expression]
  | .primary, .keyword .varWord =>
    .become [.keyword .varWord, .bindings, .keyword .inWord, .expression]
  | .primary, _ => .fail .expression
  | .call, kind =>
    if kind = .char '(' then .become [.char '(', .arguments, .char ')'] else .become []
  | .arguments, kind => if kind = .char ')' then .become [] else .become [.argumentList]
  | .argumentList, _ => .become [.expression, .moreArguments]
  | .moreArguments, kind =>
    if kind = .char ')' then .become [] else .become [.char ',', .argumentList]
  | .optional ch, kind => if kind = .char ch then .become [.char ch, .expression] else .become []
  | .bindings, _ => .become [.identifier .variableName, .optional '=', .moreBindings]
  | .moreBindings, kind => if kind = .char ',' then .become [.char ',', .bindings] else .become []
  | .prototype, .identifier name =>
    .become [.identifier .functionName, .char '(', .parameters name]
  | .prototype, _ => .fail .functionName
  | .parameters function, .identifier _ =>
    .become [.identifier (.parameter function), .parameters function]
  | .parameters function, .char ',' => .become [.char ',', .parameters function]
  | .parameters _, .char ')' => .read
  | .parameters function, _ => .fail (.parameter function)
  | .statement, _ => .become [.statementBody, .statementEnd]
  | .statementBody, .keyword .defWord => .become [.keyword .defWord, .prototype, .expression]
  | .statementBody, .keyword .externWord => .become [.keyword .externWord, .prototype]
  | .statementBody, _ => .become [.expression]
  | .statementEnd, .char ';' => .read
  | .statementEnd, .endOfInput => .become []
  | .statementEnd, _ => .fail .statementEnd

inductive Ending where
  | met (c : TokenCursor)
  | unmet (c : TokenCursor) (expected : Expectation)

namespace Ending

def cursor : Ending → TokenCursor
  | .met c => c
  | .unmet c _ => c

def next : Ending → List Token
  | .met c => c.rest
  | .unmet c _ => skipStatement c.rest

end Ending

inductive Run : List Goal → TokenCursor → Ending → Prop where
  | done : Run [] c (.met c)
  | read (hmove : goal.move t.kind = .read) (h : Run goals ⟨some t, rest⟩ ending) :
    Run (goal :: goals) ⟨last, t :: rest⟩ ending
  | become (hmove : goal.move t.kind = .become instead)
    (h : Run (instead ++ goals) ⟨last, t :: rest⟩ ending) :
    Run (goal :: goals) ⟨last, t :: rest⟩ ending
  | fail (hmove : goal.move t.kind = .fail expected) :
    Run (goal :: goals) ⟨last, t :: rest⟩ (.unmet ⟨last, t :: rest⟩ expected)

inductive Agrees : Except Failure (α × TokenCursor) → Ending → Prop where
  | met (a : α) (c : TokenCursor) : Agrees (.ok (a, c)) (.met c)
  | unmet (c : TokenCursor) (expected : Expectation) :
    Agrees (c.fail expected) (.unmet c expected)

-- ---------------------------------------------------------------------------
-- Statement by statement
-- ---------------------------------------------------------------------------

def nextStatement (tokens : List Token) : Option (Except Failure Statement) × List Token :=
  match skipEmpty tokens with
  | [] => (none, [])
  | t :: rest =>
    if t.kind = .endOfInput then (none, t :: rest)
    else
      match statement (.ofTokens (t :: rest)) with
      | .ok (s, c) => (some (.ok s), c.rest)
      | .error e => (some (.error e), skipStatement (t :: rest))

/-- All results up to the first time that there is none. -/
inductive Yields : List Token → List (Except Failure Statement) → Prop where
  | none (h : nextStatement tokens = (none, rest)) : Yields tokens []
  | some (h : nextStatement tokens = (some result, rest)) (hrest : Yields rest results) :
    Yields tokens (result :: results)

end Parse

/-- The last token is the end of the input, whatever stands before it. -/
def EndsInput (tokens : List Token) : Prop :=
  ∃ stop, tokens.getLast? = some stop ∧ stop.kind = .endOfInput

def TokenCursor.followedBy (c : TokenCursor) (behind : List Token) : TokenCursor :=
  ⟨c.last, c.rest ++ behind⟩

namespace Parse

/-- Reading an expression is a run that comes to an end at one of the tokens. Nothing depends on
what would be seen behind them. -/
structure ExpressionInside (c : TokenCursor) : Prop where
  run : ∃ ending, Run [.expression] c ending ∧ Agrees (expression c) ending ∧
    ending.cursor.rest ≠ [] ∧ ending.cursor.rest <:+ c.rest
  behind : ∀ behind, expression (c.followedBy behind) =
    (expression c).map fun r => (r.1, r.2.followedBy behind)

/-- The same of the next statement, which has taken at least one token if there is one. -/
structure StatementInside (tokens : List Token) : Prop where
  inside : (nextStatement tokens).2 ≠ [] ∧ (nextStatement tokens).2 <:+ tokens
  run : ∀ result, (nextStatement tokens).1 = some result →
    (nextStatement tokens).2.length < tokens.length ∧
    ∃ ending, Run [.statement] (.ofTokens (skipEmpty tokens)) ending ∧
      Agrees (statement (.ofTokens (skipEmpty tokens))) ending ∧
      ending.cursor.rest ≠ [] ∧ (nextStatement tokens).2 = ending.next
  behind : ∀ behind, nextStatement (tokens ++ behind) =
    ((nextStatement tokens).1, (nextStatement tokens).2 ++ behind)

end Parse
end NumericJit
