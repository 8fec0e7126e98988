import NumericJit.Statement.Cursor
import NumericJit.Token.Scan

/-!
# From tokens to statements

Statements are separated by `;`. An expression is a chain of primaries and binary operators,
folded by precedence climbing. The functions that read expressions call each other with fuel
that drops by one at each call; every second call at least reads a token, so three times the
number of tokens is always enough, and `expression` hands out that much.

A statement that cannot be read is skipped up to and with its `;`, and reading goes on behind it.
-/

namespace NumericJit

def precedence? (op : Char) : Option Nat :=
  match op with
  | '=' => some 2
  | '<' | '>' => some 10
  | '+' | '-' => some 20
  | '*' => some 40
  | _ => none

/-- Operators of one precedence group to the left, but assignments to the right. -/
def isRightAssociative (op : Char) : Bool := op == '='

def TokenCursor.operator? (c : TokenCursor) : Option (Char × Nat) :=
  match c.kind with
  | .char op => (precedence? op).map fun p => (op, p)
  | _ => none

namespace Parse

mutual
def expressionWith : Nat → TokenCursor → Except Failure (Expr × TokenCursor)
  | 0, c => c.fail .expression
  | fuel + 1, c => do
    let (lhs, c) ← primary fuel c
    operators fuel 0 lhs c

/-- Folds operators into `lhs` while they bind at least as tightly as `least`. -/
def operators : Nat → Nat → Expr → TokenCursor → Except Failure (Expr × TokenCursor)
  | 0, _, _, c => c.fail .expression
  | fuel + 1, least, lhs, c =>
    match c.operator? with
    | none => .ok (lhs, c)
    | some (op, p) =>
      if p < least then .ok (lhs, c)
      else do
        let (first, c) ← primary fuel c.advance
        let (rhs, c) ←
          match c.operator? with
          | none => .ok (first, c)
          | some (next, q) =>
            if p < q then operators fuel (p + 1) first c
            else if p = q && isRightAssociative next then operators fuel p first c
            else .ok (first, c)
        operators fuel least (.binary op lhs rhs (lhs.span.to rhs.span)) c

def primary : Nat → TokenCursor → Except Failure (Expr × TokenCursor)
  | 0, c => c.fail .expression
  | fuel + 1, c =>
    if c.rest.isEmpty then c.fail .expression
    else
      match c.kind with
      | .number value => .ok (.number value c.span, c.advance)
      | .identifier name =>
        let after := c.advance
        if after.isChar '(' then do
          let (args, close) ←
            if after.advance.isChar ')' then .ok ([], after.advance)
            else arguments fuel after.advance
          let close := close.advance
          .ok (.call name args (c.span.to close.lastSpan), close)
        else .ok (.variable name c.span, after)
      | .char '(' => do
        let (e, inner) ← expressionWith fuel c.advance
        let close ← inner.expectChar ')'
        .ok (e, close)
      | .keyword .ifWord => do
        let (condition, afterIf) ← expressionWith fuel c.advance
        let (yes, afterThen) ← expressionWith fuel (← afterIf.expectKeyword .thenWord)
        let (no, done) ← expressionWith fuel (← afterThen.expectKeyword .elseWord)
        .ok (.branch condition yes no (c.span.to done.lastSpan), done)
      | .keyword .forWord => do
        let (counter, afterName) ← c.advance.expectIdentifier .loopVariable
        let (start, afterStart) ← expressionWith fuel (← afterName.expectChar '=')
        let (stop, afterStop) ← expressionWith fuel (← afterStart.expectChar ',')
        let (step, afterStep) ←
          if afterStop.isChar ',' then do
            let (e, afterStep) ← expressionWith fuel afterStop.advance
            .ok (some e, afterStep)
          else .ok (none, afterStop)
        let (body, done) ← expressionWith fuel (← afterStep.expectKeyword .inWord)
        .ok (.loop counter start stop step body (c.span.to done.lastSpan), done)
      | .keyword .varWord => do
        let (names, afterNames) ← bindings fuel c.advance
        let (body, done) ← expressionWith fuel (← afterNames.expectKeyword .inWord)
        .ok (.locals names body (c.span.to done.lastSpan), done)
      | _ => c.fail .expression

def arguments : Nat → TokenCursor → Except Failure (List Expr × TokenCursor)
  | 0, c => c.fail .expression
  | fuel + 1, c => do
    let (e, c) ← expressionWith fuel c
    if c.isChar ')' then .ok ([e], c)
    else do
      let (es, c) ← arguments fuel (← c.expectChar ',')
      .ok (e :: es, c)

def bindings : Nat → TokenCursor → Except Failure (List (String × Option Expr) × TokenCursor)
  | 0, c => c.fail .expression
  | fuel + 1, c => do
    let (name, c) ← c.expectIdentifier .variableName
    let (value, c) ←
      if c.isChar '=' then do
        let (e, c) ← expressionWith fuel c.advance
        .ok (some e, c)
      else .ok (none, c)
    if c.isChar ',' then do
      let (rest, c) ← bindings fuel c.advance
      .ok ((name, value) :: rest, c)
    else .ok ([(name, value)], c)
end

def fuelFor (c : TokenCursor) : Nat := 3 * c.rest.length + 4

def expression (c : TokenCursor) : Except Failure (Expr × TokenCursor) :=
  expressionWith (fuelFor c) c

/-- Parameter names up to the closing parenthesis. Commas between them may be left out. -/
def parameters (function : String) :
    Option Token → List Token → Except Failure (List String × TokenCursor)
  | last, [] => TokenCursor.fail ⟨last, []⟩ (.parameter function)
  | last, t :: rest =>
    match t.kind with
    | .identifier name => do
      let (names, c) ← parameters function (some t) rest
      .ok (name :: names, c)
    | .char ',' => parameters function (some t) rest
    | .char ')' => .ok ([], ⟨some t, rest⟩)
    | _ => TokenCursor.fail ⟨last, t :: rest⟩ (.parameter function)

def prototype (c : TokenCursor) : Except Failure (Prototype × TokenCursor) := do
  let (name, afterName) ← c.expectIdentifier .functionName
  let inner ← afterName.expectChar '('
  let (params, close) ← parameters name inner.last inner.rest
  .ok (⟨name, params, c.span⟩, close)

def statementBody (c : TokenCursor) : Except Failure (Statement × TokenCursor) :=
  match c.kind with
  | .keyword .defWord => do
    let (proto, c) ← prototype c.advance
    let (body, c) ← expression c
    .ok (.definition proto body, c)
  | .keyword .externWord => do
    let (proto, c) ← prototype c.advance
    .ok (.declaration proto, c)
  | _ => do
    let (e, c) ← expression c
    .ok (.expression e, c)

/-- A statement and its `;`, which the end of the input may stand for. -/
def statement (c : TokenCursor) : Except Failure (Statement × TokenCursor) := do
  let (s, c) ← statementBody c
  if c.isChar ';' then .ok (s, c.advance)
  else if c.kind = .endOfInput then .ok (s, c)
  else c.fail .statementEnd

/-- The tokens behind the first `;`, or from the end of the input on. -/
def skipStatement : List Token → List Token
  | [] => []
  | t :: rest =>
    if t.kind = .endOfInput then t :: rest
    else if t.kind = .char ';' then rest
    else skipStatement rest

def skipEmpty (tokens : List Token) : List Token :=
  tokens.dropWhile fun t => t.kind = .char ';'

/-- Each statement, or why it could not be read. Every statement takes at least one token, so
the number of tokens bounds the number of statements. -/
def statementsWith : Nat → List Token → List (Except Failure Statement)
  | 0, _ => []
  | fuel + 1, tokens =>
    match skipEmpty tokens with
    | [] => []
    | t :: rest =>
      if t.kind = .endOfInput then []
      else
        match statement (.ofTokens (t :: rest)) with
        | .ok (s, c) => .ok s :: statementsWith fuel c.rest
        | .error e => .error e :: statementsWith fuel (skipStatement (t :: rest))

def statements (tokens : List Token) : List (Except Failure Statement) :=
  statementsWith tokens.length tokens

end Parse

/-- The statements of a text. A text that does not split into tokens fails as a whole. -/
def parseStatements (text : String) : List (Except Failure Statement) :=
  match tokenize text with
  | .ok tokens => Parse.statements tokens
  | .error e => [.error e]

def parseStatement (text : String) : Except Failure Statement :=
  match parseStatements text with
  | [s] => s
  | [] => .error { cause := .noStatement }
  | many => .error { cause := .severalStatements many.length }

end NumericJit
