import NumericJit.Failure

/-!
# Reading a token list

A cursor looks at the tokens still to be read and remembers the one read last. Past the end of
the list the last token is seen again, without a span, and nothing more can be read; a list that
ends with the end of the input is never read that far.
-/

namespace NumericJit

structure TokenCursor where
  last : Option Token
  rest : List Token

namespace TokenCursor

def ofTokens (tokens : List Token) : TokenCursor := ⟨none, tokens⟩

def kind (c : TokenCursor) : TokenKind :=
  match c.rest with
  | t :: _ => t.kind
  | [] => (c.last.map Token.kind).getD .endOfInput

def span (c : TokenCursor) : Span :=
  match c.rest with
  | t :: _ => t.span
  | [] => {}

def lastSpan (c : TokenCursor) : Span := (c.last.map Token.span).getD {}

def advance (c : TokenCursor) : TokenCursor :=
  match c.rest with
  | t :: rest => ⟨some t, rest⟩
  | [] => c

def isChar (c : TokenCursor) (ch : Char) : Bool := c.kind = .char ch

def fail {α : Type} (c : TokenCursor) (expected : Expectation) : Except Failure α :=
  .error { cause := .unexpected expected c.kind, span := c.span }

def expectChar (c : TokenCursor) (ch : Char) : Except Failure TokenCursor :=
  if c.isChar ch then .ok c.advance else c.fail (.char ch)

def expectKeyword (c : TokenCursor) (word : Keyword) : Except Failure TokenCursor :=
  if c.kind = .keyword word then .ok c.advance else c.fail (.keyword word)

def expectIdentifier (c : TokenCursor) (expected : Expectation) :
    Except Failure (String × TokenCursor) :=
  match c.kind with
  | .identifier name => .ok (name, c.advance)
  | _ => c.fail expected

end TokenCursor
end NumericJit
