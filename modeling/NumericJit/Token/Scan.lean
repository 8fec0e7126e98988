import NumericJit.Decimal.Reading
import NumericJit.Failure
import NumericJit.Text.Blank

/-!
# Splitting a text into tokens

The scanner goes through the text once, character by character. Between tokens it skips white
space and comments, which run from `#` to the end of the line. A letter begins a word, a digit
or a point begins a number, and both extend as far as they can; any other character is a token
of its own. Scanning a text that is joined from two parts is scanning the parts one after the
other.
-/

namespace NumericJit

/-- What the scanner is in the middle of. Text of a token is kept backwards. -/
inductive ScanMode where
  | between
  | comment
  | word (start : Position) (text : List Char)
  | number (start : Position) (text : List Char)
deriving DecidableEq

/-- The tokens found so far are kept backwards. -/
structure Scanner where
  mode : ScanMode := .between
  position : Position := {}
  tokens : List Token := []

namespace Scanner

def isWordChar (c : Char) : Bool := c.isAlphanum

def isNumberChar (c : Char) : Bool := c.isDigit || c == '.'

def flush (s : Scanner) : Except Failure Scanner :=
  match s.mode with
  | .between | .comment => .ok { s with mode := .between }
  | .word start text =>
    let kind := TokenKind.ofWord (String.ofList text.reverse)
    .ok { s with mode := .between, tokens := ⟨kind, ⟨start, s.position⟩⟩ :: s.tokens }
  | .number start text =>
    match Number.readChars? text.reverse with
    | some value =>
      .ok { s with mode := .between, tokens := ⟨.number value, ⟨start, s.position⟩⟩ :: s.tokens }
    | none =>
      .error { cause := .malformedNumber (String.ofList text.reverse), span := ⟨start, s.position⟩ }

def start (s : Scanner) (c : Char) : Scanner :=
  let next := s.position.next c
  if Text.isBlank c then { s with mode := .between, position := next }
  else if c = '#' then { s with mode := .comment, position := next }
  else if c.isAlpha then { s with mode := .word s.position [c], position := next }
  else if isNumberChar c then { s with mode := .number s.position [c], position := next }
  else
    { s with
      mode := .between, position := next, tokens := ⟨.char c, ⟨s.position, next⟩⟩ :: s.tokens }

def step (s : Scanner) (c : Char) : Except Failure Scanner :=
  match s.mode with
  | .between => .ok (s.start c)
  | .comment =>
    .ok { s with mode := if c = '\n' then .between else .comment, position := s.position.next c }
  | .word start text =>
    if isWordChar c then
      .ok { s with mode := .word start (c :: text), position := s.position.next c }
    else s.flush.map (·.start c)
  | .number start text =>
    if isNumberChar c then
      .ok { s with mode := .number start (c :: text), position := s.position.next c }
    else s.flush.map (·.start c)

def run (s : Scanner) : List Char → Except Failure Scanner
  | [] => .ok s
  | c :: cs =>
    match s.step c with
    | .ok s' => s'.run cs
    | .error e => .error e

def finish (s : Scanner) : Except Failure (List Token) :=
  s.flush.map fun s => (⟨.endOfInput, ⟨s.position, s.position⟩⟩ :: s.tokens).reverse

theorem run_append (s : Scanner) (cs ds : List Char) :
    s.run (cs ++ ds) = (s.run cs).bind (·.run ds) := by
  induction cs generalizing s with
  | nil => rfl
  | cons c cs ih =>
    simp only [List.cons_append, run]
    cases s.step c with
    | ok s' => exact ih s'
    | error e => rfl

end Scanner

def tokenize (text : String) : Except Failure (List Token) :=
  (({} : Scanner).run text.toList).bind Scanner.finish

end NumericJit
