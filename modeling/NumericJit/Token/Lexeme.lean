import NumericJit.Token.Scan

/-!
# How a text is cut into lexemes

A text is a gap, then a lexeme, then a gap again, and so on up to the end. Gaps are made of white
space and of comments, which run to the end of their line. A lexeme is a word, a run of digits and
points, or any other single character; a word or a run is not followed by a character that could go
on with it. Whether a run can be read as a number makes no difference to where it ends.
-/

namespace NumericJit

inductive Gap : List Char → List Char → Prop where
  | none : Gap [] rest
  | blank (hc : Text.isBlank c = true) (h : Gap cs rest) : Gap (c :: cs) rest
  | comment (hbody : '\n' ∉ body) (hend : ∀ c ∈ (cs ++ rest).head?, c = '\n') (h : Gap cs rest) :
    Gap ('#' :: (body ++ cs)) rest

inductive Spelling : List Char → List Char → Prop where
  | word {c : Char} {cs : List Char} (hc : c.isAlpha = true)
    (hcs : ∀ d ∈ cs, d.isAlphanum = true) (hend : ∀ d ∈ rest.head?, d.isAlphanum = false) :
    Spelling (c :: cs) rest
  | number {c : Char} {cs : List Char} (hc : Scanner.isNumberChar c = true)
    (hcs : ∀ d ∈ cs, Scanner.isNumberChar d = true)
    (hend : ∀ d ∈ rest.head?, Scanner.isNumberChar d = false) : Spelling (c :: cs) rest
  | symbol {c : Char} (hblank : Text.isBlank c = false) (hcomment : c ≠ '#')
    (halpha : c.isAlpha = false) (hnumber : Scanner.isNumberChar c = false) : Spelling [c] rest

structure Lexeme where
  before : List Char
  spelling : List Char

inductive Cut : List Char → List Char → List Lexeme → Prop where
  | last (hgap : Gap rest []) : Cut before rest []
  | more (hgap : Gap gap (spelling ++ rest)) (hspelling : Spelling spelling rest)
    (others : Cut (before ++ gap ++ spelling) rest lexemes) :
    Cut before (gap ++ (spelling ++ rest)) (⟨before ++ gap, spelling⟩ :: lexemes)

-- ---------------------------------------------------------------------------
-- Places
-- ---------------------------------------------------------------------------

def Position.AtMost (p q : Position) : Prop :=
  p.line < q.line ∨ p.line = q.line ∧ p.column ≤ q.column

/-- The place behind the last character of the last line. -/
def Position.EndsText (p : Position) (text : List Char) : Prop :=
  ∃ lines last, text.splitOn '\n' = lines ++ [last] ∧ p = ⟨lines.length, last.length⟩

namespace Lexeme

def span (l : Lexeme) : Span :=
  ⟨Position.after {} l.before, Position.after {} (l.before ++ l.spelling)⟩

/-- On one line, the characters between two columns are the spelling. -/
def IsOnLine (l : Lexeme) (text : List Char) : Prop :=
  ∃ (n i j : Nat) (line : List Char), l.span = ⟨⟨n, i⟩, ⟨n, j⟩⟩ ∧
    (text.splitOn '\n')[n]? = some line ∧ j ≤ line.length ∧ (line.take j).drop i = l.spelling

/-- Digits and points without a digit, or with more than one point. -/
def IsMalformed (l : Lexeme) : Prop :=
  (∀ c ∈ l.spelling, Scanner.isNumberChar c = true) ∧
    ((∀ c ∈ l.spelling, c.isDigit = false) ∨ 1 < l.spelling.count '.')

end Lexeme

-- ---------------------------------------------------------------------------
-- Tokens
-- ---------------------------------------------------------------------------

inductive TokenKind.SpelledAs : TokenKind → List Char → Prop where
  | keyword (word : Keyword) : SpelledAs (.keyword word) word.spelling.toList
  | identifier (hc : c.isAlpha = true) (hcs : ∀ d ∈ cs, d.isAlphanum = true)
    (hword : ∀ word : Keyword, word.spelling.toList ≠ c :: cs) :
    SpelledAs (.identifier (String.ofList (c :: cs))) (c :: cs)
  | number (hdigits : ∀ c ∈ cs, Scanner.isNumberChar c = true)
    (hvalue : Number.readChars? cs = some value) : SpelledAs (.number value) cs
  | char (halpha : c.isAlpha = false) (hnumber : Scanner.isNumberChar c = false) :
    SpelledAs (.char c) [c]

end NumericJit
