import NumericJit.Decimal.Notation
import NumericJit.Source.Position

/-!
# Tokens

A token is a keyword, an identifier, a number, any other single character, or the end of the
input, together with its span.
-/

namespace NumericJit

inductive Keyword where
  | defWord
  | externWord
  | ifWord
  | thenWord
  | elseWord
  | forWord
  | inWord
  | varWord
deriving DecidableEq

namespace Keyword

def all : List Keyword :=
  [.defWord, .externWord, .ifWord, .thenWord, .elseWord, .forWord, .inWord, .varWord]

def spelling : Keyword → String
  | .defWord => "def"
  | .externWord => "extern"
  | .ifWord => "if"
  | .thenWord => "then"
  | .elseWord => "else"
  | .forWord => "for"
  | .inWord => "in"
  | .varWord => "var"

def ofSpelling? (word : String) : Option Keyword := all.find? fun k => k.spelling == word

end Keyword

inductive TokenKind where
  | endOfInput
  | keyword (word : Keyword)
  | identifier (name : String)
  | number (value : Number)
  | char (c : Char)
deriving DecidableEq

namespace TokenKind

def describe : TokenKind → String
  | .endOfInput => "end of input"
  | .keyword word => "'" ++ word.spelling ++ "'"
  | .identifier name => "identifier '" ++ name ++ "'"
  | .number value => "number " ++ value.plain
  | .char c => "'" ++ String.singleton c ++ "'"

def ofWord (word : String) : TokenKind :=
  match Keyword.ofSpelling? word with
  | some k => .keyword k
  | none => .identifier word

end TokenKind

structure Token where
  kind : TokenKind
  span : Span
deriving DecidableEq

end NumericJit
