/-!
# Places in a source text

Lines and columns count from zero, columns in characters. Spans given from outside may be
anything, so both are integers. They have no bound here. A program that counts in 32 bits with a
sign stops with an overflow in a text of 2^31 lines, or of as many characters in one line.
-/

namespace NumericJit

structure Position where
  line : Int := 0
  column : Int := 0
deriving DecidableEq, Inhabited

def Position.next (p : Position) (c : Char) : Position :=
  if c = '\n' then ⟨p.line + 1, 0⟩ else ⟨p.line, p.column + 1⟩

def Position.after (p : Position) (cs : List Char) : Position := cs.foldl Position.next p

structure Span where
  start : Position := {}
  stop : Position := {}
deriving DecidableEq, Inhabited

def Span.to (a b : Span) : Span := ⟨a.start, b.stop⟩

end NumericJit
