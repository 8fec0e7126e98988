/-!
# Lines

A line ends with a line feed, which a carriage return may precede; neither belongs to the
line. Text after the last line feed is a line of its own unless it is empty.
-/

namespace NumericJit.Text

/-- A line read backwards, without a carriage return at its end. -/
def chomp : List Char → List Char
  | '\r' :: cs => cs.reverse
  | cs => cs.reverse

/-- The lines of a text whose current line begins with `current`, kept backwards. -/
def linesFrom (current : List Char) : List Char → List (List Char)
  | [] => if current.isEmpty then [] else [current.reverse]
  | c :: cs => if c = '\n' then chomp current :: linesFrom [] cs else linesFrom (c :: current) cs

def lines (cs : List Char) : List (List Char) := linesFrom [] cs

def byteLinesFrom (current : List UInt8) : List UInt8 → List (List UInt8)
  | [] => if current.isEmpty then [] else [current.reverse]
  | b :: bs =>
    if b = 10 then (b :: current).reverse :: byteLinesFrom [] bs
    else byteLinesFrom (b :: current) bs

def byteLines (bytes : List UInt8) : List (List UInt8) := byteLinesFrom [] bytes

end NumericJit.Text
