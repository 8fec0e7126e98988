import NumericJit.Source.Position

/-!
# Reading a source text character by character

A cursor knows the text still to be read, the place it has reached, and the place that was
marked last.
-/

namespace NumericJit

structure SourceCursor where
  rest : List Char
  position : Position := {}
  start : Position := {}

namespace SourceCursor

def ofText (text : String) : SourceCursor := { rest := text.toList }

def peek (s : SourceCursor) : Option Char := s.rest.head?

def next (s : SourceCursor) : Option Char × SourceCursor :=
  match s.rest with
  | [] => (none, s)
  | c :: cs => (some c, { s with rest := cs, position := s.position.next c })

def mark (s : SourceCursor) : SourceCursor := { s with start := s.position }

/-- The span since the last mark; the place reached becomes the next mark. -/
def span (s : SourceCursor) : Span × SourceCursor := (⟨s.start, s.position⟩, s.mark)

end SourceCursor
end NumericJit
