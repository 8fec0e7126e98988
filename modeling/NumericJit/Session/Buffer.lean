import NumericJit.Text.Blank
import NumericJit.Text.Lines
import NumericJit.Text.Split

/-!
# Gathering lines into statements

Lines are held until a `;` outside comments ends a statement. Everything up to the last such `;` is
then handed on at once, and the rest is held. Text without code is not held.
-/

namespace NumericJit

structure EndSearch where
  inComment : Bool := false
  lastEnd : Option Nat := none

def EndSearch.step (s : EndSearch) (place : Nat × Char) : EndSearch :=
  if place.2 = '\n' then { s with inComment := false }
  else if s.inComment then s
  else if place.2 = '#' then { s with inComment := true }
  else if place.2 = ';' then { s with lastEnd := some place.1 }
  else s

def lastStatementEnd (text : List Char) : Option Nat :=
  ((Text.charIndices 0 text).foldl EndSearch.step {}).lastEnd

def withoutComment (line : List Char) : List Char :=
  match Text.splitOnce '#' line with
  | some (code, _) => code
  | none => line

/-- Whether a text has anything but blanks outside comments. -/
def hasCode (text : List Char) : Bool :=
  (Text.lines text).any fun line => !(Text.trim (withoutComment line)).isEmpty

structure StatementBuffer where
  held : List Char := []

namespace StatementBuffer

def isEmpty (b : StatementBuffer) : Bool := b.held.isEmpty

def hold (text : List Char) : StatementBuffer := ⟨if hasCode text then text else []⟩

/-- A line with its line feed, which the last line of an input may lack. -/
def completeLine (line : List Char) : List Char :=
  if line.getLast? = some '\n' then line else line ++ ['\n']

def push (b : StatementBuffer) (line : List Char) : Option (List Char) × StatementBuffer :=
  let text := b.held ++ completeLine line
  match lastStatementEnd text with
  | some stop =>
    let cut := Text.splitAtByte (stop + ';'.utf8Size) text
    (some cut.1, hold cut.2)
  | none => (none, hold text)

def rest (b : StatementBuffer) : Option (List Char) :=
  if hasCode b.held then some b.held else none

end StatementBuffer
end NumericJit
