/-!
# Comments

A comment runs from `#` to the end of its line. The `#` belongs to it and the line feed does not.
-/

namespace NumericJit.Text

def commentAfter (commented : Bool) (c : Char) : Bool := c != '\n' && (commented || c == '#')

/-- There was no line feed since some `#`. -/
def EndsInComment (cs : List Char) : Prop :=
  ∃ before body, cs = before ++ '#' :: body ∧ '\n' ∉ body

/-- A character with some property stands outside comments. -/
def HasOutside (p : Char → Prop) (cs : List Char) : Prop :=
  ∃ before c rest, cs = before ++ c :: rest ∧ ¬ EndsInComment (before ++ [c]) ∧ p c

end NumericJit.Text
