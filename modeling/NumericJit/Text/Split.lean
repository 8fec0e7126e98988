/-!
# Splitting a text

Places in a text are counted in bytes of its UTF-8 form. Only places between characters are ever
asked for: the program stops at any other.
-/

namespace NumericJit.Text

def charIndices (place : Nat) : List Char → List (Nat × Char)
  | [] => []
  | c :: cs => (place, c) :: charIndices (place + c.utf8Size) cs

def splitAtByte (place : Nat) : List Char → List Char × List Char
  | [] => ([], [])
  | c :: cs =>
    if place = 0 then ([], c :: cs)
    else
      let cut := splitAtByte (place - c.utf8Size) cs
      (c :: cut.1, cut.2)

def splitOnce (mark : Char) (cs : List Char) : Option (List Char × List Char) :=
  match cs.dropWhile (· ≠ mark) with
  | [] => none
  | _ :: after => some (cs.takeWhile (· ≠ mark), after)

end NumericJit.Text
