import NumericJit.Decimal.Nearest

/-!
# Reading numbers

A number is written as digits with at most one point and at least one digit, with an optional
sign and power of ten, or as one of the words for infinity and NaN in any letter case.
-/

namespace NumericJit

namespace Decimal

def natOfDigits (cs : List Char) : Nat :=
  cs.foldl (fun n c => 10 * n + (c.toNat - '0'.toNat)) 0

/-- The power of ten that ends a number; nothing stands for the power 0. -/
def readExponent? : List Char → Option Int
  | [] => some 0
  | c :: rest =>
    if c = 'e' || c = 'E' then
      match rest with
      | '-' :: ds => (readPower? ds).map fun n => -n
      | '+' :: ds => readPower? ds
      | ds => readPower? ds
    else none
where
  readPower? (ds : List Char) : Option Int :=
    if ds ≠ [] && ds.all Char.isDigit then some (natOfDigits ds) else none

/-- A decimal without its sign. Powers of ten beyond what the digits could bring back into
range are cut off there, which leaves the nearest number as it is. -/
def read? (cs : List Char) : Option Decimal :=
  let whole := cs.takeWhile Char.isDigit
  let afterWhole := cs.dropWhile Char.isDigit
  let (fraction, rest) :=
    match afterWhole with
    | '.' :: tail => (tail.takeWhile Char.isDigit, tail.dropWhile Char.isDigit)
    | _ => ([], afterWhole)
  if whole.isEmpty && fraction.isEmpty then none
  else
    let bound : Int := cs.length + 400
    (readExponent? rest).map fun e =>
      ⟨natOfDigits (whole ++ fraction), max (-bound) (min bound e) - fraction.length⟩

end Decimal

namespace Number

def readMagnitude? (cs : List Char) : Option Number :=
  match cs.map Char.toLower with
  | ['i', 'n', 'f'] => some infinity
  | ['i', 'n', 'f', 'i', 'n', 'i', 't', 'y'] => some infinity
  | ['n', 'a', 'n'] => some nan
  | _ => (Decimal.read? cs).map Decimal.toNumber

def readChars? : List Char → Option Number
  | '-' :: cs => (readMagnitude? cs).map negate
  | '+' :: cs => readMagnitude? cs
  | cs => readMagnitude? cs

def ofText? (text : String) : Option Number := readChars? text.toList

end Number
end NumericJit
