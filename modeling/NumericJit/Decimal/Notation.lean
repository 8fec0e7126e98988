import NumericJit.Decimal.Shortest

/-!
# Writing numbers

Three notations share the words for NaN and infinity and the sign, which a negative zero keeps:

* plain: the fewest digits, always positional;
* fixed: a given number of places, the exact value rounded with a tie to even;
* exact: the fewest digits, with a point always shown and a power of ten for numbers
  below `10 ^ -4` or from `10 ^ 16` on.
-/

namespace NumericJit

namespace Decimal

def digitText (n : Nat) : String := String.ofList (Nat.toDigits 10 n)

def zeros (n : Nat) : String := String.ofList (List.replicate n '0')

/-- A natural with a point in front of its last `places` digits. -/
def pointed (n places : Nat) : String :=
  if places = 0 then digitText n
  else
    let digits := Nat.toDigits 10 n
    let padded := List.replicate (places + 1 - digits.length) '0' ++ digits
    let whole := padded.length - places
    String.ofList (padded.take whole ++ '.' :: padded.drop whole)

def positional (x : Decimal) : String :=
  if 0 ≤ x.exponent then digitText x.digits ++ (if x.digits = 0 then "" else zeros x.exponent.toNat)
  else pointed x.digits (-x.exponent).toNat

def scientific (x : Decimal) : String :=
  let digits := Nat.toDigits 10 x.digits
  let mantissa :=
    match digits with
    | [] => ""
    | [d] => String.ofList [d]
    | d :: ds => String.ofList (d :: '.' :: ds)
  mantissa ++ "e" ++ toString (x.exponent + digits.length - 1)

end Decimal

namespace Number

def signText (x : Number) : String := if x.isNegative then "-" else ""

/-- The words for NaN and infinity; `finite` writes every other magnitude by its bits. -/
def written (x : Number) (finite : Nat → String) : String :=
  if x.isNaN then "NaN"
  else if x.isInfinite then x.signText ++ "inf"
  else x.signText ++ finite x.magnitude.toNat

/-- The fewest digits that read back, positional. -/
def plain (x : Number) : String := x.written fun bits => (Decimal.shortest bits).positional

def fixed (places : Nat) (x : Number) : String :=
  x.written fun bits =>
    let r := Ratio.ofBits bits
    Decimal.pointed (Decimal.roundDiv (r.num * Nat.pow 10 places) r.den) places

def maxPlaces : Nat := 65535

def fixed? (places : Nat) (x : Number) : Option String :=
  if places ≤ maxPlaces then some (x.fixed places) else none

/-- The fewest digits that read back, recognisable as a number that may have a fraction. -/
def literal (x : Number) : String :=
  x.written fun bits =>
    let d := Decimal.shortest bits
    let k := d.exponent + Decimal.digitCount d.digits
    if bits ≠ 0 ∧ (k ≤ -4 ∨ 16 < k) then d.scientific
    else if 0 ≤ d.exponent then d.positional ++ ".0"
    else d.positional

def hex (x : Number) : String :=
  let digits := Nat.toDigits 16 x.bits.toNat
  String.ofList (List.replicate (16 - digits.length) '0' ++ digits)

end Number
end NumericJit
