import NumericJit.Number

/-!
# The nearest number to a ratio

Reading a decimal means choosing the number nearest to it, with a tie going to the even
neighbour. The choice is made on exact naturals: scale the ratio so that its whole part has
fifty-three binary digits, round that part, and let the bits carry into the exponent.
-/

namespace NumericJit

/-- A non-negative decimal, `digits * 10 ^ exponent`. -/
structure Decimal where
  digits : Nat
  exponent : Int
deriving DecidableEq

namespace Decimal

/-- A quotient rounded to nearest, a tie to even. -/
def roundDiv (n d : Nat) : Nat :=
  let q := n / d
  let r := n % d
  if 2 * r < d then q
  else if d < 2 * r then q + 1
  else if q % 2 = 0 then q else q + 1

/-- The greatest power of two that is not above `n / d`, for positive `n` and `d`. -/
def log2Ratio (n d : Nat) : Int :=
  let e : Int := (n.log2 : Int) - (d.log2 : Int)
  if n * Nat.pow 2 (-e).toNat < d * Nat.pow 2 e.toNat then e - 1 else e

def infinityBits : Nat := 0x7FF0000000000000

def nearestBits (n d : Nat) : Nat :=
  if n = 0 then 0
  else
    let q := max (log2Ratio n d - 52) (-1074)
    let m := roundDiv (n * Nat.pow 2 (-q).toNat) (d * Nat.pow 2 q.toNat)
    min infinityBits ((q + 1074).toNat * Nat.pow 2 52 + m)

def nearest (x : Decimal) : Nat :=
  nearestBits (x.digits * Nat.pow 10 x.exponent.toNat) (Nat.pow 10 (-x.exponent).toNat)

def toNumber (x : Decimal) : Number := ⟨x.nearest.toUInt64⟩

end Decimal
end NumericJit
