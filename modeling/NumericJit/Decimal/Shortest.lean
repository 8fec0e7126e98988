import NumericJit.Decimal.Nearest

/-!
# The fewest digits that read back

A finite number is written with the fewest decimal digits whose nearest number it is. Among
decimals of that length the one nearest to the number is taken, and of two equally near ones
the larger.
-/

namespace NumericJit

structure Ratio where
  num : Nat
  den : Nat
deriving DecidableEq

def Ratio.ofBits (bits : Nat) : Ratio :=
  let e := bits / Nat.pow 2 52
  let f := bits % Nat.pow 2 52
  if e = 0 then ⟨f, Nat.pow 2 1074⟩
  else ⟨(Nat.pow 2 52 + f) * Nat.pow 2 (e - 1075), Nat.pow 2 (1075 - e)⟩

namespace Decimal

def digitCount (n : Nat) : Nat := (Nat.toDigits 10 n).length

/-- The least `k` with `num / den < 10 ^ k`, for a positive ratio. -/
def scale (x : Ratio) : Int :=
  if x.den ≤ x.num then digitCount (x.num / x.den)
  else 1 - (digitCount ((x.den - 1) / x.num) : Int)

def trim : Nat → Decimal → Decimal
  | 0, x => x
  | fuel + 1, x =>
    if x.digits ≠ 0 ∧ x.digits % 10 = 0 then trim fuel ⟨x.digits / 10, x.exponent + 1⟩ else x

/-- The decimal on the grid `10 ^ exponent` that reads back as `bits` and lies nearest to `x`. -/
def onGrid? (bits : Nat) (x : Ratio) (exponent : Int) : Option Decimal :=
  let num := x.num * Nat.pow 10 (-exponent).toNat
  let den := x.den * Nat.pow 10 exponent.toNat
  let below : Decimal := ⟨num / den, exponent⟩
  let above : Decimal := ⟨num / den + 1, exponent⟩
  match below.nearest == bits, above.nearest == bits with
  | true, true => if 2 * (num % den) < den then some below else some above
  | true, false => some below
  | false, true => some above
  | false, false => none

def exact (bits : Nat) : Decimal :=
  let x := Ratio.ofBits bits
  let twos := x.den.log2
  ⟨x.num * Nat.pow 5 twos, -twos⟩

def shortest (bits : Nat) : Decimal :=
  if bits = 0 then ⟨0, 0⟩
  else
    let x := Ratio.ofBits bits
    let k := scale x
    let found := (List.range 17).findSome? fun (i : Nat) => onGrid? bits x (k - (i + 1))
    trim 400 (found.getD (exact bits))

end Decimal
end NumericJit
