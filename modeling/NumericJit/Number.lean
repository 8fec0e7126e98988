/-!
# Numbers

Every value of the language is a binary64 number. A number is kept as its bits, so that
constants travel unchanged through every representation, NaN payloads included. Order and
sign are read off the bits; sums, differences and products are rounded to nearest even.
-/

namespace NumericJit

/-- A binary64 number, by its bits. -/
structure Number where
  bits : UInt64
deriving DecidableEq, Inhabited

namespace Number

def zero : Number := ⟨0⟩

def one : Number := ⟨0x3FF0000000000000⟩

def negativeOne : Number := ⟨0xBFF0000000000000⟩

/-- The quiet NaN without payload. -/
def nan : Number := ⟨0x7FF8000000000000⟩

def infinity : Number := ⟨0x7FF0000000000000⟩

def magnitude (x : Number) : UInt64 := x.bits &&& 0x7FFFFFFFFFFFFFFF

def isNegative (x : Number) : Bool := x.magnitude != x.bits

def isNaN (x : Number) : Bool := infinity.bits < x.magnitude

def isInfinite (x : Number) : Bool := x.magnitude == infinity.bits

def abs (x : Number) : Number := ⟨x.magnitude⟩

def negate (x : Number) : Number := ⟨x.bits ^^^ 0x8000000000000000⟩

/-- Position of an ordered number among all of them. Both zeros share one position. -/
def rank (x : Number) : UInt64 :=
  if x.isNegative then 0x8000000000000000 - x.magnitude else 0x8000000000000000 + x.magnitude

def isOrdered (x y : Number) : Bool := !x.isNaN && !y.isNaN

def ge (x y : Number) : Bool := isOrdered x y && decide (y.rank ≤ x.rank)

def gt (x y : Number) : Bool := isOrdered x y && decide (y.rank < x.rank)

def ltUnordered (x y : Number) : Bool := !isOrdered x y || decide (x.rank < y.rank)

/-- Ordered, and not zero. -/
def isTrue (x : Number) : Bool := !x.isNaN && x.magnitude != 0

def ofBool (b : Bool) : Number := if b then one else zero

def toFloat (x : Number) : Float := Float.ofBits x.bits

def ofFloat (x : Float) : Number := ⟨x.toBits⟩

def add (x y : Number) : Number := ofFloat (x.toFloat + y.toFloat)

def sub (x y : Number) : Number := ofFloat (x.toFloat - y.toFloat)

def mul (x y : Number) : Number := ofFloat (x.toFloat * y.toFloat)

/-- The whole part as a byte: below zero and NaN give 0, above 255 gives 255. -/
def toByte (x : Number) : UInt8 := x.toFloat.toUInt8

theorem ltUnordered_eq_not_ge (x y : Number) : ltUnordered x y = !ge x y := by
  have h : decide (x.rank < y.rank) = !decide (y.rank ≤ x.rank) := by
    rw [← decide_not]
    exact decide_eq_decide.mpr UInt64.not_le.symm
  simp [ltUnordered, ge, h]

end Number
end NumericJit
