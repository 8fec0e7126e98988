import NumericJit.Decimal.Notation

/-!
# Configuration
-/

namespace NumericJit

structure Config where
  prompt : String := "ready> "
  /-- Decimal places of results; without it a result has the fewest digits that read back. -/
  precision : Option Nat := none
  hostFunctions : List String := ["putchard", "printd"]
  showUnits : Bool := false
deriving DecidableEq

/-- How a result is written; none if it cannot be written with that many places. -/
def Config.format? (c : Config) (x : Number) : Option String :=
  match c.precision with
  | some places => x.fixed? places
  | none => some x.plain

end NumericJit
