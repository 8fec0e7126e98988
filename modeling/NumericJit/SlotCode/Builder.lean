import NumericJit.Failure

/-!
# Functions under construction

Instructions go to the end of the innermost open region. Opening a region sets the code around it
aside; closing it puts what it has become at the end of that code. A region that is closed by the
wrong step is lost. Slots can be made at any time and belong to the whole function.

Slots are counted without a bound here. A program that counts them in 32 bits stops with an overflow
when one function makes 2^32 of them.
-/

namespace NumericJit

structure Builder where
  name : String
  params : List String
  /-- Slots made so far, parameters included. -/
  slots : Nat
  code : Code := []
  /-- Open regions from the inside out, each with the code around it. -/
  enclosing : List (RegionKind × Code) := []

namespace Builder

def start (name : String) (params : List String) : Builder :=
  { name, params, slots := params.length }

def arity (b : Builder) : Nat := b.params.length

def paramSlot? (b : Builder) (index : Nat) : Option Nat :=
  if index < b.params.length then some index else none

def newSlot (b : Builder) : Nat × Builder := (b.slots, { b with slots := b.slots + 1 })

def emit (b : Builder) (i : Instr) : Builder := { b with code := b.code ++ [i] }

def openRegion (b : Builder) (kind : RegionKind) : Builder :=
  { b with code := [], enclosing := (kind, b.code) :: b.enclosing }

def beginLoop (b : Builder) : Builder := b.openRegion .loop

def beginIf (b : Builder) : Builder := b.openRegion .yes

def closeRegion (b : Builder) (next : RegionKind → Code → Builder → Except Failure Unit × Builder) :
    Except Failure Unit × Builder :=
  match b.enclosing with
  | [] => (.error { cause := .noOpenRegion b.name }, b)
  | (kind, around) :: rest => next kind b.code { b with code := around, enclosing := rest }

def wrongRegion (step : RegionStep) (kind : RegionKind) (b : Builder) :
    Except Failure Unit × Builder :=
  (.error { cause := .wrongRegion b.name step kind }, b)

def endLoop (b : Builder) : Except Failure Unit × Builder :=
  b.closeRegion fun kind body b =>
    match kind with
    | .loop => (.ok (), b.emit (.loop body))
    | _ => wrongRegion .endLoop kind b

def beginElse (b : Builder) : Except Failure Unit × Builder :=
  b.closeRegion fun kind taken b =>
    match kind with
    | .yes => (.ok (), b.openRegion (.no taken))
    | _ => wrongRegion .beginElse kind b

def endIf (b : Builder) : Except Failure Unit × Builder :=
  b.closeRegion fun kind other b =>
    match kind with
    | .no taken => (.ok (), b.emit (.branch taken other))
    | _ => wrongRegion .endIf kind b

def finish (b : Builder) : Except Failure SlotFunction :=
  match b.enclosing with
  | [] => .ok { name := b.name, params := b.params, slots := b.slots, body := b.code }
  | regions => .error { cause := .unclosedRegions b.name regions.length }

end Builder
end NumericJit
