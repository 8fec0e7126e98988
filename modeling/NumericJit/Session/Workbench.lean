import NumericJit.Engine.Host
import NumericJit.Lowering.Statement
import NumericJit.SlotCode.Text
import NumericJit.Text.Style

/-!
# Processing statements

Definitions and declarations gather in the open unit. A bare expression closes it: the unit goes to
the engine and the expression's wrapper is run. Whether or not that works, a new unit is open by
then. A statement that cannot be lowered takes the open unit with it.
-/

namespace NumericJit

inductive Outcome where
  | defined (name : String)
  | declared (name : String)
  | value (x : Number)

structure Workbench (E : Type) where
  engine : E
  draft : Draft := { unit := { id := 0 } }
  nextUnit : Nat := 1
  nextWrapper : Nat := 0
  showUnits : Bool := false

namespace Workbench

variable {E S : Type} [Engine E S]

def openUnit (b : Workbench E) : Workbench E :=
  { b with
    draft := { unit := { id := b.nextUnit }, arities := b.draft.arities }
    nextUnit := b.nextUnit + 1 }

def listing (u : CodeUnit) : String :=
  Text.styledLine [Text.Style.dark, Text.Style.magenta, u.listing]

/-- Hands a unit to the engine and runs one of its functions, which has no parameters. -/
def run (u : CodeUnit) (wrapper : String) (engine : E) (w : World S) :
    Except Failure Number × E × World S :=
  match Engine.finalize u engine with
  | (.error e, engine) => (.error e, engine, w)
  | (.ok (), engine) =>
    match Engine.address? engine wrapper with
    | none => (.error { cause := .missingSymbol wrapper }, engine, w)
    | some address => Engine.invoke address [] engine w

def execute (b : Workbench E) (wrapper : String) (w : World S) :
    Except Failure Outcome × Workbench E × World S :=
  let unit := b.draft.unit
  let shown := if b.showUnits then w.print (listing unit) else w
  let (result, engine, w) := run unit wrapper b.engine shown
  (result.map .value, { b.openUnit with engine }, w)

def process (b : Workbench E) (s : Statement) (w : World S) :
    Except Failure Outcome × Workbench E × World S :=
  let (result, draft) := b.draft.lower (Engine.isResident b.engine) (wrapperName b.nextWrapper) s
  let lowered := { b with draft }
  match result with
  | .ok (.definition name) => (.ok (.defined name), lowered, w)
  | .ok (.declaration name) => (.ok (.declared name), lowered, w)
  | .ok (.wrapper name) => { lowered with nextWrapper := b.nextWrapper + 1 }.execute name w
  | .error e => (.error e, lowered.openUnit, w)

/-- Processes statements in order; one that could not be read fails without further effect. -/
def processAll (b : Workbench E) (w : World S) :
    List (Except Failure Statement) → List (Except Failure Outcome) × Workbench E × World S
  | [] => ([], b, w)
  | .error e :: rest =>
    let (outcomes, b, w) := b.processAll w rest
    (.error e :: outcomes, b, w)
  | .ok s :: rest =>
    let (outcome, b, w) := b.process s w
    let (outcomes, b, w) := b.processAll w rest
    (outcome :: outcomes, b, w)

def register (b : Workbench E) (h : HostFunction S) : Except Failure Unit × Workbench E :=
  let (result, engine, arities) := registerHost h b.engine b.draft.arities
  (result, { b with engine, draft := { b.draft with arities } })

def registerBuiltins (b : Workbench E) (names : List String) : Except Failure Unit × Workbench E :=
  let (result, engine, arities) := NumericJit.registerBuiltins names b.engine b.draft.arities
  (result, { b with engine, draft := { b.draft with arities } })

end Workbench
end NumericJit
