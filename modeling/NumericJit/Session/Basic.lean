import NumericJit.Config
import NumericJit.Engine.Resident
import NumericJit.Failure.Report
import NumericJit.Session.Workbench
import NumericJit.Statement.Parse

/-!
# Sessions

A session processes source texts one after the other with the compiling engine. It can report what
became of every statement; reports follow the processing of the whole text.
-/

namespace NumericJit

/-- What reporting comes to. A value that cannot be written breaks the session off; what is left is
the world at that point. -/
abbrev Reported (S α : Type) := Except (World S) α

structure Session (S : Type) where
  config : Config
  bench : Workbench (ResidentEngine S)

namespace Session

variable {S : Type}

open Text (styledLine Style)

def start (config : Config) : Except Failure (Session S) :=
  let bench : Workbench (ResidentEngine S) := { engine := {}, showUnits := config.showUnits }
  match bench.registerBuiltins config.hostFunctions with
  | (.ok (), bench) => .ok { config, bench }
  | (.error e, _) => .error e

def openUnit (s : Session S) : CodeUnit := s.bench.draft.unit

def residentNames (s : Session S) : List String := s.bench.engine.names

def register (s : Session S) (h : HostFunction S) : Except Failure Unit × Session S :=
  let (result, bench) := s.bench.register h
  (result, { s with bench })

def process (s : Session S) (source : String) (w : World S) :
    List (Except Failure Outcome) × Session S × World S :=
  let (outcomes, bench, w) := s.bench.processAll w (parseStatements source)
  (outcomes, { s with bench }, w)

/-- What is said about an outcome; none if a value cannot be written. -/
def outcomeText? (config : Config) : Outcome → Option String
  | .value x => (config.format? x).map fun text => styledLine ["Evaluated to: ", Style.bright, text]
  | .defined name => some (styledLine [Style.gray, "Defined ", name])
  | .declared name => some (styledLine [Style.gray, "Declared extern ", name])

def resultText? (config : Config) (source : String) : Except Failure Outcome → Option String
  | .ok outcome => outcomeText? config outcome
  | .error e => some (e.diagnostic.report (some source))

def sayAll (config : Config) (source : String) (w : World S) :
    List (Except Failure Outcome) → Reported S (World S)
  | [] => .ok w
  | r :: rest =>
    match resultText? config source r with
    | some text => sayAll config source (w.print text) rest
    | none => .error w

def isFailure : Except Failure Outcome → Bool
  | .ok _ => false
  | .error _ => true

def report (s : Session S) (source : String) (w : World S) :
    Reported S (Nat × Session S × World S) :=
  let (outcomes, s, w) := s.process source w
  (sayAll s.config source w outcomes).map fun w => (outcomes.countP isFailure, s, w)

def summary (s : Session S) : String :=
  let unit :=
    if s.openUnit.isEmpty then styledLine [Style.gray, "The open unit is empty"]
    else Workbench.listing s.openUnit
  let engine := s.bench.engine
  unit
    ++ styledLine [Style.gray, "Resident: ", Style.bright, toString engine.symbols.length,
      Style.gray, " functions from ", Style.bright, toString engine.units, Style.gray,
      " finalized units"]
    ++ styledLine [Style.gray, String.intercalate ", " s.residentNames]

end Session
end NumericJit
