import NumericJit.Decimal.Notation
import NumericJit.Engine.Interface
import NumericJit.NameTable

/-!
# Host functions

The host functions that a configuration can name, and how host functions become callable: they
are made resident in the engine and their arity is recorded.
-/

namespace NumericJit
namespace HostFunction

variable {S : Type}

def writeByte : HostFunction S where
  name := "putchard"
  arity := 1
  run args state :=
    { value := .zero, output := ⟨#[(args.headD .zero).toByte]⟩, state }

/-- Writes its argument on a line of its own, with six decimal places. -/
def writeNumber : HostFunction S where
  name := "printd"
  arity := 1
  run args state :=
    { value := .zero, output := ((args.headD .zero).fixed 6 ++ "\n").toUTF8, state }

def builtins : List (HostFunction S) := [writeByte, writeNumber]

def builtin? (name : String) : Option (HostFunction S) := builtins.find? fun h => h.name == name

def builtinNames : List String := (builtins (S := Unit)).map (·.name)

end HostFunction

def registerHost {E S : Type} [Engine E S] (h : HostFunction S) (engine : E)
    (arities : ArityTable) : Except Failure Unit × E × ArityTable :=
  match Engine.declare h engine with
  | (.ok (), engine) => (.ok (), engine, (arities.record h.name h.arity).2)
  | (.error e, engine) => (.error e, engine, arities)

def registerBuiltins {E S : Type} [Engine E S] :
    List String → E → ArityTable → Except Failure Unit × E × ArityTable
  | [], engine, arities => (.ok (), engine, arities)
  | name :: rest, engine, arities =>
    match HostFunction.builtin? (S := S) name with
    | none =>
      (.error { cause := .unknownHostFunction name HostFunction.builtinNames }, engine, arities)
    | some h =>
      match registerHost h engine arities with
      | (.ok (), engine, arities) => registerBuiltins rest engine arities
      | failed => failed

end NumericJit
