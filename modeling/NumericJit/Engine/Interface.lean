import NumericJit.Failure
import NumericJit.World

/-!
# Engines

An engine keeps functions resident under names and runs them. Host functions and the functions of
finalized units become resident. A session works with any engine.
-/

namespace NumericJit

structure HostReply (S : Type) where
  value : Number
  output : ByteArray := .empty
  state : S

structure HostFunction (S : Type) where
  name : String
  arity : Nat
  run : List Number → S → HostReply S

/-- What a session asks of an engine. Every operation may change the engine, also when it
fails. -/
class Engine (E : Type) (S : outParam Type) where
  declare : HostFunction S → E → Except Failure Unit × E
  finalize : CodeUnit → E → Except Failure Unit × E
  address? : E → String → Option Nat
  invoke : Nat → List Number → E → World S → Except Failure Number × E × World S

def Engine.isResident {E S : Type} [Engine E S] (engine : E) (name : String) : Bool :=
  (Engine.address? engine name).isSome

end NumericJit
