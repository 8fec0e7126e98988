import NumericJit.Engine.Resident
import NumericJit.SlotCode.Exec

/-!
# What an engine has published

An engine is called to take up a host function, to take up a unit, or to run a function. A call that
takes something up publishes functions. What was published can be run without the engine, by name:
there are no addresses, no links and no modules here.
-/

namespace NumericJit

inductive Publication (S : Type) where
  | host (h : HostFunction S)
  | code (f : SlotFunction)

variable {S : Type}

namespace Publication

def name : Publication S → String
  | .host h => h.name
  | .code f => f.name

def arity : Publication S → Nat
  | .host h => h.arity
  | .code f => f.arity

def run (call : String → List Number → World S → CallResult (World S)) (fuel : Nat) :
    Publication S → List Number → World S → CallResult (World S)
  | .host h, args, w =>
    let reply := h.run args w.state
    (.ok reply.value, { output := w.output ++ reply.output, state := reply.state })
  | .code f, args, w => f.run call fuel args w

end Publication

/-- Calls what was published under a name. `fuel` bounds the rounds of a loop, the next argument how
many calls may be inside each other. -/
def callPublished (table : List (Publication S)) (fuel : Nat) :
    Nat → String → List Number → World S → CallResult (World S)
  | 0, _, _, w => (.error (.trap .callStackExhausted), w)
  | depth + 1, name, args, w =>
    match table.find? fun p => p.name == name with
    | some p => p.run (callPublished table fuel depth) fuel args w
    | none => (.error .stuck, w)

inductive EngineCall (S : Type) where
  | declare (h : HostFunction S)
  | finalize (u : CodeUnit)
  | invoke (address : Nat) (args : List Number)

namespace ResidentEngine

/-- What a call answers, a number if it was to run a function, and what it leaves. -/
def answer (e : ResidentEngine S) (w : World S) :
    EngineCall S → Except Failure (Option Number) × ResidentEngine S × World S
  | .declare h => ((Engine.declare h e).1.map fun _ => none, (Engine.declare h e).2, w)
  | .finalize u => ((Engine.finalize u e).1.map fun _ => none, (Engine.finalize u e).2, w)
  | .invoke a args => ((Engine.invoke a args e w).1.map some, (Engine.invoke a args e w).2)

def publishes (e : ResidentEngine S) : EngineCall S → List (Publication S)
  | .declare h => if (Engine.declare h e).1.isOk then [.host h] else []
  | .finalize u => if (Engine.finalize u e).1.isOk then u.functions.map .code else []
  | .invoke _ _ => []

def signature (e : ResidentEngine S) : List (String × Nat) :=
  e.symbols.map fun s => (s.name, s.arity)

def answerAll (e : ResidentEngine S) (w : World S) :
    List (EngineCall S) → ResidentEngine S × World S
  | [] => (e, w)
  | call :: rest => (e.answer w call).2.1.answerAll (e.answer w call).2.2 rest

def publishesAll (e : ResidentEngine S) (w : World S) : List (EngineCall S) → List (Publication S)
  | [] => []
  | call :: rest =>
    e.publishes call ++ (e.answer w call).2.1.publishesAll (e.answer w call).2.2 rest

end ResidentEngine

end NumericJit
