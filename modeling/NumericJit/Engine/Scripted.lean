import NumericJit.Engine.Interface

/-!
# A scripted engine

An engine that runs nothing and answers as it is told to. It shows what a session does with the
answers of an engine, whatever they are.
-/

namespace NumericJit

structure ScriptedEngine (S : Type) where
  resident : List String := []
  refuse : Bool := false
  publish : Bool := false
  /-- What every call comes to; without it every call fails. -/
  result : Option Number := none

namespace ScriptedEngine

variable {S : Type}

def finalize (u : CodeUnit) (e : ScriptedEngine S) : Except Failure Unit × ScriptedEngine S :=
  if e.refuse then (.error { cause := .unitRefused u.id }, e)
  else if e.publish then (.ok (), { e with resident := e.resident ++ u.functions.map (·.name) })
  else (.ok (), e)

def invoke (address : Nat) (e : ScriptedEngine S) : Except Failure Number :=
  match e.result with
  | some v => .ok v
  | none => .error { cause := .addressRefused address }

end ScriptedEngine

instance {S : Type} : Engine (ScriptedEngine S) S where
  declare h e := (.ok (), { e with resident := e.resident ++ [h.name] })
  finalize u e := e.finalize u
  address? e name := e.resident.findIdx? (· == name)
  invoke address _ e w := (e.invoke address, e, w)

end NumericJit
