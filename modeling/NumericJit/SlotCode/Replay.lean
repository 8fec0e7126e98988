import NumericJit.SlotCode.Builder

/-!
# Code as calls of a builder

A function is built by a sequence of calls. Code is replayed by emitting its plain instructions and
by opening and closing a region for every loop and every block of a branch. A loop or a branch can
also be emitted as a whole, and slots can be made between any two calls.
-/

namespace NumericJit

inductive BuilderCall where
  | newSlot
  | emit (i : Instr)
  | beginLoop
  | endLoop
  | beginIf
  | beginElse
  | endIf

namespace BuilderCall

def makesSlot : BuilderCall → Bool
  | .newSlot => true
  | _ => false

def isPlain : BuilderCall → Bool
  | .newSlot | .emit _ => true
  | _ => false

end BuilderCall

namespace Builder

def completed (r : Except Failure Unit × Builder) : Except Failure (List Nat × Builder) :=
  r.1.map fun _ => ([], r.2)

/-- The slots that a call makes, and the builder behind it. -/
def perform (b : Builder) : BuilderCall → Except Failure (List Nat × Builder)
  | .newSlot => .ok ([b.newSlot.1], b.newSlot.2)
  | .emit i => .ok ([], b.emit i)
  | .beginLoop => .ok ([], b.beginLoop)
  | .endLoop => completed b.endLoop
  | .beginIf => .ok ([], b.beginIf)
  | .beginElse => completed b.beginElse
  | .endIf => completed b.endIf

def performAll (b : Builder) : List BuilderCall → Except Failure (List Nat × Builder)
  | [] => .ok ([], b)
  | call :: calls => do
    let (made, b) ← b.perform call
    let (others, b) ← b.performAll calls
    .ok (made ++ others, b)

end Builder

mutual
def Instr.replay : Instr → List BuilderCall
  | .loop body => .beginLoop :: (replayCode body ++ [.endLoop])
  | .branch yes no => .beginIf :: (replayCode yes ++ .beginElse :: (replayCode no ++ [.endIf]))
  | plain => [.emit plain]

def replayCode : List Instr → List BuilderCall
  | [] => []
  | i :: rest => i.replay ++ replayCode rest
end

/-- Calls that build code, in which loops and branches may be emitted as a whole. -/
inductive Replays : List BuilderCall → Code → Prop where
  | nil : Replays [] []
  | newSlot (h : Replays calls code) : Replays (.newSlot :: calls) code
  | emit (i : Instr) (h : Replays calls code) : Replays (.emit i :: calls) (i :: code)
  | loop (hbody : Replays nested body) (h : Replays calls code) :
    Replays (.beginLoop :: (nested ++ .endLoop :: calls)) (.loop body :: code)
  | branch (hyes : Replays first yes) (hno : Replays second no) (h : Replays calls code) :
    Replays (.beginIf :: (first ++ .beginElse :: (second ++ .endIf :: calls)))
      (.branch yes no :: code)

inductive Balanced : List BuilderCall → Prop where
  | nil : Balanced []
  | plain (hcall : call.isPlain = true) (h : Balanced calls) : Balanced (call :: calls)
  | loop (hbody : Balanced nested) (h : Balanced calls) :
    Balanced (.beginLoop :: (nested ++ .endLoop :: calls))
  | branch (hyes : Balanced first) (hno : Balanced second) (h : Balanced calls) :
    Balanced (.beginIf :: (first ++ .beginElse :: (second ++ .endIf :: calls)))

end NumericJit
