import NumericJit.NameTable
import NumericJit.SlotCode.Builder
import NumericJit.SlotCode.CodeUnit

/-!
# Lowering expressions

The code of an expression goes to the end of the innermost region and leaves the value on the
operand stack. Variables live in slots: a loop or a list of local variables makes new slots, binds
its names to them for as long as they are visible, and restores what the names meant before. What
lowering did up to a failure stays done.
-/

namespace NumericJit

structure Surroundings where
  resident : String → Bool
  arities : ArityTable

structure LowerState where
  builder : Builder
  scope : Scope
  unit : CodeUnit

/-- Lowering of one function; a failure keeps the state it was reached in. -/
abbrev Lower := ExceptT Failure (StateM LowerState)

namespace Lower

def fail {α : Type} (cause : Cause) (span : Span) : Lower α := throw { cause, span }

def emit (i : Instr) : Lower Unit := modify fun s => { s with builder := s.builder.emit i }

def newSlot : Lower Nat :=
  modifyGet fun s => let (slot, b) := s.builder.newSlot; (slot, { s with builder := b })

def build (step : Builder → Except Failure Unit × Builder) : Lower Unit :=
  fun s => let (result, b) := step s.builder; (result, { s with builder := b })

def lookup (name : String) (span : Span) : Lower Nat := do
  match (← get).scope.get? name with
  | some slot => pure slot
  | none => fail (.unknownVariable name) span

def bind (name : String) (slot : Nat) : Lower (Option Nat) :=
  modifyGet fun s => (s.scope.get? name, { s with scope := s.scope.set name slot })

def restore (name : String) (prior : Option Nat) : Lower Unit :=
  modify fun s => { s with scope := s.scope.restore name prior }

def declare (name : String) (arity : Nat) : Lower Unit :=
  fun s =>
    match s.unit.declare name arity with
    | .ok u => (.ok (), { s with unit := u })
    | .error e => (.error e, s)

/-- The arity of a callee: the function under construction first, then the unit, then what is
resident, which the unit then declares. -/
def resolve (around : Surroundings) (callee : String) (span : Span) : Lower Nat := do
  let s ← get
  if callee = s.builder.name then pure s.builder.arity
  else
    match s.unit.arity? callee with
    | some arity => pure arity
    | none =>
      if !around.resident callee then fail (.unknownFunction callee) span
      else
        match around.arities.get? callee with
        | none => fail (.arityUnrecorded callee) span
        | some arity => do
          declare callee arity
          pure arity

def operatorCode? (op : Char) : Option Code :=
  match op with
  | '+' => some [.add]
  | '-' => some [.sub]
  | '*' => some [.mul]
  | '<' => some [.ltUnordered, .boolToNumber]
  | _ => none

def emitAll : Code → Lower Unit
  | [] => pure ()
  | i :: rest => do
    emit i
    emitAll rest

mutual
def expression (around : Surroundings) : Expr → Lower Unit
  | .number value _ => emit (.const value)
  | .variable name span => do
    let slot ← lookup name span
    emit (.load slot)
  | .binary op lhs rhs span =>
    if op = '=' then
      match lhs with
      | .variable name target => do
        expression around rhs
        let slot ← lookup name target
        emit (.tee slot)
      | _ => fail (.invalidTarget lhs) span
    else if op = '>' then do
      -- the left operand is evaluated first and waits in a slot of its own
      expression around lhs
      let scratch ← newSlot
      emit (.store scratch)
      expression around rhs
      emit (.load scratch)
      emit .ltUnordered
      emit .boolToNumber
    else do
      expression around lhs
      expression around rhs
      match operatorCode? op with
      | some code => emitAll code
      | none => fail (.unknownOperator op) span
  | .call callee args span => do
    let arity ← resolve around callee span
    arguments around args
    if arity = args.length then emit (.call callee arity)
    else fail (.wrongArgumentCount callee arity args.length) span
  | .branch condition yes no _ => do
    expression around condition
    emit .numberToBool
    build fun b => (.ok (), b.beginIf)
    expression around yes
    build Builder.beginElse
    expression around no
    build Builder.endIf
  | .loop counter start stop step body _ => do
    let slot ← newSlot
    expression around start
    emit (.store slot)
    let growth ← stepSize around step
    build fun b => (.ok (), b.beginLoop)
    let prior ← bind counter slot
    expression around body
    emit .drop
    emit (.load slot)
    emit growth
    emit .add
    emit (.tee slot)
    expression around stop
    emit .ltUnordered
    emit .continueIf
    build Builder.endLoop
    restore counter prior
    emit (.const .zero)
  | .locals bindings body _ => locals around bindings (expression around body)

def arguments (around : Surroundings) : List Expr → Lower Unit
  | [] => pure ()
  | e :: es => do
    expression around e
    arguments around es

/-- Evaluates the step of a loop into a slot, and gives the instruction that brings it back. -/
def stepSize (around : Surroundings) : Option Expr → Lower Instr
  | none => pure (.const .one)
  | some e => do
    expression around e
    let slot ← newSlot
    emit (.store slot)
    pure (.load slot)

def initialValue (around : Surroundings) : String × Option Expr → Lower Unit
  | (_, none) => emit (.const .zero)
  | (_, some e) => expression around e

/-- Initialises and binds variables one after the other, lowers what they are visible in, and
restores what their names were bound to before, the last one first. -/
def locals (around : Surroundings) : List (String × Option Expr) → Lower Unit → Lower Unit
  | [], inner => inner
  | b :: rest, inner => do
    initialValue around b
    let slot ← newSlot
    emit (.store slot)
    let prior ← bind b.1 slot
    locals around rest inner
    restore b.1 prior
end

/-- Binds parameters to the first slots; of two with one name the later counts. -/
def bindParams : Nat → List String → Lower Unit
  | _, [] => pure ()
  | slot, name :: rest => do
    let _ ← bind name slot
    bindParams (slot + 1) rest

def function (around : Surroundings) (body : Expr) : Lower SlotFunction := do
  bindParams 0 (← get).builder.params
  expression around body
  match (← get).builder.finish with
  | .ok f => pure f
  | .error e => throw e

end Lower
end NumericJit
