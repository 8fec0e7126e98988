import NumericJit.Engine.Resident
import NumericJit.Meaning.Code
import NumericJit.Meaning.Expression
import NumericJit.Meaning.Scoping
import NumericJit.Session.Workbench
import NumericJit.Statement.Parse

/-!
# What sessions mean

A session on trees: functions are committed or pending, and expressions are evaluated as they
stand. A definition becomes pending. An expression commits what is pending and is then evaluated;
a statement that is not well formed drops what is pending. There is no code, no slot and no
linking in what a session does.

An expression may also be refused, and then drops what is pending too. Sizes are what it may be
refused for (`TreeSession.isSmall`), among them the size of the code; a session that refuses nothing
is one where `accepts` is always true.
-/

namespace NumericJit

inductive TreeFunction (S : Type) where
  | host (arity : Nat) (run : List Number → S → HostReply S)
  | tree (params : List String) (body : Expr)

def TreeFunction.arity {S : Type} : TreeFunction S → Nat
  | .host arity _ => arity
  | .tree params _ => params.length

/-- What a function gives for some arguments; `call` answers the calls in its body. -/
def TreeFunction.run {S : Type} (call : String → List Number → World S → CallResult (World S))
    (fuel : Nat) (f : TreeFunction S) (args : List Number) (w : World S) : CallResult (World S) :=
  match f with
  | .host _ run =>
    let reply := run args w.state
    (.ok reply.value, { output := w.output ++ reply.output, state := reply.state })
  | .tree params body => body.asFunction call fuel params args w

structure TreeDefinition where
  name : String
  params : List String
  body : Expr

def TreeDefinition.code (d : TreeDefinition) : SlotFunction := .ofTree d.name d.params d.body

structure TreeSession (S : Type) where
  limits : Limits := {}
  committed : NameTable (TreeFunction S) := {}
  pending : List TreeDefinition := []
  /-- The committed functions that the open unit refers to, with their arities. -/
  references : List (String × Nat) := []
  unit : Nat := 0
  /-- How many well-formed expressions there were. -/
  expressions : Nat := 0

namespace TreeSession

variable {S : Type}

/-- Calls a committed function by name. The first number bounds how many calls may be inside each
other. -/
def call (functions : NameTable (TreeFunction S)) (fuel : Nat) :
    Nat → String → List Number → World S → CallResult (World S)
  | 0, _, _, w => (.error (.trap .callStackExhausted), w)
  | depth + 1, name, args, w =>
    match functions.get? name with
    | some f => f.run (call functions fuel depth) fuel args w
    | none => (.error .stuck, w)

def arity? (s : TreeSession S) (name : String) : Option Nat :=
  match s.pending.find? fun d => d.name == name with
  | some d => some d.params.length
  | none => (s.committed.get? name).map (·.arity)

def arityOf (s : TreeSession S) (name : String) : Except Cause Nat :=
  match s.arity? name with
  | some arity => .ok arity
  | none => .error (.unknownFunction name)

def check (s : TreeSession S) : Statement → Except Failure Unit
  | .definition proto body =>
    if (s.arity? proto.name).isSome then
      .error { cause := .redefinition proto.name, span := proto.span }
    else
      -- a function can call itself
      body.check (fun name => if name = proto.name then .ok proto.arity else s.arityOf name)
        proto.params
  | .declaration proto =>
    match s.arity? proto.name with
    | none => .error { cause := .unmatchedDeclaration proto.name, span := proto.span }
    | some arity =>
      if arity = proto.arity then .ok ()
      else
        .error { cause := .wrongParameterCount proto.name arity proto.arity, span := proto.span }
  | .expression e => e.check s.arityOf []

def refer (s : TreeSession S) (name : String) : TreeSession S :=
  if name ∈ s.pending.map (·.name) ∨ name ∈ s.references.map (·.1) then s
  else
    match s.committed.get? name with
    | some f => { s with references := s.references ++ [(name, f.arity)] }
    | none => s

def referAll (s : TreeSession S) (names : List String) : TreeSession S := names.foldl refer s

def define (s : TreeSession S) (d : TreeDefinition) : TreeSession S :=
  { s.referAll d.body.callees with pending := s.pending ++ [d] }

def drop (s : TreeSession S) : TreeSession S :=
  { s with pending := [], references := [], unit := s.unit + 1 }

def commit (s : TreeSession S) : TreeSession S :=
  { s.drop with
    committed := s.pending.foldl (fun table d => table.set d.name (.tree d.params d.body))
      s.committed }

/-- Evaluates an expression on what is committed. It counts as the outermost call. -/
def evaluate (s : TreeSession S) (e : Expr) (w : World S) : CallResult (World S) :=
  match s.limits.callDepth with
  | 0 => (.error (.trap .callStackExhausted), w)
  | depth + 1 =>
    let fuel := s.limits.loopRounds
    (TreeFunction.tree [] e).run (call s.committed fuel depth) fuel [] w

/-- Whether an expression, as a function without parameters, and the open unit around it keep to
the limits on sizes. -/
def isSmall (s : TreeSession S) (wrapper : TreeDefinition) : Bool :=
  let functions := s.pending ++ [wrapper]
  let linked := s.references ++ functions.map fun d => (d.name, d.params.length)
  linked.all (fun c => c.2 ≤ Wasm.maxParams)
    && linked.all (fun c => c.1.utf8ByteSize ≤ Wasm.maxNameSize)
    && Wasm.linkSize (linked.map Prod.snd) < Wasm.linkSizeBound
    && functions.all (fun d => d.params.length + d.body.slotCount ≤ Wasm.maxLocals)
    && functions.all (fun d => d.code.byteSize linked ≤ Wasm.maxBodySize)

def closing (s : TreeSession S) (e : Expr) : TreeSession S :=
  { s.referAll e.callees with expressions := s.expressions + 1 }

def execute (accepts : TreeSession S → TreeDefinition → Bool) (s : TreeSession S) (e : Expr)
    (w : World S) : Except Failure Outcome × TreeSession S × World S :=
  let wrapper := wrapperName s.expressions
  if accepts (s.closing e) ⟨wrapper, [], e⟩ then
    let committed := (s.closing e).commit
    match committed.evaluate e w with
    | (.ok v, w) => (.ok (.value v), committed, w)
    | (.error why, w) => (.error { cause := ResidentEngine.haltCause wrapper why }, committed, w)
  else (.error { cause := .invalidModule s.unit }, (s.closing e).drop, w)

def process (accepts : TreeSession S → TreeDefinition → Bool) (s : TreeSession S)
    (statement : Statement) (w : World S) : Except Failure Outcome × TreeSession S × World S :=
  match s.check statement with
  | .error e => (.error e, s.drop, w)
  | .ok () =>
    match statement with
    | .definition proto body =>
      (.ok (.defined proto.name), s.define ⟨proto.name, proto.params, body⟩, w)
    | .declaration proto => (.ok (.declared proto.name), s.refer proto.name, w)
    | .expression e => s.execute accepts e w

/-- Processes statements in order; one that could not be read changes nothing. -/
def processAll (accepts : TreeSession S → TreeDefinition → Bool) (s : TreeSession S) (w : World S) :
    List (Except Failure Statement) → List (Except Failure Outcome) × TreeSession S × World S
  | [] => ([], s, w)
  | .error e :: rest =>
    let (outcomes, s, w) := s.processAll accepts w rest
    (.error e :: outcomes, s, w)
  | .ok statement :: rest =>
    let (outcome, s, w) := s.process accepts statement w
    let (outcomes, s, w) := s.processAll accepts w rest
    (outcome :: outcomes, s, w)

def processTexts (accepts : TreeSession S → TreeDefinition → Bool) (s : TreeSession S)
    (w : World S) : List String →
    List (List (Except Failure Outcome)) × TreeSession S × World S
  | [] => ([], s, w)
  | text :: rest =>
    let (outcomes, s, w) := s.processAll accepts w (parseStatements text)
    let (others, s, w) := s.processTexts accepts w rest
    (outcomes :: others, s, w)

def register (s : TreeSession S) (h : HostFunction S) : TreeSession S :=
  if (s.committed.get? h.name).isSome then s
  else { s with committed := s.committed.set h.name (.host h.arity h.run) }

def ofHosts (hosts : List (HostFunction S)) : TreeSession S := hosts.foldl register {}

end TreeSession
end NumericJit
