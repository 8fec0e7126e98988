import NumericJit.Lowering.Expression

/-!
# Lowering statements

A definition becomes a function of the open unit, and so does a bare expression, as the body of a
wrapper without parameters. A declaration only makes a function callable.
-/

namespace NumericJit

structure Draft where
  unit : CodeUnit
  scope : Scope := {}
  arities : ArityTable := {}

inductive Lowered where
  | definition (name : String)
  | declaration (name : String)
  | wrapper (name : String)
deriving DecidableEq

/-- The name of the function around the `n`th bare expression. Underscores keep it apart from every
name that can be written. -/
def wrapperName (n : Nat) : String := "__anon_expr_" ++ toString n

namespace Draft

def record (d : Draft) (name : String) (arity : Nat) : Draft :=
  { d with arities := (d.arities.record name arity).2 }

def isTaken (d : Draft) (resident : String → Bool) (name : String) : Bool :=
  (d.unit.arity? name).isSome || resident name

def addFunction (d : Draft) (resident : String → Bool) (name : String) (params : List String)
    (body : Expr) : Except Failure Unit × Draft :=
  let start : LowerState := { builder := .start name params, scope := {}, unit := d.unit }
  let (result, s) := (Lower.function ⟨resident, d.arities⟩ body).run start
  let lowered := { d with scope := s.scope, unit := s.unit }
  match result with
  | .error e => (.error e, lowered)
  | .ok f =>
    match s.unit.add f with
    | .error e => (.error e, lowered)
    | .ok u => (.ok (), { lowered with unit := u })

def lowerDefinition (d : Draft) (resident : String → Bool) (proto : Prototype) (body : Expr) :
    Except Failure Lowered × Draft :=
  if d.isTaken resident proto.name then
    (.error { cause := .redefinition proto.name, span := proto.span }, d)
  else
    -- recorded first, so that the body can call the function itself
    let recorded := d.record proto.name proto.arity
    let (result, d) := recorded.addFunction resident proto.name proto.params body
    (result.map fun _ => .definition proto.name, d)

/-- The arity under which a declaration finds its function; none if it is resident unrecorded. -/
def declaredArity (d : Draft) (resident : String → Bool) (proto : Prototype) :
    Except Failure (Option Nat) :=
  match d.unit.arity? proto.name with
  | some arity => .ok (some arity)
  | none =>
    if resident proto.name then .ok (d.arities.get? proto.name)
    else .error { cause := .unmatchedDeclaration proto.name, span := proto.span }

def lowerDeclaration (d : Draft) (resident : String → Bool) (proto : Prototype) :
    Except Failure Lowered × Draft :=
  match d.declaredArity resident proto with
  | .error e => (.error e, d)
  | .ok known =>
    if known.all (· == proto.arity) then
      let d := d.record proto.name proto.arity
      if d.unit.defines proto.name then (.ok (.declaration proto.name), d)
      else
        match d.unit.declare proto.name proto.arity with
        | .ok u => (.ok (.declaration proto.name), { d with unit := u })
        | .error e => (.error e, d)
    else
      (.error { cause := .wrongParameterCount proto.name (known.getD 0) proto.arity,
                span := proto.span }, d)

def lowerExpression (d : Draft) (resident : String → Bool) (wrapper : String) (e : Expr) :
    Except Failure Lowered × Draft :=
  if d.isTaken resident wrapper then (.error { cause := .wrapperReused wrapper }, d)
  else
    let (result, d) := d.addFunction resident wrapper [] e
    (result.map fun _ => .wrapper wrapper, d)

def lower (d : Draft) (resident : String → Bool) (wrapper : String) :
    Statement → Except Failure Lowered × Draft
  | .definition proto body => d.lowerDefinition resident proto body
  | .declaration proto => d.lowerDeclaration resident proto
  | .expression e => d.lowerExpression resident wrapper e

/-- Lowers statements into one unit, up to the first failure. The wrapper of the statement at a
place is named for the place; the first one here is at `index`. -/
def lowerFrom (d : Draft) (resident : String → Bool) (index : Nat) :
    List (Except Failure Statement) → Except Failure Draft
  | [] => .ok d
  | .error e :: _ => .error e
  | .ok s :: rest =>
    match d.lower resident (wrapperName index) s with
    | (.error e, _) => .error e
    | (.ok _, d) => d.lowerFrom resident (index + 1) rest

def lowerAll (d : Draft) (resident : String → Bool) (statements : List (Except Failure Statement)) :
    Except Failure Draft :=
  d.lowerFrom resident 0 statements

end Draft
end NumericJit
