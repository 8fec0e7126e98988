import NumericJit.Expr
import NumericJit.Machine
import NumericJit.NameTable

/-!
# What expressions mean

Expressions are evaluated on their trees, from left to right, with variables that can be assigned
to. Calls are answered from outside. A loop that goes round more often than its fuel allows is
given up as unfinished; what lacks a variable, an operator or a target to assign to is stuck.
-/

namespace NumericJit

abbrev Variables := NameTable Number

structure EvalState (W : Type) where
  vars : Variables
  world : W

/-- Evaluation; when it stops without a value, what it did to the world stays done. -/
abbrev Eval (W : Type) := ExceptT Halt (StateM (EvalState W))

namespace Eval

variable {W : Type}

def read (name : String) : Eval W Number := do
  match (← get).vars.get? name with
  | some x => pure x
  | none => throw .stuck

def assign (name : String) (x : Number) : Eval W Unit := do
  let _ ← read name
  modify fun s => { s with vars := s.vars.set name x }

def bind (name : String) (x : Number) : Eval W (Option Number) :=
  modifyGet fun s => (s.vars.get? name, { s with vars := s.vars.set name x })

def restore (name : String) (prior : Option Number) : Eval W Unit :=
  modify fun s => { s with vars := s.vars.restore name prior }

def answer (call : String → List Number → W → CallResult W) (callee : String)
    (args : List Number) : Eval W Number :=
  fun s => let (result, world) := call callee args s.world; (result, { s with world })

def repeatWhile (round : Eval W Bool) : Nat → Eval W Unit
  | 0 => throw .unfinished
  | fuel + 1 => do
    if ← round then repeatWhile round fuel else pure ()

end Eval

/-- What an operator other than assignment makes of its operands. A comparison is one unless the
opposite one holds, so it is one when an operand is no number. -/
def operator? (op : Char) (x y : Number) : Option Number :=
  match op with
  | '+' => some (x.add y)
  | '-' => some (x.sub y)
  | '*' => some (x.mul y)
  | '<' => some (.ofBool !(x.ge y))
  | '>' => some (.ofBool !(y.ge x))
  | _ => none

variable {W : Type}

mutual
def Expr.eval (call : String → List Number → W → CallResult W) (fuel : Nat) : Expr → Eval W Number
  | .number value _ => pure value
  | .variable name _ => Eval.read name
  | .binary op lhs rhs _ =>
    if op = '=' then
      match lhs with
      | .variable name _ => do
        let x ← Expr.eval call fuel rhs
        Eval.assign name x
        pure x
      | _ => throw .stuck
    else do
      let x ← Expr.eval call fuel lhs
      let y ← Expr.eval call fuel rhs
      match operator? op x y with
      | some v => pure v
      | none => throw .stuck
  | .call callee args _ => do
    let values ← Expr.evalArgs call fuel args
    Eval.answer call callee values
  | .branch condition yes no _ => do
    let c ← Expr.eval call fuel condition
    if c.isTrue then Expr.eval call fuel yes else Expr.eval call fuel no
  | .loop counter start stop step body _ => do
    let first ← Expr.eval call fuel start
    let growth ← Expr.evalStep call fuel step
    let prior ← Eval.bind counter first
    let round : Eval W Bool := do
      let _ ← Expr.eval call fuel body
      let grown := (← Eval.read counter).add growth
      Eval.assign counter grown
      let last ← Expr.eval call fuel stop
      pure !(grown.ge last)
    Eval.repeatWhile round fuel
    Eval.restore counter prior
    pure .zero
  | .locals bindings body _ => Expr.evalLocals call fuel bindings (Expr.eval call fuel body)

def Expr.evalArgs (call : String → List Number → W → CallResult W) (fuel : Nat) :
    List Expr → Eval W (List Number)
  | [] => pure []
  | e :: es => do
    let x ← Expr.eval call fuel e
    let xs ← Expr.evalArgs call fuel es
    pure (x :: xs)

def Expr.evalStep (call : String → List Number → W → CallResult W) (fuel : Nat) :
    Option Expr → Eval W Number
  | none => pure .one
  | some e => Expr.eval call fuel e

def Expr.evalLocal (call : String → List Number → W → CallResult W) (fuel : Nat) :
    String × Option Expr → Eval W Number
  | (_, none) => pure .zero
  | (_, some e) => Expr.eval call fuel e

/-- Binds variables one after the other, each after its initial value was computed, evaluates what
they are visible in, and restores what their names stood for before, the last one first. -/
def Expr.evalLocals (call : String → List Number → W → CallResult W) (fuel : Nat) :
    List (String × Option Expr) → Eval W Number → Eval W Number
  | [], inner => inner
  | b :: rest, inner => do
    let x ← Expr.evalLocal call fuel b
    let prior ← Eval.bind b.1 x
    let y ← Expr.evalLocals call fuel rest inner
    Eval.restore b.1 prior
    pure y
end

def Variables.ofParams (params : List String) (args : List Number) : Variables :=
  (params.zip args).foldl (fun (vars : Variables) (name, x) => vars.set name x) {}

def Expr.asFunction (call : String → List Number → W → CallResult W) (fuel : Nat) (body : Expr)
    (params : List String) (args : List Number) (w : W) : CallResult W :=
  let (result, s) := (body.eval call fuel).run { vars := .ofParams params args, world := w }
  (result, s.world)

end NumericJit
