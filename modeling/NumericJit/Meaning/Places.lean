import NumericJit.Failure.Diagnostic
import NumericJit.Statement.Cursor

/-!
# Places

Tokens, trees and failures say where they stand in a text. A relocation changes the places and
nothing else. With every place taken away, it can be said that two texts have the same statements,
or that two failures are the same but for where they occurred.
-/

namespace NumericJit

/-- A change of spans that goes well with joining them. -/
structure Relocation where
  span : Span → Span
  default_eq : span {} = {}
  to_eq : ∀ a b, span (a.to b) = (span a).to (span b)

namespace Relocation

def identity : Relocation := ⟨id, rfl, fun _ _ => rfl⟩

def erase : Relocation := ⟨fun _ => {}, rfl, fun _ _ => rfl⟩

end Relocation

def Token.relocate (m : Relocation) (t : Token) : Token := ⟨t.kind, m.span t.span⟩

mutual
def Expr.relocate (m : Relocation) : Expr → Expr
  | .number value span => .number value (m.span span)
  | .variable name span => .variable name (m.span span)
  | .binary op lhs rhs span => .binary op (lhs.relocate m) (rhs.relocate m) (m.span span)
  | .call callee args span => .call callee (Expr.relocateArgs m args) (m.span span)
  | .branch condition yes no span =>
    .branch (condition.relocate m) (yes.relocate m) (no.relocate m) (m.span span)
  | .loop counter start stop step body span =>
    .loop counter (start.relocate m) (stop.relocate m) (Expr.relocateStep m step) (body.relocate m)
      (m.span span)
  | .locals bindings body span =>
    .locals (Expr.relocateBindings m bindings) (body.relocate m) (m.span span)

def Expr.relocateArgs (m : Relocation) : List Expr → List Expr
  | [] => []
  | e :: es => e.relocate m :: Expr.relocateArgs m es

def Expr.relocateStep (m : Relocation) : Option Expr → Option Expr
  | none => none
  | some e => some (e.relocate m)

def Expr.relocateBinding (m : Relocation) : String × Option Expr → String × Option Expr
  | (name, none) => (name, none)
  | (name, some e) => (name, some (e.relocate m))

def Expr.relocateBindings (m : Relocation) :
    List (String × Option Expr) → List (String × Option Expr)
  | [] => []
  | b :: bs => Expr.relocateBinding m b :: Expr.relocateBindings m bs
end

def Prototype.relocate (m : Relocation) (p : Prototype) : Prototype :=
  { p with span := m.span p.span }

def Statement.relocate (m : Relocation) : Statement → Statement
  | .definition proto body => .definition (proto.relocate m) (body.relocate m)
  | .declaration proto => .declaration (proto.relocate m)
  | .expression e => .expression (e.relocate m)

def Cause.relocate (m : Relocation) : Cause → Cause
  | .invalidTarget target => .invalidTarget (target.relocate m)
  | other => other

def Failure.relocate (m : Relocation) (f : Failure) : Failure := ⟨f.cause.relocate m, m.span f.span⟩

def relocated (m : Relocation) : Except Failure Statement → Except Failure Statement
  | .ok s => .ok (s.relocate m)
  | .error f => .error (f.relocate m)

def unplaced : Except Failure Statement → Except Failure Statement := relocated .erase

def Failure.wording (f : Failure) : Diagnostic := { f.diagnostic with span := {} }

def worded (r : Except Failure α) : Except Diagnostic α := r.mapError Failure.wording

end NumericJit
