import NumericJit.Meaning.Requirements
import NumericJit.Proofs.Lowering.Code
import NumericJit.Proofs.Meaning.Scoping

/-!
# How lowering an expression comes out

The check of an expression goes through its requirements in order and stops at the first that is not
met (`Expr.check_eq_verdict`), so that is what lowering fails with
(`lowering_fails_at_first_violation`). If all are met, lowering only adds to the code, and all
names are bound as they were before (`lowering_restores_bindings`).
-/

namespace NumericJit

-- ---------------------------------------------------------------------------
-- Failures
-- ---------------------------------------------------------------------------

section
variable {arityOf : String → Except Cause Nat}

def verdict (arityOf : String → Except Cause Nat) (rs : List Requirement) : Except Failure Unit :=
  match rs.findSome? (·.violation? arityOf) with
  | none => .ok ()
  | some failure => .error failure

theorem verdict_append (rs rs' : List Requirement) :
    verdict arityOf (rs ++ rs') = (verdict arityOf rs >>= fun _ => verdict arityOf rs') := by
  unfold verdict
  rw [List.findSome?_append]
  cases rs.findSome? (·.violation? arityOf) <;> rfl

theorem verdict_cons (r : Requirement) (rs : List Requirement) :
    verdict arityOf (r :: rs) = (verdict arityOf [r] >>= fun _ => verdict arityOf rs) :=
  verdict_append [r] rs

theorem verdict_met (h : need.unmet? arityOf = none) (span : Span) :
    verdict arityOf [⟨need, span⟩] = .ok () := by
  simp [verdict, Requirement.violation?, h]

theorem verdict_unmet (h : need.unmet? arityOf = some cause) (span : Span) :
    verdict arityOf [⟨need, span⟩] = .error { cause, span } := by
  simp [verdict, Requirement.violation?, h]

theorem verdict_ite {p : Prop} [Decidable p]
    (h : need.unmet? arityOf = if p then none else some cause) (span : Span) :
    verdict arityOf [⟨need, span⟩] = if p then .ok () else .error { cause, span } := by
  by_cases hp : p
  · rw [if_pos hp, verdict_met (h.trans (if_pos hp))]
  · rw [if_neg hp, verdict_unmet (h.trans (if_neg hp))]

theorem verdict_inScope (scope : List String) (name : String) (span : Span) :
    verdict arityOf [⟨.inScope scope name, span⟩] = inScope scope name span :=
  verdict_ite rfl span

theorem verdict_ok {rs : List Requirement} :
    verdict arityOf rs = .ok () ↔ ∀ r ∈ rs, r.violation? arityOf = none := by
  rw [← List.findSome?_eq_none_iff, verdict]
  cases rs.findSome? (·.violation? arityOf) <;> simp

theorem verdict_error {rs : List Requirement} {failure : Failure} :
    verdict arityOf rs = .error failure ↔ rs.findSome? (·.violation? arityOf) = some failure := by
  rw [verdict]
  cases rs.findSome? (·.violation? arityOf) <;> simp

theorem Expr.checkArgs_eq_verdict
    (ih : ∀ e ∈ args, ∀ names, e.check arityOf names = verdict arityOf (e.requirements names))
    (names : List String) :
    Expr.checkArgs arityOf names args = verdict arityOf (Expr.argRequirements names args) := by
  induction args with
  | nil => rfl
  | cons e es ihes =>
    rw [Expr.checkArgs, Expr.argRequirements, verdict_append, ih e List.mem_cons_self,
      ihes fun e he => ih e (List.mem_cons_of_mem _ he)]

theorem Expr.checkStep_eq_verdict
    (ih : ∀ e ∈ step, ∀ names, e.check arityOf names = verdict arityOf (e.requirements names))
    (names : List String) :
    Expr.checkStep arityOf names step = verdict arityOf (Expr.stepRequirements names step) := by
  cases step with
  | none => rfl
  | some e => exact ih e rfl names

theorem Expr.checkLocal_eq_verdict
    (ih : ∀ e ∈ b.2, ∀ names, e.check arityOf names = verdict arityOf (e.requirements names))
    (names : List String) :
    Expr.checkLocal arityOf names b = verdict arityOf (Expr.initialRequirements names b) := by
  obtain ⟨name, value⟩ := b
  cases value with
  | none => rfl
  | some e => exact ih e rfl names

theorem Expr.checkLocals_eq_verdict
    (ih : ∀ b ∈ bindings, ∀ e ∈ b.2, ∀ names,
      e.check arityOf names = verdict arityOf (e.requirements names)) (names : List String) :
    Expr.checkLocals arityOf names bindings =
      (verdict arityOf (Expr.localRequirements names bindings) >>=
        fun _ => .ok (localScope names bindings)) := by
  induction bindings generalizing names with
  | nil => rfl
  | cons b rest ihrest =>
    have hscope : localScope names (b :: rest) = localScope (b.1 :: names) rest := by
      simp [localScope]
    rw [Expr.checkLocals, Expr.localRequirements, verdict_append, bind_assoc, hscope,
      Expr.checkLocal_eq_verdict (ih b List.mem_cons_self),
      ihrest fun b hb => ih b (List.mem_cons_of_mem _ hb)]

theorem Expr.check_eq_verdict (e : Expr) (names : List String) :
    e.check arityOf names = verdict arityOf (e.requirements names) := by
  induction e generalizing names with
  | number value span => rfl
  | var name span => exact (verdict_inScope names name span).symm
  | binary op lhs rhs span ihl ihr =>
    by_cases hassign : op = '='
    · subst hassign
      rw [Expr.requirements, if_pos rfl, verdict_cons, verdict_append]
      cases lhs with
      | «variable» name target =>
        rw [Expr.targetRequirements, verdict_inScope, ← ihr]
        rfl
      | _ => rfl
    · rw [Expr.requirements, if_neg hassign, verdict_append, verdict_append, ← ihl, ← ihr,
        bind_assoc]
      simp only [Expr.check, if_neg hassign]
      exact bind_congr fun _ => bind_congr fun _ => (verdict_ite rfl span).symm
  | call callee args span ih =>
    rw [Expr.requirements, verdict_cons, verdict_append, ← Expr.checkArgs_eq_verdict ih, Expr.check]
    cases harity : arityOf callee with
    | error cause =>
      have hcallee : (Need.callable callee).unmet? arityOf = some cause := by
        rw [Need.unmet?, harity]
      rw [verdict_unmet hcallee]
      rfl
    | ok arity =>
      have hcallee : (Need.callable callee).unmet? arityOf = none := by rw [Need.unmet?, harity]
      rw [verdict_met hcallee]
      exact bind_congr fun _ => (verdict_ite (by rw [Need.unmet?, harity]) span).symm
  | branch condition yes no span ihc ihy ihn =>
    rw [Expr.requirements, verdict_append, verdict_append, ← ihc, ← ihy, ← ihn, bind_assoc,
      Expr.check]
  | loop counter start stop step body span ihstart ihstop ihstep ihbody =>
    rw [Expr.requirements, verdict_append, verdict_append, verdict_append, ← ihstart,
      ← Expr.checkStep_eq_verdict ihstep, ← ihbody, ← ihstop, bind_assoc, bind_assoc, Expr.check]
  | locals bindings body span ihlocals ihbody =>
    rw [Expr.requirements, verdict_append, Expr.check, Expr.checkLocals_eq_verdict ihlocals,
      bind_assoc, ← ihbody]
    rfl

end

theorem Yields.fst_eq {m : Lower Unit} {Q : Unit → LowerState → Prop}
    {said : Except Failure Unit} (h : Yields around m s said Q) : (m.run s).1 = said := by
  cases said with
  | ok _ =>
    obtain ⟨_, s', hrun, -⟩ := h
    rw [hrun]
  | error failure =>
    obtain ⟨s', hrun, -⟩ := h
    rw [hrun]

/-- Whatever state lowering begins in, it comes to what the check says. -/
theorem expression_result (around : Surroundings) (e : Expr) (s : LowerState) :
    ((Lower.expression around e).run s).1 =
      e.check (arityIn around s.builder.name s.builder.arity s.unit)
        (s.scope.entries.map Prod.fst) :=
  (expression_yields around e ⟨rfl, rfl, rfl⟩ (SlotMap.names_get? s.scope)).fst_eq

theorem exists_lowered {around : Surroundings} {e : Expr} {s : LowerState}
    (h : e.check (arityIn around s.builder.name s.builder.arity s.unit)
      (s.scope.entries.map Prod.fst) = .ok ()) :
    ∃ s', (Lower.expression around e).run s = (.ok (), s') :=
  ⟨_, Prod.ext ((expression_result around e s).trans h) rfl⟩

/-- Lowering succeeds exactly on well-formed expressions, which are those whose requirements are all
met. Otherwise it fails with the first requirement that is not met. -/
theorem lowering_fails_at_first_violation (around : Surroundings) (e : Expr) (s : LowerState) :
    let arityOf := arityIn around s.builder.name s.builder.arity s.unit
    let names := s.scope.entries.map Prod.fst
    let result := ((Lower.expression around e).run s).1
    (result = .ok () ↔ e.Formed arityOf names) ∧
      (result = .ok () ↔ ∀ r ∈ e.requirements names, r.violation? arityOf = none) ∧
      ∀ failure, result = .error failure ↔ ∃ before r behind,
        e.requirements names = before ++ r :: behind ∧ r.violation? arityOf = some failure ∧
          ∀ earlier ∈ before, earlier.violation? arityOf = none := by
  intro arityOf names result
  have hresult : result = e.check arityOf names := expression_result around e s
  refine ⟨?_, ?_, fun failure => ?_⟩
  · rw [hresult, Expr.formed_iff_check]
  · rw [hresult, Expr.check_eq_verdict, verdict_ok]
  · rw [hresult, Expr.check_eq_verdict, verdict_error, List.findSome?_eq_some_iff]

/-- The calls `h(g(x), x)` and `h(g(x), g(x, x))`, where `g` is a function of the unit and `h` one
from outside that the unit has declared. Neither is resident. -/
theorem lowering_fails_at_second_call :
    let around : Surroundings := ⟨fun _ => false, {}⟩
    let unit : CodeUnit :=
      { id := 0, externals := [("h", 2)],
        functions := [{ name := "g", params := ["a"], slots := 1, body := [.load 0] }] }
    let s : LowerState := ⟨.start "f" ["x"], ⟨[("x", 0)]⟩, unit⟩
    let x : Expr := .variable "x" {}
    let place : Span := ⟨⟨0, 8⟩, ⟨0, 15⟩⟩
    let formed : Expr := .call "h" [.call "g" [x] {}, x] {}
    let excessive : Expr := .call "h" [.call "g" [x] {}, .call "g" [x, x] place] {}
    let failure : Failure := { cause := .wrongArgumentCount "g" 1 2, span := place }
    formed.Formed (arityIn around "f" 1 unit) ["x"] ∧
      ((Lower.expression around formed).run s).1 = .ok () ∧
      ((Lower.expression around excessive).run s).1 = .error failure := by
  intro around unit s x place formed excessive failure
  have hformed : formed.check (arityIn around "f" 1 unit) ["x"] = .ok () := rfl
  have hok := (expression_result around formed s).trans hformed
  obtain ⟨hiff, -⟩ := lowering_fails_at_first_violation around formed s
  obtain ⟨-, -, hfails⟩ := lowering_fails_at_first_violation around excessive s
  refine ⟨hiff.mp hok, hok, (hfails failure).mpr ?_⟩
  have hrequired : excessive.requirements ["x"] =
      [⟨.callable "h", {}⟩, ⟨.callable "g", {}⟩, ⟨.inScope ["x"] "x", {}⟩, ⟨.takes "g" 1, {}⟩,
        ⟨.callable "g", place⟩, ⟨.inScope ["x"] "x", {}⟩, ⟨.inScope ["x"] "x", {}⟩] ++
        ⟨.takes "g" 2, place⟩ :: [⟨.takes "h" 2, {}⟩] := rfl
  refine ⟨_, _, _, hrequired, rfl, ?_⟩
  simp only [List.forall_mem_cons]
  exact ⟨rfl, rfl, rfl, rfl, rfl, rfl, rfl, fun _ h => absurd h List.not_mem_nil⟩

-- ---------------------------------------------------------------------------
-- Successes
-- ---------------------------------------------------------------------------

/-- A function under construction has grown at the end of its innermost region, and nowhere else. -/
structure Builder.Grows (b b' : Builder) : Prop where
  name : b'.name = b.name
  params : b'.params = b.params
  enclosing : b'.enclosing = b.enclosing
  code : b.code <+: b'.code
  slots : b.slots ≤ b'.slots

theorem Emitted.grows (h : Emitted around s code made callees s') :
    s.builder.Grows s'.builder := by
  rw [h.builder]
  exact ⟨rfl, rfl, rfl, List.prefix_append _ _, Nat.le_add_right _ _⟩

/-- Lowering that succeeds leaves every name bound to the slot that it was bound to, or unbound, and
all open regions as they were but for the end of the innermost one. -/
theorem lowering_restores_bindings {around : Surroundings} {e : Expr} {s s' : LowerState}
    (h : (Lower.expression around e).run s = (.ok (), s')) :
    (∀ name, s'.scope.get? name = s.scope.get? name) ∧ s.builder.Grows s'.builder := by
  have hyields := expression_yields around e (s := s) ⟨rfl, rfl, rfl⟩ (SlotMap.names_get? s.scope)
  rw [← hyields.fst_eq, h] at hyields
  obtain ⟨_, s₁, hrun, hemitted⟩ := hyields
  obtain rfl : s₁ = s' := congrArg Prod.snd (hrun.symm.trans h)
  exact ⟨congrFun hemitted.scope, hemitted.grows⟩

/-- The expression `for x = x, x < i, (var i = x, i = i in i) in
(var x = i, x = x + i, y in for i = y, i < x in x = i)`, in a loop inside a branch. -/
theorem lowering_restores_shadowed_bindings :
    let around : Surroundings := ⟨fun _ => false, {}⟩
    let v (name : String) : Expr := .variable name {}
    let inner : Expr := .loop "i" (v "y") (.binary '<' (v "i") (v "x") {}) none
      (.binary '=' (v "x") (v "i") {}) {}
    let body : Expr :=
      .locals [("x", v "i"), ("x", some (.binary '+' (v "x") (v "i") {})), ("y", none)] inner {}
    let step : Expr := .locals [("i", v "x"), ("i", v "i")] (v "i") {}
    let e : Expr := .loop "x" (v "x") (.binary '<' (v "x") (v "i") {}) step body {}
    let builder : Builder :=
      { name := "f", params := ["x"], slots := 3, code := [.load 2],
        enclosing := [(.loop, [.const .one]), (.no [.drop], [.load 0])] }
    let s : LowerState := ⟨builder, ⟨[("i", 2), ("x", 0)]⟩, { id := 0 }⟩
    ∃ s', (Lower.expression around e).run s = (.ok (), s') ∧
      (∀ name, s'.scope.get? name = s.scope.get? name) ∧ builder.Grows s'.builder := by
  intro around v inner body step e builder s
  have hcheck : e.check (arityIn around "f" 1 { id := 0 }) ["i", "x"] = .ok () := by cbv
  obtain ⟨s', hrun⟩ := exists_lowered (s := s) hcheck
  exact ⟨s', hrun, lowering_restores_bindings hrun⟩

end NumericJit
