import NumericJit.Proofs.Lowering.Code
import NumericJit.Proofs.Meaning.Scoping
import NumericJit.Wasm.Assembly

/-!
# What lowering a statement does

A function is lowered exactly when its body passes the check in the scope of its parameters, and is
then the function of its tree (`SlotFunction.ofTree`). A statement changes the unit in one of three
ways, whether or not it is lowered (`Draft.lower_grows`): it has callees declared, it declares a
function from outside, or it has callees declared and adds a well-formed function. When it cannot
be lowered, the cause lies in the statement and not in the unit under construction
(`Draft.lower_cause`). So every unit keeps its names apart and its functions well formed
(`CodeUnit.Sound`).
-/

namespace NumericJit

theorem toString_injective {m n : Nat} (h : toString m = toString n) : m = n := by
  rw [Nat.toString_eq_ofList_toDigits, Nat.toString_eq_ofList_toDigits, String.ofList_inj] at h
  rw [← Nat.ofDigitChars_ten_toDigits (n := m), h, Nat.ofDigitChars_ten_toDigits]

theorem wrapperName_injective (h : wrapperName m = wrapperName n) : m = n :=
  toString_injective ((String.append_right_inj "__anon_expr_").mp h)

-- ---------------------------------------------------------------------------
-- Functions
-- ---------------------------------------------------------------------------

theorem run_bindParams (slot : Nat) (params : List String) (s : LowerState) :
    ∃ scope : Scope, (Lower.bindParams slot params).run s = (.ok (), { s with scope }) ∧
      scope.get? = SlotMap.bindFrom s.scope.get? slot params := by
  induction params generalizing slot s with
  | nil => exact ⟨s.scope, rfl, rfl⟩
  | cons name rest ih =>
    obtain ⟨scope, hrun, hget⟩ := ih (slot + 1) { s with scope := s.scope.set name slot }
    refine ⟨scope, (run_bind_ok (Lower.run_bindName name slot s) _).trans hrun, ?_⟩
    have hset : (s.scope.set name slot).get? = SlotMap.bind s.scope.get? name slot := by
      funext other
      exact NameTable.get?_set s.scope name other slot
    rw [hget, hset]
    rfl

theorem function_yields (around : Surroundings) (name : String) (params : List String)
    (body : Expr) (u : CodeUnit) :
    Yields around (Lower.function around body)
      { builder := .start name params, scope := {}, unit := u }
      (body.check (arityIn around name params.length u) params) fun f s' =>
      f = .ofTree name params body ∧ s'.unit = u.useAll around name body.callees := by
  obtain ⟨scope, hbind, hget⟩ :=
    run_bindParams 0 params { builder := .start name params, scope := {}, unit := u }
  unfold Lower.function
  refine .step (run_get _) (.refl around _) (.step hbind ⟨rfl, rfl, [], rfl⟩ ?_)
  rw [← bind_pure (Expr.check _ params body)]
  refine Yields.bind (expression_yields around body ⟨hget, rfl, rfl⟩
    (SlotMap.names_ofParams params)) fun _ _ s' h => ⟨h.uses, ?_⟩
  have hfinish : s'.builder.finish = .ok (.ofTree name params body) := by
    rw [h.builder]
    rfl
  refine .step (run_get s') (.refl around s') ?_
  rw [hfinish]
  exact .ok rfl ⟨rfl, h.unit⟩

def CodeUnit.withTree (u : CodeUnit) (name : String) (params : List String) (body : Expr) :
    CodeUnit :=
  { u with functions := u.functions ++ [.ofTree name params body] }

namespace Draft

variable {d : Draft} {resident : String → Bool} {name : String} {params : List String} {body : Expr}

theorem addFunction_ok (hnew : d.unit.arity? name = none)
    (h : body.check (arityIn ⟨resident, d.arities⟩ name params.length d.unit) params = .ok ()) :
    ∃ scope, d.addFunction resident name params body = (.ok (), { d with
      scope
      unit :=
        (d.unit.useAll ⟨resident, d.arities⟩ name body.callees).withTree name params body }) := by
  have hy := function_yields ⟨resident, d.arities⟩ name params body d.unit
  rw [h] at hy
  obtain ⟨f, s, hrun, rfl, hunit⟩ := hy
  refine ⟨s.scope, ?_⟩
  have hadd : s.unit.add (.ofTree name params body) =
      .ok (s.unit.withTree name params body) := by
    refine CodeUnit.add_new ?_
    rw [hunit]
    exact CodeUnit.arity?_useAll_own hnew
  simp only [addFunction]
  rw [hrun]
  simp only
  rw [hadd, hunit]

theorem addFunction_error
    (h : body.check (arityIn ⟨resident, d.arities⟩ name params.length d.unit) params = .error e) :
    ∃ scope callees, d.addFunction resident name params body = (.error e, { d with
      scope, unit := d.unit.useAll ⟨resident, d.arities⟩ name callees }) := by
  have hy := function_yields ⟨resident, d.arities⟩ name params body d.unit
  rw [h] at hy
  obtain ⟨s, hrun, -, -, callees, hunit⟩ := hy
  refine ⟨s.scope, callees, ?_⟩
  simp only [addFunction]
  rw [hrun]
  simp only
  rw [hunit]
  rfl

end Draft

-- ---------------------------------------------------------------------------
-- Statements
-- ---------------------------------------------------------------------------

inductive CodeUnit.Grows (u : CodeUnit) : CodeUnit → Prop where
  | uses (around : Surroundings) (own : String) (callees : List String) :
    Grows u (u.useAll around own callees)
  | declares (hnew : u.arity? name = none) (arity : Nat) :
    Grows u { u with externals := u.externals ++ [(name, arity)] }
  | adds (around : Surroundings) (hnew : u.arity? name = none)
    (h : body.Formed (arityIn around name params.length u) params) :
    Grows u ((u.useAll around name body.callees).withTree name params body)

def Cause.isConstruction : Cause → Bool
  | .noOpenRegion _ => true
  | .wrongRegion _ _ _ => true
  | .unclosedRegions _ _ => true
  | .conflictingArity _ _ _ _ => true
  | .alreadyDeclared _ _ => true
  | _ => false

theorem arityIn_error (h : arityIn around own arity u callee = .error cause) :
    cause = .unknownFunction callee ∨ cause = .arityUnrecorded callee := by
  unfold arityIn at h
  split at h
  · cases h
  · split at h
    · cases h
    · split at h
      · cases h
        exact .inl rfl
      · split at h <;> cases h
        exact .inr rfl

theorem isConstruction_of_check {failure : Failure}
    (h : Expr.check (arityIn around own arity u) names body = .error failure) :
    failure.cause.isConstruction = false := by
  have hv := Expr.violation_of_check h
  generalize failure.cause = cause at hv
  cases hv with
  | callee _ hc => rcases arityIn_error hc with hc | hc <;> rw [hc] <;> rfl
  | _ => rfl

namespace Draft

theorem isTaken_eq_false {d : Draft} (h : d.isTaken resident name = false) :
    d.unit.arity? name = none ∧ resident name = false := by
  simpa [isTaken] using h

theorem addFunction_grows (d : Draft) (resident : String → Bool) (params : List String)
    (body : Expr) (hnew : d.unit.arity? name = none) :
    d.unit.Grows (d.addFunction resident name params body).2.unit := by
  cases h : body.check (arityIn ⟨resident, d.arities⟩ name params.length d.unit) params with
  | ok _ =>
    obtain ⟨scope, hadd⟩ := addFunction_ok hnew h
    rw [hadd]
    exact .adds ⟨resident, d.arities⟩ hnew (Expr.formed_of_check h)
  | error e =>
    obtain ⟨scope, callees, hadd⟩ := addFunction_error h
    rw [hadd]
    exact .uses ⟨resident, d.arities⟩ name callees

theorem addFunction_cause {d : Draft} (hnew : d.unit.arity? name = none)
    (h : (d.addFunction resident name params body).1 = .error e) :
    e.cause.isConstruction = false := by
  cases hc : body.check (arityIn ⟨resident, d.arities⟩ name params.length d.unit) params with
  | ok _ =>
    obtain ⟨scope, hadd⟩ := addFunction_ok hnew hc
    rw [hadd] at h
    cases h
  | error e' =>
    obtain ⟨scope, callees, hadd⟩ := addFunction_error hc
    rw [hadd] at h
    cases h
    exact isConstruction_of_check hc

section
variable {d : Draft} {resident : String → Bool} {proto : Prototype}

/-- A declaration of a function that the unit knows changes nothing in the unit. -/
theorem lowerDeclaration_known (h : d.unit.arity? proto.name = some known) :
    d.lowerDeclaration resident proto =
      if known = proto.arity then
        (.ok (.declaration proto.name), d.record proto.name proto.arity)
      else
        (.error { cause := .wrongParameterCount proto.name known proto.arity,
                  span := proto.span }, d) := by
  by_cases heq : known = proto.arity
  · subst heq
    have hunit : (d.record proto.name proto.arity).unit = d.unit := rfl
    simp only [lowerDeclaration, declaredArity, h, Option.all_some, beq_self_eq_true, if_true,
      hunit, CodeUnit.declare_known h]
    split <;> rfl
  · simp [lowerDeclaration, declaredArity, h, heq]

theorem lowerDeclaration_unmatched (h : d.unit.arity? proto.name = none)
    (hr : resident proto.name = false) :
    d.lowerDeclaration resident proto =
      (.error { cause := .unmatchedDeclaration proto.name, span := proto.span }, d) := by
  simp [lowerDeclaration, declaredArity, h, hr]

theorem lowerDeclaration_resident (h : d.unit.arity? proto.name = none)
    (hr : resident proto.name = true) :
    d.lowerDeclaration resident proto =
      if (d.arities.get? proto.name).all (· == proto.arity) then
        (.ok (.declaration proto.name), { d.record proto.name proto.arity with
          unit := { d.unit with externals := d.unit.externals ++ [(proto.name, proto.arity)] } })
      else
        (.error { cause := .wrongParameterCount proto.name
                    ((d.arities.get? proto.name).getD 0) proto.arity,
                  span := proto.span }, d) := by
  have hunit : (d.record proto.name proto.arity).unit = d.unit := rfl
  have hdefines : d.unit.defines proto.name = false := by
    unfold CodeUnit.arity? at h
    unfold CodeUnit.defines
    cases hf : d.unit.function? proto.name with
    | some f => simp [hf] at h
    | none => rfl
  simp [lowerDeclaration, declaredArity, h, hr, hunit, hdefines, CodeUnit.declare_new h]

end

/-- However a statement is lowered, the unit grows in one of three ways. -/
theorem lower_grows (d : Draft) (resident : String → Bool) (wrapper : String)
    (statement : Statement) : d.unit.Grows (d.lower resident wrapper statement).2.unit := by
  have hsame : d.unit.Grows d.unit := .uses ⟨resident, d.arities⟩ "" []
  cases statement with
  | definition proto body =>
    simp only [lower, lowerDefinition]
    split
    · exact hsame
    · rename_i htaken
      obtain ⟨hnew, -⟩ := isTaken_eq_false (Bool.not_eq_true _ ▸ htaken)
      exact addFunction_grows (d.record proto.name proto.arity) resident proto.params body hnew
  | declaration proto =>
    simp only [lower]
    cases hk : d.unit.arity? proto.name with
    | some known =>
      rw [lowerDeclaration_known hk]
      split <;> exact hsame
    | none =>
      cases hr : resident proto.name with
      | false =>
        rw [lowerDeclaration_unmatched hk hr]
        exact hsame
      | true =>
        rw [lowerDeclaration_resident hk hr]
        split
        · exact .declares hk proto.arity
        · exact hsame
  | expression e =>
    simp only [lower, lowerExpression]
    split
    · exact hsame
    · rename_i htaken
      obtain ⟨hnew, -⟩ := isTaken_eq_false (Bool.not_eq_true _ ▸ htaken)
      exact addFunction_grows d resident [] e hnew

theorem lower_cause {d : Draft} (h : (d.lower resident wrapper statement).1 = .error e) :
    e.cause.isConstruction = false := by
  cases statement with
  | definition proto body =>
    simp only [lower, lowerDefinition] at h
    split at h
    · cases h
      rfl
    · rename_i htaken
      obtain ⟨hnew, -⟩ := isTaken_eq_false (Bool.not_eq_true _ ▸ htaken)
      cases hr : ((d.record proto.name proto.arity).addFunction resident proto.name proto.params
          body).1 with
      | ok _ =>
        simp only [hr] at h
        cases h
      | error e' =>
        simp only [hr] at h
        cases h
        exact addFunction_cause (d := d.record proto.name proto.arity) hnew hr
  | declaration proto =>
    simp only [lower] at h
    cases hk : d.unit.arity? proto.name with
    | some known =>
      rw [lowerDeclaration_known hk] at h
      split at h <;> cases h
      rfl
    | none =>
      cases hr : resident proto.name with
      | false =>
        rw [lowerDeclaration_unmatched hk hr] at h
        cases h
        rfl
      | true =>
        rw [lowerDeclaration_resident hk hr] at h
        split at h <;> cases h
        rfl
  | expression e' =>
    simp only [lower, lowerExpression] at h
    split at h
    · cases h
      rfl
    · rename_i htaken
      obtain ⟨hnew, -⟩ := isTaken_eq_false (Bool.not_eq_true _ ▸ htaken)
      cases hr : (d.addFunction resident wrapper [] e').1 with
      | ok _ =>
        simp only [hr] at h
        cases h
      | error e'' =>
        simp only [hr] at h
        cases h
        exact addFunction_cause hnew hr

end Draft

-- ---------------------------------------------------------------------------
-- Units
-- ---------------------------------------------------------------------------

namespace CodeUnit

theorem arity?_eq_none {u : CodeUnit} :
    u.arity? name = none ↔ name ∉ u.callables.map Prod.fst := by
  simp only [arity?, function?, callables]
  cases hf : u.functions.find? fun f => f.name == name with
  | some f =>
    have hmem := List.mem_of_find?_eq_some hf
    have hname : f.name = name := by simpa using List.find?_some hf
    simp only [reduceCtorEq, List.map_append, List.mem_append, not_or, false_iff, not_and]
    intro _ habsent
    exact habsent (by simpa using ⟨f, hmem, hname⟩)
  | none =>
    have hfun : ∀ f ∈ u.functions, f.name ≠ name := by simpa using hf
    simp only [List.map_append, List.mem_append, not_or]
    have hnone : name ∉ (u.functions.map fun f => (f.name, f.arity)).map Prod.fst := by
      simpa using hfun
    rw [and_iff_left hnone, List.lookup_eq_none_iff]
    simp only [List.mem_map, not_exists, not_and, bne_iff_ne]
    exact forall_congr' fun p => imp_congr_right fun _ => ne_comm

theorem mem_callables {u : CodeUnit} (h : u.arity? name = some arity) :
    (name, arity) ∈ u.callables := by
  simp only [arity?, function?, callables] at h ⊢
  cases hf : u.functions.find? fun f => f.name == name with
  | some f =>
    rw [hf] at h
    cases h
    have hname : f.name = name := by simpa using List.find?_some hf
    exact List.mem_append_right _
      (List.mem_map.mpr ⟨f, List.mem_of_find?_eq_some hf, by rw [hname]⟩)
  | none =>
    rw [hf] at h
    refine List.mem_append_left _ ?_
    rw [List.lookup_eq_some_iff] at h
    obtain ⟨l₁, l₂, heq, -⟩ := h
    simp [heq]

section
variable {u : CodeUnit}

theorem names_declare (h : (u.callables.map Prod.fst).Nodup) (hnew : u.arity? name = none)
    (arity : Nat) :
    ((CodeUnit.callables { u with externals := u.externals ++ [(name, arity)] }).map
      Prod.fst).Nodup := by
  have habsent := arity?_eq_none.mp hnew
  simp only [callables, List.map_append, List.mem_append, not_or, List.nodup_append] at *
  obtain ⟨hext, hfun, hdistinct⟩ := h
  simp only [List.map_cons, List.map_nil]
  grind

theorem names_add (h : (u.callables.map Prod.fst).Nodup) (hnew : u.arity? f.name = none) :
    ((CodeUnit.callables { u with functions := u.functions ++ [f] }).map Prod.fst).Nodup := by
  have habsent := arity?_eq_none.mp hnew
  simp only [callables, List.map_append, List.map_cons, List.map_nil] at *
  rw [← List.append_assoc, List.nodup_append]
  refine ⟨h, by simp, fun a ha b hb => ?_⟩
  rw [List.mem_singleton] at hb
  rintro rfl
  exact habsent (hb ▸ ha)

end

def arityOf (u : CodeUnit) (callee : String) : Except Cause Nat :=
  match u.arity? callee with
  | some arity => .ok arity
  | none => .error (.unknownFunction callee)

/-- What holds of every unit that statements are lowered into: its names are distinct, and its
functions are those of well-formed trees. -/
structure Sound (u : CodeUnit) : Prop where
  names : (u.callables.map Prod.fst).Nodup
  functions : ∀ f ∈ u.functions,
    ∃ body, f = .ofTree f.name f.params body ∧ body.Formed u.arityOf f.params

theorem sound_empty (id : Nat) : ({ id } : CodeUnit).Sound := ⟨by simp [callables], by simp⟩

section
variable {u v : CodeUnit} {around : Surroundings} {params : List String} {body : Expr}

theorem arityOf_eq_ok : u.arityOf c = .ok k ↔ u.arity? c = some k := by
  unfold arityOf
  cases u.arity? c <;> simp

theorem formed_mono (h : body.Formed u.arityOf params)
    (hle : ∀ c k, u.arity? c = some k → v.arity? c = some k) : body.Formed v.arityOf params := by
  refine Expr.formed_of_check (Expr.check_mono h.check fun c _ k hk => ?_)
  exact arityOf_eq_ok.mpr (hle c k (arityOf_eq_ok.mp hk))

theorem Sound.functions_mono (h : u.Sound)
    (hle : ∀ c k, u.arity? c = some k → v.arity? c = some k) :
    ∀ f ∈ u.functions,
      ∃ body, f = .ofTree f.name f.params body ∧ body.Formed v.arityOf f.params := by
  intro f hf
  obtain ⟨body, hbody, hformed⟩ := h.functions f hf
  exact ⟨body, hbody, formed_mono hformed hle⟩

theorem Sound.declare (h : u.Sound) (hnew : u.arity? name = none) (arity : Nat) :
    ({ u with externals := u.externals ++ [(name, arity)] } : CodeUnit).Sound where
  names := names_declare h.names hnew arity
  functions := by
    refine h.functions_mono fun c k hk => ?_
    rw [arity?_external hnew, if_neg]
    · exact hk
    · rintro rfl
      rw [hnew] at hk
      cases hk

theorem Sound.useAll (h : u.Sound) (own : String) (callees : List String) :
    (u.useAll around own callees).Sound := by
  refine useAll_induction around own callees (fun v callee _ hv => ?_) h
  rcases use_cases around own v callee with he | ⟨arity, -, hnew, -, -, he⟩
  · rw [he]
    exact hv
  · rw [he]
    exact hv.declare hnew arity

/-- What a function calls is known to the unit once its body was lowered, itself apart. -/
theorem arity?_useAll_callee (hc : c ∈ callees) (hown : c ≠ own)
    (h : arityIn around own arity u c = .ok k) :
    (u.useAll around own callees).arity? c = some k := by
  obtain ⟨before, after, rfl⟩ := List.append_of_mem hc
  have hstep : u.useAll around own (before ++ c :: after) =
      ((u.useAll around own before).use around own c).useAll around own after :=
    useAll_append around own u before (c :: after)
  have hin : arityIn around own arity (u.useAll around own before) c = .ok k := by
    rw [arityIn_useAll]
    exact h
  rw [hstep]
  exact arity?_useAll (arity?_use_callee hown hin)

theorem arity?_withTree (h : u.arity? name = none) (params : List String) (body : Expr)
    (other : String) :
    (u.withTree name params body).arity? other =
      if other = name then some params.length else u.arity? other :=
  arity?_function (f := .ofTree name params body) h other

theorem arity?_withTree_mono (h : u.arity? name = none) (hc : u.arity? c = some k) :
    (u.withTree name params body).arity? c = some k := by
  rw [arity?_withTree h, if_neg]
  · exact hc
  · rintro rfl
    rw [h] at hc
    cases hc

theorem formed_withTree (hnew : u.arity? name = none)
    (hbody : body.Formed (arityIn around name params.length u) params) :
    body.Formed ((u.useAll around name body.callees).withTree name params body).arityOf params := by
  have hnew' : (u.useAll around name body.callees).arity? name = none := arity?_useAll_own hnew
  refine Expr.formed_of_check (Expr.check_mono hbody.check fun c hc k hk => arityOf_eq_ok.mpr ?_)
  rw [arity?_withTree hnew']
  split
  · rename_i hown
    rw [arityIn, if_pos hown] at hk
    exact congrArg some (Except.ok.inj hk)
  · rename_i hown
    exact arity?_useAll_callee hc hown hk

theorem Sound.add (h : u.Sound) (hnew : u.arity? name = none)
    (hbody : body.Formed (arityIn around name params.length u) params) :
    ((u.useAll around name body.callees).withTree name params body).Sound := by
  have hused : (u.useAll around name body.callees).Sound := h.useAll name body.callees
  have hnew' : (u.useAll around name body.callees).arity? name = none := arity?_useAll_own hnew
  have hformed := formed_withTree hnew hbody
  generalize u.useAll around name body.callees = v at hused hnew' hformed
  refine ⟨names_add (f := .ofTree name params body) hused.names hnew', fun f hf => ?_⟩
  rcases List.mem_append.mp hf with hf | hf
  · exact hused.functions_mono (fun c k hk => arity?_withTree_mono hnew' hk) f hf
  · rw [List.mem_singleton] at hf
    subst hf
    exact ⟨body, rfl, hformed⟩

theorem Sound.grow (h : u.Sound) (hg : u.Grows v) : v.Sound := by
  cases hg with
  | uses around own callees => exact h.useAll own callees
  | declares hnew arity => exact h.declare hnew arity
  | adds around hnew hbody => exact h.add hnew hbody

end

end CodeUnit
end NumericJit
