import NumericJit.Meaning.Code
import NumericJit.Meaning.Scoping
import NumericJit.Proofs.Lowering.Callables

/-!
# Lowering gives the code of an expression

Lowering is `Expr.code` with effects around it: `expression_yields` says that lowering succeeds
exactly when the expression passes `Expr.check`, fails with the same failure otherwise, and on
success has put this code at the end of the innermost region, made as many slots as the expression
needs, left every name bound as it was, and declared the callees that had to be declared.
-/

namespace NumericJit

namespace SlotMap

@[simp] theorem bind_self (scope : SlotMap) (name : String) (slot : Nat) :
    scope.bind name slot name = some slot := by
  simp [bind]

theorem bind_of_ne (scope : SlotMap) (slot : Nat) (h : other ≠ name) :
    scope.bind name slot other = scope other := by
  simp [bind, h]

def Names (scope : SlotMap) (names : List String) : Prop :=
  ∀ name, name ∈ names ↔ (scope name).isSome

theorem Names.bind {scope : SlotMap} (h : scope.Names names) (name : String) (slot : Nat) :
    (scope.bind name slot).Names (name :: names) := by
  intro other
  by_cases ho : other = name
  · simp [ho]
  · rw [bind_of_ne scope slot ho, List.mem_cons, h other]
    simp [ho]

theorem Names.bindFrom {scope : SlotMap} (h : scope.Names names) (slot : Nat)
    (params : List String) (hm : ∀ name, name ∈ all ↔ name ∈ params ∨ name ∈ names) :
    (scope.bindFrom slot params).Names all := by
  induction params generalizing scope names slot with
  | nil =>
    intro name
    rw [hm name]
    simpa [SlotMap.bindFrom] using h name
  | cons p rest ih =>
    refine ih (h.bind p slot) (slot + 1) fun name => ?_
    rw [hm name, List.mem_cons, List.mem_cons, or_assoc]
    exact or_left_comm

theorem names_ofParams (params : List String) : (ofParams params).Names params := by
  have h : Names (fun _ => none) [] := by simp [Names]
  exact h.bindFrom 0 params (by simp)

theorem names_get? (scope : Scope) : Names scope.get? (scope.entries.map Prod.fst) := by
  obtain ⟨entries⟩ := scope
  intro name
  simp only [NameTable.get?]
  induction entries with
  | nil => simp
  | cons entry rest ih =>
    by_cases h : name = entry.1
    · simp [h]
    · simp [h, ih]

end SlotMap

-- ---------------------------------------------------------------------------
-- What a run of lowering has done
-- ---------------------------------------------------------------------------

/-- What holds of every run, also of one that failed: the function under construction keeps its
name and parameters, and the unit has only been asked for callees. -/
structure Uses (around : Surroundings) (s s' : LowerState) : Prop where
  name : s'.builder.name = s.builder.name
  params : s'.builder.params = s.builder.params
  unit : ∃ callees, s'.unit = s.unit.useAll around s.builder.name callees

structure Emitted (around : Surroundings) (s : LowerState) (code : Code) (made : Nat)
    (callees : List String) (s' : LowerState) : Prop where
  builder : s'.builder =
    { s.builder with code := s.builder.code ++ code, slots := s.builder.slots + made }
  scope : s'.scope.get? = s.scope.get?
  unit : s'.unit = s.unit.useAll around s.builder.name callees

section
variable {around : Surroundings} {s s₁ s₂ : LowerState}

theorem Uses.refl (around : Surroundings) (s : LowerState) : Uses around s s := ⟨rfl, rfl, [], rfl⟩

theorem Uses.trans (h₁ : Uses around s s₁) (h₂ : Uses around s₁ s₂) : Uses around s s₂ := by
  obtain ⟨l₁, hl₁⟩ := h₁.unit
  obtain ⟨l₂, hl₂⟩ := h₂.unit
  refine ⟨h₂.name.trans h₁.name, h₂.params.trans h₁.params, l₁ ++ l₂, ?_⟩
  rw [hl₂, hl₁, h₁.name, CodeUnit.useAll_append]

theorem Emitted.uses (h : Emitted around s code made callees s₁) : Uses around s s₁ :=
  ⟨by rw [h.builder], by rw [h.builder], callees, h.unit⟩

theorem Emitted.trans (h₁ : Emitted around s c₁ k₁ l₁ s₁) (h₂ : Emitted around s₁ c₂ k₂ l₂ s₂) :
    Emitted around s (c₁ ++ c₂) (k₁ + k₂) (l₁ ++ l₂) s₂ where
  builder := by
    rw [h₂.builder, h₁.builder]
    simp [Nat.add_assoc]
  scope := h₂.scope.trans h₁.scope
  unit := by rw [h₂.unit, h₁.unit, h₁.builder, CodeUnit.useAll_append]

theorem Emitted.emit (i : Instr) :
    Emitted around s [i] 0 [] { s with builder := s.builder.emit i } := ⟨rfl, rfl, rfl⟩

theorem Emitted.newSlot :
    Emitted around s [] 1 [] { s with builder := s.builder.newSlot.2 } :=
  ⟨by simp [Builder.newSlot], rfl, rfl⟩

/-- What lowering finds when it begins: the slots of the variables in scope, the number of slots
in use, and the arity of every name that can be called. -/
structure LowerState.At (around : Surroundings) (s : LowerState) (scope : SlotMap) (slots : Nat)
    (arityOf : String → Except Cause Nat) : Prop where
  scope : s.scope.get? = scope
  slots : s.builder.slots = slots
  arityOf : arityIn around s.builder.name s.builder.arity s.unit = arityOf

theorem LowerState.At.after {scope : SlotMap} {arityOf : String → Except Cause Nat}
    (h : s.At around scope n arityOf) (hl : Emitted around s code made callees s₁) :
    s₁.At around scope (n + made) arityOf where
  scope := hl.scope.trans h.scope
  slots := by rw [hl.builder, ← h.slots]
  arityOf := by
    rw [hl.unit, hl.builder, ← h.arityOf]
    exact arityIn_useAll around _ _ _ callees

theorem LowerState.At.bind {scope : SlotMap} {arityOf : String → Except Cause Nat}
    (h : s.At around scope n arityOf) (name : String) (slot : Nat) :
    ({ s with scope := s.scope.set name slot } : LowerState).At around (scope.bind name slot) n
      arityOf where
  scope := by
    funext other
    rw [NameTable.get?_set, h.scope]
    rfl
  slots := h.slots
  arityOf := h.arityOf

theorem LowerState.At.openRegion {scope : SlotMap} {arityOf : String → Except Cause Nat}
    (h : s.At around scope n arityOf) (kind : RegionKind) :
    ({ s with builder := s.builder.openRegion kind } : LowerState).At around scope n arityOf :=
  ⟨h.scope, h.slots, h.arityOf⟩

/-- Restoring a name takes back that it was bound. -/
theorem Emitted.restored
    (h : Emitted around { s with scope := s.scope.set name slot } code made callees s₁) :
    Emitted around s code made callees
      { s₁ with scope := s₁.scope.restore name (s.scope.get? name) } where
  builder := h.builder
  scope := by
    funext other
    rw [NameTable.get?_restore, h.scope, NameTable.get?_set]
    split <;> simp_all
  unit := h.unit

theorem Emitted.endLoop
    (h : Emitted around { s with builder := s.builder.openRegion .loop } body made callees s₁) :
    (s₁.builder.endLoop).1 = .ok () ∧
      Emitted around s [.loop body] made callees { s₁ with builder := (s₁.builder.endLoop).2 } := by
  have hb := h.builder
  refine ⟨?_, ?_, h.scope, h.unit⟩ <;>
    simp [hb, Builder.endLoop, Builder.closeRegion, Builder.openRegion, Builder.emit]

theorem Emitted.beginElse
    (h : Emitted around { s with builder := s.builder.openRegion .yes } yes made callees s₁) :
    s₁.builder.beginElse = (.ok (), { s₁.builder with
      code := [], enclosing := (.no yes, s.builder.code) :: s.builder.enclosing }) := by
  simp [h.builder, Builder.beginElse, Builder.closeRegion, Builder.openRegion]

theorem Emitted.endIf
    (h₁ : Emitted around { s with builder := s.builder.openRegion .yes } yes k₁ l₁ s₁)
    (h₂ : Emitted around { s₁ with builder := { s₁.builder with
      code := [], enclosing := (.no yes, s.builder.code) :: s.builder.enclosing } } no k₂ l₂ s₂) :
    (s₂.builder.endIf).1 = .ok () ∧
      Emitted around s [.branch yes no] (k₁ + k₂) (l₁ ++ l₂)
        { s₂ with builder := (s₂.builder.endIf).2 } := by
  have hb : s₂.builder = { s.builder with
      code := no, slots := s.builder.slots + k₁ + k₂,
      enclosing := (.no yes, s.builder.code) :: s.builder.enclosing } := by
    rw [h₂.builder, h₁.builder]
    rfl
  refine ⟨?_, ?_, h₂.scope.trans h₁.scope, ?_⟩
  · simp [hb, Builder.endIf, Builder.closeRegion]
  · simp [hb, Builder.endIf, Builder.closeRegion, Builder.emit, Nat.add_assoc]
  · rw [h₂.unit, h₁.unit, h₁.builder, CodeUnit.useAll_append]
    rfl

end

-- ---------------------------------------------------------------------------
-- Runs and verdicts
-- ---------------------------------------------------------------------------

/-- A run that comes to what a check has said: a failure with the same failure, and a success with
a state of which `Q` holds. -/
def Yields (around : Surroundings) (m : Lower α) (s : LowerState) (verdict : Except Failure β)
    (Q : α → LowerState → Prop) : Prop :=
  match verdict with
  | .ok _ => ∃ a s', m.run s = (.ok a, s') ∧ Q a s'
  | .error e => ∃ s', m.run s = (.error e, s') ∧ Uses around s s'

section
variable {around : Surroundings} {s s₁ : LowerState} {verdict : Except Failure β}

theorem Yields.bind {m : Lower α} {k : α → Lower γ} {rest : β → Except Failure δ}
    {Q : α → LowerState → Prop} {R : γ → LowerState → Prop} (h : Yields around m s verdict Q)
    (hk : ∀ a b s', Q a s' → Uses around s s' ∧ Yields around (k a) s' (rest b) R) :
    Yields around (m >>= k) s (verdict >>= rest) R := by
  cases verdict with
  | error e =>
    obtain ⟨s', hrun, hu⟩ := h
    exact ⟨s', run_bind_error hrun k, hu⟩
  | ok b =>
    obtain ⟨a, s', hrun, hq⟩ := h
    obtain ⟨hu, hy⟩ := hk a b s' hq
    show Yields around (m >>= k) s (rest b) R
    unfold Yields at hy ⊢
    rw [run_bind_ok hrun k]
    split
    · rename_i hr
      rw [hr] at hy
      exact hy
    · rename_i hr
      rw [hr] at hy
      obtain ⟨s₂, hs₂, hu₂⟩ := hy
      exact ⟨s₂, hs₂, hu.trans hu₂⟩

theorem Yields.step {m : Lower α} {k : α → Lower γ} {R : γ → LowerState → Prop}
    (hm : m.run s = (.ok a, s₁)) (hu : Uses around s s₁)
    (h : Yields around (k a) s₁ verdict R) : Yields around (m >>= k) s verdict R := by
  unfold Yields at h ⊢
  rw [run_bind_ok hm k]
  split
  · exact h
  · obtain ⟨s₂, hs₂, hu₂⟩ := h
    exact ⟨s₂, hs₂, hu.trans hu₂⟩

theorem Yields.step_ok {m : Lower α} {k : α → Lower γ} {R : γ → LowerState → Prop}
    (hm : m.run s = (.ok a, s₁)) (h : Yields around (k a) s₁ (.ok b : Except Failure β) R) :
    Yields around (m >>= k) s (.ok b : Except Failure β) R := by
  obtain ⟨c, s₂, hk, hr⟩ := h
  exact ⟨c, s₂, (run_bind_ok hm k).trans hk, hr⟩

theorem Yields.ok {m : Lower α} {Q : α → LowerState → Prop} {b : β} (hm : m.run s = (.ok a, s₁))
    (hq : Q a s₁) : Yields around m s (.ok b) Q := ⟨a, s₁, hm, hq⟩

theorem Yields.error {m : Lower α} {Q : α → LowerState → Prop} (hm : m.run s = (.error e, s)) :
    Yields around m s (.error e : Except Failure β) Q := ⟨s, hm, .refl around s⟩

theorem Yields.mono {m : Lower α} {Q R : α → LowerState → Prop} (h : Yields around m s verdict Q)
    (hqr : ∀ a s', Q a s' → R a s') : Yields around m s verdict R := by
  unfold Yields at h ⊢
  split
  · obtain ⟨a, s', hm, hq⟩ := h
    exact ⟨a, s', hm, hqr a s' hq⟩
  · exact h

end

-- ---------------------------------------------------------------------------
-- The steps of lowering
-- ---------------------------------------------------------------------------

namespace Lower

theorem run_emit (i : Instr) (s : LowerState) :
    (emit i).run s = (.ok (), { s with builder := s.builder.emit i }) := rfl

theorem run_newSlot (s : LowerState) :
    newSlot.run s = (.ok s.builder.slots, { s with builder := s.builder.newSlot.2 }) := rfl

theorem run_build (step : Builder → Except Failure Unit × Builder) (s : LowerState) :
    (build step).run s = ((step s.builder).1, { s with builder := (step s.builder).2 }) := rfl

theorem run_bindName (name : String) (slot : Nat) (s : LowerState) :
    (Lower.bind name slot).run s =
      (.ok (s.scope.get? name), { s with scope := s.scope.set name slot }) := rfl

theorem run_restore (name : String) (prior : Option Nat) (s : LowerState) :
    (restore name prior).run s = (.ok (), { s with scope := s.scope.restore name prior }) := rfl

theorem run_lookup (name : String) (span : Span) (s : LowerState) :
    (lookup name span).run s = match s.scope.get? name with
      | some slot => (.ok slot, s)
      | none => (.error { cause := .unknownVariable name, span }, s) := by
  simp only [lookup, run_bind, run_get]
  cases s.scope.get? name <;> rfl

theorem run_emitAll (around : Surroundings) (code : Code) (s : LowerState) :
    ∃ s', (emitAll code).run s = (.ok (), s') ∧ Emitted around s code 0 [] s' := by
  induction code generalizing s with
  | nil => exact ⟨s, rfl, by simp, rfl, rfl⟩
  | cons i rest ih =>
    obtain ⟨s', hrun, he⟩ := ih { s with builder := s.builder.emit i }
    exact ⟨s', (run_bind_ok (run_emit i s) _).trans hrun, (Emitted.emit i).trans he⟩

theorem run_declare_new {s : LowerState} (h : s.unit.arity? name = none) (arity : Nat) :
    (Lower.declare name arity).run s =
      (.ok (), { s with
        unit := { s.unit with externals := s.unit.externals ++ [(name, arity)] } }) := by
  simp [Lower.declare, ExceptT.run, CodeUnit.declare_new h]

theorem run_resolve (around : Surroundings) (callee : String) (span : Span) (s : LowerState) :
    (resolve around callee span).run s =
      match arityIn around s.builder.name s.builder.arity s.unit callee with
      | .ok arity =>
        (.ok arity, { s with unit := s.unit.use around s.builder.name callee })
      | .error cause => (.error { cause, span }, s) := by
  simp only [resolve, run_bind, run_get, arityIn, CodeUnit.use]
  by_cases hown : callee = s.builder.name
  · simp [hown]
  · cases hk : s.unit.arity? callee with
    | some arity => simp [hown]
    | none =>
      cases hr : around.resident callee with
      | false => simp [hown, fail]
      | true =>
        cases ha : around.arities.get? callee with
        | none => simp [hown, fail]
        | some arity =>
          simp only [hown, if_false, Bool.not_true, Bool.false_eq_true, Option.isSome_none, or_false,
            reduceCtorEq]
          exact run_bind_ok (run_declare_new hk arity) fun _ => pure arity

end Lower

section
variable {around : Surroundings} {s : LowerState} {verdict : Except Failure β}
  {R : γ → LowerState → Prop}

theorem Yields.emit {k : Unit → Lower γ}
    (h : ∀ s', Emitted around s [i] 0 [] s' → Yields around (k ()) s' verdict R) :
    Yields around (Lower.emit i >>= k) s verdict R :=
  .step (Lower.run_emit i s) (Emitted.emit i).uses (h _ (Emitted.emit i))

theorem Yields.emit_last {Q : Unit → LowerState → Prop}
    (h : ∀ s', Emitted around s [i] 0 [] s' → Q () s') :
    Yields around (Lower.emit i) s (.ok b : Except Failure β) Q :=
  .ok (Lower.run_emit i s) (h _ (Emitted.emit i))

theorem Yields.newSlot {k : Nat → Lower γ} (hslots : s.builder.slots = slot)
    (h : ∀ s', Emitted around s [] 1 [] s' → Yields around (k slot) s' verdict R) :
    Yields around (Lower.newSlot >>= k) s verdict R := by
  subst hslots
  exact .step (Lower.run_newSlot s) Emitted.newSlot.uses (h _ Emitted.newSlot)

end

-- ---------------------------------------------------------------------------
-- Lowering expressions
-- ---------------------------------------------------------------------------

def LowersAs (around : Surroundings) (e : Expr) : Prop :=
  ∀ {s : LowerState} {scope : SlotMap} {n : Nat} {arityOf : String → Except Cause Nat}
    {names : List String}, s.At around scope n arityOf → scope.Names names →
    Yields around (Lower.expression around e) s (e.check arityOf names) fun _ s' =>
      Emitted around s (e.code scope n) e.slotCount e.callees s'

section
variable {around : Surroundings}

theorem lookup_yields {s : LowerState} {scope : SlotMap} (h : s.scope.get? = scope)
    (hn : scope.Names names) (name : String) (span : Span) :
    Yields around (Lower.lookup name span) s (inScope names name span) fun slot s' =>
      slot = (scope name).getD 0 ∧ s' = s := by
  have hrun := Lower.run_lookup name span s
  rw [h] at hrun
  have hname := hn name
  unfold inScope
  cases hs : scope name with
  | some slot =>
    simp only [hs] at hrun hname
    rw [if_pos (hname.mpr rfl)]
    exact .ok hrun ⟨rfl, rfl⟩
  | none =>
    simp only [hs] at hrun hname
    rw [if_neg (by simpa using hname)]
    exact .error hrun

theorem arguments_yields (ih : ∀ e ∈ args, LowersAs around e) {s : LowerState} {scope : SlotMap}
    (hs : s.At around scope n arityOf) (hn : scope.Names names) :
    Yields around (Lower.arguments around args) s (Expr.checkArgs arityOf names args) fun _ s' =>
      Emitted around s (Expr.argCode scope n args) (Expr.argSlots args) (Expr.argCallees args)
        s' := by
  induction args generalizing s n with
  | nil => exact .ok rfl ⟨by simp [Expr.argCode, Expr.argSlots], rfl, rfl⟩
  | cons e es ihes =>
    simp only [Lower.arguments, Expr.checkArgs]
    refine Yields.bind (ih e (by simp) hs hn) fun _ _ s₁ h₁ => ⟨h₁.uses, ?_⟩
    exact (ihes (fun e he => ih e (by simp [he])) (hs.after h₁)).mono fun _ s₂ h₂ => h₁.trans h₂

theorem stepSize_yields (ih : ∀ e ∈ step, LowersAs around e) {s : LowerState} {scope : SlotMap}
    (hs : s.At around scope n arityOf) (hn : scope.Names names) :
    Yields around (Lower.stepSize around step) s (Expr.checkStep arityOf names step) fun i s' =>
      i = Expr.stepInstr n step ∧
        Emitted around s (Expr.stepCode scope n step) (Expr.stepSlots step)
          (Expr.stepCallees step) s' := by
  cases step with
  | none => exact .ok rfl ⟨rfl, by simp [Expr.stepCode, Expr.stepSlots], rfl, rfl⟩
  | some e =>
    simp only [Lower.stepSize, Expr.checkStep]
    rw [← bind_pure (Expr.check arityOf names e)]
    refine Yields.bind (ih e (by simp) hs hn) fun _ _ s₁ h₁ => ⟨h₁.uses, ?_⟩
    refine .newSlot (hs.after h₁).slots fun s₂ h₂ => .emit fun s₃ h₃ => .ok rfl ⟨rfl, ?_⟩
    simpa [Expr.stepCode, Expr.stepSlots, Expr.stepCallees] using (h₁.trans h₂).trans h₃

theorem initialValue_yields (ih : ∀ e ∈ b.2, LowersAs around e) {s : LowerState} {scope : SlotMap}
    (hs : s.At around scope n arityOf) (hn : scope.Names names) :
    Yields around (Lower.initialValue around b) s (Expr.checkLocal arityOf names b) fun _ s' =>
      Emitted around s (Expr.initialCode scope n b) (Expr.initialSlots b)
        (Expr.initialCallees b) s' := by
  obtain ⟨name, value⟩ := b
  cases value with
  | none => exact .ok rfl (Emitted.emit _)
  | some e => exact ih e (by simp) hs hn

theorem locals_yields (ih : ∀ b ∈ bindings, ∀ e ∈ b.2, LowersAs around e)
    {inner : Lower Unit} {innerCode : SlotMap → Nat → Code} {made : Nat} {callees : List String}
    {verdict : List String → Except Failure Unit}
    (hinner : ∀ {s : LowerState} {scope : SlotMap} {n : Nat} {names : List String},
      s.At around scope n arityOf → scope.Names names →
      Yields around inner s (verdict names) fun _ s' =>
        Emitted around s (innerCode scope n) made callees s')
    {s : LowerState} {scope : SlotMap} (hs : s.At around scope n arityOf)
    (hn : scope.Names names) :
    Yields around (Lower.locals around bindings inner) s
      (Expr.checkLocals arityOf names bindings >>= verdict) fun _ s' =>
      Emitted around s (Expr.localCode scope n bindings innerCode)
        (Expr.localSlots bindings + made) (Expr.localCallees bindings ++ callees) s' := by
  induction bindings generalizing s scope n names with
  | nil =>
    simp only [Lower.locals, Expr.localCode, Expr.localSlots, Expr.localCallees, Nat.zero_add,
      List.nil_append]
    exact hinner hs hn
  | cons b rest ihrest =>
    simp only [Lower.locals, Expr.checkLocals, bind_assoc]
    refine Yields.bind (initialValue_yields (ih b (by simp)) hs hn) fun _ _ s₁ h₁ => ⟨h₁.uses, ?_⟩
    refine .newSlot (hs.after h₁).slots fun s₂ h₂ => .emit fun s₃ h₃ => ?_
    have hstore := (h₁.trans h₂).trans h₃
    refine .step (Lower.run_bindName _ _ _) ⟨rfl, rfl, [], rfl⟩ ?_
    rw [← bind_pure (Expr.checkLocals _ _ _ >>= verdict)]
    have hat := (hs.after hstore).bind b.1 (n + Expr.initialSlots b)
    refine Yields.bind (ihrest (fun b' hb' => ih b' (by simp [hb'])) hat (hn.bind _ _))
      fun _ _ s₄ h₄ => ⟨h₄.uses, .ok (Lower.run_restore _ _ _) ?_⟩
    simpa [Expr.localCode, Expr.localSlots, Expr.localCallees, Nat.add_assoc] using
      hstore.trans h₄.restored

theorem assignment_yields (ih : LowersAs around rhs) {s : LowerState} {scope : SlotMap}
    (hs : s.At around scope n arityOf) (hn : scope.Names names) (name : String) (target : Span) :
    Yields around
      (do Lower.expression around rhs
          let slot ← Lower.lookup name target
          Lower.emit (.tee slot)) s
      (do rhs.check arityOf names
          inScope names name target) fun _ s' =>
      Emitted around s (rhs.code scope n ++ [.tee ((scope name).getD 0)]) rhs.slotCount
        rhs.callees s' := by
  refine Yields.bind (ih hs hn) fun _ _ s₁ h₁ => ⟨h₁.uses, ?_⟩
  rw [← bind_pure (inScope names name target)]
  refine Yields.bind (lookup_yields (hs.after h₁).scope hn name target) ?_
  rintro slot _ s₂ ⟨rfl, rfl⟩
  refine ⟨.refl around s₂, .emit_last fun s₃ h₃ => ?_⟩
  simpa using h₁.trans h₃

/-- The left operand of `>` waits in a slot that is made between the operands. -/
theorem greater_yields (ihl : LowersAs around lhs) (ihr : LowersAs around rhs) {s : LowerState}
    {scope : SlotMap} (hs : s.At around scope n arityOf) (hn : scope.Names names) :
    Yields around
      (do Lower.expression around lhs
          let scratch ← Lower.newSlot
          Lower.emit (.store scratch)
          Lower.expression around rhs
          Lower.emit (.load scratch)
          Lower.emit .ltUnordered
          Lower.emit .boolToNumber) s
      (do lhs.check arityOf names
          rhs.check arityOf names
          .ok ()) fun _ s' =>
      Emitted around s
        (lhs.code scope n ++ .store (n + lhs.slotCount)
          :: rhs.code scope (n + lhs.slotCount + 1)
          ++ [.load (n + lhs.slotCount), .ltUnordered, .boolToNumber])
        (lhs.slotCount + 1 + rhs.slotCount) (lhs.callees ++ rhs.callees) s' := by
  refine Yields.bind (ihl hs hn) fun _ _ s₁ h₁ => ⟨h₁.uses, ?_⟩
  refine .newSlot (hs.after h₁).slots fun s₂ h₂ => .emit fun s₃ h₃ => ?_
  have hstore := (h₁.trans h₂).trans h₃
  refine Yields.bind (ihr (hs.after hstore) hn) fun _ _ s₄ h₄ => ⟨h₄.uses, ?_⟩
  refine .emit fun s₅ h₅ => .emit fun s₆ h₆ => .emit_last fun s₇ h₇ => ?_
  simpa [Nat.add_assoc] using (((hstore.trans h₄).trans h₅).trans h₆).trans h₇

theorem isOperator_iff (hne : op ≠ '>') :
    isOperator op = (Lower.operatorCode? op).isSome := by
  unfold Lower.operatorCode?
  split <;> simp_all [isOperator]

theorem arithmetic_yields (ihl : LowersAs around lhs) (ihr : LowersAs around rhs) (hne : op ≠ '>')
    (span : Span) {s : LowerState} {scope : SlotMap} (hs : s.At around scope n arityOf)
    (hn : scope.Names names) :
    Yields around
      (do Lower.expression around lhs
          Lower.expression around rhs
          match Lower.operatorCode? op with
          | some code => Lower.emitAll code
          | none => Lower.fail (.unknownOperator op) span) s
      (do lhs.check arityOf names
          rhs.check arityOf names
          if isOperator op then .ok () else .error { cause := .unknownOperator op, span }) fun _ s' =>
      Emitted around s
        (lhs.code scope n ++ rhs.code scope (n + lhs.slotCount)
          ++ (Lower.operatorCode? op).getD [])
        (lhs.slotCount + rhs.slotCount) (lhs.callees ++ rhs.callees) s' := by
  refine Yields.bind (ihl hs hn) fun _ _ s₁ h₁ => ⟨h₁.uses, ?_⟩
  refine Yields.bind (ihr (hs.after h₁) hn) fun _ _ s₂ h₂ => ⟨h₂.uses, ?_⟩
  rw [isOperator_iff hne]
  cases Lower.operatorCode? op with
  | none => exact .error rfl
  | some code =>
    obtain ⟨s₃, hrun, h₃⟩ := Lower.run_emitAll around code s₂
    refine .ok hrun ?_
    simpa using (h₁.trans h₂).trans h₃

theorem call_yields (ih : ∀ e ∈ args, LowersAs around e) (callee : String) (span : Span) :
    LowersAs around (.call callee args span) := by
  intro s scope n arityOf names hs hn
  simp only [Lower.expression, Expr.check]
  have hrun := Lower.run_resolve around callee span s
  rw [hs.arityOf] at hrun
  cases ha : arityOf callee with
  | error cause =>
    rw [ha] at hrun
    exact ⟨s, run_bind_error hrun _, .refl around s⟩
  | ok arity =>
    rw [ha] at hrun
    have h₁ : Emitted around s [] 0 [callee]
        { s with unit := s.unit.use around s.builder.name callee } := ⟨by simp, rfl, rfl⟩
    refine .step hrun h₁.uses ?_
    refine Yields.bind (arguments_yields ih (hs.after h₁) hn) fun _ _ s₂ h₂ => ⟨h₂.uses, ?_⟩
    by_cases hlen : arity = args.length
    · subst hlen
      simp only [if_true]
      refine .emit_last fun s₃ h₃ => ?_
      simpa [Expr.code, Expr.slotCount, Expr.callees] using (h₁.trans h₂).trans h₃
    · simp only [hlen, if_false]
      exact .error rfl

theorem branch_yields (ihc : LowersAs around condition) (ihy : LowersAs around yes)
    (ihn : LowersAs around no) (span : Span) :
    LowersAs around (.branch condition yes no span) := by
  intro s scope n arityOf names hs hn
  simp only [Lower.expression, Expr.check]
  refine Yields.bind (ihc hs hn) fun _ _ s₁ h₁ => ⟨h₁.uses, ?_⟩
  refine .emit fun s₂ h₂ => .step (Lower.run_build _ _) ⟨rfl, rfl, [], rfl⟩ ?_
  have hyes := (hs.after (h₁.trans h₂)).openRegion .yes
  refine Yields.bind (ihy hyes hn) fun _ _ s₃ h₃ => ⟨h₃.uses, ?_⟩
  have helse := Lower.run_build Builder.beginElse s₃
  rw [h₃.beginElse] at helse
  refine .step helse ⟨rfl, rfl, [], rfl⟩ ?_
  have hno := hyes.after h₃
  rw [← bind_pure (Expr.check arityOf names no)]
  refine Yields.bind (ihn ⟨hno.scope, hno.slots, hno.arityOf⟩ hn) fun _ _ s₄ h₄ => ⟨h₄.uses, ?_⟩
  obtain ⟨hok, h₅⟩ := h₃.endIf h₄
  have hend := Lower.run_build Builder.endIf s₄
  rw [hok] at hend
  refine .ok hend ?_
  simpa [Expr.code, Expr.slotCount, Expr.callees, Nat.add_assoc] using (h₁.trans h₂).trans h₅

/-- The inside of a loop: the body, the growth of the counter, and the test. -/
theorem round_yields (ihbody : LowersAs around body) (ihstop : LowersAs around stop)
    {s : LowerState} {scope : SlotMap} (hs : s.At around scope n arityOf) (hn : scope.Names names)
    {k : Lower γ} {R : γ → LowerState → Prop}
    (h : ∀ s', Emitted around s
        (body.code scope n ++ [.drop, .load slot, growth, .add, .tee slot]
          ++ stop.code scope (n + body.slotCount) ++ [.ltUnordered, .continueIf])
        (body.slotCount + stop.slotCount) (body.callees ++ stop.callees) s' →
      Yields around k s' (.ok () : Except Failure Unit) R) :
    Yields around
      (do Lower.expression around body
          Lower.emit .drop
          Lower.emit (.load slot)
          Lower.emit growth
          Lower.emit .add
          Lower.emit (.tee slot)
          Lower.expression around stop
          Lower.emit .ltUnordered
          Lower.emit .continueIf
          k) s
      (do body.check arityOf names
          stop.check arityOf names) R := by
  refine Yields.bind (ihbody hs hn) fun _ _ s₁ h₁ => ⟨h₁.uses, ?_⟩
  refine .emit fun s₂ h₂ => .emit fun s₃ h₃ => .emit fun s₄ h₄ => .emit fun s₅ h₅ =>
    .emit fun s₆ h₆ => ?_
  have hgrown := ((((h₁.trans h₂).trans h₃).trans h₄).trans h₅).trans h₆
  rw [← bind_pure (Expr.check arityOf names stop)]
  refine Yields.bind (ihstop (hs.after hgrown) hn) fun _ _ s₇ h₇ => ⟨h₇.uses, ?_⟩
  refine .emit fun s₈ h₈ => .emit fun s₉ h₉ => h s₉ ?_
  simpa [Nat.add_assoc] using ((hgrown.trans h₇).trans h₈).trans h₉

theorem loop_yields (ihstart : LowersAs around start) (ihstop : LowersAs around stop)
    (ihstep : ∀ e ∈ step, LowersAs around e) (ihbody : LowersAs around body) (counter : String)
    (span : Span) : LowersAs around (.loop counter start stop step body span) := by
  intro s scope n arityOf names hs hn
  simp only [Lower.expression, Expr.check]
  refine .newSlot hs.slots fun s₁ h₁ => ?_
  refine Yields.bind (ihstart (hs.after h₁) hn) fun _ _ s₂ h₂ => ⟨h₂.uses, ?_⟩
  refine .emit fun s₃ h₃ => ?_
  have hstart := (h₁.trans h₂).trans h₃
  refine Yields.bind (stepSize_yields ihstep (hs.after hstart) hn) ?_
  rintro growth _ s₄ ⟨rfl, h₄⟩
  have hstep := hstart.trans h₄
  refine ⟨h₄.uses, .step (Lower.run_build _ _) ⟨rfl, rfl, [], rfl⟩ ?_⟩
  refine .step (Lower.run_bindName _ _ _) ⟨rfl, rfl, [], rfl⟩ ?_
  have hat := ((hs.after hstep).openRegion .loop).bind counter n
  refine round_yields ihbody ihstop hat (hn.bind counter n) fun s₅ h₅ => ?_
  obtain ⟨hok, h₆⟩ := h₅.restored.endLoop
  have hend := Lower.run_build Builder.endLoop s₅
  rw [show (s₅.builder.endLoop).1 = .ok () from hok] at hend
  refine .step_ok hend (.step_ok (Lower.run_restore _ _ _) (.emit_last fun s₇ h₇ => ?_))
  simpa [Expr.code, Expr.slotCount, Expr.callees, Nat.add_assoc] using (hstep.trans h₆).trans h₇

/-- Lowering an expression succeeds exactly when the expression is well formed, with its code as
the result, and fails with its first violation otherwise. -/
theorem expression_yields (around : Surroundings) (e : Expr) : LowersAs around e := by
  induction e with
  | number value span =>
    intro s scope n arityOf names hs hn
    exact .emit_last fun s' h => h
  | var name span =>
    intro s scope n arityOf names hs hn
    simp only [Lower.expression, Expr.check]
    rw [← bind_pure (inScope names name span)]
    refine Yields.bind (lookup_yields hs.scope hn name span) ?_
    rintro slot _ s₁ ⟨rfl, rfl⟩
    exact ⟨.refl around s₁, .emit_last fun s' h => h⟩
  | binary op lhs rhs span ihl ihr =>
    intro s scope n arityOf names hs hn
    simp only [Lower.expression, Expr.check]
    by_cases hassign : op = '='
    · simp only [hassign, if_true]
      cases lhs with
      | «variable» name target =>
        refine (assignment_yields ihr hs hn name target).mono fun _ s' h => ?_
        simpa [Expr.code, Expr.slotCount, Expr.callees] using h
      | _ => exact .error rfl
    · by_cases hgreater : op = '>'
      · subst hgreater
        refine (greater_yields ihl ihr hs hn).mono fun _ s' h => ?_
        simpa [Expr.code, Expr.slotCount, Expr.callees] using h
      · simp only [hassign, hgreater, if_false]
        refine (arithmetic_yields ihl ihr hgreater span hs hn).mono fun _ s' h => ?_
        simpa [Expr.code, Expr.slotCount, Expr.callees, hassign, hgreater] using h
  | call callee args span ih => exact call_yields ih callee span
  | branch condition yes no span ihc ihy ihn => exact branch_yields ihc ihy ihn span
  | loop counter start stop step body span ihstart ihstop ihstep ihbody =>
    exact loop_yields ihstart ihstop ihstep ihbody counter span
  | locals bindings body span ihlocals ihbody =>
    intro s scope n arityOf names hs hn
    simp only [Lower.expression, Expr.check]
    refine (locals_yields ihlocals ihbody hs hn).mono fun _ s' h => ?_
    simpa [Expr.code, Expr.slotCount, Expr.callees] using h

end

end NumericJit
