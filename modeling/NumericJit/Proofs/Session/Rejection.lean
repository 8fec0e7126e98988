import NumericJit.Proofs.Session.Arities

/-!
# Rejected statements

A statement that cannot be lowered takes the open unit with it and leaves nothing else behind, but
for one thing: a rejected definition has recorded the arity of its name. Nothing reads it. Arities
are only read at names that are resident, and what becomes resident later was recorded by then, with
one exception: the wrappers of expressions are resident and never recorded. So two workbenches that
differ in recorded arities go on alike if the arities agree on the names that `Workbench.Reads`
lists (`Workbench.Alike.handleAll`), and a rejected definition leaves such a difference unless its
name is that of a wrapper to come (`rejection_unobservable`).
-/

namespace NumericJit

variable {S : Type}

-- ---------------------------------------------------------------------------
-- Which arities lowering reads
-- ---------------------------------------------------------------------------

section
variable {resident : String → Bool} {arities arities' : ArityTable}

theorem arityIn_congr (h : ∀ name, resident name = true → arities'.get? name = arities.get? name)
    (own : String) (arity : Nat) (u : CodeUnit) :
    arityIn ⟨resident, arities'⟩ own arity u = arityIn ⟨resident, arities⟩ own arity u := by
  funext callee
  simp only [arityIn]
  cases hr : resident callee with
  | true => rw [h callee hr]
  | false => rfl

theorem CodeUnit.useAll_congr
    (h : ∀ name, resident name = true → arities'.get? name = arities.get? name)
    (own : String) (u : CodeUnit) (callees : List String) :
    u.useAll ⟨resident, arities'⟩ own callees = u.useAll ⟨resident, arities⟩ own callees := by
  have huse : CodeUnit.use ⟨resident, arities'⟩ own = CodeUnit.use ⟨resident, arities⟩ own := by
    funext u callee
    simp only [CodeUnit.use]
    cases hr : resident callee with
    | true => rw [h callee hr]
    | false => simp
  rw [useAll, huse]
  rfl

end

namespace Draft

def AgreeOn (d d' : Draft) (name : String) : Prop := d'.arities.get? name = d.arities.get? name

theorem AgreeOn.record {d d' : Draft} (h : d.AgreeOn d' name) (other : String) (k : Nat) :
    (d.record other k).AgreeOn (d'.record other k) name := by
  unfold AgreeOn
  rw [get?_record, get?_record, h]

theorem agreeOn_recorded (d d' : Draft) (name : String) (k : Nat) :
    (d.record name k).AgreeOn (d'.record name k) name := by
  unfold AgreeOn
  rw [get?_record, get?_record, if_pos rfl, if_pos rfl]

/-- What one statement was lowered to in two drafts. A function that is new in the unit is the
wrapper, or its arity is recorded in both. -/
structure LoweredAlike (d d' : Draft) (wrapper : String) (r r' : Except Failure Lowered × Draft) :
    Prop where
  result : r'.1 = r.1
  agree : ∀ name, d.AgreeOn d' name → r.2.AgreeOn r'.2 name
  unit : ∀ lowered, r.1 = .ok lowered → r'.2.unit = r.2.unit
  functions : ∀ lowered, r.1 = .ok lowered → ∀ f ∈ r.2.unit.functions,
    f ∈ d.unit.functions ∨ f.name = wrapper ∨ r.2.AgreeOn r'.2 f.name

theorem addFunction_arities (d : Draft) (resident : String → Bool) (name : String)
    (params : List String) (body : Expr) :
    (d.addFunction resident name params body).2.arities = d.arities := by
  simp only [addFunction]
  split
  split
  · rfl
  · split <;> rfl

section
variable {d d' : Draft} {resident : String → Bool}

theorem addFunction_alike (hunit : d'.unit = d.unit)
    (h : ∀ name, resident name = true → d.AgreeOn d' name) (hnew : d.unit.arity? name = none)
    (params : List String) (body : Expr) :
    (d'.addFunction resident name params body).1 = (d.addFunction resident name params body).1 ∧
      ((d.addFunction resident name params body).1 = .ok () →
        (d'.addFunction resident name params body).2.unit =
            (d.addFunction resident name params body).2.unit ∧
          (d.addFunction resident name params body).2.unit.functions =
            d.unit.functions ++ [.ofTree name params body]) := by
  have hnew' : d'.unit.arity? name = none := hunit ▸ hnew
  have harity := arityIn_congr h name params.length d'.unit
  rw [hunit] at harity
  cases hcheck : body.check (arityIn ⟨resident, d.arities⟩ name params.length d.unit) params with
  | error e =>
    obtain ⟨scope, callees, hadd⟩ := addFunction_error hcheck
    rw [← harity, ← hunit] at hcheck
    obtain ⟨scope', callees', hadd'⟩ := addFunction_error hcheck
    rw [hadd, hadd']
    exact ⟨rfl, fun hok => (by cases hok)⟩
  | ok _ =>
    obtain ⟨scope, hadd⟩ := addFunction_ok hnew hcheck
    rw [← harity, ← hunit] at hcheck
    obtain ⟨scope', hadd'⟩ := addFunction_ok hnew' hcheck
    rw [hadd, hadd', CodeUnit.useAll_congr h, hunit]
    refine ⟨rfl, fun _ => ⟨rfl, ?_⟩⟩
    rw [CodeUnit.withTree, CodeUnit.functions_useAll]

theorem isTaken_congr (hunit : d'.unit = d.unit) (resident : String → Bool) (name : String) :
    d'.isTaken resident name = d.isTaken resident name := by
  rw [isTaken, isTaken, hunit]

theorem lowerDefinition_alike (hunit : d'.unit = d.unit)
    (h : ∀ name, resident name = true → d.AgreeOn d' name) (wrapper : String) (proto : Prototype)
    (body : Expr) :
    d.LoweredAlike d' wrapper (d.lowerDefinition resident proto body)
      (d'.lowerDefinition resident proto body) := by
  simp only [lowerDefinition, isTaken_congr hunit]
  split
  · exact ⟨rfl, fun _ hagree => hagree, fun _ hok => (by cases hok), fun _ hok => (by cases hok)⟩
  · rename_i htaken
    obtain ⟨hnew, -⟩ := isTaken_eq_false (Bool.not_eq_true _ ▸ htaken)
    have hrecorded : (d'.record proto.name proto.arity).unit =
        (d.record proto.name proto.arity).unit := hunit
    obtain ⟨hresult, hadded⟩ := addFunction_alike hrecorded
      (fun name hr => (h name hr).record _ _) hnew proto.params body
    have hagree : ∀ name, (d.record proto.name proto.arity).AgreeOn
        (d'.record proto.name proto.arity) name → AgreeOn
          ((d.record proto.name proto.arity).addFunction resident proto.name proto.params body).2
          ((d'.record proto.name proto.arity).addFunction resident proto.name proto.params body).2
          name := by
      intro name hname
      rw [AgreeOn, addFunction_arities, addFunction_arities]
      exact hname
    refine ⟨by rw [hresult], fun name hname => hagree name (hname.record _ _), ?_, ?_⟩
    · intro lowered hok
      obtain ⟨_, hok, -⟩ := map_ok.mp hok
      exact (hadded hok).1
    · intro lowered hok f hf
      obtain ⟨_, hok, -⟩ := map_ok.mp hok
      rw [(hadded hok).2] at hf
      rcases List.mem_append.mp hf with hf | hf
      · exact .inl hf
      · obtain rfl := List.mem_singleton.mp hf
        exact .inr (.inr (hagree _ (agreeOn_recorded _ _ _ _)))

theorem lowerDeclaration_alike (hunit : d'.unit = d.unit)
    (h : ∀ name, resident name = true → d.AgreeOn d' name) (wrapper : String) (proto : Prototype) :
    d.LoweredAlike d' wrapper (d.lowerDeclaration resident proto)
      (d'.lowerDeclaration resident proto) := by
  have hrejected : ∀ failure, d.LoweredAlike d' wrapper (.error failure, d) (.error failure, d') :=
    fun failure => ⟨rfl, fun _ hagree => hagree, fun _ hok => (by cases hok),
      fun _ hok => (by cases hok)⟩
  cases hk : d.unit.arity? proto.name with
  | some known =>
    rw [lowerDeclaration_known hk, lowerDeclaration_known (hunit ▸ hk)]
    split
    · exact ⟨rfl, fun _ hagree => hagree.record _ _, fun _ _ => hunit, fun _ _ f hf => .inl hf⟩
    · exact hrejected _
  | none =>
    cases hr : resident proto.name with
    | false =>
      rw [lowerDeclaration_unmatched hk hr, lowerDeclaration_unmatched (hunit ▸ hk) hr]
      exact hrejected _
    | true =>
      rw [lowerDeclaration_resident hk hr, lowerDeclaration_resident (hunit ▸ hk) hr,
        show d'.arities.get? proto.name = _ from h proto.name hr, hunit]
      split
      · exact ⟨rfl, fun _ hagree => hagree.record _ _, fun _ _ => rfl, fun _ _ f hf => .inl hf⟩
      · exact hrejected _

theorem lowerExpression_alike (hunit : d'.unit = d.unit)
    (h : ∀ name, resident name = true → d.AgreeOn d' name) (wrapper : String) (e : Expr) :
    d.LoweredAlike d' wrapper (d.lowerExpression resident wrapper e)
      (d'.lowerExpression resident wrapper e) := by
  simp only [lowerExpression, isTaken_congr hunit]
  split
  · exact ⟨rfl, fun _ hagree => hagree, fun _ hok => (by cases hok), fun _ hok => (by cases hok)⟩
  · rename_i htaken
    obtain ⟨hnew, -⟩ := isTaken_eq_false (Bool.not_eq_true _ ▸ htaken)
    obtain ⟨hresult, hadded⟩ := addFunction_alike hunit h hnew [] e
    refine ⟨by rw [hresult], fun name hname => ?_, fun lowered hok => ?_,
      fun lowered hok f hf => ?_⟩
    · rw [AgreeOn, addFunction_arities, addFunction_arities]
      exact hname
    · obtain ⟨_, hok, -⟩ := map_ok.mp hok
      exact (hadded hok).1
    · obtain ⟨_, hok, -⟩ := map_ok.mp hok
      rw [(hadded hok).2] at hf
      rcases List.mem_append.mp hf with hf | hf
      · exact .inl hf
      · obtain rfl := List.mem_singleton.mp hf
        exact .inr (.inl rfl)

/-- Drafts that agree on what is resident lower every statement alike. -/
theorem lower_alike (hunit : d'.unit = d.unit)
    (h : ∀ name, resident name = true → d.AgreeOn d' name) (wrapper : String)
    (statement : Statement) :
    d.LoweredAlike d' wrapper (d.lower resident wrapper statement)
      (d'.lower resident wrapper statement) := by
  cases statement with
  | definition proto body => exact lowerDefinition_alike hunit h wrapper proto body
  | declaration proto => exact lowerDeclaration_alike hunit h wrapper proto
  | expression e => exact lowerExpression_alike hunit h wrapper e

end

end Draft

-- ---------------------------------------------------------------------------
-- Workbenches that go on alike
-- ---------------------------------------------------------------------------

namespace Workbench

/-- The names whose recorded arities later statements may come to read. -/
def Reads (b : Workbench (ResidentEngine S)) (name : String) : Prop :=
  b.engine.isResident name = true ∨ (∃ f ∈ b.draft.unit.functions, f.name = name) ∨
    ∃ n, b.nextWrapper ≤ n ∧ name = wrapperName n

/-- Two workbenches differ only in arities that nothing reads, and in the scopes that statements
have left. -/
structure Alike (b b' : Workbench (ResidentEngine S)) : Prop where
  engine : b'.engine = b.engine
  unit : b'.draft.unit = b.draft.unit
  nextUnit : b'.nextUnit = b.nextUnit
  nextWrapper : b'.nextWrapper = b.nextWrapper
  showUnits : b'.showUnits = b.showUnits
  arities : ∀ name, b.Reads name → b.draft.AgreeOn b'.draft name

theorem execute_eq (b : Workbench (ResidentEngine S)) (wrapper : String) (w : World S) :
    b.execute wrapper w =
      let r := run b.draft.unit wrapper b.engine
        (if b.showUnits then w.print (listing b.draft.unit) else w)
      (r.1.map .value, { b.openUnit with engine := r.2.1 }, r.2.2) := by
  simp only [execute]

def lowering (b : Workbench (ResidentEngine S)) (statement : Statement) :
    Except Failure Lowered × Draft :=
  b.draft.lower (Engine.isResident b.engine) (wrapperName b.nextWrapper) statement

section
variable {b : Workbench (ResidentEngine S)} {statement : Statement} {draft : Draft}

theorem process_error (h : b.lowering statement = (.error e, draft)) (w : World S) :
    b.process statement w = (.error e, openUnit { b with draft }, w) := by
  rw [lowering] at h
  simp only [process, h]

theorem process_definition (h : b.lowering statement = (.ok (.definition name), draft))
    (w : World S) : b.process statement w = (.ok (.defined name), { b with draft }, w) := by
  rw [lowering] at h
  simp only [process, h]

theorem process_declaration (h : b.lowering statement = (.ok (.declaration name), draft))
    (w : World S) : b.process statement w = (.ok (.declared name), { b with draft }, w) := by
  rw [lowering] at h
  simp only [process, h]

theorem process_wrapper (h : b.lowering statement = (.ok (.wrapper name), draft)) (w : World S) :
    b.process statement w =
      execute { b with draft, nextWrapper := b.nextWrapper + 1 } name w := by
  rw [lowering] at h
  simp only [process, h]

end

end Workbench

theorem ResidentEngine.isResident_finalize {e : ResidentEngine S} {u : CodeUnit}
    (h : (Engine.finalize u e).2.isResident name = true) :
    e.isResident name = true ∨ ∃ f ∈ u.functions, f.name = name := by
  obtain ⟨failure, -, heq⟩ | ⟨-, heq⟩ := e.finalize_cases u <;> rw [heq] at h
  · exact .inl h
  · exact isResident_withUnit.mp h

namespace Workbench.Alike

variable {b b' : Workbench (ResidentEngine S)}

theorem openUnit (h : b.Alike b') {engine : ResidentEngine S}
    (hengine : ∀ name, engine.isResident name = true →
      b.engine.isResident name = true ∨ ∃ f ∈ b.draft.unit.functions, f.name = name) :
    Alike { b.openUnit with engine } { b'.openUnit with engine } where
  engine := rfl
  unit := by simp only [Workbench.openUnit, h.nextUnit]
  nextUnit := by simp only [Workbench.openUnit, h.nextUnit]
  nextWrapper := h.nextWrapper
  showUnits := h.showUnits
  arities name hname := by
    refine h.arities name ?_
    rcases hname with hresident | ⟨f, hf, -⟩ | hwrapper
    · exact (hengine name hresident).imp_right .inl
    · cases hf
    · exact .inr (.inr hwrapper)

theorem execute (h : b.Alike b') (wrapper : String) (w : World S) :
    (b'.execute wrapper w).1 = (b.execute wrapper w).1 ∧
      (b'.execute wrapper w).2.2 = (b.execute wrapper w).2.2 ∧
      Alike (b.execute wrapper w).2.1 (b'.execute wrapper w).2.1 := by
  simp only [Workbench.execute_eq, h.unit, h.engine, h.showUnits]
  refine ⟨trivial, trivial, h.openUnit fun name hname => ?_⟩
  rw [Workbench.run_engine] at hname
  exact ResidentEngine.isResident_finalize hname

theorem lowering (h : b.Alike b') (statement : Statement) :
    b.draft.LoweredAlike b'.draft (wrapperName b.nextWrapper) (b.lowering statement)
      (b'.lowering statement) := by
  rw [Workbench.lowering, Workbench.lowering, h.engine, h.nextWrapper]
  exact Draft.lower_alike h.unit (fun name hr => h.arities name (.inl hr)) _ statement

section
variable {r r' : Except Failure Lowered × Draft}

/-- A statement may be rejected in both; the units that are dropped need not be the same. -/
theorem rejected (h : b.Alike b')
    (hlower : b.draft.LoweredAlike b'.draft (wrapperName b.nextWrapper) r r') :
    Alike (Workbench.openUnit { b with draft := r.2 })
      (Workbench.openUnit { b' with draft := r'.2 }) where
  engine := h.engine
  unit := by simp only [Workbench.openUnit, h.nextUnit]
  nextUnit := by simp only [Workbench.openUnit, h.nextUnit]
  nextWrapper := h.nextWrapper
  showUnits := h.showUnits
  arities name hname := by
    refine hlower.agree name (h.arities name ?_)
    rcases hname with hresident | ⟨f, hf, -⟩ | hwrapper
    · exact .inl hresident
    · cases hf
    · exact .inr (.inr hwrapper)

theorem lowered (h : b.Alike b') {lowered : Lowered}
    (hlower : b.draft.LoweredAlike b'.draft (wrapperName b.nextWrapper) r r')
    (hok : r.1 = .ok lowered) : Alike { b with draft := r.2 } { b' with draft := r'.2 } where
  engine := h.engine
  unit := hlower.unit _ hok
  nextUnit := h.nextUnit
  nextWrapper := h.nextWrapper
  showUnits := h.showUnits
  arities name hname := by
    have hread : b.Reads name → r.2.AgreeOn r'.2 name := fun hread =>
      hlower.agree name (h.arities name hread)
    rcases hname with hresident | ⟨f, hf, rfl⟩ | hwrapper
    · exact hread (.inl hresident)
    · rcases hlower.functions _ hok f hf with hold | hwrapper | hagree
      · exact hread (.inr (.inl ⟨f, hold, rfl⟩))
      · exact hread (.inr (.inr ⟨_, Nat.le_refl _, hwrapper⟩))
      · exact hagree
    · exact hread (.inr (.inr hwrapper))

theorem countWrapper (h : b.Alike b') :
    Alike { b with nextWrapper := b.nextWrapper + 1 }
      { b' with nextWrapper := b'.nextWrapper + 1 } where
  engine := h.engine
  unit := h.unit
  nextUnit := h.nextUnit
  nextWrapper := congrArg (· + 1) h.nextWrapper
  showUnits := h.showUnits
  arities name hname := by
    refine h.arities name (hname.imp_right (.imp_right ?_))
    rintro ⟨n, hn, rfl⟩
    exact ⟨n, Nat.le_of_succ_le hn, rfl⟩

end

theorem process (h : b.Alike b') (statement : Statement) (w : World S) :
    (b'.process statement w).1 = (b.process statement w).1 ∧
      (b'.process statement w).2.2 = (b.process statement w).2.2 ∧
      Alike (b.process statement w).2.1 (b'.process statement w).2.1 := by
  have hlower := h.lowering statement
  rcases hr : b.lowering statement with ⟨result, draft⟩
  rcases hr' : b'.lowering statement with ⟨result', draft'⟩
  rw [hr, hr'] at hlower
  obtain rfl : result' = result := hlower.result
  cases result' with
  | error e =>
    rw [process_error hr, process_error hr']
    exact ⟨rfl, rfl, h.rejected hlower⟩
  | ok lowered =>
    cases lowered with
    | definition name =>
      rw [process_definition hr, process_definition hr']
      exact ⟨rfl, rfl, h.lowered hlower rfl⟩
    | declaration name =>
      rw [process_declaration hr, process_declaration hr']
      exact ⟨rfl, rfl, h.lowered hlower rfl⟩
    | wrapper name =>
      rw [process_wrapper hr, process_wrapper hr']
      exact (h.lowered hlower rfl).countWrapper.execute name w

theorem register (h : b.Alike b') (host : HostFunction S) :
    (b'.register host).1 = (b.register host).1 ∧
      Alike (b.register host).2 (b'.register host).2 := by
  cases hr : b.engine.isResident host.name with
  | true =>
    rw [Workbench.register_taken hr, Workbench.register_taken (h.engine ▸ hr)]
    exact ⟨rfl, h⟩
  | false =>
    rw [Workbench.register_new hr, Workbench.register_new (h.engine ▸ hr), h.engine]
    refine ⟨rfl, rfl, h.unit, h.nextUnit, h.nextWrapper, h.showUnits, fun name hname => ?_⟩
    rcases hname with hresident | hunit | hwrapper
    · rcases (ResidentEngine.isResident_publish _).mp hresident with rfl | hresident
      · exact Draft.agreeOn_recorded _ _ _ _
      · exact (h.arities name (.inl hresident)).record _ _
    · exact (h.arities name (.inr (.inl hunit))).record _ _
    · exact (h.arities name (.inr (.inr hwrapper))).record _ _

end Workbench.Alike

-- ---------------------------------------------------------------------------
-- Statements and host functions in any order
-- ---------------------------------------------------------------------------

inductive BenchEvent (S : Type) where
  | statement (s : Statement)
  | register (h : HostFunction S)

namespace Workbench

/-- What is said of an event, an outcome if it is a statement, and what it leaves. -/
def handle (b : Workbench (ResidentEngine S)) (w : World S) :
    BenchEvent S → Except Failure (Option Outcome) × Workbench (ResidentEngine S) × World S
  | .statement s => ((b.process s w).1.map some, (b.process s w).2)
  | .register h => ((b.register h).1.map fun _ => none, (b.register h).2, w)

def handleAll (b : Workbench (ResidentEngine S)) (w : World S) : List (BenchEvent S) →
    List (Except Failure (Option Outcome) × World S) × Workbench (ResidentEngine S) × World S
  | [] => ([], b, w)
  | event :: rest =>
    let r := b.handle w event
    let others := r.2.1.handleAll r.2.2 rest
    ((r.1, r.2.2) :: others.1, others.2)

section
variable {b b' : Workbench (ResidentEngine S)}

theorem Alike.handle (h : b.Alike b') (w : World S) (event : BenchEvent S) :
    (b'.handle w event).1 = (b.handle w event).1 ∧
      (b'.handle w event).2.2 = (b.handle w event).2.2 ∧
      Alike (b.handle w event).2.1 (b'.handle w event).2.1 := by
  cases event with
  | statement s =>
    obtain ⟨hresult, hrest⟩ := h.process s w
    exact ⟨congrArg (Except.map some) hresult, hrest⟩
  | register host =>
    obtain ⟨hresult, halike⟩ := h.register host
    exact ⟨congrArg (Except.map fun _ => none) hresult, rfl, halike⟩

/-- Nothing that is said of later events tells such workbenches apart, nor do the worlds. -/
theorem Alike.handleAll (h : b.Alike b') (w : World S) (events : List (BenchEvent S)) :
    (b'.handleAll w events).1 = (b.handleAll w events).1 := by
  induction events generalizing b b' w with
  | nil => rfl
  | cons event rest ih =>
    obtain ⟨hresult, hworld, halike⟩ := h.handle w event
    simp only [Workbench.handleAll, hresult, hworld, ih halike]

end

-- ---------------------------------------------------------------------------
-- Unit ids
-- ---------------------------------------------------------------------------

theorem handleAll_append (b : Workbench (ResidentEngine S)) (w : World S)
    (before after : List (BenchEvent S)) :
    (b.handleAll w (before ++ after)).2 =
      ((b.handleAll w before).2.1.handleAll (b.handleAll w before).2.2 after).2 := by
  induction before generalizing b w with
  | nil => rfl
  | cons event rest ih => exact ih _ _

end Workbench

theorem CodeUnit.Grows.id_eq {u v : CodeUnit} (h : u.Grows v) : v.id = u.id := by
  cases h with
  | uses around own callees => exact id_useAll
  | declares hnew arity => rfl
  | adds around hnew hformed => exact id_useAll

namespace Workbench

def Numbered (b : Workbench (ResidentEngine S)) : Prop := b.draft.unit.id < b.nextUnit

variable {b : Workbench (ResidentEngine S)}

theorem Numbered.process (h : b.Numbered) (statement : Statement) (w : World S) :
    (b.process statement w).2.1.Numbered ∧ b.nextUnit ≤ (b.process statement w).2.1.nextUnit := by
  have hid : (b.lowering statement).2.unit.id = b.draft.unit.id :=
    (b.draft.lower_grows _ _ statement).id_eq
  have hlowered : (b.lowering statement).2.unit.id < b.nextUnit := hid ▸ h
  rcases hr : b.lowering statement with ⟨result, draft⟩
  rw [hr] at hlowered
  rcases result with e | name | name | name
  · rw [process_error hr]
    exact ⟨Nat.lt_succ_self b.nextUnit, Nat.le_succ _⟩
  · rw [process_definition hr]
    exact ⟨hlowered, Nat.le_refl _⟩
  · rw [process_declaration hr]
    exact ⟨hlowered, Nat.le_refl _⟩
  · rw [process_wrapper hr, execute_eq]
    exact ⟨Nat.lt_succ_self b.nextUnit, Nat.le_succ _⟩

theorem Numbered.handleAll (h : b.Numbered) (w : World S) (events : List (BenchEvent S)) :
    (b.handleAll w events).2.1.Numbered ∧ b.nextUnit ≤ (b.handleAll w events).2.1.nextUnit := by
  induction events generalizing b w with
  | nil => exact ⟨h, Nat.le_refl _⟩
  | cons event rest ih =>
    cases event with
    | statement s =>
      obtain ⟨hnumbered, hle⟩ := h.process s w
      obtain ⟨hlast, hle'⟩ := ih hnumbered (b.process s w).2.2
      exact ⟨hlast, Nat.le_trans hle hle'⟩
    | register host => exact ih (b := (b.register host).2) h w

theorem Numbered.fresh (h : b.Numbered) (w : World S) {before events : List (BenchEvent S)}
    (hbefore : before <+: events) :
    (b.handleAll w before).2.1.draft.unit.id < (b.handleAll w events).2.1.nextUnit := by
  obtain ⟨after, rfl⟩ := hbefore
  obtain ⟨hnumbered, -⟩ := h.handleAll w before
  rw [handleAll_append]
  exact Nat.lt_of_lt_of_le hnumbered (hnumbered.handleAll _ after).2

end Workbench

-- ---------------------------------------------------------------------------
-- What a rejected statement leaves
-- ---------------------------------------------------------------------------

/-- A rejected statement has recorded an arity only for the definition that it is, of a name that is
neither resident nor known to the unit. -/
theorem Draft.recorded_of_rejected {d rejected : Draft} {failure : Failure}
    (hlower : d.lower resident wrapper statement = (.error failure, rejected))
    (hname : ¬ d.AgreeOn rejected name) :
    ∃ proto body, statement = .definition proto body ∧ proto.name = name ∧
      resident name = false ∧ rejected.unit.arity? name = none := by
  have h : (d.lower resident wrapper statement).1 = .error failure := congrArg Prod.fst hlower
  obtain rfl : (d.lower resident wrapper statement).2 = rejected := congrArg Prod.snd hlower
  cases statement with
  | definition proto body =>
    simp only [lower, lowerDefinition] at h hname ⊢
    split at h
    · rename_i htaken
      rw [if_pos htaken] at hname
      exact absurd rfl hname
    · rename_i htaken
      rw [if_neg htaken] at hname ⊢
      obtain ⟨hnew, hresident⟩ := isTaken_eq_false (Bool.not_eq_true _ ▸ htaken)
      simp only [AgreeOn, addFunction_arities] at hname
      obtain rfl : name = proto.name := by
        by_contra hne
        exact hname ((d.get?_record _ _ _).trans (if_neg hne))
      refine ⟨proto, body, rfl, rfl, hresident, ?_⟩
      cases hcheck : body.check (arityIn ⟨resident, (d.record proto.name proto.arity).arities⟩
          proto.name proto.params.length d.unit) proto.params with
      | ok _ =>
        obtain ⟨scope, hadd⟩ :=
          addFunction_ok (d := d.record proto.name proto.arity) hnew hcheck
        rw [hadd] at h
        cases h
      | error e =>
        obtain ⟨scope, callees, hadd⟩ :=
          addFunction_error (d := d.record proto.name proto.arity) hcheck
        rw [hadd]
        exact CodeUnit.arity?_useAll_own hnew
  | declaration proto =>
    refine absurd ?_ hname
    simp only [lower] at h ⊢
    cases hk : d.unit.arity? proto.name with
    | some known =>
      rw [lowerDeclaration_known hk] at h ⊢
      split at h
      · cases h
      · rename_i hne
        rw [if_neg hne]
        exact rfl
    | none =>
      cases hr : resident proto.name with
      | false =>
        rw [lowerDeclaration_unmatched hk hr]
        exact rfl
      | true =>
        rw [lowerDeclaration_resident hk hr] at h ⊢
        split at h
        · cases h
        · rename_i hne
          rw [if_neg hne]
          exact rfl
  | expression e =>
    refine absurd ?_ hname
    simp only [lower, lowerExpression]
    split
    · exact rfl
    · exact congrArg (·.get? name) (addFunction_arities _ _ _ _ _)

namespace Workbench

def withArities (b : Workbench (ResidentEngine S)) (arities : ArityTable) :
    Workbench (ResidentEngine S) :=
  { b with draft := { b.draft with arities } }

section
variable {b : Workbench (ResidentEngine S)} {failure : Failure} {draft : Draft}

theorem recorded_of_rejected (hlower : b.lowering statement = (.error failure, draft))
    (hdiffers : ¬ b.draft.AgreeOn draft name) :
    ∃ proto body, statement = .definition proto body ∧ proto.name = name ∧
      b.engine.isResident name = false ∧ draft.unit.arity? name = none := by
  exact Draft.recorded_of_rejected hlower hdiffers

/-- What a rejected statement has recorded tells nothing to later ones, if it is not the arity of a
wrapper to come. -/
theorem alike_of_rejected (hlower : b.lowering statement = (.error failure, draft))
    (hname : ∀ proto body, statement = .definition proto body → ∀ n, b.nextWrapper ≤ n →
      proto.name ≠ wrapperName n) :
    Alike (withArities (openUnit { b with draft }) b.draft.arities) (openUnit { b with draft }) where
  engine := rfl
  unit := rfl
  nextUnit := rfl
  nextWrapper := rfl
  showUnits := rfl
  arities name hread := by
    by_contra hdiffers
    obtain ⟨proto, body, hstatement, rfl, hresident, -⟩ := recorded_of_rejected hlower hdiffers
    rcases hread with hread | ⟨f, hf, -⟩ | ⟨n, hn, heq⟩
    · exact absurd hread (Bool.eq_false_iff.mp hresident)
    · cases hf
    · exact hname proto body hstatement n hn heq

end

end Workbench

/-- Whatever statements and host functions came before: a statement that cannot be lowered leaves an
empty unit with an id that no unit had, and nothing else but the arity of a name that is neither
resident nor known to the unit that was dropped. If that is not the name of a wrapper to come, no
later statements and host functions can tell, nor does the world. -/
theorem rejection_unobservable (limits : Limits) (showUnits : Bool) (w₀ : World S)
    (events : List (BenchEvent S)) (statement : Statement) (failure : Failure)
    (hfailed : ((Workbench.handleAll { engine := { limits }, showUnits } w₀ events).2.1.lowering
      statement).1 = .error failure) (w : World S) :
    let start : Workbench (ResidentEngine S) := { engine := { limits }, showUnits }
    let b := (start.handleAll w₀ events).2.1
    let b' := (b.process statement w).2.1
    (b.process statement w).1 = .error failure ∧ (b.process statement w).2.2 = w ∧
    b'.engine = b.engine ∧ b'.draft.unit = { id := b.nextUnit } ∧
    (∀ before, before <+: events →
      (start.handleAll w₀ before).2.1.draft.unit.id < b'.draft.unit.id) ∧
    b'.draft.scope = {} ∧ b'.nextWrapper = b.nextWrapper ∧
    (∀ name, b'.draft.arities.get? name ≠ b.draft.arities.get? name →
      (∃ proto body, statement = .definition proto body ∧ proto.name = name) ∧
        b.engine.isResident name = false ∧ (b.lowering statement).2.unit.arity? name = none) ∧
    ((∀ proto body, statement = .definition proto body → ∀ n, b.nextWrapper ≤ n →
        proto.name ≠ wrapperName n) →
      ∀ w later, (b'.handleAll w later).1 =
        ((b'.withArities b.draft.arities).handleAll w later).1) := by
  intro start b b'
  have hnumbered : start.Numbered := Nat.zero_lt_one
  rcases hlower : b.lowering statement with ⟨result, draft⟩
  obtain rfl : result = .error failure := (congrArg Prod.fst hlower).symm.trans hfailed
  have hprocess := Workbench.process_error hlower w
  have hb' : b' = Workbench.openUnit { b with draft } := congrArg (·.2.1) hprocess
  clear_value b'
  subst hb'
  rw [hprocess]
  refine ⟨rfl, rfl, rfl, rfl, fun before => hnumbered.fresh w₀, rfl, rfl, fun name hdiffers => ?_,
    fun hname w later => ?_⟩
  · obtain ⟨proto, body, hstatement, heq, hresident, hunit⟩ :=
      Workbench.recorded_of_rejected hlower hdiffers
    exact ⟨⟨proto, body, hstatement, heq⟩, hresident, hunit⟩
  · exact (Workbench.alike_of_rejected hlower hname).handleAll w later

/-- A definition that calls an unknown function is rejected while another one is pending. Its arity
stays recorded. -/
theorem rejection_unobservable_of_definition :
    let host : HostFunction Unit :=
      { name := "h", arity := 1, run := fun _ _ => ⟨.one, .empty, ()⟩ }
    let events : List (BenchEvent Unit) := [.register host,
      .statement (.expression (.call "h" [.number .one {}] {})),
      .statement (.definition ⟨"g", ["x"], {}⟩ (.variable "x" {}))]
    let statement : Statement := .definition ⟨"f", ["x"], {}⟩ (.call "nope" [.variable "x" {}] {})
    let start : Workbench (ResidentEngine Unit) := { engine := {} }
    let b := (start.handleAll { state := () } events).2.1
    let b' := (b.process statement { state := () }).2.1
    (∃ failure, (b.lowering statement).1 = .error failure) ∧
      b.draft.unit.id = 1 ∧ b'.draft.unit.id = 2 ∧
      b.draft.arities.get? "f" = none ∧ b'.draft.arities.get? "f" = some 1 ∧
      ∀ w later, (b'.handleAll w later).1 =
        ((b'.withArities b.draft.arities).handleAll w later).1 := by
  intro host events statement
  have hplain : IsPlain "f" := by simp [IsPlain]
  have hname : ∀ proto body, statement = .definition proto body →
      ∀ n, proto.name ≠ wrapperName n := by
    intro proto body heq n
    obtain ⟨rfl, -⟩ := Statement.definition.inj heq
    exact hplain.ne_wrapperName n
  obtain ⟨failure, hfailed⟩ : ∃ failure, ((Workbench.handleAll { engine := {} } { state := () }
      events).2.1.lowering statement).1 = .error failure := error_of_not_ok (by decide +kernel)
  refine ⟨⟨failure, hfailed⟩, by decide +kernel, by decide +kernel, by decide +kernel,
    by decide +kernel, ?_⟩
  have h := rejection_unobservable {} false { state := () } events statement failure hfailed
    { state := () }
  exact h.2.2.2.2.2.2.2.2 fun proto body heq n _ => hname proto body heq n

/-- The name of a wrapper to come is no name for a rejected definition: the wrapper is resident
later, and the arity that the definition has recorded makes it callable. -/
theorem rejection_seen_at_wrapper_name :
    let statement : Statement := .definition ⟨wrapperName 0, [], {}⟩ (.variable "nope" {})
    let later : List (BenchEvent Unit) := [.statement (.expression (.number .one {})),
      .statement (.expression (.call (wrapperName 0) [] {}))]
    let b : Workbench (ResidentEngine Unit) := { engine := {} }
    let b' := (b.process statement { state := () }).2.1
    (b.lowering statement).1.isOk = false ∧
      (b'.handleAll { state := () } later).1.map (·.1.isOk) = [true, true] ∧
      ((b'.withArities b.draft.arities).handleAll { state := () } later).1.map (·.1.isOk) =
        [true, false] := by
  decide +kernel

end NumericJit
