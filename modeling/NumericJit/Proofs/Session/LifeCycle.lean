import NumericJit.Engine.Scripted
import NumericJit.Proofs.Lowering.Draft
import NumericJit.Session.Workbench

/-!
# The life of a unit

Whatever the engine answers, a unit is opened, gathers functions, and goes to the engine once or is
abandoned. Which units an engine is given shows in an engine that keeps a record of them and is the
same otherwise (`Workbench.process_recorded`). A step either lets the open unit grow or opens a new
one, so what a whole run does follows from what the steps do (`units_live_once`).
-/

namespace NumericJit

-- ---------------------------------------------------------------------------
-- Units
-- ---------------------------------------------------------------------------

structure CodeUnit.Keeps (u v : CodeUnit) : Prop where
  id : v.id = u.id
  externals : u.externals <+: v.externals
  functions : u.functions <+: v.functions

theorem CodeUnit.externals_useAll (u : CodeUnit) (around : Surroundings) (own : String)
    (callees : List String) : u.externals <+: (u.useAll around own callees).externals := by
  refine useAll_induction (P := fun v => u.externals <+: v.externals) around own callees ?_
    (List.prefix_refl _)
  intro v callee _ hv
  obtain he | ⟨arity, -, -, -, -, he⟩ := use_cases around own v callee
  · rw [he]
    exact hv
  · rw [he]
    exact hv.trans (List.prefix_append _ _)

theorem CodeUnit.Grows.keeps {u v : CodeUnit} (h : u.Grows v) : u.Keeps v := by
  cases h with
  | uses around own callees =>
    exact ⟨id_useAll, u.externals_useAll .., functions_useAll ▸ List.prefix_refl _⟩
  | declares hnew arity => exact ⟨rfl, List.prefix_append _ _, List.prefix_refl _⟩
  | adds around hnew hformed =>
    refine ⟨id_useAll, u.externals_useAll .., ?_⟩
    rw [withTree, functions_useAll]
    exact List.prefix_append _ _

def CodeUnit.lastName? (u : CodeUnit) : Option String := u.functions.getLast?.map (·.name)

inductive Lowered.Adds (wrapper : String) : Statement → Lowered → List SlotFunction → Prop where
  | definition :
    Adds wrapper (.definition proto body) (.definition proto.name)
      [.ofTree proto.name proto.params body]
  | declaration : Adds wrapper (.declaration proto) (.declaration proto.name) []
  | expression : Adds wrapper (.expression e) (.wrapper wrapper) [.ofTree wrapper [] e]

namespace Draft

variable {d : Draft} {resident : String → Bool}

theorem functions_addFunction (hnew : d.unit.arity? name = none)
    (h : (d.addFunction resident name params body).1 = .ok r) :
    (d.addFunction resident name params body).2.unit.functions =
      d.unit.functions ++ [.ofTree name params body] := by
  cases hc : body.check (arityIn ⟨resident, d.arities⟩ name params.length d.unit) params with
  | ok _ =>
    obtain ⟨scope, hadd⟩ := addFunction_ok hnew hc
    rw [hadd]
    simp only [CodeUnit.withTree, CodeUnit.functions_useAll]
  | error e =>
    obtain ⟨scope, callees, hadd⟩ := addFunction_error hc
    rw [hadd] at h
    cases h

theorem lower_adds (h : (d.lower resident wrapper s).1 = .ok r) :
    ∃ added, Lowered.Adds wrapper s r added ∧
      (d.lower resident wrapper s).2.unit.functions = d.unit.functions ++ added := by
  cases s with
  | definition proto body =>
    simp only [lower, lowerDefinition] at h ⊢
    split at h
    next => cases h
    next htaken =>
      obtain ⟨hnew, -⟩ := isTaken_eq_false (Bool.not_eq_true _ ▸ htaken)
      obtain ⟨_, hok, rfl⟩ := map_ok.mp h
      rw [if_neg htaken]
      exact ⟨_, .definition, functions_addFunction hnew hok⟩
  | declaration proto =>
    simp only [lower] at h ⊢
    cases hknown : d.unit.arity? proto.name with
    | some known =>
      rw [lowerDeclaration_known hknown] at h ⊢
      split at h <;> cases h
      rw [if_pos ‹_›]
      exact ⟨[], .declaration, (List.append_nil _).symm⟩
    | none =>
      cases hr : resident proto.name with
      | false =>
        rw [lowerDeclaration_unmatched hknown hr] at h
        cases h
      | true =>
        rw [lowerDeclaration_resident hknown hr] at h ⊢
        split at h <;> cases h
        rw [if_pos ‹_›]
        exact ⟨[], .declaration, (List.append_nil _).symm⟩
  | expression e =>
    simp only [lower, lowerExpression] at h ⊢
    split at h
    next => cases h
    next htaken =>
      obtain ⟨hnew, -⟩ := isTaken_eq_false (Bool.not_eq_true _ ▸ htaken)
      obtain ⟨_, hok, rfl⟩ := map_ok.mp h
      rw [if_neg htaken]
      exact ⟨_, .expression, functions_addFunction hnew hok⟩

end Draft

variable {E S : Type} [Engine E S]

-- ---------------------------------------------------------------------------
-- Engines that keep a record
-- ---------------------------------------------------------------------------

structure Recording (E : Type) where
  engine : E
  received : List CodeUnit

instance : Engine (Recording E) S where
  declare h r := ((Engine.declare h r.engine).1, { r with engine := (Engine.declare h r.engine).2 })
  finalize u r :=
    ((Engine.finalize u r.engine).1, ⟨(Engine.finalize u r.engine).2, r.received ++ [u]⟩)
  address? r name := Engine.address? r.engine name
  invoke address args r w :=
    let (result, engine, w) := Engine.invoke address args r.engine w
    (result, { r with engine }, w)

namespace Workbench

def recorded (b : Workbench E) (units : List CodeUnit) : Workbench (Recording E) :=
  ⟨⟨b.engine, units⟩, b.draft, b.nextUnit, b.nextWrapper, b.showUnits⟩

/-- The units that the engine is given while a statement is processed. -/
def handed (b : Workbench E) (s : Statement) (w : World S) : List CodeUnit :=
  ((b.recorded []).process s w).2.1.engine.received

def lowered (b : Workbench E) (s : Statement) : Except Failure Lowered × Draft :=
  b.draft.lower (Engine.isResident b.engine) (wrapperName b.nextWrapper) s

theorem run_recorded (u : CodeUnit) (wrapper : String) (engine : E) (units : List CodeUnit)
    (w : World S) :
    run u wrapper (⟨engine, units⟩ : Recording E) w =
      ((run u wrapper engine w).1, ⟨(run u wrapper engine w).2.1, units ++ [u]⟩,
        (run u wrapper engine w).2.2) := by
  rcases hfinalize : Engine.finalize u engine with ⟨result, engine'⟩
  have hrecorded : Engine.finalize u (⟨engine, units⟩ : Recording E) =
      (result, ⟨engine', units ++ [u]⟩) := by
    simp only [Engine.finalize]
    rw [hfinalize]
  unfold run
  rw [hrecorded, hfinalize]
  cases result with
  | error e => rfl
  | ok _ =>
    dsimp only
    have haddress : Engine.address? (⟨engine', units ++ [u]⟩ : Recording E) wrapper =
        Engine.address? engine' wrapper := rfl
    rw [haddress]
    cases Engine.address? engine' wrapper <;> rfl

theorem process_eq (b : Workbench E) (s : Statement) (w : World S) :
    b.process s w =
      match b.lowered s with
      | (.ok (.definition name), draft) => (.ok (.defined name), { b with draft }, w)
      | (.ok (.declaration name), draft) => (.ok (.declared name), { b with draft }, w)
      | (.ok (.wrapper name), draft) =>
        { b with draft, nextWrapper := b.nextWrapper + 1 }.execute name w
      | (.error e, draft) => (.error e, openUnit { b with draft }, w) := by
  rw [process, lowered]
  rcases b.draft.lower _ _ s with ⟨_ | _ | _ | _, _⟩ <;> rfl

def handing : Except Failure Lowered × Draft → List CodeUnit
  | (.ok (.wrapper _), draft) => [draft.unit]
  | _ => []

/-- A record of the units makes no difference to anything else. -/
theorem process_recorded (b : Workbench E) (units : List CodeUnit) (s : Statement) (w : World S) :
    (b.recorded units).process s w =
      ((b.process s w).1, (b.process s w).2.1.recorded (units ++ handing (b.lowered s)),
        (b.process s w).2.2) := by
  have hlowered : (b.recorded units).lowered s = b.lowered s := rfl
  rw [process_eq, process_eq, hlowered]
  rcases b.lowered s with ⟨e | name | name | name, draft⟩
  · simp [handing, recorded, openUnit]
  · simp [handing, recorded]
  · simp [handing, recorded]
  · simp only [execute, handing, recorded, run_recorded, openUnit]
    rfl

theorem handed_eq (b : Workbench E) (s : Statement) (w : World S) :
    b.handed s w = handing (b.lowered s) := by
  rw [handed, process_recorded]
  rfl

-- ---------------------------------------------------------------------------
-- Steps
-- ---------------------------------------------------------------------------

structure Opens (b b' : Workbench E) : Prop where
  unit : b'.draft.unit = { id := b.nextUnit }
  scope : b'.draft.scope = {}
  next : b'.nextUnit = b.nextUnit + 1

structure Extends (b : Workbench E) (added : List SlotFunction) (b' : Workbench E) : Prop where
  keeps : b.draft.unit.Keeps b'.draft.unit
  functions : b'.draft.unit.functions = b.draft.unit.functions ++ added
  next : b'.nextUnit = b.nextUnit
  wrapper : b'.nextWrapper = b.nextWrapper

/-- What processing a statement can do: which units are handed over, what is answered, and the
workbench afterwards. -/
inductive Does (b : Workbench E) :
    Statement → List CodeUnit → Except Failure Outcome → Workbench E → Prop where
  | defined (h : b.Extends [.ofTree proto.name proto.params body] b') :
    Does b (.definition proto body) [] (.ok (.defined proto.name)) b'
  | declared (h : b.Extends [] b') : Does b (.declaration proto) [] (.ok (.declared proto.name)) b'
  | failed (herror : (b.lowered s).1 = .error e) (h : b.Opens b')
    (hwrapper : b'.nextWrapper = b.nextWrapper) : Does b s [] (.error e) b'
  | executed (hok : (b.lowered (.expression e)).1 = .ok r) (hid : u.id = b.draft.unit.id)
    (hfunctions :
      u.functions = b.draft.unit.functions ++ [.ofTree (wrapperName b.nextWrapper) [] e])
    (h : b.Opens b') (hwrapper : b'.nextWrapper = b.nextWrapper + 1)
    (result : Except Failure Number) :
    Does b (.expression e) [u] (result.map .value) b'

theorem process_does (b : Workbench E) (s : Statement) (w : World S) :
    b.Does s (b.handed s w) (b.process s w).1 (b.process s w).2.1 := by
  have hkeeps : b.draft.unit.Keeps (b.lowered s).2.unit := (b.draft.lower_grows _ _ s).keeps
  rw [handed_eq, process_eq]
  rcases hlowered : b.lowered s with ⟨e | r, draft⟩
  · refine .failed (by rw [hlowered]) ⟨rfl, rfl, rfl⟩ rfl
  rw [hlowered] at hkeeps
  have hok : (b.lowered s).1 = .ok r := by rw [hlowered]
  obtain ⟨added, hadds, hfunctions⟩ := Draft.lower_adds hok
  have hunit : (b.lowered s).2.unit = draft.unit := by rw [hlowered]
  rw [← lowered, hunit] at hfunctions
  cases hadds with
  | definition => exact .defined ⟨hkeeps, hfunctions, rfl, rfl⟩
  | declaration => exact .declared ⟨hkeeps, hfunctions, rfl, rfl⟩
  | expression => exact .executed hok hkeeps.id hfunctions ⟨rfl, rfl, rfl⟩ rfl _

-- ---------------------------------------------------------------------------
-- Runs
-- ---------------------------------------------------------------------------

/-- A statement to process, and what becomes of the engine, the known arities and the world before
that. -/
structure Call (E S : Type) where
  statement : Statement
  meanwhile : E × ArityTable × World S → E × ArityTable × World S := id

structure Step (E : Type) where
  before : Workbench E
  statement : Statement
  handed : List CodeUnit
  outcome : Except Failure Outcome
  after : Workbench E

/-- A value or a failure ends a unit. -/
def Step.ends (step : Step E) : Bool :=
  match step.outcome with
  | .ok (.defined _) | .ok (.declared _) => false
  | _ => true

def Step.gathers (found : List SlotFunction) (step : Step E) : List SlotFunction :=
  match step.outcome, step.statement with
  | .ok (.defined _), .definition proto body => found ++ [.ofTree proto.name proto.params body]
  | .ok (.defined _), _ | .ok (.declared _), _ => found
  | _, _ => []

/-- The functions that were defined since the last value or failure. -/
def pending (steps : List (Step E)) : List SlotFunction := steps.foldl Step.gathers []

theorem pending_concat (past : List (Step E)) (step : Step E) :
    pending (past ++ [step]) = step.gathers (pending past) := by
  simp [pending]

def within (b : Workbench E) (engine : E) (arities : ArityTable) : Workbench E :=
  { b with engine, draft := { b.draft with arities } }

def trace (b : Workbench E) (w : World S) : List (Call E S) → List (Step E)
  | [] => []
  | call :: rest =>
    let outside := call.meanwhile (b.engine, b.draft.arities, w)
    let before := b.within outside.1 outside.2.1
    let result := before.process call.statement outside.2.2
    ⟨before, call.statement, before.handed call.statement outside.2.2, result.1, result.2.1⟩ ::
      result.2.1.trace result.2.2 rest

def allHanded (steps : List (Step E)) : List CodeUnit := steps.flatMap Step.handed

theorem allHanded_concat (past : List (Step E)) (step : Step E) :
    allHanded (past ++ [step]) = allHanded past ++ step.handed := by
  simp [allHanded]

structure Step.Lawful (past : List (Step E)) (step : Step E) : Prop where
  /-- Expressions that are lowered, and nothing else, hand a unit over. -/
  lowered : step.handed ≠ [] ↔
    ∃ e, step.statement = .expression e ∧ (step.before.lowered step.statement).1.isOk = true
  /-- It is the open unit, with the functions that were defined since it was opened and a wrapper
  around the expression. -/
  handed : ∀ u ∈ step.handed, step.handed = [u] ∧ u.id = step.before.draft.unit.id ∧
    ∃ e wrapper, step.statement = .expression e ∧ u.functions = pending past ++ [wrapper] ∧
      wrapper = .ofTree (wrapperName step.before.nextWrapper) [] e ∧ wrapper.arity = 0
  /-- A value or a failure leaves an empty unit with a new id, and an empty scope. -/
  opened : step.ends = true → step.after.draft.unit.isEmpty = true ∧ step.after.draft.scope = {} ∧
    ∀ earlier ∈ past ++ [step], earlier.before.draft.unit.id < step.after.draft.unit.id
  /-- A definition or a declaration leaves the unit open. -/
  kept : step.ends = false → step.before.draft.unit.Keeps step.after.draft.unit

structure Behind (past : List (Step E)) (b : Workbench E) : Prop where
  functions : b.draft.unit.functions = pending past
  next : b.draft.unit.id < b.nextUnit
  opened : ∀ step ∈ past, step.before.draft.unit.id ≤ b.draft.unit.id
  handed : ∀ u ∈ allHanded past, u.id < b.draft.unit.id
  wrappers : ∀ u ∈ allHanded past, ∃ n < b.nextWrapper, u.lastName? = some (wrapperName n)

def Apart (units : List CodeUnit) : Prop :=
  units.Pairwise fun u v => u.id < v.id ∧ u.lastName? ≠ v.lastName?

variable {past : List (Step E)} {b b' : Workbench E}

namespace Behind

theorem within (h : Behind past b) (engine : E) (arities : ArityTable) :
    Behind past (b.within engine arities) :=
  ⟨h.functions, h.next, h.opened, h.handed, h.wrappers⟩

theorem growing (h : Behind past b) (hb : b.Extends added b') {step : Step E}
    (hbefore : step.before = b) (hhanded : step.handed = [])
    (hpending : step.gathers (pending past) = pending past ++ added) :
    Behind (past ++ [step]) b' := by
  have hnone : allHanded (past ++ [step]) = allHanded past := by
    rw [allHanded_concat, hhanded, List.append_nil]
  refine ⟨?_, ?_, ?_, ?_, ?_⟩
  · rw [hb.functions, h.functions, pending_concat, hpending]
  · rw [hb.keeps.id, hb.next]
    exact h.next
  · rw [hb.keeps.id]
    refine List.forall_mem_append.mpr ⟨h.opened, List.forall_mem_singleton.mpr ?_⟩
    exact hbefore ▸ Nat.le_refl _
  · rw [hnone, hb.keeps.id]
    exact h.handed
  · rw [hnone, hb.wrapper]
    exact h.wrappers

theorem opened_lt (h : Behind past b) (hb : b.Opens b') {step : Step E}
    (hbefore : step.before = b) :
    ∀ earlier ∈ past ++ [step], earlier.before.draft.unit.id < b'.draft.unit.id := by
  have hnext := h.next
  rw [hb.unit]
  refine List.forall_mem_append.mpr ⟨fun earlier hmem => ?_, List.forall_mem_singleton.mpr ?_⟩
  · exact Nat.lt_of_le_of_lt (h.opened earlier hmem) hnext
  · rw [hbefore]
    exact hnext

theorem opening (h : Behind past b) (hb : b.Opens b') {step : Step E} (hbefore : step.before = b)
    (hpending : step.gathers (pending past) = [])
    (hid : ∀ u ∈ step.handed, u.id = b.draft.unit.id) (hle : b.nextWrapper ≤ b'.nextWrapper)
    (hwrapper : ∀ u ∈ step.handed, ∃ n < b'.nextWrapper, u.lastName? = some (wrapperName n)) :
    Behind (past ++ [step]) b' := by
  have hnext := h.next
  refine ⟨?_, ?_, fun earlier hmem => Nat.le_of_lt (h.opened_lt hb hbefore earlier hmem), ?_, ?_⟩
  · rw [hb.unit, pending_concat, hpending]
  · rw [hb.unit, hb.next]
    exact Nat.lt_succ_self _
  · rw [hb.unit, allHanded_concat]
    refine List.forall_mem_append.mpr ⟨fun u hu => ?_, fun u hu => ?_⟩
    · exact Nat.lt_trans (h.handed u hu) hnext
    · rw [hid u hu]
      exact hnext
  · rw [allHanded_concat]
    refine List.forall_mem_append.mpr ⟨fun u hu => ?_, hwrapper⟩
    obtain ⟨n, hn, hname⟩ := h.wrappers u hu
    exact ⟨n, Nat.lt_of_lt_of_le hn hle, hname⟩

/-- A unit that is handed over now is apart from those before it. -/
theorem apart (h : Behind past b) (hid : u.id = b.draft.unit.id)
    (hwrapper : u.lastName? = some (wrapperName b.nextWrapper))
    (hpast : Apart (allHanded past)) : Apart (allHanded past ++ [u]) := by
  refine List.pairwise_append.mpr ⟨hpast, List.pairwise_singleton _ _, fun v hv => ?_⟩
  refine List.forall_mem_singleton.mpr ⟨hid ▸ h.handed v hv, ?_⟩
  obtain ⟨n, hn, hname⟩ := h.wrappers v hv
  rw [hname, hwrapper]
  exact fun heq => Nat.ne_of_lt hn (wrapperName_injective (Option.some.inj heq))

theorem executing (h : Behind past b) (hapart : Apart (allHanded past))
    (hok : (b.lowered (.expression e)).1 = .ok r) (hid : u.id = b.draft.unit.id)
    (hfunctions :
      u.functions = b.draft.unit.functions ++ [.ofTree (wrapperName b.nextWrapper) [] e])
    (hb : b.Opens b') (hwrapper : b'.nextWrapper = b.nextWrapper + 1)
    (result : Except Failure Number) :
    let step : Step E := ⟨b, .expression e, [u], result.map .value, b'⟩
    step.Lawful past ∧ Behind (past ++ [step]) b' ∧ Apart (allHanded past ++ [u]) := by
  intro step
  have hends : step.ends = true := by cases result <;> rfl
  have hgathers : step.gathers (pending past) = [] := by cases result <;> rfl
  have hname : u.lastName? = some (wrapperName b.nextWrapper) := by
    rw [CodeUnit.lastName?, hfunctions, List.getLast?_append]
    rfl
  refine ⟨⟨?_, ?_, fun _ => ⟨?_, hb.scope, h.opened_lt hb rfl⟩, ?_⟩, ?_, h.apart hid hname hapart⟩
  · refine iff_of_true (List.cons_ne_nil _ _) ⟨e, rfl, ?_⟩
    rw [hok]
    rfl
  · refine List.forall_mem_singleton.mpr ⟨rfl, hid, e, _, rfl, ?_, rfl, rfl⟩
    rw [hfunctions, h.functions]
  · simp only [step, hb.unit]
    rfl
  · rw [hends]
    nofun
  · refine h.opening hb rfl hgathers (List.forall_mem_singleton.mpr hid) ?_
      (List.forall_mem_singleton.mpr ⟨_, ?_, hname⟩) <;> omega

theorem does (h : Behind past b) (hapart : Apart (allHanded past))
    (hdoes : b.Does s units outcome b') :
    let step : Step E := ⟨b, s, units, outcome, b'⟩
    step.Lawful past ∧ Behind (past ++ [step]) b' ∧ Apart (allHanded (past ++ [step])) := by
  intro step
  rw [allHanded_concat]
  cases hdoes with
  | defined hb =>
    refine ⟨⟨by simp [step], by simp [step], nofun, fun _ => hb.keeps⟩, ?_, ?_⟩
    · exact h.growing hb rfl rfl rfl
    · rwa [List.append_nil]
  | declared hb =>
    refine ⟨⟨by simp [step], by simp [step], nofun, fun _ => hb.keeps⟩, ?_, ?_⟩
    · exact h.growing hb rfl rfl (List.append_nil _).symm
    · rwa [List.append_nil]
  | failed herror hb hwrapper =>
    refine ⟨⟨?_, by simp [step], fun _ => ⟨?_, hb.scope, h.opened_lt hb rfl⟩, nofun⟩, ?_, ?_⟩
    · simp [step, herror, Except.isOk, Except.toBool]
    · simp only [step, hb.unit]
      rfl
    · exact h.opening hb rfl rfl (by simp [step]) (Nat.le_of_eq hwrapper.symm) (by simp [step])
    · rwa [List.append_nil]
  | executed hok hid hfunctions hb hwrapper result =>
    exact h.executing hapart hok hid hfunctions hb hwrapper result

theorem trace (h : Behind past b) (hapart : Apart (allHanded past)) (w : World S)
    (calls : List (Call E S)) :
    (∀ before step after, b.trace w calls = before ++ step :: after →
      step.Lawful (past ++ before)) ∧
      Apart (allHanded (past ++ b.trace w calls)) := by
  induction calls generalizing past b w with
  | nil => exact ⟨by simp [Workbench.trace], by simpa [Workbench.trace] using hapart⟩
  | cons call rest ih =>
    simp only [Workbench.trace]
    obtain ⟨hlawful, hbehind, hapart⟩ :=
      (h.within _ _).does hapart (process_does _ call.statement _)
    obtain ⟨hrest, hend⟩ := ih hbehind hapart _
    refine ⟨fun before step after hsplit => ?_, by simpa using hend⟩
    cases before with
    | nil =>
      rw [List.append_nil, ← (List.cons.inj hsplit).1]
      exact hlawful
    | cons first before =>
      obtain ⟨hfirst, hsplit⟩ := List.cons.inj hsplit
      rw [← hfirst, List.append_cons]
      exact hrest before step after hsplit

end Behind

def start (engine : E) (arities : ArityTable) (showUnits : Bool) : Workbench E :=
  { engine, draft := { unit := { id := 0 }, arities }, showUnits }

theorem behind_start (engine : E) (arities : ArityTable) (showUnits : Bool) :
    Behind [] (start engine arities showUnits) :=
  ⟨rfl, Nat.zero_lt_one, List.forall_mem_nil _, List.forall_mem_nil _, List.forall_mem_nil _⟩

/-- Every step of a run is lawful, whatever the engine answers and whatever becomes of it between
the steps, and no unit is handed over twice. That the record of the units makes no difference to a
step stands first. -/
theorem units_live_once (engine : E) (arities : ArityTable) (showUnits : Bool) (w : World S)
    (calls : List (Call E S)) :
    let steps := (start engine arities showUnits).trace w calls
    (∀ (b : Workbench E) (units : List CodeUnit) (s : Statement) (w : World S),
      (b.recorded units).process s w =
        ((b.process s w).1, (b.process s w).2.1.recorded (units ++ b.handed s w),
          (b.process s w).2.2)) ∧
      (∀ past step rest, steps = past ++ step :: rest → step.Lawful past) ∧
      (allHanded steps).Pairwise (fun u v => u.id < v.id) ∧
      (allHanded steps).Pairwise (fun u v => u.lastName? ≠ v.lastName?) ∧
      (allHanded steps).Nodup := by
  intro steps
  obtain ⟨hlawful, hapart⟩ := (behind_start engine arities showUnits).trace .nil w calls
  refine ⟨fun b units s w => ?_, hlawful, hapart.imp And.left, hapart.imp And.right, ?_⟩
  · rw [process_recorded, handed_eq]
  · refine hapart.imp fun hlt heq => ?_
    rw [heq] at hlt
    exact Nat.lt_irrefl _ hlt.1

/-- Two definitions with an expression behind each. A failure stands between them, and the engine
has begun to refuse units when the second one comes. -/
def refusedCalls : List (Call (ScriptedEngine Unit) Unit) :=
  let one : Expr := .number .one {}
  [⟨.definition ⟨"f", [], {}⟩ one, id⟩, ⟨.declaration ⟨"f", [], {}⟩, id⟩,
    ⟨.expression (.call "f" [] {}), id⟩, ⟨.definition ⟨"g", [], {}⟩ (.call "h" [] {}), id⟩,
    ⟨.definition ⟨"g", [], {}⟩ (.call "f" [] {}), fun (engine, outside) =>
      ({ engine with refuse := true }, outside)⟩,
    ⟨.expression (.call "g" [] {}), id⟩, ⟨.expression one, id⟩]

theorem units_live_once_refused :
    let engine : ScriptedEngine Unit := { publish := true, result := some .one }
    let steps := (start engine {} false).trace { state := () } refusedCalls
    (allHanded steps).map (fun u => (u.id, u.functions.map (·.name))) =
        [(0, ["f", "__anon_expr_0"]), (2, ["g", "__anon_expr_1"]), (3, ["__anon_expr_2"])] ∧
      steps.map (·.outcome.isOk) = [true, true, true, false, true, false, false] ∧
      ∃ past step rest, steps = past ++ step :: rest ∧ (pending past).map (·.name) = ["g"] ∧
        step.handed.map (·.lastName?) = [some "__anon_expr_1"] ∧ step.Lawful past := by
  intro engine steps
  have hsplit : steps = steps.take 5 ++ steps.get ⟨5, by decide +kernel⟩ :: steps.drop 6 := by
    simp
  refine ⟨by decide +kernel, by decide +kernel, _, _, _, hsplit, ?_, ?_, ?_⟩
  · decide +kernel
  · decide +kernel
  · exact (units_live_once engine {} false _ _).2.1 _ _ _ hsplit

end Workbench

end NumericJit
