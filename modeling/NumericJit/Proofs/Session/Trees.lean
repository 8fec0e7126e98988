import NumericJit.Proofs.Session.Matching
import NumericJit.Session.Basic

/-!
# Sessions evaluate trees

However a session was configured, and whichever host functions were registered before its first
statement: the outcomes of any sequence of texts are those of a session on trees, and the host
functions were called in the same way (`session_evaluates_trees`). The two sides start out matching,
every statement of a text can be written, and each statement keeps them matching.
-/

namespace NumericJit

variable {S : Type}

-- ---------------------------------------------------------------------------
-- Many statements, many texts
-- ---------------------------------------------------------------------------

structure Runs (quiet : Prop) (shown : Bool)
    (r₁ : List α × Workbench (ResidentEngine S) × World S) (r₂ : List α × TreeSession S × World S) :
    Prop where
  outcomes : r₁.1 = r₂.1
  sides : Matches r₁.2.1 r₂.2.1
  world : SameWorld quiet r₁.2.2 r₂.2.2
  showUnits : r₁.2.1.showUnits = shown

section
variable {b : Workbench (ResidentEngine S)} {t : TreeSession S} {w₁ w₂ : World S}

theorem Matches.processAll (h : Matches b t)
    (hs : ∀ r ∈ statements, Ensures Statement.Readable r) (hquiet : quiet → b.showUnits = false)
    (hw : SameWorld quiet w₁ w₂) :
    Runs quiet b.showUnits (b.processAll w₁ statements)
      (t.processAll TreeSession.isSmall w₂ statements) := by
  induction statements generalizing b t w₁ w₂ with
  | nil => exact ⟨rfl, h, hw, rfl⟩
  | cons r rest ih =>
    obtain ⟨hr, hrest⟩ := List.forall_mem_cons.mp hs
    cases hr with
    | error he =>
      have hruns := ih h hrest hquiet hw
      exact ⟨congrArg _ hruns.outcomes, hruns.sides, hruns.world, hruns.showUnits⟩
    | ok hreadable =>
      have hstep := h.process hreadable hquiet hw
      have hruns := ih hstep.sides hrest (fun hq => hstep.showUnits.trans (hquiet hq)) hstep.world
      refine ⟨?_, hruns.sides, hruns.world, hruns.showUnits.trans hstep.showUnits⟩
      exact congrArg₂ List.cons hstep.outcome hruns.outcomes

end

namespace Session

/-- Registers host functions in order; one whose name is taken changes nothing. -/
def registerAll (s : Session S) (hosts : List (HostFunction S)) : Session S :=
  hosts.foldl (fun s h => (s.register h).2) s

def withLimits (s : Session S) (limits : Limits) : Session S :=
  { s with bench := { s.bench with engine := { s.bench.engine with limits } } }

def processTexts (s : Session S) (w : World S) :
    List String → List (List (Except Failure Outcome)) × Session S × World S
  | [] => ([], s, w)
  | text :: rest =>
    let (outcomes, s, w) := s.process text w
    let (others, s, w) := s.processTexts w rest
    (outcomes :: others, s, w)

end Session

theorem Matches.processTexts {s : Session S} {t : TreeSession S} {w₁ w₂ : World S}
    (h : Matches s.bench t) (hquiet : quiet → s.bench.showUnits = false)
    (hw : SameWorld quiet w₁ w₂) (texts : List String) :
    (s.processTexts w₁ texts).1 = (t.processTexts TreeSession.isSmall w₂ texts).1 ∧
      SameWorld quiet (s.processTexts w₁ texts).2.2
        (t.processTexts TreeSession.isSmall w₂ texts).2.2 := by
  induction texts generalizing s t w₁ w₂ with
  | nil => exact ⟨rfl, hw⟩
  | cons text rest ih =>
    have hruns := h.processAll (readable_of_parse text) hquiet hw
    obtain ⟨houtcomes, hworld⟩ := ih (s := { s with bench := (s.bench.processAll w₁
      (parseStatements text)).2.1 }) hruns.sides (fun hq => hruns.showUnits.trans (hquiet hq))
      hruns.world
    exact ⟨congrArg₂ List.cons hruns.outcomes houtcomes, hworld⟩

-- ---------------------------------------------------------------------------
-- Before the first statement
-- ---------------------------------------------------------------------------

structure Starts (b : Workbench (ResidentEngine S)) (t : TreeSession S) : Prop where
  sides : Matches b t
  pending : t.pending = []
  references : t.references = []

theorem starts_empty (showUnits : Bool) :
    Starts ({ engine := {}, showUnits } : Workbench (ResidentEngine S)) {} where
  sides := ⟨TreeSession.coherent_of_empty rfl rfl, linked_nil, ResidentEngine.indexed_empty _, rfl,
    rfl, (fun _ _ h => by cases h), rfl, rfl, (fun h => by cases h)⟩
  pending := rfl
  references := rfl

section
variable {b : Workbench (ResidentEngine S)} {t : TreeSession S}

theorem Workbench.register_taken {h : HostFunction S} (hr : b.engine.isResident h.name = true) :
    b.register h = (.error { cause := .hostAlreadyResident h.name }, b) := by
  simp [register, registerHost, Engine.declare, ResidentEngine.declare, hr]

theorem Workbench.register_new {h : HostFunction S} (hr : b.engine.isResident h.name = false) :
    b.register h = (.ok (), { b with
      engine := b.engine.withHost h
      draft := b.draft.record h.name h.arity }) := by
  simp [register, registerHost, Engine.declare, ResidentEngine.declare, hr, ResidentEngine.withHost,
    Draft.record]

theorem Recorded.register {arities : ArityTable} (ha : Recorded arities t) (hp : t.pending = [])
    (h : HostFunction S) :
    Recorded (arities.record h.name h.arity).2
      { t with committed := t.committed.set h.name (.host h.arity h.run) } := by
  intro name k hk
  refine (NameTable.get?_set arities h.name name h.arity).trans ?_
  have hk' := (TreeSession.arity?_of_pending_nil
    (t := { t with committed := t.committed.set h.name (.host h.arity h.run) }) hp name).symm.trans hk
  rw [NameTable.get?_set] at hk'
  split at hk'
  · rename_i heq
    rw [if_pos heq]
    exact hk'
  · rename_i hne
    rw [if_neg hne]
    exact ha name k ((TreeSession.arity?_of_pending_nil hp name).trans hk')

theorem Starts.register (hst : Starts b t) {h : HostFunction S} (hplain : IsPlain h.name) :
    Starts (b.register h).2 (t.register h) := by
  have hsides := hst.sides
  have hresident : b.engine.isResident h.name = (t.committed.get? h.name).isSome :=
    hsides.isResident_eq hplain
  unfold TreeSession.register
  split
  · rename_i htaken
    rw [Workbench.register_taken (hresident.trans htaken)]
    exact hst
  · rename_i hnew
    have hnew' : b.engine.isResident h.name = false := hresident.trans (Bool.eq_false_iff.mpr hnew)
    rw [Workbench.register_new hnew']
    refine ⟨⟨TreeSession.coherent_of_empty hst.pending hst.references, ?_,
      hsides.indexed.publish hnew', hsides.limits, hsides.unit, ?_, hsides.nextUnit,
      hsides.nextWrapper, ?_⟩, hst.pending, hst.references⟩
    · refine hsides.linked.declare hplain fun s hs hname => ?_
      rw [hsides.indexed.isResident_iff.mpr ⟨s, hs, hname⟩] at hnew'
      cases hnew'
    · exact hsides.arities.register hst.pending h
    · intro n hn
      rcases (ResidentEngine.isResident_publish _).mp hn with hname | hn
      · exact absurd hname.symm (hplain.ne_wrapperName n)
      · exact hsides.wrappers hn

theorem Workbench.register_showUnits (b : Workbench (ResidentEngine S)) (h : HostFunction S) :
    (b.register h).2.showUnits = b.showUnits := rfl

theorem Starts.registerAll {s : Session S} (hst : Starts s.bench t) {hosts : List (HostFunction S)}
    (hplain : ∀ h ∈ hosts, IsPlain h.name) :
    Starts (s.registerAll hosts).bench (hosts.foldl TreeSession.register t) ∧
      (s.registerAll hosts).bench.showUnits = s.bench.showUnits := by
  induction hosts generalizing s t with
  | nil => exact ⟨hst, rfl⟩
  | cons h rest ih =>
    obtain ⟨hh, hrest⟩ := List.forall_mem_cons.mp hplain
    exact ih (s := (s.register h).2) (hst.register hh) hrest

theorem Workbench.registerBuiltins_cons (b : Workbench (ResidentEngine S)) (name : String)
    (rest : List String) (h : HostFunction S) (hname : HostFunction.builtin? name = some h) :
    b.registerBuiltins (name :: rest) =
      match b.register h with
      | (.ok (), b) => b.registerBuiltins rest
      | (.error e, b) => (.error e, b) := by
  simp only [Workbench.registerBuiltins, NumericJit.registerBuiltins, hname, register]
  rcases registerHost h b.engine b.draft.arities with ⟨result, engine, arities⟩
  cases result <;> rfl

theorem isPlain_of_builtin? {h : HostFunction S} (hname : HostFunction.builtin? name = some h) :
    IsPlain h.name := by
  have hmem : h ∈ HostFunction.builtins := List.mem_of_find?_eq_some hname
  refine IsWord.isPlain ?_
  rcases List.mem_cons.mp hmem with rfl | hmem
  · exact ⟨'p', "utchard".toList, by simp [HostFunction.writeByte], rfl⟩
  · rw [List.mem_singleton.mp hmem]
    exact ⟨'p', "rintd".toList, by simp [HostFunction.writeNumber], rfl⟩

theorem Starts.registerBuiltins (hst : Starts b t) {names : List String}
    (hok : b.registerBuiltins names = (.ok (), b')) :
    Starts b' ((names.filterMap HostFunction.builtin?).foldl TreeSession.register t) ∧
      b'.showUnits = b.showUnits := by
  induction names generalizing b t with
  | nil =>
    cases hok
    exact ⟨hst, rfl⟩
  | cons name rest ih =>
    cases hname : HostFunction.builtin? (S := S) name with
    | none =>
      simp [Workbench.registerBuiltins, NumericJit.registerBuiltins, hname] at hok
    | some h =>
      have hreg := hst.register (isPlain_of_builtin? hname)
      rw [Workbench.registerBuiltins_cons b name rest h hname] at hok
      rw [List.filterMap_cons_some hname, List.foldl_cons]
      rcases hb : b.register h with ⟨result, b₁⟩
      rw [hb] at hok hreg
      cases result with
      | error e => cases hok
      | ok _ =>
        obtain ⟨hstarts, hshown⟩ := ih hreg hok
        refine ⟨hstarts, hshown.trans ?_⟩
        have hkept := b.register_showUnits h
        rw [hb] at hkept
        exact hkept

end

theorem starts_of_start {config : Config} {s : Session S} (hstart : Session.start config = .ok s)
    {hosts : List (HostFunction S)} (hplain : ∀ h ∈ hosts, IsPlain h.name) :
    Starts (s.registerAll hosts).bench
        (.ofHosts (config.hostFunctions.filterMap HostFunction.builtin? ++ hosts)) ∧
      (s.registerAll hosts).bench.showUnits = config.showUnits := by
  unfold Session.start at hstart
  simp only at hstart
  split at hstart <;> cases hstart
  rename_i b hok
  obtain ⟨hbuiltins, hshown⟩ := (starts_empty config.showUnits).registerBuiltins hok
  obtain ⟨hall, hshown'⟩ := Starts.registerAll (s := ⟨config, b⟩) hbuiltins hplain
  rw [TreeSession.ofHosts, List.foldl_append]
  exact ⟨hall, hshown'.trans hshown⟩

-- ---------------------------------------------------------------------------
-- Sessions that refuse nothing
-- ---------------------------------------------------------------------------

/-- Whether an expression was refused because of the sizes in its unit. -/
def isRefusal : Except Failure Outcome → Bool
  | .error { cause := .invalidModule _, .. } => true
  | _ => false

namespace TreeSession

variable {accepts : TreeSession S → TreeDefinition → Bool} {t : TreeSession S} {w : World S}

theorem process_accepted (h : isRefusal (t.process accepts statement w).1 = false) :
    t.process accepts statement w = t.process (fun _ _ => true) statement w := by
  unfold process at h ⊢
  cases hc : t.check statement with
  | error e => rfl
  | ok _ =>
    rw [hc] at h
    cases statement with
    | definition proto body => rfl
    | declaration proto => rfl
    | expression e =>
      simp only [execute_eq] at h ⊢
      cases ha : accepts (t.closing e) ⟨wrapperName t.expressions, [], e⟩ with
      | true => rfl
      | false =>
        rw [ha] at h
        cases h

theorem processAll_accepted (h : ∀ o ∈ (t.processAll accepts w statements).1, isRefusal o = false) :
    t.processAll accepts w statements = t.processAll (fun _ _ => true) w statements := by
  induction statements generalizing t w with
  | nil => rfl
  | cons r rest ih =>
    cases r with
    | error e =>
      simp only [processAll, List.forall_mem_cons] at h
      simp only [processAll, ih h.2]
    | ok statement =>
      simp only [processAll, List.forall_mem_cons] at h
      simp only [processAll, ← process_accepted h.1, ih h.2]

theorem processTexts_accepted
    (h : ∀ outcomes ∈ (t.processTexts accepts w texts).1, ∀ o ∈ outcomes, isRefusal o = false) :
    t.processTexts accepts w texts = t.processTexts (fun _ _ => true) w texts := by
  induction texts generalizing t w with
  | nil => rfl
  | cons text rest ih =>
    simp only [processTexts, List.forall_mem_cons] at h
    simp only [processTexts, ← processAll_accepted h.1, ih h.2]

end TreeSession

-- ---------------------------------------------------------------------------
-- The whole session
-- ---------------------------------------------------------------------------

theorem Matches.withLimits {s : Session S} {t : TreeSession S} (h : Matches s.bench t)
    (limits : Limits) : Matches (s.withLimits limits).bench { t with limits } :=
  ⟨⟨h.coherent.names, h.coherent.formed, h.coherent.plain, h.coherent.uncommitted,
    h.coherent.references⟩, h.linked, h.indexed, rfl, h.unit, h.arities, h.nextUnit,
    h.nextWrapper, h.wrappers⟩

/-- A session does what its texts say on trees: with any host functions that are registered before
the first statement, under any limits on running code, any texts have the outcomes that the session
on trees has. The state of the host functions is the same in the end; as they may keep a log in it,
they were called with the same arguments in the same order. What they wrote is the same, unless
units are listed in between. A session on trees that refuses no expression for its size does the
same too, as long as no outcome is such a refusal. -/
theorem session_evaluates_trees (config : Config) {s₀ : Session S}
    (hstart : Session.start config = .ok s₀) (hosts : List (HostFunction S))
    (hplain : ∀ h ∈ hosts, IsPlain h.name) (limits : Limits) (texts : List String) (w : World S) :
    let s := (s₀.registerAll hosts).withLimits limits
    let t : TreeSession S :=
      { TreeSession.ofHosts (config.hostFunctions.filterMap HostFunction.builtin? ++ hosts) with
        limits }
    let run := s.processTexts w texts
    let expected := t.processTexts TreeSession.isSmall w texts
    let unlimited := t.processTexts (fun _ _ => true) w texts
    run.1 = expected.1 ∧ run.2.2.state = expected.2.2.state ∧
      (config.showUnits = false → run.2.2 = expected.2.2) ∧
      ((∀ outcomes ∈ run.1, ∀ o ∈ outcomes, isRefusal o = false) → expected = unlimited) := by
  intro s t run expected unlimited
  obtain ⟨hstarts, hshown⟩ := starts_of_start hstart hplain
  have hmatches : Matches s.bench t := hstarts.sides.withLimits limits
  have hquiet : config.showUnits = false → s.bench.showUnits = false := hshown.trans
  obtain ⟨houtcomes, hworld⟩ := hmatches.processTexts hquiet (.refl w) texts
  refine ⟨houtcomes, hworld.state, fun hquiet => ?_, fun hrefused => ?_⟩
  · exact hworld.eq_of_quiet hquiet
  · exact TreeSession.processTexts_accepted (houtcomes ▸ hrefused)

/-- A host function that keeps what it was called with, a function called from a later unit, and a
redefinition of it in between. -/
theorem session_evaluates_trees_across_units :
    let config : Config := { hostFunctions := ["printd"] }
    let note : HostFunction (List (List Number)) :=
      { name := "note", arity := 1
        run := fun args calls => ⟨args.headD .zero, .empty, calls ++ [args]⟩ }
    let texts := ["def min(a b) if a < b then a else b; note(min(2, 1));",
      "def min(x) x; def g(n) min(n, note(0)); extern note(n); g(note(1));"]
    ∃ s₀, Session.start config = .ok s₀ ∧ IsPlain note.name ∧
      let run := ((s₀.registerAll [note]).withLimits {}).processTexts { state := [] } texts
      let expected := (TreeSession.ofHosts [.writeNumber, note]).processTexts TreeSession.isSmall
        { state := [] } texts
      run.1 = expected.1 ∧ run.2.2.state = [[.one], [.one], [.zero]] := by
  intro config note texts
  have hplain : IsPlain note.name := by simp [IsPlain, note]
  obtain ⟨houtcomes, hstate, -, -⟩ := session_evaluates_trees config rfl [note]
    (List.forall_mem_singleton.mpr hplain) {} texts { state := [] }
  exact ⟨_, rfl, hplain, houtcomes, hstate.trans (by decide +kernel)⟩

end NumericJit
