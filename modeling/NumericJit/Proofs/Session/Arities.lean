import Mathlib.Data.List.Induction
import NumericJit.Proofs.Session.Trees

/-!
# Recorded arities

Texts and host functions may reach a session in any order. A resident function, wrappers apart, then
always has a recorded arity, and it is the arity that the function has, but for one case: a host
function was registered while the open unit held a pending definition of the same name, and the
recorded arity is that of the pending definition (`recorded_arity_unless_overtaken`). Such a
definition can no longer become resident, but a declaration that agrees with it still records its
arity again.
-/

namespace NumericJit

variable {S : Type}

/-- A function of the open unit: the wrapper of an expression, the definition of a name that is not
resident, or one whose name became resident since. -/
inductive Pending (overtaken : String → Nat → Prop) (e : ResidentEngine S) (arities : ArityTable)
    (f : SlotFunction) : Prop where
  | wrapper (h : f.name = wrapperName n)
  | new (hplain : IsPlain f.name) (hnew : e.isResident f.name = false)
    (hrecorded : arities.get? f.name = some f.arity)
  | late (hplain : IsPlain f.name) (hresident : e.isResident f.name = true)
    (h : overtaken f.name f.arity)

/-- What is recorded and declared agrees with what is resident, but for names that were
overtaken. -/
structure Consistent (overtaken : String → Nat → Prop) (e : ResidentEngine S) (d : Draft) :
    Prop where
  indexed : e.Indexed
  names : ∀ s ∈ e.symbols, IsPlain s.name ∨ ∃ n, s.name = wrapperName n
  plain : ∀ {name k}, d.arities.get? name = some k → IsPlain name
  recorded : ∀ s ∈ e.symbols, IsPlain s.name →
    ∃ k, d.arities.get? s.name = some k ∧ (k = s.arity ∨ overtaken s.name k)
  functions : ∀ f ∈ d.unit.functions, Pending overtaken e d.arities f
  externals : ∀ c ∈ d.unit.externals, e.isResident c.1 = true ∧
    ∀ s ∈ e.symbols, s.name = c.1 → c.2 = s.arity ∨ overtaken c.1 c.2

theorem CodeUnit.name_ne_of_arity?_eq_none {u : CodeUnit} (h : u.arity? name = none)
    (hf : f ∈ u.functions) : f.name ≠ name := by
  rintro rfl
  exact arity?_eq_none.mp h (List.mem_map_of_mem (f := Prod.fst) (mem_callables_of_function hf))

theorem ResidentEngine.Indexed.name_ne {e : ResidentEngine S} (h : e.Indexed)
    (hnew : e.isResident name = false) (hs : s ∈ e.symbols) : s.name ≠ name := by
  intro hname
  rw [h.isResident_iff.mpr ⟨s, hs, hname⟩] at hnew
  cases hnew

theorem Draft.get?_record (d : Draft) (name : String) (k : Nat) (other : String) :
    (d.record name k).arities.get? other =
      if other = name then some k else d.arities.get? other :=
  NameTable.get?_set d.arities name other k

namespace Consistent

section
variable {overtaken : String → Nat → Prop} {e : ResidentEngine S} {d : Draft}

theorem mono (h : Consistent overtaken e d)
    (hle : ∀ name k, overtaken name k → overtaken' name k) : Consistent overtaken' e d where
  indexed := h.indexed
  names := h.names
  plain := h.plain
  recorded s hs hplain := by
    obtain ⟨k, hk, hagree⟩ := h.recorded s hs hplain
    exact ⟨k, hk, hagree.imp_right (hle _ _)⟩
  functions f hf := by
    cases h.functions f hf with
    | wrapper h => exact .wrapper h
    | new hplain hnew hrecorded => exact .new hplain hnew hrecorded
    | late hplain hresident h => exact .late hplain hresident (hle _ _ h)
  externals c hc := by
    obtain ⟨hresident, hagree⟩ := h.externals c hc
    exact ⟨hresident, fun s hs hname => (hagree s hs hname).imp_right (hle _ _)⟩

theorem limits (h : Consistent overtaken e d) (limits : Limits) :
    Consistent overtaken { e with limits } d where
  indexed := h.indexed
  names := h.names
  plain := h.plain
  recorded := h.recorded
  functions f hf := by
    cases h.functions f hf with
    | wrapper h => exact .wrapper h
    | new hplain hnew hrecorded => exact .new hplain hnew hrecorded
    | late hplain hresident h => exact .late hplain hresident h
  externals := h.externals

theorem agrees (h : Consistent overtaken e d) (hk : d.arities.get? name = some k)
    (hs : s ∈ e.symbols) (hname : s.name = name) : k = s.arity ∨ overtaken name k := by
  subst hname
  obtain ⟨k', hk', hagree⟩ := h.recorded s hs (h.plain hk)
  obtain rfl := Option.some.inj (hk'.symm.trans hk)
  exact hagree

theorem openUnit (h : Consistent overtaken e d) (id : Nat) :
    Consistent overtaken e { unit := { id }, arities := d.arities } :=
  ⟨h.indexed, h.names, h.plain, h.recorded, by simp, by simp⟩

-- ---------------------------------------------------------------------------
-- Lowering
-- ---------------------------------------------------------------------------

theorem plain_record (h : Consistent overtaken e d) (hplain : IsPlain name)
    (hk : (d.record name k).arities.get? other = some k') : IsPlain other := by
  rw [Draft.get?_record] at hk
  split at hk
  · rename_i heq
    exact heq ▸ hplain
  · exact h.plain hk

/-- An arity may be recorded if it is that of the resident function, and of a pending definition
that is not resident. -/
theorem record (h : Consistent overtaken e d) (hplain : IsPlain name)
    (hresident : ∀ s ∈ e.symbols, s.name = name → k = s.arity ∨ overtaken name k)
    (hpending : ∀ f ∈ d.unit.functions, f.name = name → e.isResident name = false → f.arity = k) :
    Consistent overtaken e (d.record name k) where
  indexed := h.indexed
  names := h.names
  plain := h.plain_record hplain
  recorded s hs hs_plain := by
    rw [Draft.get?_record]
    split
    · rename_i heq
      exact ⟨k, rfl, heq ▸ hresident s hs heq⟩
    · exact h.recorded s hs hs_plain
  functions f hf := by
    cases h.functions f hf with
    | wrapper h => exact .wrapper h
    | late hplain hresident h => exact .late hplain hresident h
    | new hf_plain hnew hrecorded =>
      refine .new hf_plain hnew ?_
      rw [Draft.get?_record]
      split
      · rename_i heq
        rw [hpending f hf heq (heq ▸ hnew)]
      · exact hrecorded
  externals := h.externals

theorem declare (h : Consistent overtaken e d) (hresident : e.isResident name = true)
    (hk : d.arities.get? name = some k) :
    Consistent overtaken e
      { d with unit := { d.unit with externals := d.unit.externals ++ [(name, k)] } } where
  indexed := h.indexed
  names := h.names
  plain := h.plain
  recorded := h.recorded
  functions := h.functions
  externals c hc := by
    rcases List.mem_append.mp hc with hc | hc
    · exact h.externals c hc
    · obtain rfl := List.mem_singleton.mp hc
      exact ⟨hresident, fun s hs hname => h.agrees hk hs hname⟩

theorem add (h : Consistent overtaken e d) (hf : Pending overtaken e d.arities f) :
    Consistent overtaken e
      { d with unit := { d.unit with functions := d.unit.functions ++ [f] } } where
  indexed := h.indexed
  names := h.names
  plain := h.plain
  recorded := h.recorded
  externals := h.externals
  functions g hg := by
    rcases List.mem_append.mp hg with hg | hg
    · exact h.functions g hg
    · exact List.mem_singleton.mp hg ▸ hf

theorem useAll (h : Consistent overtaken e d) (own : String) (callees : List String) :
    Consistent overtaken e { d with
      unit := d.unit.useAll ⟨Engine.isResident e, d.arities⟩ own callees } := by
  refine CodeUnit.useAll_induction (P := fun u => Consistent overtaken e { d with unit := u })
    _ own callees (fun u callee _ hu => ?_) h
  rcases CodeUnit.use_cases ⟨Engine.isResident e, d.arities⟩ own u callee with
    he | ⟨arity, -, -, hresident, hk, he⟩
  · rw [he]
    exact hu
  · rw [he]
    exact hu.declare hresident hk

theorem addFunction (h : Consistent overtaken e d) (hnew : d.unit.arity? name = none)
    (hf : Pending overtaken e d.arities (.ofTree name params body)) :
    Consistent overtaken e (d.addFunction (Engine.isResident e) name params body).2 := by
  cases hcheck : body.check (arityIn ⟨Engine.isResident e, d.arities⟩ name params.length d.unit)
      params with
  | ok _ =>
    obtain ⟨scope, hadd⟩ := Draft.addFunction_ok hnew hcheck
    rw [hadd]
    have hadded := (h.useAll name body.callees).add hf
    exact ⟨hadded.indexed, hadded.names, hadded.plain, hadded.recorded, hadded.functions,
      hadded.externals⟩
  | error e =>
    obtain ⟨scope, callees, hadd⟩ := Draft.addFunction_error hcheck
    rw [hadd]
    have hused := h.useAll name callees
    exact ⟨hused.indexed, hused.names, hused.plain, hused.recorded, hused.functions,
      hused.externals⟩

theorem lowerDefinition (h : Consistent overtaken e d) (hplain : IsPlain proto.name) (body : Expr) :
    Consistent overtaken e (d.lowerDefinition (Engine.isResident e) proto body).2 := by
  simp only [Draft.lowerDefinition]
  split
  · exact h
  · rename_i htaken
    obtain ⟨hnew, hresident⟩ := Draft.isTaken_eq_false (Bool.not_eq_true _ ▸ htaken)
    have hrecorded : Consistent overtaken e (d.record proto.name proto.arity) := by
      refine h.record hplain (fun s hs hname => ?_) fun f hf hname => ?_
      · exact absurd hname (h.indexed.name_ne hresident hs)
      · exact absurd hname (CodeUnit.name_ne_of_arity?_eq_none hnew hf)
    refine hrecorded.addFunction hnew (.new hplain hresident ?_)
    exact (d.get?_record _ _ _).trans (if_pos rfl)

/-- A declaration that agrees with the open unit is believed, whatever is resident. -/
theorem record_known (h : Consistent overtaken e d) (hplain : IsPlain name)
    (hk : d.unit.arity? name = some k) : Consistent overtaken e (d.record name k) := by
  rcases List.mem_append.mp (CodeUnit.mem_callables hk) with hc | hc
  · obtain ⟨hresident, hagree⟩ := h.externals _ hc
    refine h.record hplain hagree fun f _ _ hnew => ?_
    exact absurd hresident (Bool.eq_false_iff.mp hnew)
  · obtain ⟨g, hg, heq⟩ := List.mem_map.mp hc
    cases heq
    cases h.functions g hg with
    | wrapper hname => exact absurd hname (hplain.ne_wrapperName _)
    | late _ hresident hlate =>
      refine h.record hplain (fun _ _ _ => .inr hlate) fun f _ _ hnew => ?_
      exact absurd hresident (Bool.eq_false_iff.mp hnew)
    | new _ hnew hrecorded =>
      refine h.record hplain (fun s hs hname => ?_) fun f hf hname _ => ?_
      · exact absurd hname (h.indexed.name_ne hnew hs)
      · cases h.functions f hf with
        | wrapper hf_name => exact absurd (hname.symm.trans hf_name) (hplain.ne_wrapperName _)
        | late _ hresident _ => exact absurd (hname ▸ hresident) (Bool.eq_false_iff.mp hnew)
        | new _ _ hf_recorded =>
          rw [hname, hrecorded] at hf_recorded
          exact (Option.some.inj hf_recorded).symm

theorem lowerDeclaration (h : Consistent overtaken e d) (hplain : IsPlain proto.name) :
    Consistent overtaken e (d.lowerDeclaration (Engine.isResident e) proto).2 := by
  cases hk : d.unit.arity? proto.name with
  | some known =>
    rw [Draft.lowerDeclaration_known hk]
    split
    · rename_i heq
      exact h.record_known hplain (heq ▸ hk)
    · exact h
  | none =>
    cases hr : Engine.isResident e proto.name with
    | false =>
      rw [Draft.lowerDeclaration_unmatched hk hr]
      exact h
    | true =>
      rw [Draft.lowerDeclaration_resident hk hr]
      split
      · rename_i hall
        -- what is resident is recorded, so the declaration was compared with something
        obtain ⟨s, hs, hname⟩ := h.indexed.isResident_iff.mp hr
        obtain ⟨k, hrecorded, -⟩ := h.recorded s hs (hname ▸ hplain)
        rw [hname] at hrecorded
        rw [hrecorded, Option.all_some, beq_iff_eq] at hall
        subst hall
        have hsame : Consistent overtaken e (d.record proto.name proto.arity) :=
          h.record hplain (fun s hs hname => h.agrees hrecorded hs hname) fun f hf hname =>
            absurd hname (CodeUnit.name_ne_of_arity?_eq_none hk hf)
        exact hsame.declare hr ((d.get?_record _ _ _).trans (if_pos rfl))
      · exact h

theorem lower (h : Consistent overtaken e d) (hs : statement.Readable) (n : Nat) :
    Consistent overtaken e (d.lower (Engine.isResident e) (wrapperName n) statement).2 := by
  cases statement with
  | definition proto body => exact h.lowerDefinition hs.1.isPlain body
  | declaration proto => exact h.lowerDeclaration (IsWord.isPlain hs)
  | expression body =>
    simp only [Draft.lower, Draft.lowerExpression]
    split
    · exact h
    · rename_i htaken
      obtain ⟨hnew, -⟩ := Draft.isTaken_eq_false (Bool.not_eq_true _ ▸ htaken)
      exact h.addFunction hnew (.wrapper rfl)

-- ---------------------------------------------------------------------------
-- What becomes resident
-- ---------------------------------------------------------------------------

/-- A unit is only taken up if none of its functions was overtaken. -/
theorem withUnit (h : Consistent overtaken e d) (ha : e.Accepts d.unit) (id : Nat) :
    Consistent overtaken (e.withUnit d.unit) { unit := { id }, arities := d.arities } where
  indexed := h.indexed.withUnit ha
  names s hs := by
    rw [ResidentEngine.withUnit_symbols] at hs
    rcases List.mem_append.mp hs with hs | hs
    · exact h.names s hs
    · obtain ⟨f, hf, rfl⟩ := List.mem_map.mp hs
      cases h.functions f hf with
      | wrapper hname => exact .inr ⟨_, hname⟩
      | new hplain _ _ => exact .inl hplain
      | late hplain _ _ => exact .inl hplain
  plain := h.plain
  recorded s hs hplain := by
    rw [ResidentEngine.withUnit_symbols] at hs
    rcases List.mem_append.mp hs with hs | hs
    · exact h.recorded s hs hplain
    · obtain ⟨f, hf, rfl⟩ := List.mem_map.mp hs
      cases h.functions f hf with
      | wrapper hname => exact absurd hname (IsPlain.ne_wrapperName hplain _)
      | new _ _ hrecorded => exact ⟨_, hrecorded, .inl rfl⟩
      | late _ hresident _ => exact absurd hresident (Bool.eq_false_iff.mp (ha.fresh f hf))
  functions := by simp
  externals := by simp

theorem finalize (h : Consistent overtaken e d) (id : Nat) :
    Consistent overtaken (Engine.finalize d.unit e).2 { unit := { id }, arities := d.arities } := by
  obtain ⟨f, -, heq⟩ | ⟨ha, heq⟩ := e.finalize_cases d.unit <;> rw [heq]
  · exact h.openUnit id
  · exact h.withUnit ha id

/-- A host function overtakes the pending definitions of its name. -/
theorem withHost (h : Consistent overtaken e d) {host : HostFunction S} (hplain : IsPlain host.name)
    (hnew : e.isResident host.name = false)
    (hpending : ∀ f ∈ d.unit.functions, f.name = host.name → overtaken f.name f.arity) :
    Consistent overtaken (e.withHost host) (d.record host.name host.arity) := by
  have hresident : ∀ {name}, (e.withHost host).isResident name = true ↔
      e.isResident name = true ∨ host.name = name := by
    intro name
    rw [ResidentEngine.withHost, ResidentEngine.isResident_publish, or_comm, @eq_comm _ name]
  refine ⟨h.indexed.publish hnew, fun s hs => ?_, h.plain_record hplain,
    fun s hs hs_plain => ?_, fun f hf => ?_,
    fun c hc => ?_⟩
  · rcases List.mem_append.mp hs with hs | hs
    · exact h.names s hs
    · obtain rfl := List.mem_singleton.mp hs
      exact .inl hplain
  · rw [Draft.get?_record]
    rcases List.mem_append.mp hs with hs | hs
    · rw [if_neg (h.indexed.name_ne hnew hs)]
      exact h.recorded s hs hs_plain
    · obtain rfl := List.mem_singleton.mp hs
      exact ⟨host.arity, if_pos rfl, .inl rfl⟩
  · cases h.functions f hf with
    | wrapper hname => exact .wrapper hname
    | late hf_plain hf_resident hlate =>
      exact .late hf_plain (hresident.mpr (.inl hf_resident)) hlate
    | new hf_plain hf_new hrecorded =>
      by_cases hname : f.name = host.name
      · exact .late hf_plain (hresident.mpr (.inr hname.symm)) (hpending f hf hname)
      · refine .new hf_plain ?_ ?_
        · rw [Bool.eq_false_iff, ne_eq, hresident, hf_new]
          simp [Ne.symm hname]
        · rw [Draft.get?_record, if_neg hname]
          exact hrecorded
  · obtain ⟨hc_resident, hagree⟩ := h.externals c hc
    refine ⟨hresident.mpr (.inl hc_resident), fun s hs hname => ?_⟩
    rcases List.mem_append.mp hs with hs | hs
    · exact hagree s hs hname
    · obtain rfl := List.mem_singleton.mp hs
      rw [← hname, hnew] at hc_resident
      cases hc_resident

end

end Consistent

-- ---------------------------------------------------------------------------
-- Statements
-- ---------------------------------------------------------------------------

theorem Workbench.run_engine (u : CodeUnit) (wrapper : String) (e : ResidentEngine S)
    (w : World S) : (Workbench.run u wrapper e w).2.1 = (Engine.finalize u e).2 := by
  unfold Workbench.run
  rcases Engine.finalize u e with ⟨result, e'⟩
  cases result with
  | error _ => rfl
  | ok _ =>
    simp only
    split <;> rfl

section
variable {overtaken : String → Nat → Prop} {b : Workbench (ResidentEngine S)}

theorem Consistent.process (h : Consistent overtaken b.engine b.draft) (hs : statement.Readable)
    (w : World S) :
    let b' := (b.process statement w).2.1
    Consistent overtaken b'.engine b'.draft := by
  have hlower := h.lower hs b.nextWrapper
  simp only [Workbench.process]
  split
  · exact hlower
  · exact hlower
  · simp only [Workbench.execute, Workbench.run_engine]
    exact hlower.finalize b.nextUnit
  · exact hlower.openUnit b.nextUnit

theorem Consistent.processAll (h : Consistent overtaken b.engine b.draft)
    (hs : ∀ r ∈ statements, Ensures Statement.Readable r) (w : World S) :
    let b' := (b.processAll w statements).2.1
    Consistent overtaken b'.engine b'.draft := by
  induction statements generalizing b w with
  | nil => exact h
  | cons r rest ih =>
    obtain ⟨hr, hrest⟩ := List.forall_mem_cons.mp hs
    cases hr with
    | error _ => exact ih h hrest w
    | ok hreadable => exact ih (h.process hreadable w) hrest _

theorem Consistent.register (h : Consistent overtaken b.engine b.draft) {host : HostFunction S}
    (hplain : IsPlain host.name)
    (hpending : b.engine.isResident host.name = false →
      ∀ f ∈ b.draft.unit.functions, f.name = host.name → overtaken f.name f.arity) :
    Consistent overtaken (b.register host).2.engine (b.register host).2.draft := by
  cases hr : b.engine.isResident host.name with
  | true =>
    rw [Workbench.register_taken hr]
    exact h
  | false =>
    rw [Workbench.register_new hr]
    exact h.withHost hplain hr (hpending hr)

theorem Consistent.registerBuiltins (h : Consistent overtaken b.engine b.draft)
    (hunit : b.draft.unit.functions = []) {names : List String}
    (hok : b.registerBuiltins names = (.ok (), b')) :
    Consistent overtaken b'.engine b'.draft := by
  induction names generalizing b with
  | nil =>
    cases hok
    exact h
  | cons name rest ih =>
    cases hname : HostFunction.builtin? (S := S) name with
    | none => simp [Workbench.registerBuiltins, NumericJit.registerBuiltins, hname] at hok
    | some host =>
      have hreg := h.register (isPlain_of_builtin? hname) (by simp [hunit])
      have hkept : (b.register host).2.draft.unit.functions = [] := hunit
      rw [Workbench.registerBuiltins_cons b name rest host hname] at hok
      rcases hb : b.register host with ⟨result, b₁⟩
      rw [hb] at hok hreg hkept
      cases result with
      | error _ => cases hok
      | ok _ => exact ih hreg hkept hok

end

-- ---------------------------------------------------------------------------
-- Texts and host functions in any order
-- ---------------------------------------------------------------------------

inductive SessionEvent (S : Type) where
  | text (source : String)
  | register (h : HostFunction S)

namespace Session

def react (s : Session S × World S) : SessionEvent S → Session S × World S
  | .text source => (s.1.process source s.2).2
  | .register h => ((s.1.register h).2, s.2)

def reactAll (s : Session S × World S) (events : List (SessionEvent S)) : Session S × World S :=
  events.foldl react s

/-- Somewhere in these events a host function of this name became resident while the open unit held
a definition of the name with this arity. -/
def Overtaken (s : Session S × World S) (events : List (SessionEvent S)) (name : String) (k : Nat) :
    Prop :=
  ∃ before h after, events = before ++ .register h :: after ∧ h.name = name ∧
    (reactAll s before).1.bench.engine.isResident name = false ∧
    ∃ f ∈ (reactAll s before).1.openUnit.functions, f.name = name ∧ f.arity = k

theorem Overtaken.append {s : Session S × World S} {events : List (SessionEvent S)}
    (h : Overtaken s events name k) (more : List (SessionEvent S)) :
    Overtaken s (events ++ more) name k := by
  obtain ⟨before, host, after, rfl, hrest⟩ := h
  exact ⟨before, host, after ++ more, by simp, hrest⟩

theorem consistent_start {config : Config} {s : Session S} (hstart : Session.start config = .ok s)
    (overtaken : String → Nat → Prop) :
    Consistent overtaken s.bench.engine s.bench.draft := by
  unfold Session.start at hstart
  simp only at hstart
  split at hstart <;> cases hstart
  rename_i b hok
  refine Consistent.registerBuiltins ?_ rfl hok
  exact ⟨ResidentEngine.indexed_empty _, by simp, (fun h => by cases h), by simp, by simp, by simp⟩

theorem consistent_reactAll {s : Session S × World S}
    (h : Consistent (Overtaken s []) s.1.bench.engine s.1.bench.draft)
    {events : List (SessionEvent S)} (hplain : ∀ h, .register h ∈ events → IsPlain h.name) :
    let s' := (reactAll s events).1
    Consistent (Overtaken s events) s'.bench.engine s'.bench.draft := by
  -- events are taken from the end: what was overtaken is a matter of the events before
  induction events using List.reverseRecOn with
  | nil => exact h
  | append_singleton before event ih =>
    have hbefore := (ih fun host hmem => hplain host (by simp [hmem])).mono
      fun name k hlate => hlate.append [event]
    simp only [reactAll, List.foldl_append, List.foldl_cons, List.foldl_nil]
    cases event with
    | text source => exact hbefore.processAll (readable_of_parse source) _
    | register host =>
      refine hbefore.register (hplain host (by simp)) fun hnew f hf hname => ?_
      exact ⟨before, host, [], rfl, hname.symm, hname ▸ hnew, f, hf, rfl, rfl⟩

end Session

/-- Whatever texts and host functions reach a session, in any order: every resident function but the
wrappers has a recorded arity, and where an arity is recorded for a resident function, the function
has it, unless a host function overtook a pending definition with that arity. -/
theorem recorded_arity_unless_overtaken (config : Config) {s₀ : Session S}
    (hstart : Session.start config = .ok s₀) (limits : Limits) (w : World S)
    (events : List (SessionEvent S)) (hplain : ∀ h, .register h ∈ events → IsPlain h.name) :
    let start := (s₀.withLimits limits, w)
    let bench := (Session.reactAll start events).1.bench
    ∀ f ∈ bench.engine.symbols,
      ((∃ n, f.name = wrapperName n) ∨ ∃ k, bench.draft.arities.get? f.name = some k) ∧
      ∀ k, bench.draft.arities.get? f.name = some k →
        k = f.arity ∨ Session.Overtaken start events f.name k := by
  intro start bench f hf
  have hbegin := Session.consistent_start hstart (Session.Overtaken start [])
  have h : Consistent (Session.Overtaken start events) bench.engine bench.draft :=
    Session.consistent_reactAll (hbegin.limits limits) hplain
  refine ⟨?_, fun k hk => h.agrees hk hf rfl⟩
  rcases h.names f hf with hf_plain | hwrapper
  · obtain ⟨k, hk, -⟩ := h.recorded f hf hf_plain
    exact .inr ⟨k, hk⟩
  · exact .inl hwrapper

/-- A host function overtakes a pending definition, a declaration records the arity of the
definition again, and other functions become resident after that. -/
theorem recorded_arity_unless_overtaken_by_host :
    let config : Config := { hostFunctions := ["printd"] }
    let host : HostFunction Unit :=
      { name := "f", arity := 2, run := fun _ _ => ⟨.zero, .empty, ()⟩ }
    let events := [.text "def f(x) x;", .register host, .text "extern f(x); nope();",
      .text "def g(a b) a; g(1, 2);"]
    ∃ s₀, Session.start config = .ok s₀ ∧ (∀ h, .register h ∈ events → IsPlain h.name) ∧
      let start := (s₀.withLimits {}, { state := () })
      let bench := (Session.reactAll start events).1.bench
      bench.engine.symbols.map (fun f => (f.name, f.arity)) =
          [("printd", 1), ("f", 2), ("g", 2), (wrapperName 0, 0)] ∧
        bench.draft.arities.get? "g" = some 2 ∧ bench.draft.arities.get? "f" = some 1 ∧
        Session.Overtaken start events "f" 1 := by
  intro config host events
  have hplain : ∀ h, .register h ∈ events → IsPlain h.name := by
    intro h hmem
    have heq : h = host := by simpa [events] using hmem
    simp [heq, IsPlain, host]
  -- the run itself is only evaluated by the kernel
  have hdiffers : ∀ {bench : Workbench (ResidentEngine Unit)} {overtaken : String → Nat → Prop},
      (∀ f ∈ bench.engine.symbols,
        ((∃ n, f.name = wrapperName n) ∨ ∃ k, bench.draft.arities.get? f.name = some k) ∧
        ∀ k, bench.draft.arities.get? f.name = some k → k = f.arity ∨ overtaken f.name k) →
      ("f", 2) ∈ bench.engine.symbols.map (fun f => (f.name, f.arity)) →
      bench.draft.arities.get? "f" = some 1 → overtaken "f" 1 := by
    intro bench overtaken hagree hmem hrecorded
    obtain ⟨f, hf, heq⟩ := List.mem_map.mp hmem
    obtain ⟨hname, harity⟩ := Prod.mk.inj heq
    have h := (hagree f hf).2 1
    rw [hname, harity] at h
    exact (h hrecorded).resolve_left (by decide)
  have hstart : Session.start (S := Unit) config = .ok _ := rfl
  refine ⟨_, hstart, hplain, ?_, ?_, ?_, ?_⟩
  · decide +kernel
  · decide +kernel
  · decide +kernel
  · exact hdiffers (recorded_arity_unless_overtaken config hstart {} _ events hplain)
      (by decide +kernel) (by decide +kernel)

/-- The recorded arity can differ from that of the resident function. -/
theorem recorded_arity_of_overtaken_definition :
    let host : HostFunction Unit :=
      { name := "f", arity := 2, run := fun _ _ => ⟨.zero, .empty, ()⟩ }
    ∃ s₀, Session.start { hostFunctions := [] } = .ok s₀ ∧ IsPlain host.name ∧
      let bench := (Session.reactAll (s₀, { state := () })
        [.text "def f(x) x;", .register host, .text "extern f(x);"]).1.bench
      bench.engine.symbols.map (fun f => (f.name, f.arity)) = [("f", 2)] ∧
        bench.draft.arities.get? "f" = some 1 := by
  intro host
  refine ⟨_, rfl, by simp [IsPlain, host], ?_⟩
  decide +kernel

end NumericJit
