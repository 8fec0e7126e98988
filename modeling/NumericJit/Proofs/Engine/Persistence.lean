import NumericJit.Proofs.Engine.Worlds

/-!
# Resident code stays what it is

Links are addresses, and they lead to functions that are resident by the time the unit is
(`LinksInside`). So a call at an address only ever reaches what was resident together with it, and
an engine that has grown since answers it as before (`resident_code_persists`): the host functions
are called in the same order with the same arguments, and what they and the call answer is the same.
Host functions may have a state; it is enough that they behave the same in the two states from which
the calls start.
-/

namespace NumericJit

variable {S : Type}

-- ---------------------------------------------------------------------------
-- Host functions
-- ---------------------------------------------------------------------------

/-- A host function that behaves the same in states that are alike. -/
structure Respects (Alike : S → S → Prop) (run : List Number → S → HostReply S) : Prop where
  value : ∀ args {t t'}, Alike t t' → (run args t).value = (run args t').value
  output : ∀ args {t t'}, Alike t t' → (run args t).output = (run args t').output
  state : ∀ args {t t'}, Alike t t' → Alike (run args t).state (run args t').state

/-- Worlds whose states are alike and that have had the same written to them since certain
outputs. -/
def SinceThen (Alike : S → S → Prop) (output output' : ByteArray) (w w' : World S) : Prop :=
  Alike w.state w'.state ∧
    ∃ written, w.output = output ++ written ∧ w'.output = output' ++ written

theorem hostCall_respects {Alike : S → S → Prop} (h : Respects Alike run) (args : List Number)
    (hw : SinceThen Alike output output' w w') :
    CallResult.Alike (SinceThen Alike output output') (hostCall run args w)
      (hostCall run args w') := by
  obtain ⟨hstate, written, hw, hw'⟩ := hw
  refine ⟨congrArg Except.ok (h.value args hstate), h.state args hstate,
    written ++ (run args w.state).output, ?_, ?_⟩
  · simp only [hostCall, hw, ByteArray.append_assoc]
  · simp only [hostCall, hw', h.output args hstate, ByteArray.append_assoc]

-- ---------------------------------------------------------------------------
-- Calls of host functions
-- ---------------------------------------------------------------------------

abbrev HostLog := List (String × List Number)

def loggedRun (name : String) (run : List Number → S → HostReply S) (args : List Number)
    (t : S × HostLog) : HostReply (S × HostLog) where
  value := (run args t.1).value
  output := (run args t.1).output
  state := ((run args t.1).state, t.2 ++ [(name, args)])

def SameLog (Alike : S → S → Prop) (t t' : S × HostLog) : Prop := Alike t.1 t'.1 ∧ t.2 = t'.2

theorem Respects.logged {Alike : S → S → Prop} (h : Respects Alike run) (name : String) :
    Respects (SameLog Alike) (loggedRun name run) where
  value args _ _ ht := h.value args ht.1
  output args _ _ ht := h.output args ht.1
  state args _ _ ht := ⟨h.state args ht.1, congrArg (· ++ [(name, args)]) ht.2⟩

def ResidentFunction.logged (s : ResidentFunction S) : ResidentFunction (S × HostLog) where
  name := s.name
  arity := s.arity
  body :=
    match s.body with
    | .host run => .host (loggedRun s.name run)
    | .code locals body links => .code locals body links

namespace ResidentEngine

def logged (e : ResidentEngine S) : ResidentEngine (S × HostLog) where
  limits := e.limits
  addresses := e.addresses
  symbols := e.symbols.map ResidentFunction.logged
  instances := e.instances

def hostCalls (e : ResidentEngine S) (a : Nat) (args : List Number) (w : World S) : HostLog :=
  (e.logged.invoke a args { output := w.output, state := (w.state, []) }).2.state.2

/-- Whether a call comes to an end if loops may go round as often as they like. -/
def Terminates (e : ResidentEngine S) (a : Nat) (args : List Number) (w : World S) : Prop :=
  ∃ rounds, (callAt e.symbols rounds e.limits.callDepth a args w).1 ≠ .error .unfinished

end ResidentEngine

theorem ResidentFunction.logged_links (s : ResidentFunction S) : s.logged.links = s.links := by
  obtain ⟨name, arity, body⟩ := s
  cases body <;> rfl

/-- Noting calls changes nothing else. -/
theorem invoke_logged (e : ResidentEngine S) (a : Nat) (args : List Number) (w : World S)
    (log : HostLog) :
    (e.logged.invoke a args { output := w.output, state := (w.state, log) }).1 =
        (e.invoke a args w).1 ∧
      (e.logged.invoke a args { output := w.output, state := (w.state, log) }).2.state.1 =
        (e.invoke a args w).2.state ∧
      (e.logged.invoke a args { output := w.output, state := (w.state, log) }).2.output =
        (e.invoke a args w).2.output := by
  let forgets (w : World S) (w' : World (S × HostLog)) : Prop :=
    w.state = w'.state.1 ∧ w.output = w'.output
  have halike : AlikeAt forgets (fun _ => True) e.symbols e.logged.symbols := by
    refine ⟨fun {a} _ => ?_, fun _ _ _ _ => trivial⟩
    simp only [ResidentEngine.logged, List.getElem?_map]
    cases e.symbols[a]? with
    | none => exact .none
    | some s =>
      obtain ⟨name, arity, body⟩ := s
      refine .some ⟨rfl, rfl, ?_⟩
      cases body with
      | code locals body links => exact .code locals body links
      | host run =>
        refine .host fun args {w w'} hw => ?_
        obtain ⟨hstate, houtput⟩ := hw
        simp only [hostCall, loggedRun, ← hstate, ← houtput]
        exact ⟨rfl, rfl, rfl⟩
  have hstart : forgets w { output := w.output, state := (w.state, log) } := ⟨rfl, rfl⟩
  obtain ⟨hanswer, hstate, houtput⟩ := halike.invoke (a := a) rfl trivial args hstart
  exact ⟨hanswer.symm, hstate.symm, houtput.symm⟩

-- ---------------------------------------------------------------------------
-- Links
-- ---------------------------------------------------------------------------

def LinksInside (symbols : List (ResidentFunction S)) : Prop :=
  ∀ s ∈ symbols, ∀ link ∈ s.links, link < symbols.length

namespace ResidentEngine

variable {e e' : ResidentEngine S}

theorem linksInside_grows (h : LinksInside e.symbols) (hgrows : e.Grows e') :
    LinksInside e'.symbols := by
  have hold : ∀ more, ∀ s ∈ e.symbols, ∀ link ∈ s.links, link < (e.symbols ++ more).length := by
    intro more s hs link hlink
    rw [List.length_append]
    exact Nat.lt_add_right _ (h s hs link hlink)
  cases hgrows with
  | unchanged => exact h
  | host hnew =>
    refine List.forall_mem_append.mpr ⟨hold _, ?_⟩
    simp [ResidentFunction.links]
  | @unit u haccepts =>
    rw [withUnit_symbols]
    refine List.forall_mem_append.mpr ⟨hold _, ?_⟩
    intro s hs link hlink
    obtain ⟨f, -, rfl⟩ := List.mem_map.mp hs
    simp only [List.length_append, List.length_map]
    rcases List.mem_append.mp hlink with hlink | hlink
    · -- an import was found among the functions that were resident before
      simp only [supplied, List.map_map] at hlink
      obtain ⟨c, hc, rfl⟩ := List.mem_map.mp hlink
      obtain ⟨a, s, ha, hs, -⟩ := haccepts.imports c hc
      simp only [Function.comp_apply, ha, Option.getD_some]
      exact Nat.lt_add_right _ (List.getElem?_eq_some_iff.mp hs).1
    · obtain ⟨i, hi, rfl⟩ := List.mem_map.mp hlink
      exact Nat.add_lt_add_left (List.mem_range.mp hi) _

/-- An engine that has grown has the functions that it had, and others behind them. -/
theorem serveAll_extends (e : ResidentEngine S) (requests : List (EngineRequest S)) :
    (e.serveAll requests).limits = e.limits ∧
      ∃ more, (e.serveAll requests).symbols = e.symbols ++ more := by
  refine serveAll_keeps
    (P := fun e' => e'.limits = e.limits ∧ ∃ more, e'.symbols = e.symbols ++ more)
    ⟨rfl, [], by simp⟩ (fun {e₁ e₂} h hgrows => ?_) requests
  obtain ⟨hlimits, more, hmore⟩ := h
  obtain ⟨hlimits', others, hothers⟩ := hgrows.appends
  exact ⟨hlimits'.trans hlimits, more ++ others, by rw [hothers, hmore, List.append_assoc]⟩

/-- The host functions of an engine are those that it was asked to take up. -/
theorem serveAll_hosts {P : (List Number → S → HostReply S) → Prop}
    {requests : List (EngineRequest S)} (hhosts : ∀ h, .declare h ∈ requests → P h.run)
    (he : ∀ s ∈ e.symbols, ∀ run, s.body = .host run → P run) :
    ∀ s ∈ (e.serveAll requests).symbols, ∀ run, s.body = .host run → P run := by
  induction requests generalizing e with
  | nil => exact he
  | cons request rest ih =>
    refine ih (fun h hmem => hhosts h (List.mem_cons_of_mem _ hmem)) ?_
    cases request with
    | declare h =>
      obtain ⟨f, -, heq⟩ | ⟨-, heq⟩ := e.declare_cases h <;> rw [serve, heq]
      · exact he
      · refine List.forall_mem_append.mpr ⟨he, ?_⟩
        rw [List.forall_mem_singleton]
        intro run hrun
        cases hrun
        exact hhosts h (by simp)
    | finalize u =>
      obtain ⟨f, -, heq⟩ | ⟨-, heq⟩ := e.finalize_cases u <;> rw [serve, heq]
      · exact he
      · rw [withUnit_symbols]
        refine List.forall_mem_append.mpr ⟨he, ?_⟩
        intro s hs run hrun
        obtain ⟨f, -, rfl⟩ := List.mem_map.mp hs
        cases hrun

end ResidentEngine

-- ---------------------------------------------------------------------------
-- Calls into an engine that has grown
-- ---------------------------------------------------------------------------

def HostsRespect (Alike : S → S → Prop) (symbols : List (ResidentFunction S)) : Prop :=
  ∀ s ∈ symbols, ∀ run, s.body = .host run → Respects Alike run

section
variable {symbols : List (ResidentFunction S)} {Alike : S → S → Prop}

theorem HostsRespect.logged (h : HostsRespect Alike symbols) :
    HostsRespect (SameLog Alike) (symbols.map ResidentFunction.logged) := by
  intro s' hs' run' hrun
  obtain ⟨⟨name, arity, body⟩, hs, rfl⟩ := List.mem_map.mp hs'
  cases body with
  | code locals body links => cases hrun
  | host run =>
    cases hrun
    exact (h _ hs run rfl).logged name

theorem LinksInside.logged (h : LinksInside symbols) :
    LinksInside (symbols.map ResidentFunction.logged) := by
  intro s' hs' link hlink
  obtain ⟨s, hs, rfl⟩ := List.mem_map.mp hs'
  rw [s.logged_links] at hlink
  rw [List.length_map]
  exact h s hs link hlink

/-- What comes behind is not reached from what was there. -/
theorem LinksInside.alikeAt (h : LinksInside symbols) (hhosts : HostsRespect Alike symbols)
    (output output' : ByteArray) (more : List (ResidentFunction S)) :
    AlikeAt (SinceThen Alike output output') (· < symbols.length) symbols (symbols ++ more) := by
  constructor
  · intro a ha
    rw [List.getElem?_append_left ha, List.getElem?_eq_getElem ha]
    refine .some ⟨rfl, rfl, ?_⟩
    have hhost := hhosts symbols[a] (List.getElem_mem ha)
    cases hbody : symbols[a].body with
    | host run => exact .host fun args {_ _} hw => hostCall_respects (hhost run hbody) args hw
    | code locals body links => exact .code locals body links
  · intro a s _ hs link hlink
    exact h s (List.mem_of_getElem? hs) link hlink

end

/-- Whatever an engine was asked to take up, and whatever it is asked after that: a function that is
resident stays so, its calls are linked to what they were linked to, and invoking it comes to the
same before and after, with the same calls of host functions, if these behave the same. -/
theorem resident_code_persists (limits : Limits) (before after : List (EngineRequest S))
    {Alike : S → S → Prop} (hhosts : ∀ h, .declare h ∈ before → Respects Alike h.run) :
    let e := ResidentEngine.serveAll { limits } before
    let e' := e.serveAll after
    ∀ {a s}, e.symbols[a]? = some s →
      (e'.symbols[a]? = some s ∧ ∀ link ∈ s.links, ∃ callee,
        e.symbols[link]? = some callee ∧ e'.symbols[link]? = some callee) ∧
      ∀ args w w', Alike w.state w'.state →
        (e.Terminates a args w ↔ e'.Terminates a args w') ∧
        (e.invoke a args w).1 = (e'.invoke a args w').1 ∧
        e.hostCalls a args w = e'.hostCalls a args w' ∧
        SinceThen Alike w.output w'.output (e.invoke a args w).2 (e'.invoke a args w').2 := by
  intro e e' a s ha
  have hinside : LinksInside e.symbols :=
    ResidentEngine.serveAll_keeps (P := fun e => LinksInside e.symbols) (by simp [LinksInside])
      ResidentEngine.linksInside_grows before
  have hrespects : HostsRespect Alike e.symbols :=
    ResidentEngine.serveAll_hosts hhosts (by simp)
  obtain ⟨hlimits, more, hmore⟩ : e'.limits = e.limits ∧ ∃ more, e'.symbols = e.symbols ++ more :=
    e.serveAll_extends after
  have hkept : ∀ {a : Nat} {s}, e.symbols[a]? = some s → e'.symbols[a]? = some s := by
    intro a s ha
    rw [hmore, List.getElem?_append_left (List.getElem?_eq_some_iff.mp ha).1]
    exact ha
  have hlt : a < e.symbols.length := (List.getElem?_eq_some_iff.mp ha).1
  refine ⟨⟨hkept ha, fun link hlink => ?_⟩, fun args w w' hw => ?_⟩
  · have hlink := List.getElem?_eq_getElem (hinside s (List.mem_of_getElem? ha) link hlink)
    exact ⟨_, hlink, hkept hlink⟩
  · have hplain := hinside.alikeAt hrespects w.output w'.output more
    have hlogged : AlikeAt (SinceThen (SameLog Alike) w.output w'.output)
        (fun a => a < e.symbols.length) e.logged.symbols e'.logged.symbols := by
      have hlogged := hinside.logged.alikeAt hrespects.logged w.output w'.output
        (more.map ResidentFunction.logged)
      rw [List.length_map, ← List.map_append, ← hmore] at hlogged
      exact hlogged
    rw [← hmore] at hplain
    have hstart : SinceThen Alike w.output w'.output w w' := ⟨hw, .empty, by simp, by simp⟩
    obtain ⟨hvalue, hworld⟩ := hplain.invoke hlimits hlt args hstart
    refine ⟨?_, hvalue, ?_, hworld⟩
    · have hcalls : ∀ rounds,
          (ResidentEngine.callAt e.symbols rounds e.limits.callDepth a args w).1 =
            (ResidentEngine.callAt e'.symbols rounds e.limits.callDepth a args w').1 :=
        fun rounds => (hplain.callAt hlt rounds e.limits.callDepth args hstart).answer
      simp only [ResidentEngine.Terminates, hlimits, hcalls]
    · have hstart_logged : SinceThen (SameLog Alike) w.output w'.output
          { output := w.output, state := (w.state, []) }
          { output := w'.output, state := (w'.state, []) } :=
        ⟨⟨hw, rfl⟩, .empty, by simp, by simp⟩
      have hlimits_logged : e'.logged.limits = e.logged.limits := hlimits
      exact (hlogged.invoke hlimits_logged hlt args hstart_logged).2.1.2

/-- A later unit and a later host function want the name of a callee and are refused, another unit
is taken up. The host function counts its calls and starts from any two counts. -/
theorem resident_code_persists_past_conflicts :
    let tick : HostFunction Nat :=
      ⟨"tick", 1, fun args t => { value := args.headD .zero, state := t + 1 }⟩
    let twice : SlotFunction :=
      ⟨"twice", ["x"], 1, [.load 0, .call "tick" 1, .call "tick" 1]⟩
    let main : SlotFunction := ⟨"main", ["x"], 1, [.load 0, .call "twice" 1]⟩
    let before : List (EngineRequest Nat) := [
      .declare tick, .finalize { id := 0, externals := [("tick", 1)], functions := [twice] },
      .finalize { id := 1, externals := [("twice", 1)], functions := [main] }]
    let after : List (EngineRequest Nat) := [
      .finalize { id := 2, functions := [
        ⟨"other", [], 0, [.const .one]⟩, ⟨"twice", ["x"], 1, [.load 0]⟩] },
      .declare { tick with name := "twice" },
      .finalize { id := 3, externals := [("main", 1)], functions := [
        ⟨"again", ["x"], 1, [.load 0, .call "main" 1]⟩] }]
    let e := ResidentEngine.serveAll {} before
    let e' := e.serveAll after
    (∀ h, .declare h ∈ before → Respects (fun _ _ => True) h.run) ∧
      e.names = ["tick", "twice", "main"] ∧ e'.names = ["tick", "twice", "main", "again"] ∧
      e.hostCalls 2 [.one] { state := 0 } = [("tick", [.one]), ("tick", [.one])] ∧
      ∀ count, e'.hostCalls 2 [.one] { state := count } = [("tick", [.one]), ("tick", [.one])] := by
  intro tick twice main before after e e'
  have hhosts : ∀ h, .declare h ∈ before → Respects (fun _ _ => True) h.run := by
    intro h hmem
    have heq : h = tick := by simpa [before] using hmem
    subst heq
    exact ⟨fun _ _ _ _ => rfl, fun _ _ _ _ => rfl, fun _ _ _ _ => trivial⟩
  have hnames : e.names = ["tick", "twice", "main"] := by decide +kernel
  have hcalls : e.hostCalls 2 [.one] { state := 0 } = [("tick", [.one]), ("tick", [.one])] := by
    decide +kernel
  refine ⟨hhosts, hnames, by decide +kernel, hcalls, fun count => ?_⟩
  obtain ⟨s, hs, -⟩ := Option.map_eq_some_iff.mp
    ((List.getElem?_map ..).symm.trans (congrArg (·[2]?) hnames))
  have hsame := ((resident_code_persists {} before after hhosts hs).2 [.one] { state := 0 }
    { state := count } trivial).2.2.1
  exact hsame.symm.trans hcalls

end NumericJit
