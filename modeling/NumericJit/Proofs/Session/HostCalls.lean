import NumericJit.Proofs.Engine.Persistence
import NumericJit.Proofs.Session.Worlds
import NumericJit.Session.Basic

/-!
# The host calls of a session

A session can note every call of a host function. It is then the same session otherwise
(`Session.process_logged`), so what it has noted are the calls that the session makes.
-/

namespace NumericJit

variable {S : Type}

-- ---------------------------------------------------------------------------
-- Engines
-- ---------------------------------------------------------------------------

namespace ResidentEngine

variable (e : ResidentEngine S)

theorem isResident_logged : e.logged.isResident = e.isResident := rfl

theorem symbols_logged (a : Nat) :
    e.logged.symbols[a]? = e.symbols[a]?.map ResidentFunction.logged := List.getElem?_map

theorem resolve_logged (imports : List (String × Nat)) :
    e.logged.resolve imports = e.resolve imports := by
  induction imports with
  | nil => rfl
  | cons head rest ih =>
    obtain ⟨name, arity⟩ := head
    have haddress : e.logged.address? name = e.address? name := rfl
    rw [resolve, resolve, haddress, ih]
    cases e.address? name with
    | none => rfl
    | some a =>
      simp only [Option.bind_some, symbols_logged]
      cases e.symbols[a]? <;> rfl

variable {e} {u : CodeUnit}

theorem Accepts.logged (h : e.Accepts u) : e.logged.Accepts u where
  assembles := h.assembles
  valid := h.valid
  fresh := h.fresh
  imports c hc := by
    obtain ⟨a, s, ha, hs, harity⟩ := h.imports c hc
    exact ⟨a, s.logged, ha, by rw [symbols_logged, hs]; rfl, harity⟩

theorem Refuses.logged (h : e.Refuses u f) : e.logged.Refuses u f := by
  cases h with
  | encoding hencode => exact .encoding hencode
  | clash hencode hfind => exact .clash hencode hfind
  | imports hencode hfind hresolve => exact .imports hencode hfind (e.resolve_logged _ ▸ hresolve)

theorem publishAll_logged (new : List (ResidentFunction S)) :
    (new.foldl publish e).logged = (new.map ResidentFunction.logged).foldl publish e.logged := by
  induction new generalizing e with
  | nil => rfl
  | cons f rest ih =>
    have hpublish : (e.publish f).logged = e.logged.publish f.logged := by
      simp [ResidentEngine.logged, publish, ResidentFunction.logged]
    rw [List.foldl_cons, ih, hpublish]
    rfl

theorem withUnit_logged : (e.withUnit u).logged = e.logged.withUnit u := by
  have hlinks : e.logged.linksOf u = e.linksOf u := by
    simp only [linksOf, supplied, ResidentEngine.logged, List.length_map]
    rfl
  have hfunctions : (u.functions.map (e.ofUnit u)).map ResidentFunction.logged =
      u.functions.map (e.logged.ofUnit u) := by
    rw [List.map_map]
    refine List.map_congr_left fun f _ => ?_
    simp only [Function.comp_apply, ofUnit, ResidentFunction.logged, hlinks]
  have hpublished := publishAll_logged (e := e) (u.functions.map (e.ofUnit u))
  rw [hfunctions] at hpublished
  simp only [withUnit, ← hpublished, hlinks]
  rfl

theorem finalize_logged (u : CodeUnit) (e : ResidentEngine S) :
    Engine.finalize u e.logged =
      ((Engine.finalize u e).1, ResidentEngine.logged (Engine.finalize u e).2) := by
  obtain ⟨f, hrefuses, heq⟩ | ⟨haccepts, heq⟩ := e.finalize_cases u <;> rw [heq]
  · exact finalize_refused hrefuses.logged
  · rw [withUnit_logged]
    exact finalize_accepted haccepts.logged

end ResidentEngine

-- ---------------------------------------------------------------------------
-- Workbenches
-- ---------------------------------------------------------------------------

def World.noting (w : World S) (log : HostLog) : World (S × HostLog) where
  output := w.output
  state := (w.state, log)

theorem World.eq_noting {w : World S} {v : World (S × HostLog)} (hstate : v.state.1 = w.state)
    (houtput : v.output = w.output) : v = w.noting v.state.2 := by
  rw [World.noting, ← hstate, ← houtput]

namespace Workbench

def logged (b : Workbench (ResidentEngine S)) : Workbench (ResidentEngine (S × HostLog)) where
  engine := b.engine.logged
  draft := b.draft
  nextUnit := b.nextUnit
  nextWrapper := b.nextWrapper
  showUnits := b.showUnits

def Logs (r : α × Workbench (ResidentEngine S) × World S)
    (r' : α × Workbench (ResidentEngine (S × HostLog)) × World (S × HostLog)) : Prop :=
  ∃ log, r' = (r.1, r.2.1.logged, r.2.2.noting log)

theorem run_logged (u : CodeUnit) (wrapper : String) (e : ResidentEngine S) (w : World S)
    (log : HostLog) :
    ∃ log', run u wrapper e.logged (w.noting log) =
      ((run u wrapper e w).1, (run u wrapper e w).2.1.logged,
        (run u wrapper e w).2.2.noting log') := by
  simp only [run, ResidentEngine.finalize_logged]
  rcases Engine.finalize u e with ⟨result, engine⟩
  cases result with
  | error f => exact ⟨log, rfl⟩
  | ok _ =>
    have haddress : Engine.address? engine.logged wrapper = Engine.address? engine wrapper := rfl
    simp only [haddress]
    cases Engine.address? engine wrapper with
    | none => exact ⟨log, rfl⟩
    | some a =>
      obtain ⟨hanswer, hstate, houtput⟩ := invoke_logged engine a [] w log
      exact ⟨_, Prod.ext hanswer (Prod.ext rfl (World.eq_noting hstate houtput))⟩

theorem execute_logged (b : Workbench (ResidentEngine S)) (wrapper : String) (w : World S)
    (log : HostLog) : Logs (b.execute wrapper w) (b.logged.execute wrapper (w.noting log)) := by
  have hshown :
      (if b.showUnits then (w.noting log).print (listing b.draft.unit) else w.noting log) =
        (if b.showUnits then w.print (listing b.draft.unit) else w).noting log := by
    split <;> rfl
  obtain ⟨log', hrun⟩ := run_logged b.draft.unit wrapper b.engine
    (if b.showUnits then w.print (listing b.draft.unit) else w) log
  rw [← hshown] at hrun
  have hrun : run b.logged.draft.unit wrapper b.logged.engine
      (if b.logged.showUnits then (w.noting log).print (listing b.logged.draft.unit)
        else w.noting log) = _ := hrun
  refine ⟨log', ?_⟩
  simp only [execute_eq, hrun]
  rfl

theorem process_logged (b : Workbench (ResidentEngine S)) (statement : Statement) (w : World S)
    (log : HostLog) : Logs (b.process statement w) (b.logged.process statement (w.noting log)) := by
  have hlowering : b.logged.lowering statement = b.lowering statement := by
    have hresident : Engine.isResident b.engine.logged = Engine.isResident b.engine :=
      b.engine.isResident_logged
    simp only [lowering, logged, hresident]
  rcases hlower : b.lowering statement with ⟨result, draft⟩
  rw [hlower] at hlowering
  cases result with
  | error e =>
    rw [process_error hlower, process_error hlowering]
    exact ⟨log, rfl⟩
  | ok lowered =>
    cases lowered with
    | definition name =>
      rw [process_definition hlower, process_definition hlowering]
      exact ⟨log, rfl⟩
    | declaration name =>
      rw [process_declaration hlower, process_declaration hlowering]
      exact ⟨log, rfl⟩
    | wrapper name =>
      rw [process_wrapper hlower, process_wrapper hlowering]
      exact execute_logged { b with draft, nextWrapper := b.nextWrapper + 1 } name w log

theorem processAll_logged (b : Workbench (ResidentEngine S)) (w : World S)
    (statements : List (Except Failure Statement)) (log : HostLog) :
    Logs (b.processAll w statements) (b.logged.processAll (w.noting log) statements) := by
  induction statements generalizing b w log with
  | nil => exact ⟨log, rfl⟩
  | cons r rest ih =>
    cases r with
    | error e =>
      obtain ⟨log', hrest⟩ := ih b w log
      rw [processAll_error, processAll_error, hrest]
      exact ⟨log', rfl⟩
    | ok statement =>
      obtain ⟨log₁, hstep⟩ := process_logged b statement w log
      obtain ⟨log₂, hrest⟩ := ih (b.process statement w).2.1 (b.process statement w).2.2 log₁
      rw [processAll_ok, processAll_ok, hstep, hrest]
      exact ⟨log₂, rfl⟩

end Workbench

-- ---------------------------------------------------------------------------
-- Sessions
-- ---------------------------------------------------------------------------

namespace Session

def logged (s : Session S) : Session (S × HostLog) where
  config := s.config
  bench := s.bench.logged

def hostCalls (s : Session S) (source : String) (w : World S) : HostLog :=
  (s.logged.process source (w.noting [])).2.2.state.2

theorem process_logged (s : Session S) (source : String) (w : World S) :
    s.logged.process source (w.noting []) =
      ((s.process source w).1, (s.process source w).2.1.logged,
        (s.process source w).2.2.noting (s.hostCalls source w)) := by
  obtain ⟨log, hprocess⟩ := s.bench.processAll_logged w (parseStatements source) []
  have heq : s.logged.process source (w.noting []) =
      ((s.process source w).1, (s.process source w).2.1.logged,
        (s.process source w).2.2.noting log) := by
    simp only [process, logged, hprocess]
  rw [hostCalls, heq]
  rfl

end Session

end NumericJit
