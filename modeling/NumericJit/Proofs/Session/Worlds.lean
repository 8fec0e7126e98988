import NumericJit.Proofs.Engine.Worlds
import NumericJit.Proofs.Lowering.Places
import NumericJit.Proofs.Session.Rejection

/-!
# What statements do not depend on

What becomes of a statement depends neither on what was written before it
(`Workbench.processAll_sameState`) nor on where it stands in a text, but for the places of failures
(`Workbench.processAll_unplaced`).
-/

namespace NumericJit

variable {S : Type}

-- ---------------------------------------------------------------------------
-- What was written before
-- ---------------------------------------------------------------------------

def World.SameState (w w' : World S) : Prop := w'.state = w.state

theorem alikeAt_sameState (symbols : List (ResidentFunction S)) :
    AlikeAt World.SameState (fun _ => True) symbols symbols := by
  refine ⟨fun {a} _ => ?_, fun _ _ _ _ => trivial⟩
  cases symbols[a]? with
  | none => exact .none
  | some s =>
    obtain ⟨name, arity, body⟩ := s
    refine .some ⟨rfl, rfl, ?_⟩
    cases body with
    | code locals body links => exact .code locals body links
    | host run =>
      refine .host fun args {w w'} hw => ?_
      have hstate : w'.state = w.state := hw
      simp only [hostCall, hstate]
      exact ⟨rfl, rfl⟩

structure SameBench (r r' : α × Workbench (ResidentEngine S) × World S) : Prop where
  result : r'.1 = r.1
  bench : r'.2.1 = r.2.1
  state : r.2.2.SameState r'.2.2

namespace Workbench

variable {b : Workbench (ResidentEngine S)} {w w' : World S}

theorem run_sameState (u : CodeUnit) (wrapper : String) (e : ResidentEngine S)
    (hw : w.SameState w') :
    (run u wrapper e w').1 = (run u wrapper e w).1 ∧
      (run u wrapper e w').2.1 = (run u wrapper e w).2.1 ∧
      (run u wrapper e w).2.2.SameState (run u wrapper e w').2.2 := by
  simp only [run]
  rcases Engine.finalize u e with ⟨result, engine⟩
  cases result with
  | error f => exact ⟨rfl, rfl, hw⟩
  | ok _ =>
    simp only
    cases Engine.address? engine wrapper with
    | none => exact ⟨rfl, rfl, hw⟩
    | some a =>
      obtain ⟨hanswer, hstate⟩ := (alikeAt_sameState engine.symbols).invoke rfl trivial [] hw
      exact ⟨hanswer.symm, rfl, hstate⟩

theorem execute_sameState (b : Workbench (ResidentEngine S)) (wrapper : String)
    (hw : w.SameState w') : SameBench (b.execute wrapper w) (b.execute wrapper w') := by
  have hshown : World.SameState (if b.showUnits then w.print (listing b.draft.unit) else w)
      (if b.showUnits then w'.print (listing b.draft.unit) else w') := by
    split <;> exact hw
  obtain ⟨hresult, hengine, hstate⟩ := run_sameState b.draft.unit wrapper b.engine hshown
  simp only [execute_eq]
  exact ⟨congrArg (Except.map Outcome.value) hresult,
    congrArg (fun engine => { b.openUnit with engine }) hengine, hstate⟩

theorem process_sameState (b : Workbench (ResidentEngine S)) (statement : Statement)
    (hw : w.SameState w') : SameBench (b.process statement w) (b.process statement w') := by
  rcases hlower : b.lowering statement with ⟨result, draft⟩
  cases result with
  | error e =>
    rw [process_error hlower, process_error hlower]
    exact ⟨rfl, rfl, hw⟩
  | ok lowered =>
    cases lowered with
    | definition name =>
      rw [process_definition hlower, process_definition hlower]
      exact ⟨rfl, rfl, hw⟩
    | declaration name =>
      rw [process_declaration hlower, process_declaration hlower]
      exact ⟨rfl, rfl, hw⟩
    | wrapper name =>
      rw [process_wrapper hlower, process_wrapper hlower]
      exact execute_sameState _ name hw

theorem processAll_ok (b : Workbench (ResidentEngine S)) (w : World S) (statement : Statement)
    (rest : List (Except Failure Statement)) :
    b.processAll w (.ok statement :: rest) =
      ((b.process statement w).1 ::
          ((b.process statement w).2.1.processAll (b.process statement w).2.2 rest).1,
        ((b.process statement w).2.1.processAll (b.process statement w).2.2 rest).2) := by
  simp only [processAll]

theorem processAll_error (b : Workbench (ResidentEngine S)) (w : World S) (e : Failure)
    (rest : List (Except Failure Statement)) :
    b.processAll w (.error e :: rest) =
      (.error e :: (b.processAll w rest).1, (b.processAll w rest).2) := by
  simp only [processAll]

theorem processAll_append (b : Workbench (ResidentEngine S)) (w : World S)
    (statements more : List (Except Failure Statement)) :
    b.processAll w (statements ++ more) =
      ((b.processAll w statements).1 ++
          ((b.processAll w statements).2.1.processAll (b.processAll w statements).2.2 more).1,
        ((b.processAll w statements).2.1.processAll (b.processAll w statements).2.2 more).2) := by
  induction statements generalizing b w with
  | nil => rfl
  | cons r rest ih =>
    cases r with
    | error e => rw [List.cons_append, processAll_error, processAll_error, ih, List.cons_append]
    | ok statement => rw [List.cons_append, processAll_ok, processAll_ok, ih, List.cons_append]

theorem processAll_sameState (b : Workbench (ResidentEngine S))
    (statements : List (Except Failure Statement)) (hw : w.SameState w') :
    SameBench (b.processAll w statements) (b.processAll w' statements) := by
  induction statements generalizing b w w' with
  | nil => exact ⟨rfl, rfl, hw⟩
  | cons r rest ih =>
    cases r with
    | error e =>
      obtain ⟨hresult, hbench, hstate⟩ := ih b hw
      rw [processAll_error, processAll_error]
      exact ⟨congrArg (List.cons (.error e)) hresult, hbench, hstate⟩
    | ok statement =>
      obtain ⟨houtcome, hbench, hstate⟩ := process_sameState b statement hw
      rw [processAll_ok, processAll_ok, hbench, houtcome]
      obtain ⟨hresult, hbench, hstate⟩ := ih (b.process statement w).2.1 hstate
      exact ⟨congrArg (List.cons _) hresult, hbench, hstate⟩

-- ---------------------------------------------------------------------------
-- Places
-- ---------------------------------------------------------------------------

theorem process_relocate (m : Relocation) (b : Workbench (ResidentEngine S))
    (statement : Statement) (w : World S) :
    SameButPlaces (b.process statement w) (b.process (statement.relocate m) w) := by
  have hlower : SameButPlaces (b.lowering statement) (b.lowering (statement.relocate m)) :=
    Draft.lower_relocate m b.draft _ _ statement
  generalize hr : b.lowering statement = r at hlower
  generalize hr' : b.lowering (statement.relocate m) = r' at hlower
  cases hlower with
  | error hf draft =>
    rw [process_error hr, process_error hr']
    exact .error hf _
  | ok lowered draft =>
    cases lowered with
    | definition name =>
      rw [process_definition hr, process_definition hr']
      exact .refl _
    | declaration name =>
      rw [process_declaration hr, process_declaration hr']
      exact .refl _
    | wrapper name =>
      rw [process_wrapper hr, process_wrapper hr']
      exact .refl _

theorem processAll_erased (b : Workbench (ResidentEngine S)) (w : World S)
    (statements : List (Except Failure Statement)) :
    (b.processAll w (statements.map unplaced)).1.map worded =
        (b.processAll w statements).1.map worded ∧
      (b.processAll w (statements.map unplaced)).2 = (b.processAll w statements).2 := by
  induction statements generalizing b w with
  | nil => exact ⟨rfl, rfl⟩
  | cons r rest ih =>
    cases r with
    | error f =>
      obtain ⟨houtcomes, hleft⟩ := ih b w
      have hwording : worded (.error (f.relocate .erase) : Except Failure Outcome) =
          worded (.error f) := congrArg Except.error (f.wording_relocate .erase)
      rw [List.map_cons, unplaced, relocated, processAll_error, processAll_error]
      exact ⟨congrArg₂ List.cons hwording houtcomes, hleft⟩
    | ok statement =>
      obtain ⟨houtcome, hstate⟩ := (process_relocate .erase b statement w).worded
      rw [List.map_cons, unplaced, relocated, processAll_ok, processAll_ok, hstate]
      obtain ⟨houtcomes, hleft⟩ := ih (b.process statement w).2.1 (b.process statement w).2.2
      exact ⟨congrArg₂ List.cons houtcome houtcomes, hleft⟩

/-- Statements that are the same but for places come to the same, but for the places of failures. -/
theorem processAll_unplaced (b : Workbench (ResidentEngine S)) (w : World S)
    {statements statements' : List (Except Failure Statement)}
    (h : statements'.map unplaced = statements.map unplaced) :
    (b.processAll w statements').1.map worded = (b.processAll w statements).1.map worded ∧
      (b.processAll w statements').2 = (b.processAll w statements).2 := by
  obtain ⟨houtcomes, hleft⟩ := processAll_erased b w statements
  obtain ⟨houtcomes', hleft'⟩ := processAll_erased b w statements'
  rw [h] at houtcomes' hleft'
  exact ⟨houtcomes'.symm.trans houtcomes, hleft'.symm.trans hleft⟩

end Workbench

end NumericJit
