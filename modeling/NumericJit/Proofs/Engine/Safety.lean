import NumericJit.Proofs.Engine.Growth
import NumericJit.Proofs.Wasm.Bounds
import NumericJit.Proofs.Wasm.Soundness

/-!
# Resident code runs safely

The body of a resident function was checked when its unit was finalized, and its links lead to
functions that take as many arguments as it was checked with (`Checked`). As an engine grows this
stays so, whatever it is asked, and so a call with the right number of arguments is never stuck, for
any bound on calls inside calls and on rounds of a loop (`callAt_safe`). Beyond the bounds nothing
is left open: the call gives a number, goes on forever, or exhausts the call stack (`Settles`).
-/

namespace NumericJit

open Wasm

variable {S : Type}

/-- A resident function that was checked with the arities of the functions it is linked to. -/
inductive Checked (symbols : List (ResidentFunction S)) (s : ResidentFunction S) : Prop where
  | host (hbody : s.body = .host run)
  | code (u : CodeUnit) (hbody : s.body = .code locals ops links)
    (hlinks : LinksFit symbols u links)
    (hcheck : checkOps ⟨s.arity + locals, (assembled u).arity?⟩ [.block] ops [] = some [.num])

def AllChecked (symbols : List (ResidentFunction S)) : Prop := ∀ s ∈ symbols, Checked symbols s

section
variable {symbols : List (ResidentFunction S)} {s : ResidentFunction S}

theorem Checked.mono (h : Checked symbols s) (more : List (ResidentFunction S)) :
    Checked (symbols ++ more) s := by
  cases h with
  | host hbody => exact .host hbody
  | code u hbody hlinks hcheck => exact .code u hbody (hlinks.mono more) hcheck

theorem AllChecked.grow (h : AllChecked symbols) {new : List (ResidentFunction S)}
    (hnew : ∀ s ∈ new, Checked (symbols ++ new) s) : AllChecked (symbols ++ new) := by
  intro s hs
  rcases List.mem_append.mp hs with hs | hs
  · exact (h s hs).mono new
  · exact hnew s hs

theorem AllChecked.grows {e e' : ResidentEngine S} (h : AllChecked e.symbols)
    (hindexed : e.Indexed) (hgrows : e.Grows e') : AllChecked e'.symbols := by
  cases hgrows with
  | unchanged => exact h
  | host hnew =>
    refine h.grow fun s hs => ?_
    obtain rfl := List.mem_singleton.mp hs
    exact .host rfl
  | @unit u haccepts =>
    rw [ResidentEngine.withUnit_symbols]
    refine h.grow fun s hs => ?_
    obtain ⟨f, hf, rfl⟩ := List.mem_map.mp hs
    exact .code u rfl (hindexed.linksFit haccepts.imports)
      (CodeUnit.bodyOps_checked haccepts.valid hf)

-- ---------------------------------------------------------------------------
-- Calls
-- ---------------------------------------------------------------------------

variable {fuel fuel' depth : Nat}

theorem LinksFit.answer (h : LinksFit symbols u links)
    (hcalls : ∀ {a s args w}, symbols[a]? = some s → args.length = s.arity →
      (ResidentEngine.callAt symbols fuel depth a args w).1 ≠ .error .stuck) :
    (ResidentEngine.callees symbols fuel depth links).Answer ⟨slots, (assembled u).arity?⟩ := by
  intro index arity harity
  simp only [assembled_arity?, Option.map_eq_some_iff] at harity
  obtain ⟨c, hc, rfl⟩ := harity
  obtain ⟨a, s, ha, hs, -, hs_arity⟩ := h index c hc
  constructor
  · simp [ResidentEngine.callees, ha, hs, hs_arity]
  · intro args w hlen
    simp only [ResidentEngine.callees, ha]
    exact hcalls hs (hlen.trans hs_arity.symm)

theorem AllChecked.callAt_safe (h : AllChecked symbols) (ha : symbols[a]? = some s)
    (hlen : args.length = s.arity) (w : World S) :
    (ResidentEngine.callAt symbols fuel depth a args w).1 ≠ .error .stuck := by
  induction depth generalizing a s args w with
  | zero => simp [ResidentEngine.callAt]
  | succ depth ih =>
    cases h s (List.mem_of_getElem? ha) with
    | host hbody => simp [ResidentEngine.callAt_host ha hbody]
    | code u hbody hlinks hcheck =>
      rw [ResidentEngine.callAt_code ha hbody]
      refine call_safe fuel ?_ hcheck (by rw [hlen]) w
      exact hlinks.answer fun ha hlen => ih ha hlen _

theorem callAt_upto (hfuel : fuel ≤ fuel') (depth a : Nat) (args : List Number) (w : World S) :
    CallResult.Upto (· = .unfinished) (ResidentEngine.callAt symbols fuel depth a args w)
      (ResidentEngine.callAt symbols fuel' depth a args w) := by
  induction depth generalizing a args w with
  | zero => exact .same _
  | succ depth ih =>
    cases hs : symbols[a]? with
    | none =>
      simp only [ResidentEngine.callAt, hs]
      exact .same _
    | some s =>
      cases hbody : s.body with
      | host run =>
        simp only [ResidentEngine.callAt_host hs hbody]
        exact .same _
      | code locals ops links =>
        have hcallees : (ResidentEngine.callees symbols fuel depth links).Upto (· = .unfinished)
            (ResidentEngine.callees symbols fuel' depth links) := by
          refine ⟨rfl, fun index args w => ?_⟩
          simp only [ResidentEngine.callees]
          cases links[index]? with
          | none => exact .same _
          | some a => exact ih a args w
        simp only [ResidentEngine.callAt_code hs hbody]
        exact call_upto (by rfl) hcallees hfuel locals ops args w

end

-- ---------------------------------------------------------------------------
-- Without a bound on rounds
-- ---------------------------------------------------------------------------

/-- What a run comes to if it may go on for as long as it takes: a number, nothing at all, or an
exhausted call stack. -/
inductive Settles {W : Type} (run : Nat → CallResult W) : Prop where
  | value (v : Number) (w : W) (rounds : Nat) (h : ∀ fuel, rounds ≤ fuel → run fuel = (.ok v, w))
  | endless (h : ∀ fuel, (run fuel).1 = .error .unfinished)
  | exhausted (w : W) (rounds : Nat)
    (h : ∀ fuel, rounds ≤ fuel → run fuel = (.error (.trap .callStackExhausted), w))

theorem Settles.of_upto {W : Type} {run : Nat → CallResult W}
    (hupto : ∀ {fuel fuel'}, fuel ≤ fuel' →
      CallResult.Upto (· = .unfinished) (run fuel) (run fuel'))
    (hsafe : ∀ fuel, (run fuel).1 ≠ .error .stuck) : Settles run := by
  by_cases hendless : ∀ fuel, (run fuel).1 = .error .unfinished
  · exact .endless hendless
  · obtain ⟨rounds, hends⟩ := not_forall.mp hendless
    -- a run that ends within these rounds ends alike within more
    have hsame : ∀ fuel, rounds ≤ fuel → run fuel = run rounds := by
      intro fuel hfuel
      refine (hupto hfuel).eq ?_
      rintro _ hwhy rfl
      exact hends hwhy
    have hstuck := hsafe rounds
    generalize run rounds = ending at hsame hends hstuck
    obtain ⟨result, w⟩ := ending
    cases result with
    | ok v => exact .value v w rounds hsame
    | error why =>
      cases why with
      | trap t => exact .exhausted w rounds hsame
      | unfinished => exact absurd rfl hends
      | stuck => exact absurd rfl hstuck

theorem ResidentEngine.invoke_error {e : ResidentEngine S} (ha : e.symbols[a]? = some s)
    (h : (e.invoke a args w).1 = .error f) :
    (s.arity ≠ args.length ∧ f.cause = .invokedArity s.name s.arity args.length) ∨
      (s.arity = args.length ∧ ∃ why, f.cause = haltCause s.name why ∧
        (callAt e.symbols e.limits.loopRounds e.limits.callDepth a args w).1 = .error why) := by
  simp only [invoke, ha] at h
  split at h
  · rename_i harity
    split at h
    · cases h
    · rename_i why w' hcall
      cases h
      exact .inr ⟨harity, why, rfl, by rw [hcall]⟩
  · rename_i harity
    cases h
    exact .inl ⟨harity, rfl⟩

/-- Whatever an engine was asked to take up: a resident function that is called with as many
arguments as it takes is never stuck, and gives a number, goes on forever, or exhausts the call
stack. So an invocation is not without a result, and the number of arguments is what it is refused
for if and only if it is wrong. -/
theorem resident_code_never_stuck (limits : Limits) (requests : List (EngineRequest S)) :
    let e := ResidentEngine.serveAll { limits } requests
    ∀ {a s}, e.symbols[a]? = some s → ∀ args w,
      (args.length = s.arity → ∀ depth,
        (∀ fuel, (ResidentEngine.callAt e.symbols fuel depth a args w).1 ≠ .error .stuck) ∧
        Settles fun fuel => ResidentEngine.callAt e.symbols fuel depth a args w) ∧
      (∀ f name, (e.invoke a args w).1 = .error f → f.cause ≠ .noResult name) ∧
      ((∃ f name arity count, (e.invoke a args w).1 = .error f ∧
        f.cause = .invokedArity name arity count) ↔ args.length ≠ s.arity) := by
  intro e a s ha args w
  have hchecked : e.Indexed ∧ AllChecked e.symbols :=
    ResidentEngine.serveAll_keeps (P := fun e => e.Indexed ∧ AllChecked e.symbols)
      ⟨ResidentEngine.indexed_empty limits, by simp [AllChecked]⟩
      (fun h hgrows => ⟨hgrows.indexed h.1, h.2.grows h.1 hgrows⟩) requests
  have hsafe : args.length = s.arity → ∀ depth fuel,
      (ResidentEngine.callAt e.symbols fuel depth a args w).1 ≠ .error .stuck :=
    fun hlen depth fuel => hchecked.2.callAt_safe ha hlen w
  refine ⟨fun hlen depth => ⟨hsafe hlen depth, .of_upto ?_ (hsafe hlen depth)⟩, ?_, ?_, ?_⟩
  · exact fun hfuel => callAt_upto hfuel depth a args w
  · intro f name hf hcause
    obtain ⟨-, h⟩ | ⟨hlen, why, h, hcall⟩ := ResidentEngine.invoke_error ha hf
    · cases h.symm.trans hcause
    · cases why with
      | trap t => cases h.symm.trans hcause
      | unfinished => cases h.symm.trans hcause
      | stuck => exact hsafe hlen.symm _ _ hcall
  · rintro ⟨f, name, arity, count, hf, hcause⟩ hlen
    obtain ⟨hne, -⟩ | ⟨-, why, h, -⟩ := ResidentEngine.invoke_error ha hf
    · exact hne hlen.symm
    · cases why <;> cases h.symm.trans hcause
  · intro hlen
    refine ⟨{ cause := .invokedArity s.name s.arity args.length }, _, _, _, ?_, rfl⟩
    simp only [ResidentEngine.invoke, ha, if_neg (Ne.symm hlen)]

/-- Two units that are linked at different times. The loop of the first goes round from inside a
branch with an operand pending, and the second calls the first and a host function. -/
theorem resident_code_never_stuck_across_units :
    let countdown : SlotFunction := ⟨"countdown", ["n"], 1, [
      .loop [.load 0, .const .one, .sub, .tee 0, .numberToBool,
        .branch [.const .one, .load 0, .numberToBool, .continueIf] [.const .zero], .drop],
      .load 0]⟩
    let main : SlotFunction := ⟨"main", ["n"], 1, [.load 0, .call "countdown" 1, .call "log" 1]⟩
    let e : ResidentEngine Unit := ResidentEngine.serveAll {} [
      .declare ⟨"log", 1, fun args _ => { value := args.headD .zero, state := () }⟩,
      .finalize { id := 0, functions := [countdown] },
      .finalize { id := 1, externals := [("countdown", 1), ("log", 1)], functions := [main] }]
    e.symbols.map (fun s => (s.name, s.arity)) = [("log", 1), ("countdown", 1), ("main", 1)] ∧
      ∀ n w depth, Settles fun fuel => ResidentEngine.callAt e.symbols fuel depth 2 [n] w := by
  intro countdown main e
  have hsymbols : e.symbols.map (fun s => (s.name, s.arity)) =
      [("log", 1), ("countdown", 1), ("main", 1)] := by decide +kernel
  refine ⟨hsymbols, fun n w depth => ?_⟩
  obtain ⟨s, hs, hkey⟩ := Option.map_eq_some_iff.mp
    ((List.getElem?_map ..).symm.trans (congrArg (·[2]?) hsymbols))
  have harity : s.arity = 1 := congrArg Prod.snd hkey
  exact ((resident_code_never_stuck {} _ hs [n] w).1 harity.symm depth).2

end NumericJit
