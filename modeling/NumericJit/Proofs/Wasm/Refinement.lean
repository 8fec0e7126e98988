import NumericJit.Meaning.Calls
import NumericJit.Proofs.Wasm.Bounds
import NumericJit.Proofs.Wasm.Simulation

/-!
# Modules do what their units do

A unit that was filled in order keeps its names apart, so that each name stands for one index of
its module and each index for one name. Calling a function by its index in the module then comes to
what calling it by its name in the unit comes to, within any bounds (`assembled_call`): same value,
same world, same calls on the way. And a value that is found within some bounds is found within all
larger ones (`Module.call_upto`), so what a function returns does not depend on bounds at all.
-/

namespace NumericJit

open Wasm

namespace CodeUnit

variable {u : CodeUnit}

theorem Built.names (h : u.Built) : (u.callables.map Prod.fst).Nodup := by
  induction h with
  | empty id => simp [callables]
  | @declare name arity u' u h hok ih =>
    unfold CodeUnit.declare at hok
    split at hok
    · split at hok
      · cases hok
        exact ih
      · cases hok
    · rename_i hnew
      cases hok
      exact names_declare ih hnew arity
  | @add f u' u h hok ih =>
    unfold CodeUnit.add at hok
    split at hok
    · cases hok
    · rename_i hnew
      cases hok
      exact names_add ih (by simpa using hnew)

theorem callables_cases (h : u.callables[i]? = some c) :
    u.externals[i]? = some c ∨
      ∃ j f, i = u.externals.length + j ∧ u.functions[j]? = some f ∧ c = (f.name, f.arity) := by
  by_cases hi : i < u.externals.length
  · rw [callables, List.getElem?_append_left hi] at h
    exact .inl h
  · rw [callables, List.getElem?_append_right (by omega), List.getElem?_map] at h
    obtain ⟨f, hf, rfl⟩ := Option.map_eq_some_iff.mp h
    exact .inr ⟨i - u.externals.length, f, by omega, hf, rfl⟩

theorem callables_function {j : Nat} (hf : u.functions[j]? = some f) :
    u.callables[u.externals.length + j]? = some (f.name, f.arity) := by
  rw [callables, List.getElem?_append_right (Nat.le_add_right _ _), Nat.add_sub_cancel_left,
    List.getElem?_map, hf]
  rfl

theorem function?_of_names (hnames : (u.callables.map Prod.fst).Nodup) (hf : f ∈ u.functions) :
    u.function? f.name = some f := by
  simp only [callables, List.map_append, List.map_map, List.nodup_append] at hnames
  have hown : (u.functions.map SlotFunction.name).Nodup := hnames.2.1
  obtain ⟨i, hi, hget⟩ := findIdx?_of_nodup hown hf
  rw [function?, List.find?_eq_bind_findIdx?_getElem?, hi]
  exact hget

theorem function?_external (hnames : (u.callables.map Prod.fst).Nodup) (hc : c ∈ u.externals) :
    u.function? c.1 = none := by
  simp only [callables, List.map_append, List.map_map, List.nodup_append] at hnames
  refine List.find?_eq_none.mpr fun f hf heq => ?_
  exact hnames.2.2 c.1 (List.mem_map_of_mem hc) f.name (List.mem_map_of_mem hf)
    (beq_iff_eq.mp heq).symm

theorem lookup_external (hc : c ∈ u.externals) : ∃ arity, u.externals.lookup c.1 = some arity := by
  cases h : u.externals.lookup c.1 with
  | some arity => exact ⟨arity, rfl⟩
  | none =>
    have habsent := List.lookup_eq_none_iff.mp h c hc
    simp at habsent

-- ---------------------------------------------------------------------------
-- Calls by name
-- ---------------------------------------------------------------------------

variable {W : Type} {outside : Outside W} {fuel depth : Nat} {args : List Number} {t : Traced W}

theorem call_external (hnames : (u.callables.map Prod.fst).Nodup) (hc : c ∈ u.externals) :
    u.call outside fuel depth c.1 args t = t.leave outside c.1 args := by
  obtain ⟨arity, harity⟩ := lookup_external hc
  unfold call
  simp only [function?_external hnames hc, harity]

theorem call_function (hnames : (u.callables.map Prod.fst).Nodup) (hf : f ∈ u.functions) :
    u.call outside fuel (depth + 1) f.name args t =
      f.run (u.call outside fuel depth) fuel args (t.note f.name args) := by
  conv => lhs; unfold call
  simp only [function?_of_names hnames hf]

theorem call_unknown (h : u.arity? name = none) :
    u.call outside fuel depth name args t = (.error .stuck, t) := by
  unfold arity? at h
  unfold call
  split at h
  · cases h
  · rename_i hnone
    simp only [hnone, h]

end CodeUnit

-- ---------------------------------------------------------------------------
-- Calls by index
-- ---------------------------------------------------------------------------

namespace Wasm

variable {u : CodeUnit}

theorem assembled_imports {i : Nat} {c : String × Nat} (h : u.externals[i]? = some c) :
    (assembled u).imports[i]? = some (c.1, (typesOf u).idxOf c.2) := by
  simp [assembled, h]

theorem assembled_imports_none (j : Nat) :
    (assembled u).imports[u.externals.length + j]? = none := by
  simp [assembled]

theorem assembled_functions {j : Nat} (h : u.functions[j]? = some f) :
    (assembled u).functions[u.externals.length + j - (assembled u).imports.length]? =
      some ⟨(typesOf u).idxOf f.arity, f.localCount, bodyOps u f⟩ := by
  simp [assembled, h]

theorem assembled_exportName {j : Nat} (h : u.functions[j]? = some f) :
    (assembled u).exportName (u.externals.length + j) = f.name := by
  obtain ⟨hj, hget⟩ := List.getElem?_eq_some_iff.mp h
  have hfind : ((assembled u).exports.find? fun e => e.2 == u.externals.length + j) =
      some (f.name, u.externals.length + j) := by
    refine List.find?_eq_some_iff_getElem.mpr ⟨by simp, j, by simpa [assembled] using hj, ?_, ?_⟩
    · simp [assembled, hget]
    · intro k hk
      simp only [assembled, List.getElem_map, List.getElem_zipIdx, beq_eq_false_iff_ne,
        Bool.not_eq_true', Nat.zero_add]
      omega
  simp [Module.exportName, hfind]

section
variable {W : Type} {outside : Outside W} {fuel depth : Nat} {args : List Number} {t : Traced W}

theorem Module.call_import {m : Module} (h : m.imports[index]? = some (name, type)) :
    m.call outside fuel depth index args t = t.leave outside name args := by
  unfold Module.call
  simp only [h]

theorem Module.call_function {m : Module} (himport : m.imports[index]? = none)
    (hf : m.functions[index - m.imports.length]? = some f) :
    m.call outside fuel (depth + 1) index args t =
      Wasm.call ⟨m.arity?, m.call outside fuel depth⟩ fuel f.locals f.body args
        (t.note (m.exportName index) args) := by
  conv => lhs; unfold Module.call
  simp only [himport, hf]

theorem assembled_fit (call : Nat → List Number → W → CallResult W) :
    (⟨(assembled u).arity?, call⟩ : Callees W).Fit u := by
  intro c i k htarget
  simp [assembled_arity?, CodeUnit.callables_of_callTarget? htarget]

/-- A function that was assembled does what its slot code does. -/
theorem call_bodyOps {callees : Callees W} (hfit : callees.Fit u)
    (hops : opsOfCode u f.name [] f.body = .ok ops) (args : List Number) (w : W) :
    Wasm.call callees fuel f.localCount (bodyOps u f) args w =
      f.run (callees.byName u) fuel args w := by
  have hbody : bodyOps u f = ops := by simp only [bodyOps, hops]
  rw [hbody]
  exact (code_same fuel hfit f.body hops _ w).result fun depth => depth == 0

theorem byName_call (hnames : (u.callables.map Prod.fst).Nodup)
    (h : ∀ {i c} (args : List Number) (t : Traced W), u.callables[i]? = some c →
      (assembled u).call outside fuel depth i args t = u.call outside fuel depth c.1 args t) :
    Callees.byName ⟨(assembled u).arity?, (assembled u).call outside fuel depth⟩ u =
      u.call outside fuel depth := by
  funext name args t
  cases harity : u.arity? name with
  | some arity =>
    obtain ⟨i, htarget, hget⟩ :=
      CodeUnit.callTarget?_of_names hnames (CodeUnit.mem_callables harity)
    simp only [Callees.byName, htarget]
    exact h args t hget
  | none =>
    have hnone : u.callTarget? name = none := by
      cases htarget : u.callTarget? name with
      | none => rfl
      | some target =>
        have hmem := List.mem_of_getElem? (CodeUnit.callables_of_callTarget? htarget)
        exact absurd (List.mem_map_of_mem hmem) (CodeUnit.arity?_eq_none.mp harity)
    simp only [Callees.byName, hnone, CodeUnit.call_unknown harity]

theorem assembled_call (hnames : (u.callables.map Prod.fst).Nodup)
    (hops : ∀ f ∈ u.functions, ∃ ops, opsOfCode u f.name [] f.body = .ok ops)
    (args : List Number) (t : Traced W) (hc : u.callables[i]? = some c) :
    (assembled u).call outside fuel depth i args t = u.call outside fuel depth c.1 args t := by
  -- the calls that a function makes have one call less room
  induction depth generalizing i c args t with
  | zero =>
    rcases CodeUnit.callables_cases hc with hext | ⟨j, f, rfl, hf, rfl⟩
    · rw [CodeUnit.call_external hnames (List.mem_of_getElem? hext),
        Module.call_import (assembled_imports hext)]
    · unfold Module.call CodeUnit.call
      simp only [assembled_imports_none, assembled_functions hf,
        CodeUnit.function?_of_names hnames (List.mem_of_getElem? hf)]
  | succ depth ih =>
    rcases CodeUnit.callables_cases hc with hext | ⟨j, f, rfl, hf, rfl⟩
    · rw [CodeUnit.call_external hnames (List.mem_of_getElem? hext),
        Module.call_import (assembled_imports hext)]
    · obtain ⟨ops, hf_ops⟩ := hops f (List.mem_of_getElem? hf)
      rw [Module.call_function (assembled_imports_none j) (assembled_functions hf),
        CodeUnit.call_function hnames (List.mem_of_getElem? hf), assembled_exportName hf,
        call_bodyOps (assembled_fit _) hf_ops, byName_call hnames fun args t hc => ih args t hc]

theorem Module.call_upto (m : Module) (outside : Outside W) (hfuel : fuel ≤ fuel')
    (hdepth : depth ≤ depth') (index : Nat) (args : List Number) (t : Traced W) :
    CallResult.Upto (· ≠ .stuck) (m.call outside fuel depth index args t)
      (m.call outside fuel' depth' index args t) := by
  induction depth generalizing depth' index args t with
  | zero =>
    unfold Module.call
    cases m.imports[index]? with
    | some i => exact .same _
    | none =>
      cases m.functions[index - m.imports.length]? with
      | none => exact .same _
      | some f => exact .cut (by simp) t _
  | succ depth ih =>
    cases depth' with
    | zero => cases hdepth
    | succ depth' =>
      have hcallees : (⟨m.arity?, m.call outside fuel depth⟩ : Callees (Traced W)).Upto (· ≠ .stuck)
          ⟨m.arity?, m.call outside fuel' depth'⟩ :=
        ⟨rfl, ih (Nat.le_of_succ_le_succ hdepth)⟩
      unfold Module.call
      cases m.imports[index]? with
      | some i => exact .same _
      | none =>
        cases m.functions[index - m.imports.length]? with
        | none => exact .same _
        | some f => exact Wasm.call_upto (by simp) hcallees hfuel f.locals f.body args _

end

end Wasm

/-- Whatever the functions outside do: a function of a unit returns the same in the unit and in its
module, and makes the same calls on the way. -/
theorem module_runs_as_unit {W : Type} {u : CodeUnit} (hbuilt : u.Built)
    (hencode : encode u = .ok encoded) (hf : u.functions[i]? = some f) (outside : Outside W)
    (args : List Number) (t : Traced W) :
    (∀ fuel depth, encoded.module.call outside fuel depth (u.externals.length + i) args t =
      u.call outside fuel depth f.name args t) ∧
    (∀ v t', encoded.module.Returns outside (u.externals.length + i) args t v t' ↔
      u.Returns outside f.name args t v t') ∧
    ∀ v t', u.Returns outside f.name args t v t' →
      ∃ bound, ∀ fuel depth, bound ≤ fuel → bound ≤ depth →
        u.call outside fuel depth f.name args t = (.ok v, t') := by
  obtain ⟨hops, -, rfl⟩ := encode_ok.mp hencode
  have hsame : ∀ fuel depth, (assembled u).call outside fuel depth (u.externals.length + i) args t =
      u.call outside fuel depth f.name args t := fun fuel depth =>
    assembled_call hbuilt.names hops args t (CodeUnit.callables_function hf)
  refine ⟨hsame, fun v t' => ?_, ?_⟩
  · simp only [Module.Returns, CodeUnit.Returns, hsame]
  · rintro v t' ⟨fuel, depth, hreturns⟩
    refine ⟨max fuel depth, fun fuel' depth' hfuel hdepth => ?_⟩
    have hupto := (assembled u).call_upto outside (Nat.le_trans (Nat.le_max_left _ _) hfuel)
      (Nat.le_trans (Nat.le_max_right _ _) hdepth) (u.externals.length + i) args t
    rw [hsame, hsame, hreturns] at hupto
    exact hupto.ok

/-- A loop that goes round from inside a branch with an operand pending, a call from outside in
each round, and a function that calls itself. -/
theorem module_runs_as_unit_of_nested_loop :
    let countdown : SlotFunction := ⟨"countdown", ["n"], 1, [
      .loop [.load 0, .call "before" 1, .tee 0, .numberToBool,
        .branch [.load 0, .load 0, .numberToBool, .continueIf] [.const .zero], .drop],
      .load 0]⟩
    let restart : SlotFunction := ⟨"restart", ["n"], 1, [
      .load 0, .numberToBool,
      .branch [.load 0, .call "countdown" 1, .call "restart" 1] [.const .one]]⟩
    let u : CodeUnit :=
      { id := 0, externals := [("before", 1)], functions := [countdown, restart] }
    let outside : Outside Unit := fun _ args w =>
      (.ok (if args = [.infinity] then .one else .zero), w)
    u.Built ∧ ∃ encoded, encode u = .ok encoded ∧
      encoded.module.Returns outside 2 [.infinity] { world := () } .one
        { world := (), calls := [("restart", [.infinity]), ("countdown", [.infinity]),
          ("before", [.infinity]), ("before", [.one]), ("restart", [.zero])] } := by
  intro countdown restart u outside
  have hbefore : CodeUnit.Built { id := 0, externals := [("before", 1)] } :=
    .declare _ (.empty 0) (show CodeUnit.declare _ "before" 1 = _ by rfl)
  have hfirst :
      CodeUnit.Built { id := 0, externals := [("before", 1)], functions := [countdown] } :=
    .add _ hbefore (show CodeUnit.add _ countdown = _ by rfl)
  have hbuilt : u.Built := .add _ hfirst (show CodeUnit.add _ restart = _ by rfl)
  have hencode : ∃ encoded, encode u = .ok encoded := by
    refine ⟨_, encode_ok.mpr ⟨?_, by decide +kernel, rfl⟩⟩
    exact List.forall_mem_cons.mpr ⟨⟨_, rfl⟩, List.forall_mem_cons.mpr ⟨⟨_, rfl⟩, by simp⟩⟩
  obtain ⟨encoded, hencode⟩ := hencode
  have hsame := (module_runs_as_unit hbuilt hencode (i := 1) rfl outside [.infinity]
    { world := () }).2.1
  exact ⟨hbuilt, encoded, hencode, (hsame _ _).mpr ⟨3, 3, by decide +kernel⟩⟩

end NumericJit
