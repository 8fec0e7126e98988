import NumericJit.Proofs.Wasm.Encoding
import NumericJit.Proofs.Wasm.Reading

/-!
# The bytes of a unit determine the unit

The operations of an instruction show which instruction it was (`instrsOfOps?_append`), so a module
shows the unit it was made of: its outside functions, and its functions with their names, arities,
locals and bodies (`unit?_assembled`). Since the module is read back from its bytes, units with the
same bytes are the same but for the names of parameters.
-/

namespace NumericJit

open Wasm

def SlotFunction.shown (f : SlotFunction) : ShownFunction := ⟨f.name, f.arity, f.localCount, f.body⟩

namespace Wasm

variable {u : CodeUnit} {name : String}

-- ---------------------------------------------------------------------------
-- From operations back to instructions
-- ---------------------------------------------------------------------------

theorem instrsOfOps?_cons {callables : List (String × Nat)} {op : Op} {i : Instr}
    (hge : op ≠ .ge) (habs : op ≠ .abs) (hop : instrOfOp? callables op = some i)
    (h : instrsOfOps? callables others = some code) :
    instrsOfOps? callables (op :: others) = some (i :: code) := by
  cases op <;> simp_all [instrsOfOps?]

mutual
theorem instrsOfOps?_append {labels : List Label} {ops : List Op} : (i : Instr) →
    opsOfInstr u name labels i = .ok ops → ∀ {others code},
    instrsOfOps? u.callables others = some code →
    instrsOfOps? u.callables (ops ++ others) = some (i :: code)
  | .const _, h, _, _, hrest | .load _, h, _, _, hrest | .store _, h, _, _, hrest
  | .tee _, h, _, _, hrest | .add, h, _, _, hrest | .sub, h, _, _, hrest | .mul, h, _, _, hrest
  | .boolToNumber, h, _, _, hrest | .drop, h, _, _, hrest => by
    cases h
    exact instrsOfOps?_cons (by simp) (by simp) rfl hrest
  | .ltUnordered, h, _, _, hrest => by
    cases h
    simp [instrsOfOps?, hrest]
  | .numberToBool, h, _, _, hrest => by
    cases h
    simp [instrsOfOps?, hrest, Number.zero]
  | .call callee argCount, h, _, _, hrest => by
    rw [opsOfInstr] at h
    split at h
    · cases h
    · rename_i index arity htarget
      split at h <;> cases h
      rename_i heq
      subst heq
      refine instrsOfOps?_cons (by simp) (by simp) ?_ hrest
      simp [instrOfOp?, CodeUnit.callables_of_callTarget? htarget]
  | .continueIf, h, _, _, hrest => by
    rw [opsOfInstr] at h
    split at h <;> cases h
    exact instrsOfOps?_cons (by simp) (by simp) rfl hrest
  | .loop body, h, _, _, hrest => by
    obtain ⟨inner, hinner, rfl⟩ := map_ok.mp h
    refine instrsOfOps?_cons (by simp) (by simp) ?_ hrest
    simp [instrOfOp?, instrsOfOps?_opsOfCode body hinner]
  | .branch yes no, h, _, _, hrest => by
    simp only [opsOfInstr, bind_ok] at h
    obtain ⟨yesOps, hyes, noOps, hno, heq⟩ := h
    cases heq
    refine instrsOfOps?_cons (by simp) (by simp) ?_ hrest
    simp [instrOfOp?, instrsOfOps?_opsOfCode yes hyes, instrsOfOps?_opsOfCode no hno]

theorem instrsOfOps?_opsOfCode {labels : List Label} {ops : List Op} : (code : Code) →
    opsOfCode u name labels code = .ok ops → instrsOfOps? u.callables ops = some code
  | [], h => by
    cases h
    rfl
  | i :: rest, h => by
    simp only [opsOfCode, bind_ok] at h
    obtain ⟨first, hfirst, others, hothers, heq⟩ := h
    cases heq
    exact instrsOfOps?_append i hfirst (instrsOfOps?_opsOfCode rest hothers)
end

-- ---------------------------------------------------------------------------
-- From modules back to units
-- ---------------------------------------------------------------------------

theorem types_function (hf : f ∈ u.functions) :
    (assembled u).types[(typesOf u).idxOf f.arity]? = some f.arity :=
  types_idxOf (CodeUnit.mem_callables_of_function hf)

theorem Module.callables?_eq (m : Module) :
    m.callables? =
      (m.imports.mapM fun c => (m.types[c.2]?).map fun arity => (c.1, arity)).bind fun imports =>
        ((List.zip m.exports m.functions).mapM fun c =>
          (m.types[c.2.typeIndex]?).map fun arity => (c.1.1, arity)).bind fun own =>
            some (imports ++ own) := rfl

theorem callables?_assembled : (assembled u).callables? = some u.callables := by
  have himports : ((assembled u).imports.mapM fun c =>
      ((assembled u).types[c.2]?).map fun arity => (c.1, arity)) = some u.externals := by
    have hentry : ∀ c ∈ u.externals, ((assembled u).types[(typesOf u).idxOf c.2]?).map
        (fun arity => (c.1, arity)) = some (id c) := by
      intro c hc
      have htype : (assembled u).types[(typesOf u).idxOf c.2]? = some c.2 :=
        types_idxOf (List.mem_append_left _ hc)
      simp [htype]
    have h := mapM_eq_pure_map hentry
    rw [List.map_id] at h
    exact List.mapM_map.trans h
  have hown : ((List.zip (assembled u).exports (assembled u).functions).mapM fun c =>
      ((assembled u).types[c.2.typeIndex]?).map fun arity => (c.1.1, arity)) =
      some (u.functions.map fun f => (f.name, f.arity)) := by
    have hzip : List.zip (assembled u).exports (assembled u).functions =
        u.functions.zipIdx.map fun x => ((x.1.name, u.externals.length + x.2),
          ⟨(typesOf u).idxOf x.1.arity, x.1.localCount, bodyOps u x.1⟩) :=
      List.ext_getElem (by simp [assembled]) (by simp [assembled])
    have hentry : ∀ x ∈ u.functions.zipIdx,
        ((assembled u).types[(typesOf u).idxOf x.1.arity]?).map (fun arity => (x.1.name, arity)) =
          some (x.1.name, x.1.arity) := by
      rintro ⟨f, i⟩ hx
      simp [types_function (List.fst_mem_of_mem_zipIdx hx)]
    have h := mapM_eq_pure_map hentry
    rw [map_zipIdx_fst fun f : SlotFunction => (f.name, f.arity)] at h
    rw [hzip]
    exact List.mapM_map.trans h
  simp only [Module.callables?_eq, himports, hown, Option.bind_some, CodeUnit.callables]

theorem functionAt?_assembled (hf : u.functions[i]? = some f)
    (hops : opsOfCode u f.name [] f.body = .ok ops) :
    (assembled u).functionAt? u.callables i ⟨(typesOf u).idxOf f.arity, f.localCount, bodyOps u f⟩
      (f.name, u.externals.length + i) = some f.shown := by
  have hbody : instrsOfOps? u.callables (bodyOps u f) = some f.body := by
    simp only [bodyOps, hops]
    exact instrsOfOps?_opsOfCode f.body hops
  have himports : (assembled u).imports.length = u.externals.length := by simp [assembled]
  simp [Module.functionAt?, types_function (List.mem_of_getElem? hf), hbody, himports,
    SlotFunction.shown]

theorem unit?_assembled
    (hops : ∀ f ∈ u.functions, ∃ ops, opsOfCode u f.name [] f.body = .ok ops) :
    (assembled u).unit? = some ⟨u.externals, u.functions.map SlotFunction.shown⟩ := by
  have hzip : ((assembled u).functions.zip (assembled u).exports).zipIdx =
      u.functions.zipIdx.map fun x =>
        (((⟨(typesOf u).idxOf x.1.arity, x.1.localCount, bodyOps u x.1⟩ : Func),
          (x.1.name, u.externals.length + x.2)), x.2) :=
    List.ext_getElem (by simp [assembled]) (by simp [assembled])
  have hentry : ∀ x ∈ u.functions.zipIdx, (assembled u).functionAt? u.callables x.2
      ⟨(typesOf u).idxOf x.1.arity, x.1.localCount, bodyOps u x.1⟩
      (x.1.name, u.externals.length + x.2) = some x.1.shown := by
    rintro ⟨f, i⟩ hx
    obtain ⟨ops, hf⟩ := hops f (List.fst_mem_of_mem_zipIdx hx)
    exact functionAt?_assembled (by simpa using List.mem_zipIdx_iff_getElem?.mp hx) hf
  have hfunctions := mapM_eq_pure_map hentry
  rw [map_zipIdx_fst SlotFunction.shown] at hfunctions
  have hlength : (assembled u).exports.length = (assembled u).functions.length := by
    simp [assembled]
  have hexternals : u.callables.take (assembled u).imports.length = u.externals := by
    simp [assembled, CodeUnit.callables]
  simp only [Module.unit?, callables?_assembled, Option.bind_eq_bind, Option.bind_some, hlength,
    if_true, hzip, hexternals]
  rw [List.mapM_map]
  exact congrArg (Option.bind · _) hfunctions

-- ---------------------------------------------------------------------------
-- Types
-- ---------------------------------------------------------------------------

theorem firsts_nodup (l : List Nat) : (firsts l).Nodup := by
  induction l with
  | nil => exact .nil
  | cons n rest ih =>
    refine List.nodup_cons.mpr ⟨by simp, ?_⟩
    exact ih.filter _

theorem firsts_filter (p : Nat → Bool) (l : List Nat) :
    firsts (l.filter p) = (firsts l).filter p := by
  induction l with
  | nil => rfl
  | cons n rest ih =>
    cases hp : p n with
    | true =>
      simp only [List.filter_cons, hp, if_true, firsts, ih, List.filter_filter]
      simp [Bool.and_comm]
    | false =>
      -- the first place of `n` is dropped anyway
      simp only [List.filter_cons, hp, Bool.false_eq_true, if_false, firsts, ih,
        List.filter_filter]
      refine List.filter_congr fun m _ => ?_
      by_cases hm : m = n
      · simp [hm, hp]
      · simp [hm]

theorem firsts_eq_eraseDups (l : List Nat) : firsts l = l.eraseDups := by
  generalize hn : l.length = n
  induction n using Nat.strongRecOn generalizing l with
  | ind n ih =>
    cases l with
    | nil => rfl
    | cons a rest =>
      have hrest : (rest.filter fun b => !b == a).length < n := by
        have hle := List.length_filter_le (fun b => !b == a) rest
        simp only [List.length_cons] at hn
        omega
      rw [List.eraseDups_cons, ← ih _ hrest _ rfl, firsts_filter]
      rfl

end Wasm

/-- The bytes of a unit are those of one module, which shows the unit: its outside functions, and
its functions with their names, arities, locals and bodies. Each arity has one type, in the order of
first use, and each function is exported under its own index. So units with the same bytes differ at
most in the names of parameters. -/
theorem bytes_determine_unit {u : CodeUnit} (hencode : encode u = .ok encoded) :
    (∃ m shown, Module.ofBytes? encoded.bytes = some m ∧ m.unit? = some shown ∧
      shown.externals = u.externals ∧ shown.functions = u.functions.map SlotFunction.shown ∧
      m.types.Nodup ∧ m.types = (u.callables.map Prod.snd).eraseDups ∧
      m.exports = (shown.functions.map (·.name)).zipIdx shown.externals.length ∧
      encoded.imports = shown.externals ∧ encoded.exports = shown.functions.map (·.name)) ∧
    ∀ {u' encoded'}, encode u' = .ok encoded' → encoded'.bytes = encoded.bytes →
      u'.externals = u.externals ∧
        u'.functions.map SlotFunction.shown = u.functions.map SlotFunction.shown := by
  obtain ⟨hops, -, rfl⟩ := encode_ok.mp hencode
  have hnames : (u.functions.map SlotFunction.shown).map (·.name) = u.functions.map (·.name) := by
    simp [SlotFunction.shown]
  refine ⟨⟨assembled u, _, ofBytes?_bytes _, unit?_assembled hops, rfl, rfl, firsts_nodup _,
    firsts_eq_eraseDups _, ?_, rfl, hnames.symm⟩, ?_⟩
  · rw [hnames]
    exact List.ext_getElem (by simp [assembled]) (by simp [assembled])
  · intro u' encoded' hencode' hbytes
    obtain ⟨hops', -, rfl⟩ := encode_ok.mp hencode'
    have hmodule : assembled u' = assembled u := by
      have h := congrArg Module.ofBytes? hbytes
      simp only [ofBytes?_bytes, Option.some.injEq] at h
      exact h
    have hunit := (unit?_assembled hops').symm.trans (hmodule ▸ unit?_assembled hops)
    simp only [Option.some.injEq, ShownUnit.mk.injEq] at hunit
    exact hunit

/-- Blocks inside blocks, both instructions that become several operations, calls inside the unit
and out of it, and two types for three functions. -/
theorem bytes_determine_unit_of_nested_blocks :
    let below : SlotFunction := ⟨"below", ["x", "y"], 2, [
      .load 0, .load 1, .ltUnordered, .boolToNumber]⟩
    let count : SlotFunction := ⟨"count", ["n"], 3, [
      .const .zero, .store 1,
      .loop [.load 1, .const .one, .add, .tee 1, .load 0, .call "below" 2, .numberToBool,
        .branch [.load 1, .call "show" 1, .load 1, .numberToBool, .continueIf] [.const .nan], .drop],
      .load 1]⟩
    let u : CodeUnit := { id := 7, externals := [("show", 1)], functions := [below, count] }
    ∃ encoded m, encode u = .ok encoded ∧ Module.ofBytes? encoded.bytes = some m ∧
      m.types = [1, 2] ∧ m.exports = [("below", 1), ("count", 2)] ∧
      m.unit? =
        some ⟨[("show", 1)], [⟨"below", 2, 0, below.body⟩, ⟨"count", 1, 2, count.body⟩]⟩ := by
  intro below count u
  have hencode : ∃ encoded, encode u = .ok encoded := by
    refine ⟨_, encode_ok.mpr ⟨?_, by decide +kernel, rfl⟩⟩
    exact List.forall_mem_cons.mpr ⟨⟨_, rfl⟩, List.forall_mem_cons.mpr ⟨⟨_, rfl⟩, by simp⟩⟩
  obtain ⟨encoded, hencode⟩ := hencode
  obtain ⟨⟨m, ⟨externals, functions⟩, hbytes, hunit, hexternals, hfunctions, -, htypes, hexports, -⟩,
    -⟩ := bytes_determine_unit hencode
  subst hexternals hfunctions
  exact ⟨encoded, m, hencode, hbytes, htypes.trans (by decide), hexports.trans rfl, hunit⟩

end NumericJit
