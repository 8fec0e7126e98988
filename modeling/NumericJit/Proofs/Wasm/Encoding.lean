import Mathlib.Data.List.Nodup
import NumericJit.Proofs.Lowering.Draft
import NumericJit.Proofs.Wasm.Sizes
import NumericJit.Proofs.Wasm.Typing
import NumericJit.Wasm.Encode

/-!
# Which units can be encoded

A sound unit always has a module, and the module breaks no rule but the limits on sizes: its calls,
slots and operands are in order (`CodeUnit.Sound.isValid_iff`). So whether such a unit can be
encoded depends on a few numbers, which can be read off the unit itself. Units that statements are
lowered into are sound, whatever the statements are and whether or not they could be lowered.
-/

namespace NumericJit

-- ---------------------------------------------------------------------------
-- Modules of units
-- ---------------------------------------------------------------------------

theorem SlotMap.Fits.bindFrom {scope : SlotMap} (h : scope.Fits slot) (params : List String) :
    (scope.bindFrom slot params).Fits (slot + params.length) := by
  induction params generalizing scope slot with
  | nil => exact h
  | cons name rest ih =>
    have hrest := ih (h.bind name (Nat.le_refl slot))
    rw [Nat.add_assoc, Nat.add_comm 1] at hrest
    exact hrest

theorem SlotMap.fits_ofParams (params : List String) : (ofParams params).Fits params.length := by
  have hnone : SlotMap.Fits (fun _ => none) 0 := ⟨by simp, by simp⟩
  have h := hnone.bindFrom params
  rwa [Nat.zero_add] at h

namespace Wasm

theorem mem_firsts : a ∈ firsts l ↔ a ∈ l := by
  induction l with
  | nil => simp [firsts]
  | cons n rest ih =>
    by_cases h : a = n
    · simp [firsts, h]
    · simp [firsts, h, ih]

def bodyOps (u : CodeUnit) (f : SlotFunction) : List Op :=
  match opsOfCode u f.name [] f.body with
  | .ok ops => ops
  | .error _ => []

def assembled (u : CodeUnit) : Module where
  types := typesOf u
  imports := u.externals.map fun (name, arity) => (name, (typesOf u).idxOf arity)
  functions := u.functions.map fun f =>
    { typeIndex := (typesOf u).idxOf f.arity, locals := f.localCount, body := bodyOps u f }
  exports := u.functions.zipIdx.map fun (f, i) => (f.name, u.externals.length + i)

/-- What a function takes up in a module is what it takes up in its unit. -/
theorem content_length {u : CodeUnit} (h : opsOfCode u f.name [] f.body = .ok ops) :
    (Func.content ⟨typeIndex, f.localCount, bodyOps u f⟩).length = f.byteSize u.callables := by
  have hbody : bodyOps u f = ops := by simp only [bodyOps, h]
  simp only [Func.content, List.length_append, List.length_singleton, hbody,
    length_bytesAll f.body h, SlotFunction.byteSize]

theorem funcsOf_eq {u : CodeUnit} {fs : List SlotFunction}
    (h : ∀ f ∈ fs, ∃ ops, opsOfCode u f.name [] f.body = .ok ops) :
    funcsOf u fs = .ok (fs.map fun f =>
      { typeIndex := (typesOf u).idxOf f.arity, locals := f.localCount, body := bodyOps u f }) := by
  induction fs with
  | nil => rfl
  | cons f rest ih =>
    obtain ⟨ops, hops⟩ := h f (by simp)
    simp only [funcsOf, funcOf, hops, ih fun f hf => h f (by simp [hf]), List.map_cons, bodyOps]
    rfl

theorem moduleOf_eq {u : CodeUnit}
    (h : ∀ f ∈ u.functions, ∃ ops, opsOfCode u f.name [] f.body = .ok ops) :
    moduleOf u = .ok (assembled u) := by
  simp only [moduleOf, funcsOf_eq h]
  rfl

theorem funcsOf_ok {u : CodeUnit} (h : funcsOf u fs = .ok funcs) :
    ∀ f ∈ fs, ∃ ops, opsOfCode u f.name [] f.body = .ok ops := by
  induction fs generalizing funcs with
  | nil => simp
  | cons f rest ih =>
    simp only [funcsOf, funcOf, bind_ok] at h
    obtain ⟨_, ⟨ops, hops, -⟩, _, hrest, -⟩ := h
    exact List.forall_mem_cons.mpr ⟨⟨ops, hops⟩, ih hrest⟩

theorem encode_ok {u : CodeUnit} :
    encode u = .ok encoded ↔ (∀ f ∈ u.functions, ∃ ops, opsOfCode u f.name [] f.body = .ok ops) ∧
      (assembled u).isValid = true ∧
      encoded = { module := assembled u, bytes := (assembled u).bytes,
                  imports := u.externals, exports := u.functions.map (·.name) } := by
  constructor
  · intro h
    simp only [encode, bind_ok] at h
    obtain ⟨m, hm, h⟩ := h
    obtain ⟨funcs, hfuncs, -⟩ := bind_ok.mp hm
    have hops := funcsOf_ok hfuncs
    obtain rfl := Except.ok.inj (hm.symm.trans (moduleOf_eq hops))
    split at h
    · rename_i hvalid
      cases h
      exact ⟨hops, hvalid, rfl⟩
    · cases h
  · rintro ⟨hops, hvalid, rfl⟩
    simp only [encode, moduleOf_eq hops, bind, Except.bind, hvalid, if_true]

section
variable {u : CodeUnit}

theorem types_idxOf (h : c ∈ u.callables) : (typesOf u)[(typesOf u).idxOf c.2]? = some c.2 :=
  List.getElem?_idxOf (mem_firsts.mpr (List.mem_map.mpr ⟨c, h, rfl⟩))

theorem assembled_arity? (i : Nat) : (assembled u).arity? i = u.callables[i]?.map Prod.snd := by
  have hindices : (assembled u).imports.map Prod.snd ++ (assembled u).functions.map Func.typeIndex =
      u.callables.map fun c => (typesOf u).idxOf c.2 := by
    simp [assembled, CodeUnit.callables, Function.comp_def]
  have htypes : (assembled u).types = typesOf u := rfl
  rw [Module.arity?, hindices, htypes, List.getElem?_map]
  cases hc : u.callables[i]? with
  | none => rfl
  | some c => exact types_idxOf (List.mem_of_getElem? hc)

theorem map_zipIdx_fst (f : α → β) (l : List α) : (l.zipIdx.map fun x => f x.1) = l.map f := by
  have h := List.map_map (f := Prod.fst) (g := f) (l := l.zipIdx)
  rw [List.zipIdx_map_fst] at h
  exact h.symm

theorem assembled_names :
    ((assembled u).imports ++ (assembled u).exports).map Prod.fst = u.callables.map Prod.fst := by
  simp [assembled, CodeUnit.callables, Function.comp_def, map_zipIdx_fst SlotFunction.name]

theorem assembled_exports :
    (assembled u).exports.map Prod.fst = u.functions.map SlotFunction.name := by
  simp [assembled, Function.comp_def, map_zipIdx_fst SlotFunction.name]

theorem assembled_linkedArities :
    (assembled u).linkedArities = u.callables.map Prod.snd := by
  have himports : (assembled u).imports.filterMap (fun i => (assembled u).types[i.2]?) =
      u.externals.map Prod.snd := by
    simp only [assembled, List.filterMap_map]
    rw [← List.filterMap_eq_map]
    refine List.filterMap_congr fun c hc => ?_
    exact types_idxOf (List.mem_append_left _ hc)
  have hexports : (assembled u).exports.filterMap (fun e => (assembled u).arity? e.2) =
      u.functions.map SlotFunction.arity := by
    have hget : ∀ x ∈ u.functions.zipIdx,
        (assembled u).arity? (u.externals.length + x.2) = some x.1.arity := by
      rintro ⟨f, i⟩ hx
      have hi : u.functions[i]? = some f := by simpa using List.mem_zipIdx_iff_getElem?.mp hx
      rw [assembled_arity?, CodeUnit.callables, List.getElem?_append_right (by omega)]
      simp [hi]
    have hexports : (assembled u).exports =
        u.functions.zipIdx.map fun (f, i) => (f.name, u.externals.length + i) := rfl
    rw [hexports, List.filterMap_map]
    refine (List.filterMap_congr hget).trans ?_
    exact (congrFun List.filterMap_eq_map _).trans (map_zipIdx_fst SlotFunction.arity u.functions)
  rw [Module.linkedArities, himports, hexports, CodeUnit.callables]
  simp [Function.comp_def]

end

end Wasm

namespace CodeUnit

open Wasm

theorem findIdx?_of_nodup {l : List α} {key : α → String} (h : (l.map key).Nodup) (hmem : x ∈ l) :
    ∃ i, (l.findIdx? fun y => key y == key x) = some i ∧ l[i]? = some x := by
  induction l with
  | nil => cases hmem
  | cons y rest ih =>
    rw [List.map_cons, List.nodup_cons] at h
    rw [List.findIdx?_cons]
    rcases List.mem_cons.mp hmem with rfl | hmem
    · exact ⟨0, by simp, rfl⟩
    · have hne : key y ≠ key x := fun heq => h.1 (heq ▸ List.mem_map_of_mem hmem)
      obtain ⟨i, hi, hget⟩ := ih h.2 hmem
      exact ⟨i + 1, by simp [hne, hi], hget⟩

theorem callTarget?_of_names {u : CodeUnit} (hnames : (u.callables.map Prod.fst).Nodup)
    (hmem : (name, arity) ∈ u.callables) :
    ∃ i, u.callTarget? name = some (i, arity) ∧ u.callables[i]? = some (name, arity) := by
  obtain ⟨i, hi, hget⟩ := findIdx?_of_nodup hnames hmem
  exact ⟨i, by simp [CodeUnit.callTarget?, hi, hget], hget⟩

theorem Sound.callTarget? {u : CodeUnit} (h : u.Sound) (harity : u.arity? name = some arity) :
    ∃ i, u.callTarget? name = some (i, arity) ∧ u.callables[i]? = some (name, arity) :=
  callTarget?_of_names h.names (mem_callables harity)

theorem callables_of_callTarget? {u : CodeUnit} (h : u.callTarget? name = some (i, arity)) :
    u.callables[i]? = some (name, arity) := by
  obtain ⟨j, hj, hget⟩ := Option.bind_eq_some_iff.mp h
  obtain ⟨c, hc, heq⟩ := Option.map_eq_some_iff.mp hget
  cases heq
  obtain ⟨hlt, hname, -⟩ := List.findIdx?_eq_some_iff_getElem.mp hj
  rw [List.getElem?_eq_getElem hlt, Option.some.injEq] at hc
  subst hc
  rw [← beq_iff_eq.mp hname, List.getElem?_eq_getElem hlt]

theorem Sound.body_typed {u : CodeUnit} (h : u.Sound) (hf : f ∈ u.functions) :
    Typed u f.name ⟨f.arity + f.localCount, (assembled u).arity?⟩ [] f.body [] [.num] := by
  obtain ⟨body, hbody, hformed⟩ := h.functions f hf
  have hslots : f.slots = f.params.length + body.slotCount := by rw [hbody]; rfl
  have hcode : f.body = body.code (.ofParams f.params) f.params.length := by rw [hbody]; rfl
  rw [hcode]
  refine formed_typed hformed (fun {c k} hc => ?_) (SlotMap.names_ofParams f.params)
    (SlotMap.fits_ofParams f.params) ?_
  · obtain ⟨i, htarget, hget⟩ := h.callTarget? (arityOf_eq_ok.mp hc)
    exact ⟨i, htarget, (assembled_arity? i).trans (by rw [hget]; rfl)⟩
  · simp only [SlotFunction.arity, SlotFunction.localCount, hslots]
    omega

theorem Sound.moduleOf {u : CodeUnit} (h : u.Sound) : moduleOf u = .ok (assembled u) := by
  refine moduleOf_eq fun f hf => ?_
  obtain ⟨ops, hops, -⟩ := h.body_typed hf
  exact ⟨ops, hops⟩

theorem Sound.bodyOps_checked {u : CodeUnit} (h : u.Sound) (hf : f ∈ u.functions) :
    checkOps ⟨f.arity + f.localCount, (assembled u).arity?⟩ [.block] (bodyOps u f) [] =
      some [.num] := by
  obtain ⟨ops, hops, hcheck⟩ := h.body_typed hf
  simp only [bodyOps, hops]
  exact hcheck

theorem mem_callables_of_function {u : CodeUnit} (hf : f ∈ u.functions) :
    (f.name, f.arity) ∈ u.callables :=
  List.mem_append_right _ (List.mem_map.mpr ⟨f, hf, rfl⟩)

/-- In a valid module every function of the unit leaves one number, whatever the unit is. -/
theorem bodyOps_checked {u : CodeUnit} (h : (assembled u).isValid = true) (hf : f ∈ u.functions) :
    checkOps ⟨f.arity + f.localCount, (assembled u).arity?⟩ [.block] (bodyOps u f) [] =
      some [.num] := by
  simp only [Module.isValid, Bool.and_eq_true, List.all_eq_true] at h
  obtain ⟨⟨⟨-, hfunctions⟩, -⟩, -⟩ := h
  have hfunc := hfunctions _ (List.mem_map_of_mem hf)
  have htype : (assembled u).types[(typesOf u).idxOf f.arity]? = some f.arity :=
    types_idxOf (mem_callables_of_function hf)
  simp only [Func.isValid, htype, Bool.and_eq_true, decide_eq_true_eq] at hfunc
  exact hfunc.2

-- ---------------------------------------------------------------------------
-- Limits
-- ---------------------------------------------------------------------------

/-- The limits on single functions: on parameters, and on parameters and locals together. -/
structure WithinLimits (u : CodeUnit) : Prop where
  params : ∀ c ∈ u.callables, c.2 ≤ maxParams
  locals : ∀ f ∈ u.functions, f.arity + f.localCount ≤ maxLocals

/-- The limits on what links a unit to others: on the names, and on all arities together. -/
structure Linkable (u : CodeUnit) : Prop where
  names : ∀ c ∈ u.callables, c.1.utf8ByteSize ≤ maxNameSize
  size : linkSize (u.callables.map Prod.snd) < linkSizeBound

/-- The limit on the code of single functions. -/
def Compact (u : CodeUnit) : Prop := ∀ f ∈ u.functions, f.byteSize u.callables ≤ maxBodySize

theorem Sound.rules_iff {u : CodeUnit} (h : u.Sound) :
    ((assembled u).types.all (· ≤ maxParams) = true ∧
      (assembled u).functions.all (·.isValid (assembled u)) = true) ↔ u.WithinLimits := by
  have htypes : (assembled u).types.all (· ≤ maxParams) = true ↔
      ∀ c ∈ u.callables, c.2 ≤ maxParams := by
    simp only [assembled, typesOf, List.all_eq_true, mem_firsts, List.forall_mem_map,
      decide_eq_true_eq]
  have hfunctions : (assembled u).functions.all (·.isValid (assembled u)) = true ↔
      ∀ f ∈ u.functions, f.arity + f.localCount ≤ maxLocals := by
    simp only [assembled, List.all_map, List.all_eq_true, Function.comp_apply]
    refine forall_congr' fun f => imp_congr_right fun hf => ?_
    have htype := types_idxOf (mem_callables_of_function hf)
    have hcheck := h.bodyOps_checked hf
    simp only [assembled] at hcheck
    simp [Func.isValid, htype, hcheck]
  rw [htypes, hfunctions]
  exact ⟨fun h => ⟨h.1, h.2⟩, fun h => ⟨h.params, h.locals⟩⟩

theorem Sound.compact_iff {u : CodeUnit} (h : u.Sound) :
    (assembled u).functions.all (·.content.length ≤ maxBodySize) = true ↔ u.Compact := by
  simp only [assembled, List.all_map, List.all_eq_true, Function.comp_apply, decide_eq_true_eq]
  refine forall_congr' fun f => imp_congr_right fun hf => ?_
  obtain ⟨ops, hops, -⟩ := h.body_typed hf
  rw [content_length hops]

theorem Sound.exports_nodup {u : CodeUnit} (h : u.Sound) :
    ((assembled u).exports.map Prod.fst).Nodup := by
  have hnames := h.names
  rw [callables, List.map_append, List.nodup_append, List.map_map] at hnames
  rw [assembled_exports]
  exact hnames.2.1

theorem Sound.isValid_iff {u : CodeUnit} (h : u.Sound) :
    (assembled u).isValid = true ↔ u.WithinLimits ∧ u.Linkable ∧ u.Compact := by
  have hnames : ((assembled u).imports ++ (assembled u).exports).all
      (·.1.utf8ByteSize ≤ maxNameSize) = true ↔
      ∀ c ∈ u.callables, c.1.utf8ByteSize ≤ maxNameSize := by
    have hmap := congrArg (fun l => l.all fun name => decide (name.utf8ByteSize ≤ maxNameSize))
      (assembled_names (u := u))
    simp only [List.all_map] at hmap
    rw [show ((assembled u).imports ++ (assembled u).exports).all
      (·.1.utf8ByteSize ≤ maxNameSize) = _ from hmap]
    simp [List.all_eq_true]
  have hsize : (assembled u).linkSize = linkSize (u.callables.map Prod.snd) := by
    rw [Module.linkSize, assembled_linkedArities]
  have hrules := h.rules_iff
  have hcompact := h.compact_iff
  simp only [Module.isValid, Bool.and_eq_true, decide_eq_true_eq, hnames, hsize]
  constructor
  · rintro ⟨⟨⟨⟨⟨htypes, hn⟩, hs⟩, hfunctions⟩, hbodies⟩, -⟩
    exact ⟨hrules.mp ⟨htypes, hfunctions⟩, ⟨hn, hs⟩, hcompact.mp hbodies⟩
  · rintro ⟨hlimits, hlink, hbodies⟩
    obtain ⟨htypes, hfunctions⟩ := hrules.mpr hlimits
    exact ⟨⟨⟨⟨⟨htypes, hlink.names⟩, hlink.size⟩, hfunctions⟩, hcompact.mpr hbodies⟩,
      h.exports_nodup⟩

end CodeUnit

-- ---------------------------------------------------------------------------
-- Any statements
-- ---------------------------------------------------------------------------

/-- Lowers statements one after the other, each with a name for its wrapper. The unit stays as it
is after a failure. -/
def Draft.lowerEach (d : Draft) (resident : String → Bool) :
    List (String × Statement) → List (Except Failure Lowered) × Draft
  | [] => ([], d)
  | (wrapper, statement) :: rest =>
    let (result, d) := d.lower resident wrapper statement
    let (results, d) := d.lowerEach resident rest
    (result :: results, d)

theorem Draft.lowerEach_sound {d : Draft} (h : d.unit.Sound) (resident : String → Bool)
    (statements : List (String × Statement)) : (d.lowerEach resident statements).2.unit.Sound := by
  induction statements generalizing d with
  | nil => exact h
  | cons first rest ih => exact ih (h.grow (d.lower_grows resident first.1 first.2))

theorem Draft.lowerEach_cause {d : Draft}
    (h : .error e ∈ (d.lowerEach resident statements).1) : e.cause.isConstruction = false := by
  induction statements generalizing d with
  | nil => cases h
  | cons first rest ih =>
    rcases List.mem_cons.mp h with h | h
    · exact Draft.lower_cause h.symm
    · exact ih h

theorem CodeUnit.Sound.encode {u : CodeUnit} (h : u.Sound) :
    Wasm.encode u =
      if (Wasm.assembled u).isValid then
        .ok { module := Wasm.assembled u, bytes := (Wasm.assembled u).bytes,
              imports := u.externals, exports := u.functions.map (·.name) }
      else .error { cause := .invalidModule u.id } := by
  simp only [Wasm.encode, h.moduleOf]
  rfl

theorem CodeUnit.Sound.encode_ok_iff {u : CodeUnit} (h : u.Sound) :
    (∃ encoded, Wasm.encode u = .ok encoded) ↔ u.WithinLimits ∧ u.Linkable ∧ u.Compact := by
  rw [h.encode, ← h.isValid_iff]
  split
  · rename_i hvalid
    simp [hvalid]
  · rename_i hvalid
    simp [hvalid]

/-- The rules on types, slots and operands, without those on what links a module to others. -/
def Wasm.Module.meetsRules (m : Wasm.Module) : Bool :=
  m.types.all (· ≤ Wasm.maxParams) && m.functions.all (·.isValid m)

open Wasm in
/-- Whatever statements are lowered into an empty unit, and whichever of them fail: the unit has a
module, the module is in order up to the limits on sizes, and no failure is due to the code under
construction. -/
theorem lowered_units_encode (id : Nat) (scope : Scope) (arities : ArityTable)
    (resident : String → Bool) (statements : List (String × Statement)) :
    let (results, d) := Draft.lowerEach { unit := { id }, scope, arities } resident statements
    (∃ m, moduleOf d.unit = .ok m ∧
      (∀ f ∈ m.functions, ∃ params, m.types[f.typeIndex]? = some params ∧
        checkOps ⟨params + f.locals, m.arity?⟩ [.block] f.body [] = some [.num]) ∧
      (m.meetsRules = true ↔ d.unit.WithinLimits)) ∧
    ((∃ encoded, encode d.unit = .ok encoded) ↔
      d.unit.WithinLimits ∧ d.unit.Linkable ∧ d.unit.Compact) ∧
    ∀ e, .error e ∈ results → e.cause.isConstruction = false := by
  have hsound := Draft.lowerEach_sound (d := { unit := { id }, scope, arities })
    (CodeUnit.sound_empty id) resident statements
  refine ⟨⟨_, hsound.moduleOf, fun func hfunc => ?_, ?_⟩, hsound.encode_ok_iff,
    fun e he => Draft.lowerEach_cause he⟩
  · obtain ⟨f, hf, rfl⟩ := List.mem_map.mp hfunc
    exact ⟨f.arity, types_idxOf (CodeUnit.mem_callables_of_function hf), hsound.bodyOps_checked hf⟩
  · rw [← hsound.rules_iff]
    simp [Module.meetsRules]

theorem Draft.lowerEach_declarations {d : Draft} {names : List String} (params : List String)
    (hnames : names.Nodup)
    (hnew : ∀ n ∈ names, d.unit.arity? n = none) (hfresh : ∀ n ∈ names, d.arities.get? n = none) :
    (d.lowerEach (fun _ => true)
      (names.map fun n => ("", .declaration ⟨n, params, {}⟩))).2.unit =
      { d.unit with externals := d.unit.externals ++ names.map fun n => (n, params.length) } := by
  induction names generalizing d with
  | nil => simp [Draft.lowerEach]
  | cons n rest ih =>
    obtain ⟨hn, hrest⟩ := List.nodup_cons.mp hnames
    have hn' : d.unit.arity? n = none := hnew n (by simp)
    have hlower : d.lowerDeclaration (fun _ => true) ⟨n, params, {}⟩ = _ :=
      Draft.lowerDeclaration_resident hn' rfl
    rw [hfresh n (by simp)] at hlower
    simp only [List.map_cons, Draft.lowerEach, Draft.lower, hlower, Option.all_none, if_true]
    rw [ih hrest]
    · simp [Prototype.arity]
    · intro m hm
      rw [CodeUnit.arity?_external hn', if_neg]
      · exact hnew m (by simp [hm])
      · rintro rfl
        exact hn hm
    · intro m hm
      simp only [Draft.record, ArityTable.record]
      rw [NameTable.get?_set, if_neg]
      · exact hfresh m (by simp [hm])
      · rintro rfl
        exact hn hm

theorem Wasm.linkSize_replicate (count arity : Nat) :
    linkSize (List.replicate count arity) = 1 + count * typeSize arity := by
  have h : ∀ size, (List.replicate count arity).foldl (fun size params => size + typeSize params)
      size = size + count * typeSize arity := by
    induction count with
    | zero => simp
    | succ count ih =>
      intro size
      rw [List.replicate_succ, List.foldl_cons, ih, Nat.succ_mul]
      omega
  exact h 1

open Wasm in
theorem declarations_not_encoded (count arity : Nat) (harity : arity ≤ maxParams)
    (hcount : linkSizeBound ≤ 1 + count * typeSize arity) :
    let names := (List.range count).map fun i => "e" ++ toString i
    let d := (Draft.lowerEach { unit := { id := 0 } } (fun _ => true)
      (names.map fun n => ("", .declaration ⟨n, List.replicate arity "x", {}⟩))).2
    d.unit.WithinLimits ∧ ¬ ∃ encoded, encode d.unit = .ok encoded := by
  intro names d
  have hnames : names.Nodup :=
    List.nodup_range.map fun _ _ h => toString_injective ((String.append_right_inj "e").mp h)
  have hunit : d.unit = { id := 0, externals := names.map fun n => (n, arity) } := by
    have h := Draft.lowerEach_declarations (d := { unit := { id := 0 } })
      (List.replicate arity "x") hnames (fun _ _ => rfl) (fun _ _ => rfl)
    rw [List.length_replicate] at h
    exact h
  have hcallables : d.unit.callables = names.map fun n => (n, arity) := by
    rw [hunit]
    simp [CodeUnit.callables]
  refine ⟨⟨?_, ?_⟩, ?_⟩
  · rw [hcallables]
    simpa using fun _ _ => harity
  · rw [hunit]
    simp
  · intro h
    have hsound : d.unit.Sound := Draft.lowerEach_sound (CodeUnit.sound_empty 0) _ _
    have hsize := (hsound.encode_ok_iff.mp h).2.1.size
    have harities : (names.map fun n => (n, arity)).map Prod.snd = List.replicate count arity := by
      simp [names, Function.comp_def, List.map_const']
    rw [hcallables, harities, linkSize_replicate] at hsize
    omega

open Wasm in
/-- 998 outside functions, each with as many parameters as a function may have. -/
theorem linked_arities_not_encoded :
    let names := (List.range 998).map fun i => "e" ++ toString i
    let d := (Draft.lowerEach { unit := { id := 0 } } (fun _ => true)
      (names.map fun n => ("", .declaration ⟨n, List.replicate 1000 "x", {}⟩))).2
    d.unit.WithinLimits ∧ ¬ ∃ encoded, encode d.unit = .ok encoded :=
  declarations_not_encoded 998 1000 (by decide) (by decide)

end NumericJit
