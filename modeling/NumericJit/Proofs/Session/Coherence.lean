import NumericJit.Proofs.Engine.Linked

/-!
# The open unit of a session on trees

A session on trees knows what unit of code it stands for (`TreeSession.codeUnit`). As long as names
are kept apart and bodies are well formed (`TreeSession.Coherent`), the unit knows the same arities
as the session, it takes note of the same callees, and it is valid exactly when the session is small
(`TreeSession.isSmall_iff`). Committing what is pending gives a table on top of which the unit can
be finalized.
-/

namespace NumericJit

variable {S : Type}

namespace TreeSession

def codeUnit (t : TreeSession S) : CodeUnit where
  id := t.unit
  externals := t.references
  functions := t.pending.map TreeDefinition.code

variable {t : TreeSession S}

theorem mem_callables_codeUnit : c ∈ t.codeUnit.callables.map Prod.fst ↔
    c ∈ t.pending.map (·.name) ∨ c ∈ t.references.map (·.1) := by
  rw [CodeUnit.callables, List.map_append, List.mem_append, or_comm]
  simp [codeUnit, Function.comp_def, TreeDefinition.code, SlotFunction.ofTree]

theorem codeUnit_arity? (t : TreeSession S) (name : String) :
    t.codeUnit.arity? name =
      match t.pending.find? fun d => d.name == name with
      | some d => some d.params.length
      | none => t.references.lookup name := by
  have hfind : t.codeUnit.function? name =
      (t.pending.find? fun d => d.name == name).map TreeDefinition.code := by
    simp only [CodeUnit.function?, codeUnit, List.find?_map]
    rfl
  rw [CodeUnit.arity?, hfind]
  cases t.pending.find? fun d => d.name == name <;> rfl

theorem arity?_of_pending_nil (h : t.pending = []) (name : String) :
    t.arity? name = (t.committed.get? name).map (·.arity) := by
  rw [arity?, h]
  rfl

/-- What holds of a session between statements: its open unit has distinct names, the functions in
it are well formed and can be called, and what it refers to is committed. -/
structure Coherent (t : TreeSession S) : Prop where
  names : (t.codeUnit.callables.map Prod.fst).Nodup
  formed : ∀ d ∈ t.pending, d.body.Formed t.codeUnit.arityOf d.params
  plain : ∀ d ∈ t.pending, IsPlain d.name
  uncommitted : ∀ d ∈ t.pending, t.committed.get? d.name = none
  references : ∀ c ∈ t.references, ∃ f, t.committed.get? c.1 = some f ∧ f.arity = c.2

theorem coherent_of_empty (hp : t.pending = []) (hr : t.references = []) : t.Coherent := by
  refine ⟨?_, ?_, ?_, ?_, ?_⟩ <;> simp [codeUnit, CodeUnit.callables, hp, hr]

theorem Coherent.sound (h : t.Coherent) : t.codeUnit.Sound where
  names := h.names
  functions f hf := by
    obtain ⟨d, hd, rfl⟩ := List.mem_map.mp hf
    exact ⟨d.body, rfl, h.formed d hd⟩

/-- What the unit knows, the session knows. -/
theorem Coherent.arity?_of_codeUnit (h : t.Coherent) (hk : t.codeUnit.arity? name = some k) :
    t.arity? name = some k := by
  rw [codeUnit_arity?] at hk
  unfold arity?
  split
  · rename_i d hd
    rw [hd] at hk
    exact hk
  · rename_i hnone
    rw [hnone] at hk
    have hmem : (name, k) ∈ t.references := by
      obtain ⟨l₁, l₂, heq, -⟩ := List.lookup_eq_some_iff.mp hk
      simp [heq]
    obtain ⟨f, hf, rfl⟩ := h.references _ hmem
    rw [hf]
    rfl

theorem arity?_of_codeUnit_none (hk : t.codeUnit.arity? name = none) :
    t.arity? name = (t.committed.get? name).map (·.arity) := by
  rw [codeUnit_arity?] at hk
  unfold arity?
  split
  · rename_i d hd
    rw [hd] at hk
    cases hk
  · rfl

end TreeSession

-- ---------------------------------------------------------------------------
-- Callees
-- ---------------------------------------------------------------------------

/-- Surroundings that show what is committed: of the names that can be written, just these are
resident, and their arities are recorded. -/
structure Surroundings.Shows (around : Surroundings) (t : TreeSession S) : Prop where
  resident : ∀ {name}, IsPlain name → around.resident name = (t.committed.get? name).isSome
  arities : ∀ {name f}, t.committed.get? name = some f → around.arities.get? name = some f.arity

namespace TreeSession

variable {t : TreeSession S} {around : Surroundings}

theorem Coherent.arityIn_eq (h : t.Coherent) (hs : around.Shows t) (hplain : IsPlain c)
    (hown : c ≠ own) : arityIn around own arity t.codeUnit c = t.arityOf c := by
  rw [arityIn, if_neg hown, arityOf]
  cases hk : t.codeUnit.arity? c with
  | some k => rw [h.arity?_of_codeUnit hk]
  | none =>
    rw [arity?_of_codeUnit_none hk, hs.resident hplain]
    cases hf : t.committed.get? c with
    | none => rfl
    | some f =>
      simp only [Option.isSome_some, Bool.true_eq_false, if_false, hs.arities hf]
      rfl

theorem Coherent.isTaken_eq (h : t.Coherent) {d : Draft} (hunit : d.unit = t.codeUnit)
    (hresident : resident name = (t.committed.get? name).isSome) :
    d.isTaken resident name = (t.arity? name).isSome := by
  rw [Draft.isTaken, hunit, hresident]
  cases hk : t.codeUnit.arity? name with
  | some k => rw [h.arity?_of_codeUnit hk]; rfl
  | none => rw [arity?_of_codeUnit_none hk]; simp

theorem refer_cases (t : TreeSession S) (name : String) :
    t.refer name = t ∨ ∃ f, t.codeUnit.arity? name = none ∧ t.committed.get? name = some f ∧
      t.refer name = { t with references := t.references ++ [(name, f.arity)] } := by
  unfold refer
  split
  · exact .inl rfl
  · rename_i hknown
    cases hf : t.committed.get? name with
    | none => exact .inl rfl
    | some f =>
      exact .inr ⟨f, CodeUnit.arity?_eq_none.mpr (mt mem_callables_codeUnit.mp hknown), rfl, rfl⟩

theorem refer_eq (t : TreeSession S) (name : String) :
    t.refer name = { t with references := (t.refer name).references } := by
  rcases t.refer_cases name with h | ⟨f, -, -, h⟩ <;> rw [h]

theorem referAll_eq (t : TreeSession S) (names : List String) :
    t.referAll names = { t with references := (t.referAll names).references } := by
  induction names generalizing t with
  | nil => rfl
  | cons name rest ih =>
    have hstep : t.referAll (name :: rest) = (t.refer name).referAll rest := rfl
    rw [hstep, ih, refer_eq]

theorem referAll_committed (t : TreeSession S) (names : List String) :
    (t.referAll names).committed = t.committed := by rw [referAll_eq]

theorem referAll_pending (t : TreeSession S) (names : List String) :
    (t.referAll names).pending = t.pending := by rw [referAll_eq]

/-- Where a callee is looked up in the unit, the session refers to it. -/
theorem codeUnit_use (hs : around.Shows t) (hplain : IsPlain c)
    (hown : t.committed.get? own = none) :
    t.codeUnit.use around own c = (t.refer c).codeUnit := by
  unfold CodeUnit.use refer
  cases hf : t.committed.get? c with
  | none =>
    rw [if_pos (.inr (.inr (by rw [hs.resident hplain, hf]; rfl)))]
    split <;> rfl
  | some f =>
    have hne : c ≠ own := by
      rintro rfl
      rw [hown] at hf
      cases hf
    have hresident : around.resident c = true := by rw [hs.resident hplain, hf]; rfl
    by_cases hk : c ∈ t.pending.map (·.name) ∨ c ∈ t.references.map (·.1)
    · have hknown : (t.codeUnit.arity? c).isSome := by
        rw [Option.isSome_iff_ne_none, ne_eq, CodeUnit.arity?_eq_none, not_not]
        exact mem_callables_codeUnit.mpr hk
      rw [if_pos (.inr (.inl hknown)), if_pos hk]
    · have hnew : t.codeUnit.arity? c = none :=
        CodeUnit.arity?_eq_none.mpr (mt mem_callables_codeUnit.mp hk)
      rw [if_neg (by simp [hne, hnew, hresident]), if_neg hk, hs.arities hf]
      rfl

theorem codeUnit_useAll (hs : around.Shows t) (hplain : ∀ c ∈ callees, IsPlain c)
    (hown : t.committed.get? own = none) :
    t.codeUnit.useAll around own callees = (t.referAll callees).codeUnit := by
  induction callees generalizing t with
  | nil => rfl
  | cons c rest ih =>
    have hcommitted : (t.refer c).committed = t.committed := by rw [refer_eq]
    have hs' : around.Shows (t.refer c) :=
      ⟨fun h => hcommitted ▸ hs.resident h, fun h => hs.arities (hcommitted ▸ h)⟩
    have hstep : t.codeUnit.useAll around own (c :: rest) =
        (t.codeUnit.use around own c).useAll around own rest := rfl
    rw [hstep, codeUnit_use hs (hplain c (by simp)) hown]
    exact ih hs' (fun c hc => hplain c (by simp [hc])) (hcommitted ▸ hown)

theorem Coherent.refer (h : t.Coherent) (name : String) : (t.refer name).Coherent := by
  rcases t.refer_cases name with heq | ⟨f, hnew, hf, heq⟩
  · rw [heq]
    exact h
  · rw [heq]
    refine ⟨(h.sound.declare hnew f.arity).names, fun d hd => ?_, h.plain, h.uncommitted, ?_⟩
    · refine CodeUnit.formed_mono (h.formed d hd) fun c k hk => ?_
      refine (CodeUnit.arity?_external hnew c).trans ?_
      rw [if_neg, hk]
      rintro rfl
      rw [hnew] at hk
      cases hk
    · exact List.forall_mem_append.mpr ⟨h.references, by simpa using ⟨f, hf, rfl⟩⟩

theorem Coherent.referAll (h : t.Coherent) (names : List String) : (t.referAll names).Coherent := by
  induction names generalizing t with
  | nil => exact h
  | cons name rest ih => exact ih (h.refer name)

theorem Coherent.arity?_eq_none (h : t.Coherent) (hname : t.arity? name = none) :
    t.codeUnit.arity? name = none ∧ t.committed.get? name = none := by
  cases hk : t.codeUnit.arity? name with
  | some k =>
    rw [h.arity?_of_codeUnit hk] at hname
    cases hname
  | none =>
    rw [arity?_of_codeUnit_none hk] at hname
    exact ⟨rfl, Option.map_eq_none_iff.mp hname⟩

-- ---------------------------------------------------------------------------
-- Definitions
-- ---------------------------------------------------------------------------

theorem define_eq (t : TreeSession S) (d : TreeDefinition) :
    t.define d = { t with
      references := (t.referAll d.body.callees).references, pending := t.pending ++ [d] } := by
  rw [define, referAll_eq]

theorem codeUnit_define (hs : around.Shows t) (hplain : ∀ c ∈ d.body.callees, IsPlain c)
    (hnew : t.committed.get? d.name = none) :
    (t.define d).codeUnit =
      (t.codeUnit.useAll around d.name d.body.callees).withTree d.name d.params d.body := by
  rw [codeUnit_useAll hs hplain hnew]
  simp [define, codeUnit, CodeUnit.withTree, referAll_pending, TreeDefinition.code]

theorem Coherent.define (h : t.Coherent) (hs : around.Shows t) (hname : IsPlain d.name)
    (hplain : ∀ c ∈ d.body.callees, IsPlain c) (hnew : t.arity? d.name = none)
    (hformed : d.body.Formed (arityIn around d.name d.params.length t.codeUnit) d.params) :
    (t.define d).Coherent := by
  obtain ⟨hunit, hcommitted⟩ := h.arity?_eq_none hnew
  have heq := codeUnit_define hs hplain hcommitted
  have hused := h.referAll d.body.callees
  refine ⟨heq ▸ (h.sound.add hunit hformed).names, ?_, ?_, ?_, ?_⟩
  · rw [heq]
    refine List.forall_mem_append.mpr ⟨fun d' hd' => ?_, ?_⟩
    · refine CodeUnit.formed_mono (h.formed d' hd') fun c k hk => ?_
      exact CodeUnit.arity?_withTree_mono (CodeUnit.arity?_useAll_own hunit)
        (CodeUnit.arity?_useAll hk)
    · simpa using CodeUnit.formed_withTree hunit hformed
  · exact List.forall_mem_append.mpr ⟨h.plain, by simpa using hname⟩
  · simp only [TreeSession.define, referAll_committed]
    exact List.forall_mem_append.mpr ⟨h.uncommitted, by simpa using hcommitted⟩
  · exact hused.references

-- ---------------------------------------------------------------------------
-- Expressions
-- ---------------------------------------------------------------------------

section
variable {definitions : List TreeDefinition} {table : NameTable (TreeFunction S)}

theorem get?_commit_of_ne (h : ∀ d ∈ definitions, d.name ≠ name) :
    (definitions.foldl (fun table d => table.set d.name (.tree d.params d.body)) table).get? name =
      table.get? name := by
  induction definitions generalizing table with
  | nil => rfl
  | cons d rest ih =>
    rw [List.foldl_cons, ih fun d hd => h d (by simp [hd]), NameTable.get?_set, if_neg]
    exact (h d (by simp)).symm

theorem get?_commit_of_mem (hnames : (definitions.map (·.name)).Nodup) (hd : d ∈ definitions) :
    (definitions.foldl (fun table d => table.set d.name (.tree d.params d.body)) table).get? d.name =
      some (.tree d.params d.body) := by
  induction definitions generalizing table with
  | nil => cases hd
  | cons d' rest ih =>
    rw [List.map_cons, List.nodup_cons] at hnames
    rw [List.foldl_cons]
    rcases List.mem_cons.mp hd with rfl | hd
    · rw [get?_commit_of_ne, NameTable.get?_set, if_pos rfl]
      intro d' hd' heq
      exact hnames.1 (List.mem_map.mpr ⟨d', hd', heq⟩)
    · exact ih hnames.2 hd

end

theorem Coherent.pending_nodup (h : t.Coherent) : (t.pending.map (·.name)).Nodup := by
  have hnames := h.names
  rw [CodeUnit.callables, List.map_append, List.nodup_append] at hnames
  simpa [codeUnit, Function.comp_def, TreeDefinition.code, SlotFunction.ofTree] using hnames.2.1

theorem Coherent.get?_commit (h : t.Coherent) (hc : t.arity? c = some k) :
    ∃ f, t.commit.committed.get? c = some f ∧ f.arity = k := by
  unfold arity? at hc
  split at hc
  · rename_i d hd
    have hname : d.name = c := by simpa using List.find?_some hd
    cases hc
    exact ⟨_, hname ▸ get?_commit_of_mem h.pending_nodup (List.mem_of_find?_eq_some hd), rfl⟩
  · rename_i hnone
    obtain ⟨f, hf, harity⟩ := Option.map_eq_some_iff.mp hc
    have hne : ∀ d ∈ t.pending, d.name ≠ c := by simpa using hnone
    exact ⟨f, (get?_commit_of_ne hne).trans hf, harity⟩

theorem Coherent.commit_extends (h : t.Coherent) :
    NameTable.Extends t.commit.committed t.committed := by
  intro name f hf
  refine (get?_commit_of_ne fun d hd => ?_).trans hf
  rintro rfl
  rw [h.uncommitted d hd] at hf
  cases hf

theorem Coherent.commit_cases (h : t.Coherent) (hf : t.commit.committed.get? name = some f) :
    t.committed.get? name = some f ∨ (IsPlain name ∧ ∃ d ∈ t.pending, d.name = name) := by
  by_cases hmem : ∃ d ∈ t.pending, d.name = name
  · obtain ⟨d, hd, rfl⟩ := hmem
    exact .inr ⟨h.plain d hd, d, hd, rfl⟩
  · refine .inl ((get?_commit_of_ne fun d hd heq => ?_).symm.trans hf)
    exact hmem ⟨d, hd, heq⟩

/-- The unit that an expression closes, with the function around the expression. -/
theorem Coherent.unitOver (h : t.Coherent) (hs : around.Shows t) (hname : ¬ IsPlain wrapper)
    (hplain : ∀ c ∈ body.callees, IsPlain c) (hnew : t.arity? wrapper = none)
    (hformed : body.Formed (arityIn around wrapper ([] : List String).length t.codeUnit) []) :
    UnitOver ((t.referAll body.callees).codeUnit.withTree wrapper [] body)
      (t.pending ++ [⟨wrapper, [], body⟩]) t.committed
      (t.referAll body.callees).commit.committed := by
  obtain ⟨hunit, hcommitted⟩ := h.arity?_eq_none hnew
  have huse := codeUnit_useAll hs hplain hcommitted
  have hused := h.referAll body.callees
  have hsound := h.sound.add hunit hformed
  have hformed' := CodeUnit.formed_withTree hunit hformed
  have hunit' : (t.codeUnit.useAll around wrapper body.callees).arity? wrapper = none :=
    CodeUnit.arity?_useAll_own hunit
  have hknown : ∀ c ∈ body.callees,
      ∃ k, (t.codeUnit.useAll around wrapper body.callees).arity? c = some k := by
    intro c hc
    obtain ⟨k, hk⟩ := hformed.callable c hc
    have hown : c ≠ wrapper := by
      rintro rfl
      exact hname (hplain _ hc)
    exact ⟨k, CodeUnit.arity?_useAll_callee hc hown hk⟩
  rw [huse] at hsound hformed' hunit' hknown
  have hcallable : ∀ c k, (t.referAll body.callees).codeUnit.arity? c = some k →
      ∃ f, (t.referAll body.callees).commit.committed.get? c = some f ∧
        ((t.referAll body.callees).codeUnit.withTree wrapper [] body).arity? c = some f.arity := by
    intro c k hk
    obtain ⟨f, hf, rfl⟩ := hused.get?_commit (hused.arity?_of_codeUnit hk)
    exact ⟨f, hf, CodeUnit.arity?_withTree_mono hunit' hk⟩
  refine ⟨hsound, ?_, ?_, ?_, ?_, ?_, ?_, ?_⟩
  · simp [CodeUnit.withTree, codeUnit, referAll_pending, TreeDefinition.code]
  · intro c hc
    exact referAll_committed t body.callees ▸ hused.references c hc
  · refine List.forall_mem_append.mpr ⟨fun d hd => ?_, by simpa using hformed'⟩
    refine CodeUnit.formed_mono (hused.formed d (by rwa [referAll_pending])) fun c k hk => ?_
    exact CodeUnit.arity?_withTree_mono hunit' hk
  · refine List.forall_mem_append.mpr ⟨fun d hd c hc => ?_, ?_⟩
    · obtain ⟨k, hk⟩ := (hused.formed d (by rwa [referAll_pending])).callable c hc
      exact hcallable c k (CodeUnit.arityOf_eq_ok.mp hk)
    · rw [List.forall_mem_singleton]
      intro c hc
      obtain ⟨k, hk⟩ := hknown c hc
      exact hcallable c k hk
  · exact referAll_committed t body.callees ▸ hused.commit_extends
  · intro name f hf
    rcases hused.commit_cases hf with hf | ⟨hplain, d, hd, hname⟩
    · rw [referAll_committed] at hf
      exact .inl hf
    · rw [referAll_pending] at hd
      exact .inr ⟨hplain, d, List.mem_append_left _ hd, hname⟩
  · refine List.forall_mem_append.mpr ⟨fun d hd _ => ?_, by simpa using fun hp => absurd hp hname⟩
    exact get?_commit_of_mem hused.pending_nodup (by rwa [referAll_pending])

-- ---------------------------------------------------------------------------
-- Sizes
-- ---------------------------------------------------------------------------

/-- A session is small when the unit that it closes keeps to all limits. -/
theorem isSmall_iff (t : TreeSession S) (d : TreeDefinition) :
    t.isSmall d = true ↔ (t.codeUnit.withTree d.name d.params d.body).WithinLimits ∧
      (t.codeUnit.withTree d.name d.params d.body).Linkable ∧
      (t.codeUnit.withTree d.name d.params d.body).Compact := by
  have hcallables : (t.codeUnit.withTree d.name d.params d.body).callables =
      t.references ++ (t.pending ++ [d]).map fun d => (d.name, d.params.length) := by
    simp [CodeUnit.callables, CodeUnit.withTree, codeUnit, TreeDefinition.code, SlotFunction.ofTree,
      SlotFunction.arity]
  have hlocals : (∀ f ∈ (t.codeUnit.withTree d.name d.params d.body).functions,
      f.arity + f.localCount ≤ Wasm.maxLocals) ↔
      ∀ x ∈ t.pending ++ [d], x.params.length + x.body.slotCount ≤ Wasm.maxLocals := by
    simp [CodeUnit.withTree, codeUnit, TreeDefinition.code, SlotFunction.ofTree, SlotFunction.arity,
      SlotFunction.localCount, or_imp, forall_and]
  have hfunctions : (t.codeUnit.withTree d.name d.params d.body).functions =
      (t.pending ++ [d]).map TreeDefinition.code := by
    simp [CodeUnit.withTree, codeUnit, TreeDefinition.code]
  simp only [isSmall, Bool.and_eq_true, List.all_eq_true, decide_eq_true_eq, ← hcallables]
  rw [CodeUnit.Compact, hfunctions, List.forall_mem_map]
  constructor
  · rintro ⟨⟨⟨⟨hparams, hnames⟩, hsize⟩, hslots⟩, hbodies⟩
    exact ⟨⟨hparams, hlocals.mpr hslots⟩, ⟨hnames, hsize⟩, hbodies⟩
  · rintro ⟨hlimits, hlink, hbodies⟩
    exact ⟨⟨⟨⟨hlimits.params, hlink.names⟩, hlink.size⟩, hlocals.mp hlimits.locals⟩, hbodies⟩

end TreeSession
end NumericJit
