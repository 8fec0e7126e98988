import NumericJit.Proofs.Session.Coherence

/-!
# Sessions that match a session on trees

A workbench with the compiling engine matches a session on trees (`Matches`) when its open unit is
the one that the trees stand for, what is resident is linked to what is committed, and arities and
numbers are kept alike. Processing a statement that can be written gives the same outcome on both
sides and leaves them matching (`Matches.process`), whether the statement fails or not.
-/

namespace NumericJit

variable {S : Type}

def Recorded (arities : ArityTable) (t : TreeSession S) : Prop :=
  ∀ name k, t.arity? name = some k → arities.get? name = some k

structure Matches (b : Workbench (ResidentEngine S)) (t : TreeSession S) : Prop where
  coherent : t.Coherent
  linked : Linked b.engine.symbols t.committed
  indexed : b.engine.Indexed
  limits : b.engine.limits = t.limits
  unit : b.draft.unit = t.codeUnit
  arities : Recorded b.draft.arities t
  nextUnit : b.nextUnit = t.unit + 1
  nextWrapper : b.nextWrapper = t.expressions
  wrappers : ∀ {n}, b.engine.isResident (wrapperName n) = true → n < t.expressions

-- ---------------------------------------------------------------------------
-- Arities
-- ---------------------------------------------------------------------------

section
variable {t : TreeSession S}

theorem TreeSession.Coherent.arity?_pending (h : t.Coherent) (hd : d ∈ t.pending) :
    t.arity? d.name = some d.params.length := by
  obtain ⟨i, hi, hget⟩ := CodeUnit.findIdx?_of_nodup h.pending_nodup hd
  have hfind : (t.pending.find? fun d' => d'.name == d.name) = some d := by
    rw [List.find?_eq_bind_findIdx?_getElem?, hi]
    exact hget
  rw [TreeSession.arity?, hfind]

theorem TreeSession.Coherent.arity?_committed (h : t.Coherent)
    (hf : t.committed.get? name = some f) : t.arity? name = some f.arity := by
  unfold TreeSession.arity?
  split
  · rename_i d hd
    have hname : d.name = name := by simpa using List.find?_some hd
    have hnone := h.uncommitted d (List.mem_of_find?_eq_some hd)
    rw [hname, hf] at hnone
    cases hnone
  · rw [hf]
    rfl

theorem Recorded.record {arities : ArityTable} (h : Recorded arities t)
    (hname : ∀ k, t.arity? name = some k → k = arity) :
    Recorded (arities.record name arity).2 t := by
  intro other k hk
  simp only [ArityTable.record]
  rw [NameTable.get?_set]
  split
  · rename_i heq
    subst heq
    rw [hname k hk]
  · exact h other k hk

theorem Recorded.drop {arities : ArityTable} (h : Recorded arities t) (hc : t.Coherent) :
    Recorded arities t.drop := by
  intro name k hk
  obtain ⟨f, hf, rfl⟩ := Option.map_eq_some_iff.mp (hk : (t.committed.get? name).map _ = some k)
  exact h name f.arity (hc.arity?_committed hf)

theorem Recorded.commit {arities : ArityTable} (h : Recorded arities t) (hc : t.Coherent) :
    Recorded arities t.commit := by
  intro name k hk
  obtain ⟨f, hf, rfl⟩ :=
    Option.map_eq_some_iff.mp (hk : (t.commit.committed.get? name).map _ = some k)
  rcases hc.commit_cases hf with hf' | ⟨-, d, hd, rfl⟩
  · exact h name f.arity (hc.arity?_committed hf')
  · obtain rfl :=
      Option.some.inj ((TreeSession.get?_commit_of_mem hc.pending_nodup hd).symm.trans hf)
    exact h d.name _ (hc.arity?_pending hd)

theorem TreeSession.arity?_define (h : t.arity? d.name = none) (name : String) :
    (t.define d).arity? name = if name = d.name then some d.params.length else t.arity? name := by
  have hnone : (t.pending.find? fun x => x.name == d.name) = none := by
    unfold TreeSession.arity? at h
    split at h
    · cases h
    · assumption
  simp only [arity?, define, referAll_committed, List.find?_append]
  by_cases hname : name = d.name
  · subst hname
    simp [hnone]
  · have hne : (d.name == name) = false := beq_eq_false_iff_ne.mpr (Ne.symm hname)
    simp [hne, hname]

end

section
variable {b : Workbench (ResidentEngine S)} {t : TreeSession S}

theorem Matches.isResident_eq (h : Matches b t) (hname : IsPlain name) :
    Engine.isResident b.engine name = (t.committed.get? name).isSome := by
  have hiff : Engine.isResident b.engine name = true ↔ ∃ s ∈ b.engine.symbols, s.name = name :=
    h.indexed.isResident_iff
  rw [Bool.eq_iff_iff, hiff]
  constructor
  · rintro ⟨s, hs, rfl⟩
    obtain ⟨f, -, hf⟩ := h.linked.implements s hs
    rw [hf hname]
    rfl
  · intro hf
    obtain ⟨f, hf⟩ := Option.isSome_iff_exists.mp hf
    exact h.linked.resident hf

theorem Matches.shows (h : Matches b t) {arities : ArityTable} (harities : Recorded arities t) :
    Surroundings.Shows ⟨Engine.isResident b.engine, arities⟩ t :=
  ⟨h.isResident_eq, fun hf => harities _ _ (h.coherent.arity?_committed hf)⟩

theorem Matches.check_eq (h : Matches b t) (hs : around.Shows t)
    (hplain : ∀ c ∈ body.callees, IsPlain c) (own : String) (arity : Nat) (params : List String) :
    Expr.check (arityIn around own arity b.draft.unit) params body =
      body.check (fun c => if c = own then .ok arity else t.arityOf c) params := by
  refine Expr.check_congr body params fun c hc => ?_
  split
  · rename_i hown
    rw [arityIn, if_pos hown]
  · rename_i hown
    rw [h.unit]
    exact h.coherent.arityIn_eq hs (hplain c hc) hown

-- ---------------------------------------------------------------------------
-- Statements that fail
-- ---------------------------------------------------------------------------

/-- Whatever became of the open unit, the next one is empty on both sides. -/
theorem Matches.drop (h : Matches b t) {draft : Draft} (harities : Recorded draft.arities t) :
    Matches { b with draft }.openUnit t.drop where
  coherent := TreeSession.coherent_of_empty rfl rfl
  linked := h.linked
  indexed := h.indexed
  limits := h.limits
  unit := by
    simp only [Workbench.openUnit, TreeSession.codeUnit, TreeSession.drop, h.nextUnit]
    rfl
  arities := harities.drop h.coherent
  nextUnit := by simp only [Workbench.openUnit, TreeSession.drop, h.nextUnit]
  nextWrapper := h.nextWrapper
  wrappers := h.wrappers

theorem Matches.define (h : Matches b t) {d : TreeDefinition} (hname : IsPlain d.name)
    (hbody : ∀ c ∈ d.body.callees, IsPlain c) (hnew : t.arity? d.name = none)
    {around : Surroundings} (hshows : around.Shows t)
    (hformed : d.body.Formed (arityIn around d.name d.params.length b.draft.unit) d.params)
    {draft : Draft} (hunit : draft.unit =
      (b.draft.unit.useAll around d.name d.body.callees).withTree d.name d.params d.body)
    (harities : Recorded draft.arities t) (hd : draft.arities.get? d.name = some d.params.length) :
    Matches { b with draft } (t.define d) := by
  rw [h.unit] at hformed hunit
  have hcommitted := (h.coherent.arity?_eq_none hnew).2
  refine ⟨h.coherent.define hshows hname hbody hnew hformed, ?_, h.indexed, ?_, ?_, ?_, ?_, ?_, ?_⟩
  · rw [TreeSession.define_eq]
    exact h.linked
  · rw [TreeSession.define_eq]
    exact h.limits
  · rw [TreeSession.codeUnit_define hshows hbody hcommitted]
    exact hunit
  · intro name k hk
    rw [TreeSession.arity?_define hnew] at hk
    split at hk
    · rename_i heq
      cases hk
      exact heq ▸ hd
    · exact harities name k hk
  · rw [TreeSession.define_eq]
    exact h.nextUnit
  · rw [TreeSession.define_eq]
    exact h.nextWrapper
  · rw [TreeSession.define_eq]
    exact h.wrappers

/-- Both sides of a statement: the outcomes, which no function without a result can be blamed for,
and what they leave. -/
structure Steps (quiet : Prop) (b : Workbench (ResidentEngine S))
    (r₁ : Except Failure Outcome × Workbench (ResidentEngine S) × World S)
    (r₂ : Except Failure Outcome × TreeSession S × World S) : Prop where
  outcome : r₁.1 = r₂.1
  resulting : ∀ {e name}, r₁.1 = .error e → e.cause ≠ .noResult name
  sides : Matches r₁.2.1 r₂.2.1
  world : SameWorld quiet r₁.2.2 r₂.2.2
  showUnits : r₁.2.1.showUnits = b.showUnits

variable {w₁ w₂ : World S}

theorem Matches.process_error (h : Matches b t) (hw : SameWorld quiet w₁ w₂) {draft : Draft}
    (hlower : b.draft.lower (Engine.isResident b.engine) (wrapperName b.nextWrapper) statement =
      (.error e, draft)) (hcheck : t.check statement = .error e)
    (hcause : ∀ name, e.cause ≠ .noResult name) (harities : Recorded draft.arities t) :
    Steps quiet b (b.process statement w₁) (t.process accepts statement w₂) := by
  simp only [Workbench.process, hlower, TreeSession.process, hcheck]
  exact ⟨rfl, by rintro e name ⟨⟩; exact hcause name, h.drop harities, hw, rfl⟩

theorem ne_noResult_of_check {failure : Failure}
    (h : Expr.check (arityIn around own arity u) params body = .error failure) (name : String) :
    failure.cause ≠ .noResult name := by
  have hv := Expr.violation_of_check h
  generalize failure.cause = cause at hv
  cases hv with
  | callee _ hc => rcases arityIn_error hc with hc | hc <;> rw [hc] <;> simp
  | _ => simp

-- ---------------------------------------------------------------------------
-- Definitions and declarations
-- ---------------------------------------------------------------------------

theorem Matches.process_definition (h : Matches b t) (hname : IsPlain proto.name)
    (hbody : ∀ c ∈ body.callees, IsPlain c) (hw : SameWorld quiet w₁ w₂) :
    Steps quiet b (b.process (.definition proto body) w₁)
      (t.process accepts (.definition proto body) w₂) := by
  have htaken : b.draft.isTaken (Engine.isResident b.engine) proto.name =
      (t.arity? proto.name).isSome :=
    h.coherent.isTaken_eq h.unit (h.isResident_eq hname)
  cases hk : t.arity? proto.name with
  | some k =>
    rw [hk, Option.isSome_some] at htaken
    have hlower : b.draft.lower (Engine.isResident b.engine) (wrapperName b.nextWrapper)
        (.definition proto body) =
        (.error { cause := .redefinition proto.name, span := proto.span }, b.draft) := by
      simp only [Draft.lower, Draft.lowerDefinition, htaken, if_true]
    refine h.process_error hw hlower ?_ (by simp) h.arities
    simp only [TreeSession.check, hk, Option.isSome_some, if_true]
  | none =>
    rw [hk, Option.isSome_none] at htaken
    have hunit := h.unit ▸ (h.coherent.arity?_eq_none hk).1
    -- the arity is recorded before the body is lowered, and stays recorded when that fails
    have harities : Recorded (b.draft.record proto.name proto.arity).arities t :=
      h.arities.record fun k hk' => by rw [hk] at hk'; cases hk'
    have hshows := h.shows harities
    have hcheck : t.check (.definition proto body) =
        body.check (arityIn ⟨Engine.isResident b.engine,
          (b.draft.record proto.name proto.arity).arities⟩ proto.name proto.arity b.draft.unit)
          proto.params := by
      rw [h.check_eq hshows hbody, TreeSession.check, hk]
      rfl
    have hlower : b.draft.lower (Engine.isResident b.engine) (wrapperName b.nextWrapper)
        (.definition proto body) =
        let r := (b.draft.record proto.name proto.arity).addFunction
          (Engine.isResident b.engine) proto.name proto.params body
        (r.1.map fun _ => .definition proto.name, r.2) := by
      simp only [Draft.lower, Draft.lowerDefinition, htaken, Bool.false_eq_true, if_false]
    cases hc : t.check (.definition proto body) with
    | error e =>
      have hc' := hcheck.symm.trans hc
      obtain ⟨scope, callees, hadd⟩ :=
        Draft.addFunction_error (d := b.draft.record proto.name proto.arity) hc'
      rw [hadd] at hlower
      exact h.process_error hw hlower hc (ne_noResult_of_check hc') harities
    | ok _ =>
      have hc' := hcheck.symm.trans hc
      obtain ⟨scope, hadd⟩ :=
        Draft.addFunction_ok (d := b.draft.record proto.name proto.arity) hunit hc'
      rw [hadd] at hlower
      simp only [Workbench.process, hlower, TreeSession.process, hc]
      refine ⟨rfl, by rintro e name ⟨⟩, ?_, hw, rfl⟩
      refine Matches.define (d := ⟨proto.name, proto.params, body⟩) h hname hbody hk hshows
        (Expr.formed_of_check hc') rfl harities ?_
      simp [Draft.record, ArityTable.record, NameTable.get?_set, Prototype.arity]

theorem refer_of_known (hk : t.codeUnit.arity? name = some k) : t.refer name = t := by
  have hmem : name ∈ t.pending.map (·.name) ∨ name ∈ t.references.map (·.1) := by
    refine TreeSession.mem_callables_codeUnit.mp (Classical.not_not.mp fun hn => ?_)
    rw [CodeUnit.arity?_eq_none.mpr hn] at hk
    cases hk
  rw [TreeSession.refer, if_pos hmem]

theorem refer_of_committed (hk : t.codeUnit.arity? name = none)
    (hf : t.committed.get? name = some f) :
    t.refer name = { t with references := t.references ++ [(name, f.arity)] } := by
  have hmem := mt TreeSession.mem_callables_codeUnit.mpr (CodeUnit.arity?_eq_none.mp hk)
  rw [TreeSession.refer, if_neg hmem, hf]

theorem Matches.refer (h : Matches b t) {draft : Draft}
    (hunit : draft.unit = (t.refer name).codeUnit) (harities : Recorded draft.arities t) :
    Matches { b with draft } (t.refer name) := by
  have hcoherent := h.coherent.refer name
  rcases t.refer_cases name with heq | ⟨f, -, -, heq⟩
  · rw [heq] at hunit ⊢
    exact ⟨h.coherent, h.linked, h.indexed, h.limits, hunit, harities, h.nextUnit, h.nextWrapper,
      h.wrappers⟩
  · rw [heq] at hunit hcoherent ⊢
    exact ⟨hcoherent, h.linked, h.indexed, h.limits, hunit, harities, h.nextUnit, h.nextWrapper,
      h.wrappers⟩

theorem Matches.lowerDeclaration (h : Matches b t) (hname : IsPlain proto.name)
    (hk : t.arity? proto.name = some k) :
    b.draft.lowerDeclaration (Engine.isResident b.engine) proto =
      if k = proto.arity then
        (.ok (.declaration proto.name), { b.draft.record proto.name proto.arity with
          unit := (t.refer proto.name).codeUnit })
      else
        (.error { cause := .wrongParameterCount proto.name k proto.arity, span := proto.span },
          b.draft) := by
  cases hunit : t.codeUnit.arity? proto.name with
  | some known =>
    obtain rfl : known = k := Option.some.inj ((h.coherent.arity?_of_codeUnit hunit).symm.trans hk)
    rw [refer_of_known hunit, ← h.unit]
    exact Draft.lowerDeclaration_known (h.unit ▸ hunit)
  | none =>
    rw [TreeSession.arity?_of_codeUnit_none hunit] at hk
    obtain ⟨f, hf, rfl⟩ := Option.map_eq_some_iff.mp hk
    have hresident : Engine.isResident b.engine proto.name = true := by
      rw [h.isResident_eq hname, hf]
      rfl
    have hrecorded : b.draft.arities.get? proto.name = some f.arity :=
      h.arities _ _ (h.coherent.arity?_committed hf)
    rw [Draft.lowerDeclaration_resident (h.unit ▸ hunit) hresident, refer_of_committed hunit hf,
      hrecorded, h.unit]
    by_cases heq : f.arity = proto.arity
    · simp [heq, TreeSession.codeUnit]
    · simp [heq]

theorem Matches.process_declaration (h : Matches b t) (hname : IsPlain proto.name)
    (hw : SameWorld quiet w₁ w₂) :
    Steps quiet b (b.process (.declaration proto) w₁)
      (t.process accepts (.declaration proto) w₂) := by
  cases hk : t.arity? proto.name with
  | none =>
    obtain ⟨hunit, hcommitted⟩ := h.coherent.arity?_eq_none hk
    have hresident : Engine.isResident b.engine proto.name = false := by
      rw [h.isResident_eq hname, hcommitted]
      rfl
    refine h.process_error hw (Draft.lowerDeclaration_unmatched (h.unit ▸ hunit) hresident) ?_
      (by simp) h.arities
    simp only [TreeSession.check, hk]
  | some k =>
    have hlower := h.lowerDeclaration hname hk
    by_cases heq : k = proto.arity
    · subst heq
      rw [if_pos rfl] at hlower
      simp only [Workbench.process, Draft.lower, hlower, TreeSession.process, TreeSession.check, hk,
        if_true]
      refine ⟨rfl, by rintro e name ⟨⟩, h.refer rfl ?_, hw, rfl⟩
      exact h.arities.record fun k hk' => Option.some.inj (hk'.symm.trans hk)
    · rw [if_neg heq] at hlower
      refine h.process_error hw hlower ?_ (by simp) h.arities
      simp only [TreeSession.check, hk, heq, if_false]

-- ---------------------------------------------------------------------------
-- Expressions
-- ---------------------------------------------------------------------------

variable {e : Expr}

def TreeSession.closedUnit (t : TreeSession S) (e : Expr) : CodeUnit :=
  (t.referAll e.callees).codeUnit.withTree (wrapperName t.expressions) [] e

theorem TreeSession.closedUnit_id (t : TreeSession S) (e : Expr) :
    (t.closedUnit e).id = t.unit := by
  rw [closedUnit, referAll_eq]
  rfl

theorem TreeSession.closing_eq (t : TreeSession S) (e : Expr) :
    t.closing e = { t with
      references := (t.referAll e.callees).references, expressions := t.expressions + 1 } := by
  rw [closing, referAll_eq]

theorem TreeSession.isSmall_closing (t : TreeSession S) (e : Expr) :
    (t.closing e).isSmall ⟨wrapperName t.expressions, [], e⟩ = true ↔
      (t.closedUnit e).WithinLimits ∧ (t.closedUnit e).Linkable ∧ (t.closedUnit e).Compact :=
  isSmall_iff (t.closing e) ⟨wrapperName t.expressions, [], e⟩

/-- No wrapper can be called. -/
theorem Matches.arity?_wrapper (h : Matches b t) (n : Nat) : t.arity? (wrapperName n) = none := by
  unfold TreeSession.arity?
  split
  · rename_i d hd
    have hname : d.name = wrapperName n := by simpa using List.find?_some hd
    exact absurd hname ((h.coherent.plain d (List.mem_of_find?_eq_some hd)).ne_wrapperName n)
  · cases hf : t.committed.get? (wrapperName n) with
    | none => rfl
    | some f => exact absurd (h.linked.plain hf) (not_isPlain_wrapperName n)

theorem Matches.isResident_wrapper (h : Matches b t) :
    b.engine.isResident (wrapperName b.nextWrapper) = false := by
  cases hr : b.engine.isResident (wrapperName b.nextWrapper) with
  | false => rfl
  | true => exact absurd (h.wrappers hr) (by rw [h.nextWrapper]; exact Nat.lt_irrefl _)

theorem Matches.check_expression (h : Matches b t) (hplain : ∀ c ∈ e.callees, IsPlain c) :
    e.check t.arityOf [] = e.check (arityIn ⟨Engine.isResident b.engine, b.draft.arities⟩
      (wrapperName b.nextWrapper) ([] : List String).length b.draft.unit) [] := by
  rw [h.check_eq (h.shows h.arities) hplain]
  refine Expr.check_congr e [] fun c hc => ?_
  rw [if_neg ((hplain c hc).ne_wrapperName _)]

theorem Matches.closedUnit_fresh (h : Matches b t) (e : Expr) :
    ∀ f ∈ (t.closedUnit e).functions, b.engine.isResident f.name = false := by
  refine List.forall_mem_append.mpr ⟨fun f hf => ?_, ?_⟩
  · obtain ⟨d, hd, rfl⟩ := List.mem_map.mp hf
    rw [TreeSession.referAll_pending] at hd
    refine (h.isResident_eq (h.coherent.plain d hd)).trans ?_
    rw [h.coherent.uncommitted d hd]
    rfl
  · rw [List.forall_mem_singleton]
    exact h.nextWrapper ▸ h.isResident_wrapper

theorem Matches.closedUnit_over (h : Matches b t) (hplain : ∀ c ∈ e.callees, IsPlain c)
    (hcheck : e.check t.arityOf [] = .ok ()) :
    UnitOver (t.closedUnit e) (t.pending ++ [⟨wrapperName t.expressions, [], e⟩]) t.committed
      (t.closing e).commit.committed := by
  have hformed := Expr.formed_of_check ((h.check_expression hplain).symm.trans hcheck)
  rw [h.nextWrapper, h.unit] at hformed
  have hover := h.coherent.unitOver (h.shows h.arities) (not_isPlain_wrapperName t.expressions)
    hplain (h.arity?_wrapper t.expressions) hformed
  exact hover

theorem Matches.closedUnit_isValid (h : Matches b t) (hplain : ∀ c ∈ e.callees, IsPlain c)
    (hcheck : e.check t.arityOf [] = .ok ()) :
    (Wasm.assembled (t.closedUnit e)).isValid =
      (t.closing e).isSmall ⟨wrapperName t.expressions, [], e⟩ := by
  rw [Bool.eq_iff_iff, (h.closedUnit_over hplain hcheck).sound.isValid_iff,
    TreeSession.isSmall_closing]

theorem Matches.opened (h : Matches b t) (e : Expr) {engine : ResidentEngine S}
    {committed : NameTable (TreeFunction S)} (scope : Scope) (unit : CodeUnit)
    (hlinked : Linked engine.symbols committed) (hindexed : engine.Indexed)
    (hlimits : engine.limits = b.engine.limits)
    (harities : Recorded b.draft.arities { (t.closing e).drop with committed })
    (hwrappers : ∀ {n}, engine.isResident (wrapperName n) = true → n < t.expressions + 1) :
    Matches
      { ({ b with draft := ⟨unit, scope, b.draft.arities⟩, nextWrapper := b.nextWrapper + 1 } :
          Workbench (ResidentEngine S)).openUnit with engine }
      { (t.closing e).drop with committed } := by
  rw [TreeSession.closing_eq] at harities ⊢
  refine ⟨TreeSession.coherent_of_empty rfl rfl, hlinked, hindexed, hlimits.trans h.limits, ?_,
    harities, ?_, ?_, hwrappers⟩
  · simp only [Workbench.openUnit, TreeSession.codeUnit, TreeSession.drop, h.nextUnit]
    rfl
  · simp only [Workbench.openUnit, TreeSession.drop, h.nextUnit]
  · simp only [Workbench.openUnit, TreeSession.drop, h.nextWrapper]

theorem SameWorld.print (hw : SameWorld quiet w₁ w₂) (hquiet : quiet → shown = false)
    (text : String) : SameWorld quiet (if shown then w₁.print text else w₁) w₂ := by
  split
  · rename_i hshown
    exact ⟨hw.state, fun hq => by rw [hquiet hq] at hshown; cases hshown⟩
  · exact hw

theorem Matches.run_invalid (h : Matches b t) (hplain : ∀ c ∈ e.callees, IsPlain c)
    (hcheck : e.check t.arityOf [] = .ok ())
    (hsmall : (t.closing e).isSmall ⟨wrapperName t.expressions, [], e⟩ = false) (w : World S) :
    Workbench.run (t.closedUnit e) (wrapperName t.expressions) b.engine w =
      (.error { cause := .invalidModule t.unit }, b.engine, w) := by
  have hfinalize : Engine.finalize (t.closedUnit e) b.engine =
      (.error { cause := .invalidModule t.unit }, b.engine) := by
    rw [← t.closedUnit_id e]
    refine ResidentEngine.finalize_invalid (h.closedUnit_over hplain hcheck).sound ?_
    rw [h.closedUnit_isValid hplain hcheck, hsmall]
  simp only [Workbench.run, hfinalize]

/-- Finalizing the unit commits what is pending, and running the wrapper evaluates the
expression. -/
theorem Matches.run_valid (h : Matches b t) (hplain : ∀ c ∈ e.callees, IsPlain c)
    (hcheck : e.check t.arityOf [] = .ok ())
    (hsmall : (t.closing e).isSmall ⟨wrapperName t.expressions, [], e⟩ = true)
    (hw : SameWorld quiet w₁ w₂) :
    ∃ engine r, Workbench.run (t.closedUnit e) (wrapperName t.expressions) b.engine w₁ =
        (invoked (wrapperName t.expressions) r.1, engine, r.2) ∧
      SameAnswer (SameWorld quiet) r ((t.closing e).commit.evaluate e w₂) ∧
      Linked engine.symbols (t.closing e).commit.committed ∧ engine.Indexed ∧
      engine.limits = b.engine.limits ∧
      ∀ {n}, engine.isResident (wrapperName n) = true → n < t.expressions + 1 := by
  have hover := h.closedUnit_over hplain hcheck
  have haccepts := h.linked.accepts h.indexed hover
    ((h.closedUnit_isValid hplain hcheck).trans hsmall) (h.closedUnit_fresh e)
  have hfinalize := ResidentEngine.finalize_accepted haccepts
  obtain ⟨hlinked, hdefinitions⟩ := h.linked.withUnit h.indexed hover haccepts
  have hindexed := h.indexed.withUnit haccepts
  have hlimits := ResidentEngine.withUnit_limits (e := b.engine) (u := t.closedUnit e)
  generalize hengine : b.engine.withUnit (t.closedUnit e) = engine at *
  obtain ⟨hs, himpl⟩ := hdefinitions ⟨wrapperName t.expressions, [], e⟩ (by simp)
  obtain ⟨a, hsymbol⟩ := List.mem_iff_getElem?.mp hs
  have haddress : Engine.address? engine (wrapperName t.expressions) = some a :=
    hindexed.address?_of_symbol hsymbol
  have hcommitted : engine.limits = (t.closing e).commit.limits := by
    rw [TreeSession.closing_eq]
    exact hlimits.trans h.limits
  refine ⟨engine, _, ?_, hlinked.evaluate_alike hcommitted himpl hsymbol hw, hlinked, hindexed,
    hlimits, fun {n} hn => ?_⟩
  · have hinvoke :=
      ResidentEngine.invoke_eq hsymbol (show _ = ([] : List Number).length from rfl) w₁
    simp only [Workbench.run, hfinalize, haddress, Engine.invoke, hinvoke]
    rfl
  · -- only the wrapper of this expression is new among the names of wrappers
    rw [← hengine, ResidentEngine.isResident_withUnit] at hn
    rcases hn with hn | ⟨f, hf, hname⟩
    · exact Nat.lt_succ_of_lt (h.wrappers hn)
    · rw [hover.functions] at hf
      obtain ⟨d, hd, rfl⟩ := List.mem_map.mp hf
      rcases List.mem_append.mp hd with hd | hd
      · exact absurd hname ((h.coherent.plain d hd).ne_wrapperName n)
      · rw [List.mem_singleton] at hd
        subst hd
        rw [← wrapperName_injective hname]
        exact Nat.lt_succ_self _

theorem ne_noResult_of_invoked {failure : Failure} (h : result ≠ .error .stuck)
    (hfailure : (invoked wrapper result).map Outcome.value = .error failure) :
    failure.cause ≠ .noResult name := by
  cases result with
  | ok v => cases hfailure
  | error why =>
    cases hfailure
    cases why with
    | stuck => exact absurd rfl h
    | trap reason => simp [ResidentEngine.haltCause]
    | unfinished => simp [ResidentEngine.haltCause]

theorem TreeSession.execute_eq (accepts : TreeSession S → TreeDefinition → Bool)
    (t : TreeSession S) (e : Expr) (w : World S) :
    t.execute accepts e w =
      if accepts (t.closing e) ⟨wrapperName t.expressions, [], e⟩ then
        ((invoked (wrapperName t.expressions) ((t.closing e).commit.evaluate e w).1).map .value,
          (t.closing e).commit, ((t.closing e).commit.evaluate e w).2)
      else (.error { cause := .invalidModule t.unit }, (t.closing e).drop, w) := by
  simp only [execute]
  rcases (t.closing e).commit.evaluate e w with ⟨value, w'⟩
  cases value <;> rfl

theorem TreeSession.arity?_closing (t : TreeSession S) (e : Expr) (name : String) :
    (t.closing e).arity? name = t.arity? name := by
  rw [closing_eq]
  rfl

theorem Matches.closing_coherent (h : Matches b t) (e : Expr) : (t.closing e).Coherent := by
  have hused := h.coherent.referAll e.callees
  exact ⟨hused.names, hused.formed, hused.plain, hused.uncommitted, hused.references⟩

/-- Closing the open unit and running the wrapper is accepting and evaluating the expression. -/
theorem Matches.execute (h : Matches b t) (hplain : ∀ c ∈ e.callees, IsPlain c)
    (hcheck : e.check t.arityOf [] = .ok ()) (hquiet : quiet → b.showUnits = false)
    (hw : SameWorld quiet w₁ w₂) (scope : Scope) :
    Steps quiet b
      (({ b with
          draft := ⟨t.closedUnit e, scope, b.draft.arities⟩
          nextWrapper := b.nextWrapper + 1 } : Workbench (ResidentEngine S)).execute
        (wrapperName t.expressions) w₁)
      (t.execute TreeSession.isSmall e w₂) := by
  have hw' := hw.print hquiet (Workbench.listing (t.closedUnit e))
  have harities : Recorded b.draft.arities (t.closing e) := fun name k hk =>
    h.arities name k (t.arity?_closing e name ▸ hk)
  cases hsmall : (t.closing e).isSmall ⟨wrapperName t.expressions, [], e⟩ with
  | false =>
    have hrun := h.run_invalid hplain hcheck hsmall
      (if b.showUnits then w₁.print (Workbench.listing (t.closedUnit e)) else w₁)
    rw [TreeSession.execute_eq, hsmall, Workbench.execute]
    simp only [hrun]
    refine ⟨rfl, ?_, ?_, hw', rfl⟩
    · rintro e name ⟨⟩
      simp
    · have hlinked : Linked b.engine.symbols (t.closing e).drop.committed := by
        rw [TreeSession.closing_eq]
        exact h.linked
      exact h.opened e scope _ hlinked h.indexed rfl
        (harities.drop (h.closing_coherent e)) fun hn =>
        Nat.lt_succ_of_lt (h.wrappers hn)
  | true =>
    obtain ⟨engine, r, hrun, hanswer, hlinked, hindexed, hlimits, hwrappers⟩ :=
      h.run_valid hplain hcheck hsmall hw'
    rw [TreeSession.execute_eq, hsmall, Workbench.execute]
    simp only [hrun, hanswer.value, if_true]
    refine ⟨rfl, ?_, ?_, hanswer.world, rfl⟩
    · intro failure name hfailure
      refine ne_noResult_of_invoked ?_ hfailure
      rw [← hanswer.value]
      exact hanswer.unstuck
    · exact h.opened e scope _ hlinked hindexed hlimits (harities.commit (h.closing_coherent e))
        hwrappers

theorem Matches.lowerExpression (h : Matches b t) (e : Expr) :
    b.draft.lowerExpression (Engine.isResident b.engine) (wrapperName b.nextWrapper) e =
      let r := b.draft.addFunction (Engine.isResident b.engine) (wrapperName b.nextWrapper) [] e
      (r.1.map fun _ => .wrapper (wrapperName b.nextWrapper), r.2) := by
  have hunit : b.draft.unit.arity? (wrapperName b.nextWrapper) = none :=
    h.unit ▸ (h.coherent.arity?_eq_none (h.arity?_wrapper b.nextWrapper)).1
  have hresident : Engine.isResident b.engine (wrapperName b.nextWrapper) = false :=
    h.isResident_wrapper
  have htaken : b.draft.isTaken (Engine.isResident b.engine) (wrapperName b.nextWrapper) =
      false := by
    simp [Draft.isTaken, hunit, hresident]
  simp only [Draft.lowerExpression, htaken, Bool.false_eq_true, if_false]

theorem Matches.lowerExpression_ok (h : Matches b t) (hplain : ∀ c ∈ e.callees, IsPlain c)
    (hcheck : e.check t.arityOf [] = .ok ()) :
    ∃ scope, b.draft.lowerExpression (Engine.isResident b.engine) (wrapperName b.nextWrapper) e =
      (.ok (.wrapper (wrapperName t.expressions)), ⟨t.closedUnit e, scope, b.draft.arities⟩) := by
  obtain ⟨hunit, hcommitted⟩ := h.coherent.arity?_eq_none (h.arity?_wrapper b.nextWrapper)
  rw [← h.unit] at hunit
  obtain ⟨scope, hadd⟩ := Draft.addFunction_ok hunit ((h.check_expression hplain).symm.trans hcheck)
  rw [h.unit, TreeSession.codeUnit_useAll (h.shows h.arities) hplain hcommitted] at hadd
  refine ⟨scope, ?_⟩
  rw [h.lowerExpression, hadd, TreeSession.closedUnit, ← h.nextWrapper]
  rfl

theorem Matches.process_expression (h : Matches b t) (hplain : ∀ c ∈ e.callees, IsPlain c)
    (hquiet : quiet → b.showUnits = false) (hw : SameWorld quiet w₁ w₂) :
    Steps quiet b (b.process (.expression e) w₁)
      (t.process TreeSession.isSmall (.expression e) w₂) := by
  cases hc : e.check t.arityOf [] with
  | error failure =>
    have hc' := (h.check_expression hplain).symm.trans hc
    obtain ⟨scope, callees, hadd⟩ := Draft.addFunction_error (d := b.draft) hc'
    have hlower := h.lowerExpression e
    rw [hadd] at hlower
    exact h.process_error hw hlower hc (ne_noResult_of_check hc') h.arities
  | ok _ =>
    obtain ⟨scope, hlower⟩ := h.lowerExpression_ok hplain hc
    simp only [Workbench.process, Draft.lower, hlower, TreeSession.process, TreeSession.check, hc]
    exact h.execute hplain hc hquiet hw scope

/-- A statement that can be written comes to the same on both sides. -/
theorem Matches.process (h : Matches b t) (hs : statement.Readable)
    (hquiet : quiet → b.showUnits = false) (hw : SameWorld quiet w₁ w₂) :
    Steps quiet b (b.process statement w₁) (t.process TreeSession.isSmall statement w₂) := by
  cases statement with
  | definition proto body =>
    exact h.process_definition hs.1.isPlain (fun c hc => (hs.2.callees c hc).isPlain) hw
  | declaration proto => exact h.process_declaration (IsWord.isPlain hs) hw
  | expression e => exact h.process_expression (fun c hc => (hs.callees c hc).isPlain) hquiet hw

end

end NumericJit
