import NumericJit.Meaning.Footprint
import NumericJit.Meaning.Scoping
import NumericJit.Proofs.Runs

/-!
# What the check of an expression comes to

The check of an expression looks up the arities of its callees and nothing else
(`Expr.check_congr`). It passes exactly when the rules of `Expr.Formed` apply all the way down
(`Expr.formed_iff_check`); what holds of well-formed expressions is proved by induction on them.
When it fails, the cause is one of those in `Expr.Violation` (`Expr.violation_of_check`).
-/

namespace NumericJit

section
variable {f g : String → Except Cause Nat}

-- ---------------------------------------------------------------------------
-- Two tables of arities
-- ---------------------------------------------------------------------------

theorem Expr.checkArgs_congr
    (ih : ∀ e ∈ args, ∀ names, (∀ c ∈ e.callees, f c = g c) → e.check f names = e.check g names)
    (h : ∀ c ∈ Expr.argCallees args, f c = g c) (names : List String) :
    Expr.checkArgs f names args = Expr.checkArgs g names args := by
  induction args with
  | nil => rfl
  | cons e es ihes =>
    simp only [Expr.argCallees, List.mem_append] at h
    simp only [Expr.checkArgs]
    rw [ih e (by simp) names fun c hc => h c (.inl hc),
      ihes (fun e he => ih e (by simp [he])) fun c hc => h c (.inr hc)]

theorem Expr.checkStep_congr
    (ih : ∀ e ∈ step, ∀ names, (∀ c ∈ e.callees, f c = g c) → e.check f names = e.check g names)
    (h : ∀ c ∈ Expr.stepCallees step, f c = g c) (names : List String) :
    Expr.checkStep f names step = Expr.checkStep g names step := by
  cases step with
  | none => rfl
  | some e => exact ih e (by simp) names h

theorem Expr.checkLocals_congr
    (ih : ∀ b ∈ bindings, ∀ e ∈ b.2, ∀ names, (∀ c ∈ e.callees, f c = g c) →
      e.check f names = e.check g names)
    (h : ∀ c ∈ Expr.localCallees bindings, f c = g c) (names : List String) :
    Expr.checkLocals f names bindings = Expr.checkLocals g names bindings := by
  induction bindings generalizing names with
  | nil => rfl
  | cons b rest ihrest =>
    simp only [Expr.localCallees, List.mem_append] at h
    simp only [Expr.checkLocals]
    have hb : Expr.checkLocal f names b = Expr.checkLocal g names b := by
      obtain ⟨name, value⟩ := b
      cases value with
      | none => rfl
      | some e => exact ih (name, some e) (by simp) e (by simp) names fun c hc => h c (.inl hc)
    rw [hb, ihrest (fun b hb => ih b (by simp [hb])) fun c hc => h c (.inr hc)]

/-- The check depends on the arities of the callees only. -/
theorem Expr.check_congr (e : Expr) (names : List String) (h : ∀ c ∈ e.callees, f c = g c) :
    e.check f names = e.check g names := by
  induction e generalizing names with
  | number value span => rfl
  | var name span => rfl
  | binary op lhs rhs span ihl ihr =>
    simp only [Expr.callees, List.mem_append] at h
    simp only [Expr.check, ihl names fun c hc => h c (.inl hc), ihr names fun c hc => h c (.inr hc)]
  | call callee args span ih =>
    simp only [Expr.callees, List.mem_cons] at h
    simp only [Expr.check, h callee (.inl rfl),
      Expr.checkArgs_congr (fun e he names => ih e he names) (fun c hc => h c (.inr hc)) names]
  | branch condition yes no span ihc ihy ihn =>
    simp only [Expr.callees, List.mem_append] at h
    simp only [Expr.check, ihc names fun c hc => h c (.inl (.inl hc)),
      ihy names fun c hc => h c (.inl (.inr hc)), ihn names fun c hc => h c (.inr hc)]
  | loop counter start stop step body span ihstart ihstop ihstep ihbody =>
    simp only [Expr.callees, List.mem_append] at h
    simp only [Expr.check, ihstart names fun c hc => h c (.inl (.inl (.inl hc))),
      Expr.checkStep_congr (fun e he names => ihstep e he names)
        (fun c hc => h c (.inl (.inl (.inr hc)))) names,
      ihbody (counter :: names) fun c hc => h c (.inl (.inr hc)),
      ihstop (counter :: names) fun c hc => h c (.inr hc)]
  | locals bindings body span ihlocals ihbody =>
    simp only [Expr.callees, List.mem_append] at h
    simp only [Expr.check,
      Expr.checkLocals_congr (fun b hb e he names => ihlocals b hb e he names)
        (fun c hc => h c (.inl hc)) names,
      fun names => ihbody names fun c hc => h c (.inr hc)]

-- ---------------------------------------------------------------------------
-- Checks that pass
-- ---------------------------------------------------------------------------

inductive Expr.Formed (arityOf : String → Except Cause Nat) : List String → Expr → Prop where
  | number (value : Number) (span : Span) : Formed arityOf names (.number value span)
  | var (h : name ∈ names) (span : Span) : Formed arityOf names (.variable name span)
  | assign (target : Span) (hr : Formed arityOf names rhs) (h : name ∈ names) (span : Span) :
    Formed arityOf names (.binary '=' (.variable name target) rhs span)
  | operator (hop : isOperator op = true) (hl : Formed arityOf names lhs)
    (hr : Formed arityOf names rhs) (span : Span) : Formed arityOf names (.binary op lhs rhs span)
  | call (h : arityOf callee = .ok args.length) (hargs : ∀ e ∈ args, Formed arityOf names e)
    (span : Span) : Formed arityOf names (.call callee args span)
  | branch (hc : Formed arityOf names condition) (hy : Formed arityOf names yes)
    (hn : Formed arityOf names no) (span : Span) :
    Formed arityOf names (.branch condition yes no span)
  | loop (hstart : Formed arityOf names start) (hstep : ∀ e ∈ step, Formed arityOf names e)
    (hbody : Formed arityOf (counter :: names) body)
    (hstop : Formed arityOf (counter :: names) stop) (span : Span) :
    Formed arityOf names (.loop counter start stop step body span)
  | body (h : Formed arityOf names body) (span : Span) :
    Formed arityOf names (.locals [] body span)
  | localVar {span : Span} (h : ∀ e ∈ b.2, Formed arityOf names e)
    (hrest : Formed arityOf (b.1 :: names) (.locals rest body span)) :
    Formed arityOf names (.locals (b :: rest) body span)

theorem ne_assign_of_isOperator (h : isOperator op = true) : op ≠ '=' := by
  rintro rfl
  simp [isOperator] at h

theorem inScope_ok : inScope names name span = .ok () ↔ name ∈ names := by
  unfold inScope
  split <;> simp_all

theorem Expr.checkArgs_ok : Expr.checkArgs f names args = .ok () ↔
    ∀ e ∈ args, e.check f names = .ok () := by
  induction args with
  | nil => simp [Expr.checkArgs]
  | cons e es ih => simp [Expr.checkArgs, seq_ok, ih]

theorem Expr.checkStep_ok : Expr.checkStep f names step = .ok () ↔
    ∀ e ∈ step, e.check f names = .ok () := by
  cases step <;> simp [Expr.checkStep]

theorem Expr.checkLocal_ok : Expr.checkLocal f names b = .ok () ↔
    ∀ e ∈ b.2, e.check f names = .ok () := by
  obtain ⟨name, value⟩ := b
  cases value <;> simp [Expr.checkLocal]

theorem Expr.check_locals_cons {span : Span} :
    (Expr.locals (b :: rest) body span).check f names = .ok () ↔
    Expr.checkLocal f names b = .ok () ∧
      (Expr.locals rest body span).check f (b.1 :: names) = .ok () := by
  simp only [Expr.check, Expr.checkLocals, bind_ok (f := fun names => Expr.check f names body),
    seq_ok, and_assoc, exists_and_left]

theorem Expr.Formed.check {e : Expr} (h : e.Formed f names) : e.check f names = .ok () := by
  induction h with
  | number value span => rfl
  | var h span => exact inScope_ok.mpr h
  | assign target _ h span ih =>
    exact seq_ok.mpr ⟨ih, inScope_ok.mpr h⟩
  | @operator op names lhs rhs hop _ _ span ihl ihr =>
    simp [Expr.check, seq_ok, ne_assign_of_isOperator hop, ihl, ihr, hop]
  | call h _ span ih => simp [Expr.check, seq_ok, h, Expr.checkArgs_ok.mpr ih]
  | branch _ _ _ span ihc ihy ihn => simp [Expr.check, seq_ok, ihc, ihy, ihn]
  | loop _ _ _ _ span ihstart ihstep ihbody ihstop =>
    simp [Expr.check, seq_ok, ihstart, Expr.checkStep_ok.mpr ihstep, ihbody, ihstop]
  | body _ span ih => exact ih
  | localVar _ _ ih ihrest => exact Expr.check_locals_cons.mpr ⟨Expr.checkLocal_ok.mpr ih, ihrest⟩

theorem Expr.formed_of_check {e : Expr} (h : e.check f names = .ok ()) : e.Formed f names := by
  induction e generalizing names with
  | number value span => exact .number value span
  | var name span => exact .var (inScope_ok.mp h) span
  | binary op lhs rhs span ihl ihr =>
    by_cases hassign : op = '='
    · subst hassign
      simp only [Expr.check, ↓reduceIte] at h
      cases lhs with
      | «variable» name target =>
        obtain ⟨hr, hin⟩ := seq_ok.mp h
        exact .assign target (ihr hr) (inScope_ok.mp hin) span
      | _ => cases h
    · simp only [Expr.check, hassign, ↓reduceIte, seq_ok] at h
      obtain ⟨hl, hr, hop⟩ := h
      by_cases hop' : isOperator op = true
      · exact .operator hop' (ihl hl) (ihr hr) span
      · simp [hop'] at hop
  | call callee args span ih =>
    simp only [Expr.check] at h
    split at h
    · cases h
    · rename_i arity harity
      obtain ⟨hargs, hcount⟩ := seq_ok.mp h
      by_cases heq : arity = args.length
      · exact .call (heq ▸ harity) (fun e he => ih e he (Expr.checkArgs_ok.mp hargs e he)) span
      · simp [heq] at hcount
  | branch condition yes no span ihc ihy ihn =>
    simp only [Expr.check, seq_ok] at h
    obtain ⟨hc, hy, hn⟩ := h
    exact .branch (ihc hc) (ihy hy) (ihn hn) span
  | loop counter start stop step body span ihstart ihstop ihstep ihbody =>
    simp only [Expr.check, seq_ok] at h
    obtain ⟨hstart, hstep, hbody, hstop⟩ := h
    exact .loop (ihstart hstart) (fun e he => ihstep e he (Expr.checkStep_ok.mp hstep e he))
      (ihbody hbody) (ihstop hstop) span
  | locals bindings body span ihlocals ihbody =>
    induction bindings generalizing names with
    | nil => exact .body (ihbody h) span
    | cons b rest ihrest =>
      obtain ⟨hb, hrest⟩ := Expr.check_locals_cons.mp h
      exact .localVar (fun e he => ihlocals b (by simp) e he (Expr.checkLocal_ok.mp hb e he))
        (ihrest (fun b hb => ihlocals b (by simp [hb])) hrest)

theorem Expr.formed_iff_check {e : Expr} : e.Formed f names ↔ e.check f names = .ok () :=
  ⟨Expr.Formed.check, Expr.formed_of_check⟩

theorem Expr.mem_argCallees : c ∈ Expr.argCallees args ↔ ∃ e ∈ args, c ∈ e.callees := by
  induction args with
  | nil => simp [Expr.argCallees]
  | cons e es ih => simp [Expr.argCallees, ih]

theorem Expr.mem_stepCallees : c ∈ Expr.stepCallees step ↔ ∃ e ∈ step, c ∈ e.callees := by
  cases step <;> simp [Expr.stepCallees]

theorem Expr.mem_localCallees :
    c ∈ Expr.localCallees bindings ↔ ∃ b ∈ bindings, ∃ e ∈ b.2, c ∈ e.callees := by
  induction bindings with
  | nil => simp [Expr.localCallees]
  | cons b rest ih =>
    obtain ⟨name, value⟩ := b
    cases value <;> simp [Expr.localCallees, Expr.initialCallees, ih]

theorem Expr.Formed.callable {e : Expr} (h : e.Formed f names) :
    ∀ c ∈ e.callees, ∃ k, f c = .ok k := by
  induction h with
  | number value span => simp [Expr.callees]
  | var h span => simp [Expr.callees]
  | assign target _ h span ih => simpa [Expr.callees] using ih
  | operator hop _ _ span ihl ihr =>
    simp only [Expr.callees, List.mem_append]
    rintro c (hc | hc)
    · exact ihl c hc
    · exact ihr c hc
  | call h _ span ih =>
    simp only [Expr.callees, List.mem_cons, Expr.mem_argCallees]
    rintro c (rfl | ⟨e, he, hc⟩)
    · exact ⟨_, h⟩
    · exact ih e he c hc
  | branch _ _ _ span ihc ihy ihn =>
    simp only [Expr.callees, List.mem_append]
    rintro c ((hc | hc) | hc)
    · exact ihc c hc
    · exact ihy c hc
    · exact ihn c hc
  | loop _ _ _ _ span ihstart ihstep ihbody ihstop =>
    simp only [Expr.callees, List.mem_append, Expr.mem_stepCallees]
    rintro c (((hc | ⟨e, he, hc⟩) | hc) | hc)
    · exact ihstart c hc
    · exact ihstep e he c hc
    · exact ihbody c hc
    · exact ihstop c hc
  | body _ span ih => simpa [Expr.callees, Expr.localCallees] using ih
  | @localVar b _ _ _ _ _ _ ih ihrest =>
    simp only [Expr.callees, Expr.localCallees, List.mem_append] at ihrest ⊢
    rintro c ((hc | hc) | hc)
    · obtain ⟨name, value⟩ := b
      cases value with
      | none => simp [Expr.initialCallees] at hc
      | some e => exact ih e rfl c hc
    · exact ihrest c (.inl hc)
    · exact ihrest c (.inr hc)

theorem Expr.check_mono {e : Expr} (h : e.check f names = .ok ())
    (hfg : ∀ c ∈ e.callees, ∀ k, f c = .ok k → g c = .ok k) : e.check g names = .ok () := by
  rw [← h]
  refine Expr.check_congr e names fun c hc => ?_
  obtain ⟨k, hk⟩ := (Expr.formed_of_check h).callable c hc
  rw [hk, hfg c hc k hk]

-- ---------------------------------------------------------------------------
-- Checks that fail
-- ---------------------------------------------------------------------------

/-- The causes that an expression with the given operators and callees can fail with. -/
inductive Expr.Violation (arityOf : String → Except Cause Nat) (operators : List Char)
    (callees : List String) : Cause → Prop where
  | var (name : String) : Violation arityOf operators callees (.unknownVariable name)
  | target (lhs : Expr) : Violation arityOf operators callees (.invalidTarget lhs)
  | operator (h : op ∈ operators) (hassign : op ≠ '=') (hop : isOperator op = false) :
    Violation arityOf operators callees (.unknownOperator op)
  | callee (h : c ∈ callees) (hc : arityOf c = .error cause) :
    Violation arityOf operators callees cause
  | arguments (callee : String) (expected found : Nat) :
    Violation arityOf operators callees (.wrongArgumentCount callee expected found)

theorem Expr.Violation.mono (h : Expr.Violation f ops cs cause) (ho : ops ⊆ ops') (hc : cs ⊆ cs') :
    Expr.Violation f ops' cs' cause := by
  cases h with
  | var name => exact .var name
  | target lhs => exact .target lhs
  | operator h hassign hop => exact .operator (ho h) hassign hop
  | callee h hcause => exact .callee (hc h) hcause
  | arguments callee expected found => exact .arguments callee expected found

variable {failure : Failure}

theorem inScope_error (h : inScope names name span = .error failure) :
    failure.cause = .unknownVariable name := by
  unfold inScope at h
  split at h <;> cases h
  rfl

theorem Expr.violation_of_checkArgs
    (ih : ∀ e ∈ args, ∀ {failure}, e.check f names = .error failure →
      Expr.Violation f e.operators e.callees failure.cause)
    (h : Expr.checkArgs f names args = .error failure) :
    Expr.Violation f (Expr.argOperators args) (Expr.argCallees args) failure.cause := by
  induction args with
  | nil => cases h
  | cons e es ihes =>
    simp only [Expr.checkArgs, bind_error] at h
    rcases h with h | ⟨_, -, h⟩
    · exact (ih e (by simp) h).mono (List.subset_append_left _ _) (List.subset_append_left _ _)
    · exact (ihes (fun e he => ih e (by simp [he])) h).mono (List.subset_append_right _ _)
        (List.subset_append_right _ _)

theorem Expr.violation_of_checkLocals
    (ih : ∀ b ∈ bindings, ∀ e ∈ b.2, ∀ {names failure}, e.check f names = .error failure →
      Expr.Violation f e.operators e.callees failure.cause)
    (h : Expr.checkLocals f names bindings = .error failure) :
    Expr.Violation f (Expr.localOperators bindings) (Expr.localCallees bindings) failure.cause := by
  induction bindings generalizing names with
  | nil => cases h
  | cons b rest ihrest =>
    simp only [Expr.checkLocals, bind_error] at h
    rcases h with h | ⟨_, -, h⟩
    · obtain ⟨name, value⟩ := b
      cases value with
      | none => cases h
      | some e =>
        exact (ih (name, some e) (by simp) e rfl h).mono (List.subset_append_left _ _)
          (List.subset_append_left _ _)
    · exact (ihrest (fun b hb => ih b (by simp [hb])) h).mono (List.subset_append_right _ _)
        (List.subset_append_right _ _)

theorem Expr.violation_of_check {e : Expr} (h : e.check f names = .error failure) :
    Expr.Violation f e.operators e.callees failure.cause := by
  induction e generalizing names failure with
  | number value span => cases h
  | var name span => exact inScope_error h ▸ .var name
  | binary op lhs rhs span ihl ihr =>
    have hl {names failure} (h : lhs.check f names = .error failure) :
        Expr.Violation f (Expr.binary op lhs rhs span).operators
          (Expr.binary op lhs rhs span).callees failure.cause :=
      (ihl h).mono (fun c hc => by simp [Expr.operators, hc])
        (fun c hc => by simp [Expr.callees, hc])
    have hr {names failure} (h : rhs.check f names = .error failure) :
        Expr.Violation f (Expr.binary op lhs rhs span).operators
          (Expr.binary op lhs rhs span).callees failure.cause :=
      (ihr h).mono (fun c hc => by simp [Expr.operators, hc])
        (fun c hc => by simp [Expr.callees, hc])
    by_cases hassign : op = '='
    · subst hassign
      simp only [Expr.check, ↓reduceIte] at h
      cases lhs with
      | «variable» name target =>
        simp only [bind_error] at h
        rcases h with h | ⟨_, -, h⟩
        · exact hr h
        · exact inScope_error h ▸ .var name
      | _ =>
        cases h
        exact .target _
    · simp only [Expr.check, hassign, ↓reduceIte, bind_error] at h
      rcases h with h | ⟨_, -, h | ⟨_, -, h⟩⟩
      · exact hl h
      · exact hr h
      · split at h
        · cases h
        · rename_i hop
          cases h
          exact .operator (by simp [Expr.operators]) hassign (by simpa using hop)
  | call callee args span ih =>
    simp only [Expr.check] at h
    split at h
    · rename_i cause hcause
      cases h
      exact .callee (by simp [Expr.callees]) hcause
    · simp only [bind_error] at h
      rcases h with h | ⟨_, -, h⟩
      · exact (Expr.violation_of_checkArgs (fun e he => ih e he) h).mono (fun _ hc => hc)
          (List.subset_cons_self _ _)
      · split at h <;> cases h
        exact .arguments callee _ _
  | branch condition yes no span ihc ihy ihn =>
    simp only [Expr.check, bind_error] at h
    rcases h with h | ⟨_, -, h | ⟨_, -, h⟩⟩
    · exact (ihc h).mono (fun c hc => by simp [Expr.operators, hc])
        (fun c hc => by simp [Expr.callees, hc])
    · exact (ihy h).mono (fun c hc => by simp [Expr.operators, hc])
        (fun c hc => by simp [Expr.callees, hc])
    · exact (ihn h).mono (fun c hc => by simp [Expr.operators, hc])
        (fun c hc => by simp [Expr.callees, hc])
  | loop counter start stop step body span ihstart ihstop ihstep ihbody =>
    simp only [Expr.check, bind_error] at h
    rcases h with h | ⟨_, -, h | ⟨_, -, h | ⟨_, -, h⟩⟩⟩
    · exact (ihstart h).mono (fun c hc => by simp [Expr.operators, hc])
        (fun c hc => by simp [Expr.callees, hc])
    · cases step with
      | none => cases h
      | some e =>
        exact (ihstep e rfl h).mono (fun c hc => by simp [Expr.operators, Expr.stepOperators, hc])
          (fun c hc => by simp [Expr.callees, Expr.stepCallees, hc])
    · exact (ihbody h).mono (fun c hc => by simp [Expr.operators, hc])
        (fun c hc => by simp [Expr.callees, hc])
    · exact (ihstop h).mono (fun c hc => by simp [Expr.operators, hc])
        (fun c hc => by simp [Expr.callees, hc])
  | locals bindings body span ihlocals ihbody =>
    simp only [Expr.check, bind_error] at h
    rcases h with h | ⟨_, -, h⟩
    · exact (Expr.violation_of_checkLocals (fun b hb e he => ihlocals b hb e he) h).mono
        (List.subset_append_left _ _) (List.subset_append_left _ _)
    · exact (ihbody h).mono (List.subset_append_right _ _) (List.subset_append_right _ _)

end

end NumericJit
