import NumericJit.Meaning.Places
import NumericJit.Proofs.Lowering.Draft

/-!
# Lowering looks at no places

Where the parts of a statement stand in a text matters to nothing but the places of failures:
statements that differ in places only are lowered to the same code, with failures of the same
wording (`Draft.lower_relocate`).
-/

namespace NumericJit

-- ---------------------------------------------------------------------------
-- Wording
-- ---------------------------------------------------------------------------

mutual
theorem Expr.text_relocate (m : Relocation) : ∀ e : Expr, (e.relocate m).text = e.text
  | .number _ _ | .variable _ _ => rfl
  | .binary _ lhs rhs _ => by
    rw [Expr.relocate]
    unfold Expr.text
    rw [Expr.text_relocate m lhs, Expr.text_relocate m rhs]
  | .call _ args _ => by
    rw [Expr.relocate]
    unfold Expr.text
    rw [Expr.argsText_relocate m args]
  | .branch condition yes no _ => by
    rw [Expr.relocate]
    unfold Expr.text
    rw [Expr.text_relocate m condition, Expr.text_relocate m yes, Expr.text_relocate m no]
  | .loop _ start stop step body _ => by
    rw [Expr.relocate]
    unfold Expr.text
    rw [Expr.text_relocate m start, Expr.text_relocate m stop, Expr.stepText_relocate m step,
      Expr.text_relocate m body]
  | .locals bindings body _ => by
    rw [Expr.relocate]
    unfold Expr.text
    rw [Expr.bindingsText_relocate m bindings, Expr.text_relocate m body]

theorem Expr.argsText_relocate (m : Relocation) :
    ∀ es : List Expr, Expr.argsText (Expr.relocateArgs m es) = Expr.argsText es
  | [] => rfl
  | [e] => Expr.text_relocate m e
  | e :: e' :: es => by
    show (e.relocate m).text ++ ", " ++ Expr.argsText (Expr.relocateArgs m (e' :: es)) = _
    rw [Expr.text_relocate m e, Expr.argsText_relocate m (e' :: es)]
    rfl

theorem Expr.stepText_relocate (m : Relocation) :
    ∀ step : Option Expr, Expr.stepText (Expr.relocateStep m step) = Expr.stepText step
  | none => rfl
  | some e => congrArg (", " ++ ·) (Expr.text_relocate m e)

theorem Expr.bindingText_relocate (m : Relocation) :
    ∀ b : String × Option Expr, Expr.bindingText (Expr.relocateBinding m b) = Expr.bindingText b
  | (_, none) => rfl
  | (name, some e) => congrArg (name ++ " = " ++ ·) (Expr.text_relocate m e)

theorem Expr.bindingsText_relocate (m : Relocation) :
    ∀ bs : List (String × Option Expr),
      Expr.bindingsText (Expr.relocateBindings m bs) = Expr.bindingsText bs
  | [] => rfl
  | [b] => Expr.bindingText_relocate m b
  | b :: b' :: bs => by
    show Expr.bindingText (Expr.relocateBinding m b) ++ ", " ++
      Expr.bindingsText (Expr.relocateBindings m (b' :: bs)) = _
    rw [Expr.bindingText_relocate m b, Expr.bindingsText_relocate m (b' :: bs)]
    rfl
end

theorem Failure.wording_relocate (f : Failure) (m : Relocation) :
    (f.relocate m).wording = f.wording := by
  obtain ⟨cause, span⟩ := f
  cases cause with
  | invalidTarget target =>
    simp only [Failure.relocate, Cause.relocate, Failure.wording, Failure.diagnostic,
      Cause.diagnostic, target.text_relocate]
  | _ => rfl

/-- What effectful code came to, with the state it left: the same but for the place of a failure. -/
inductive SameButPlaces : Except Failure α × σ → Except Failure α × σ → Prop where
  | ok (a : α) (state : σ) : SameButPlaces (.ok a, state) (.ok a, state)
  | error (h : f'.wording = f.wording) (state : σ) :
    SameButPlaces (.error f, state) (.error f', state)

namespace SameButPlaces

theorem refl (r : Except Failure α × σ) : SameButPlaces r r := by
  obtain ⟨r, state⟩ := r
  cases r with
  | ok a => exact .ok a state
  | error f => exact .error rfl state

theorem ite {p : Prop} [Decidable p] {r r' q q' : Except Failure α × σ}
    (hr : p → SameButPlaces r r') (hq : ¬ p → SameButPlaces q q') :
    SameButPlaces (if p then r else q) (if p then r' else q') := by
  split
  · exact hr ‹_›
  · exact hq ‹_›

theorem moved (m : Relocation) (f : Failure) (state : σ) :
    SameButPlaces ((.error f : Except Failure α), state) (.error (f.relocate m), state) :=
  .error (f.wording_relocate m) state

theorem map {r r' : Except Failure α × σ} (h : SameButPlaces r r') (k : α → β) :
    SameButPlaces (r.1.map k, r.2) (r'.1.map k, r'.2) := by
  cases h with
  | ok a state => exact .ok (k a) state
  | error h state => exact .error h state

theorem worded {r r' : Except Failure α × σ} (h : SameButPlaces r r') :
    worded r'.1 = worded r.1 ∧ r'.2 = r.2 := by
  cases h with
  | ok a state => exact ⟨rfl, rfl⟩
  | error h state => exact ⟨congrArg Except.error h, rfl⟩

end SameButPlaces

-- ---------------------------------------------------------------------------
-- Lowering
-- ---------------------------------------------------------------------------

namespace Lower

def Alike (x x' : Lower α) : Prop := ∀ s, SameButPlaces (x.run s) (x'.run s)

namespace Alike

theorem refl (x : Lower α) : x.Alike x := fun s => .refl (x.run s)

theorem bind {x x' : Lower α} {k k' : α → Lower β} (h : x.Alike x') (hk : ∀ a, (k a).Alike (k' a)) :
    Alike (x >>= k) (x' >>= k') := by
  intro s
  have hs := h s
  generalize hx : x.run s = r at hs
  generalize hx' : x'.run s = r' at hs
  cases hs with
  | ok a next =>
    rw [run_bind_ok hx, run_bind_ok hx']
    exact hk a next
  | error hf next =>
    rw [run_bind_error hx, run_bind_error hx']
    exact .error hf next

theorem ite {p : Prop} [Decidable p] {x x' y y' : Lower α} (hx : p → x.Alike x')
    (hy : ¬ p → y.Alike y') : Alike (if p then x else y) (if p then x' else y') := by
  split
  · exact hx ‹_›
  · exact hy ‹_›

theorem fail (m : Relocation) (cause : Cause) (span : Span) :
    Alike (Lower.fail cause span : Lower α) (Lower.fail (cause.relocate m) (m.span span)) :=
  fun s => .moved m ⟨cause, span⟩ s

end Alike

section
variable (m : Relocation) (around : Surroundings)

theorem lookup_relocate (name : String) (span : Span) :
    (lookup name span).Alike (lookup name (m.span span)) := by
  refine .bind (.refl _) fun s => ?_
  cases s.scope.get? name with
  | some slot => exact .refl _
  | none => exact .fail m (.unknownVariable name) span

theorem resolve_relocate (callee : String) (span : Span) :
    (resolve around callee span).Alike (resolve around callee (m.span span)) := by
  refine .bind (.refl _) fun s => .ite (fun _ => .refl _) fun _ => ?_
  cases s.unit.arity? callee with
  | some arity => exact .refl _
  | none =>
    refine .ite (fun _ => .fail m (.unknownFunction callee) span) fun _ => ?_
    cases around.arities.get? callee with
    | some arity => exact .refl _
    | none => exact .fail m (.arityUnrecorded callee) span

variable {m around}

theorem arguments_relocate
    (h : ∀ e ∈ args, (expression around e).Alike (expression around (e.relocate m))) :
    (arguments around args).Alike (arguments around (Expr.relocateArgs m args)) := by
  induction args with
  | nil => exact .refl _
  | cons e es ih =>
    obtain ⟨he, hes⟩ := List.forall_mem_cons.mp h
    rw [Expr.relocateArgs, arguments, arguments]
    exact .bind he fun _ => ih hes

theorem stepSize_relocate {step : Option Expr}
    (h : ∀ e ∈ step, (expression around e).Alike (expression around (e.relocate m))) :
    (stepSize around step).Alike (stepSize around (Expr.relocateStep m step)) := by
  cases step with
  | none => exact .refl _
  | some e =>
    rw [Expr.relocateStep, stepSize, stepSize]
    exact .bind (h e rfl) fun _ => .refl _

theorem initialValue_relocate {b : String × Option Expr}
    (h : ∀ e ∈ b.2, (expression around e).Alike (expression around (e.relocate m))) :
    (initialValue around b).Alike (initialValue around (Expr.relocateBinding m b)) := by
  obtain ⟨name, value⟩ := b
  cases value with
  | none => exact .refl _
  | some e => exact h e rfl

theorem locals_relocate {bindings : List (String × Option Expr)} {inner inner' : Lower Unit}
    (h : ∀ b ∈ bindings, ∀ e ∈ b.2, (expression around e).Alike (expression around (e.relocate m)))
    (hinner : inner.Alike inner') :
    (locals around bindings inner).Alike
      (locals around (Expr.relocateBindings m bindings) inner') := by
  induction bindings with
  | nil => exact hinner
  | cons b bs ih =>
    obtain ⟨hb, hbs⟩ := List.forall_mem_cons.mp h
    have hname : (Expr.relocateBinding m b).1 = b.1 := by
      obtain ⟨name, value⟩ := b
      cases value <;> rfl
    rw [Expr.relocateBindings, locals, locals, hname]
    refine .bind (initialValue_relocate hb) fun _ => .bind (.refl _) fun slot =>
      .bind (.refl _) fun _ => .bind (.refl _) fun prior => ?_
    exact .bind (ih hbs) fun _ => .refl _

theorem assignment_relocate (lhs : Expr) {rhs : Expr} (span : Span)
    (hrhs : (expression around rhs).Alike (expression around (rhs.relocate m))) :
    (expression around (.binary '=' lhs rhs span)).Alike
      (expression around (.binary '=' (lhs.relocate m) (rhs.relocate m) (m.span span))) := by
  simp only [expression, if_true]
  cases lhs with
  | «variable» name target =>
    exact .bind hrhs fun _ => .bind (lookup_relocate m name target) fun _ => .refl _
  | _ => exact .fail m (.invalidTarget _) span

theorem expression_relocate (m : Relocation) (around : Surroundings) (e : Expr) :
    (expression around e).Alike (expression around (e.relocate m)) := by
  induction e with
  | number value span => exact .refl _
  | var name span =>
    rw [Expr.relocate, expression, expression]
    exact .bind (lookup_relocate m name span) fun _ => .refl _
  | binary op lhs rhs span hlhs hrhs =>
    rw [Expr.relocate]
    by_cases hassign : op = '='
    · rw [hassign]
      exact assignment_relocate lhs span hrhs
    simp only [expression, if_neg hassign]
    refine .ite (fun _ => ?_) fun _ => ?_
    · exact .bind hlhs fun _ => .bind (.refl _) fun slot => .bind (.refl _) fun _ =>
        .bind hrhs fun _ => .refl _
    · refine .bind hlhs fun _ => .bind hrhs fun _ => ?_
      cases operatorCode? op with
      | some code => exact .refl _
      | none => exact .fail m (.unknownOperator op) span
  | call callee args span hargs =>
    have hlength : (Expr.relocateArgs m args).length = args.length := by
      clear hargs
      induction args with
      | nil => rfl
      | cons e es ih => exact congrArg (· + 1) ih
    rw [Expr.relocate, expression, expression, hlength]
    refine .bind (resolve_relocate m around callee span) fun arity =>
      .bind (arguments_relocate hargs) fun _ => .ite (fun _ => .refl _) fun _ => ?_
    exact .fail m (.wrongArgumentCount callee arity args.length) span
  | branch condition yes no span hcondition hyes hno =>
    rw [Expr.relocate, expression, expression]
    refine .bind hcondition fun _ => .bind (.refl _) fun _ => .bind (.refl _) fun _ => ?_
    exact .bind hyes fun _ => .bind (.refl _) fun _ => .bind hno fun _ => .refl _
  | loop counter start stop step body span hstart hstop hstep hbody =>
    rw [Expr.relocate, expression, expression]
    refine .bind (.refl _) fun slot => .bind hstart fun _ => .bind (.refl _) fun _ =>
      .bind (stepSize_relocate hstep) fun growth => .bind (.refl _) fun _ =>
      .bind (.refl _) fun prior => .bind hbody fun _ => ?_
    refine .bind (.refl _) fun _ => .bind (.refl _) fun _ => .bind (.refl _) fun _ =>
      .bind (.refl _) fun _ => .bind (.refl _) fun _ => ?_
    exact .bind hstop fun _ => .refl _
  | locals bindings body span hbindings hbody =>
    rw [Expr.relocate, expression, expression]
    exact locals_relocate hbindings hbody

theorem function_relocate (m : Relocation) (around : Surroundings) (body : Expr) :
    (function around body).Alike (function around (body.relocate m)) :=
  .bind (.refl _) fun _ => .bind (.refl _) fun _ =>
    .bind (expression_relocate m around body) fun _ => .refl _

end

end Lower

-- ---------------------------------------------------------------------------
-- Statements
-- ---------------------------------------------------------------------------

namespace Draft

variable (m : Relocation) (d : Draft) (resident : String → Bool)

theorem addFunction_relocate (name : String) (params : List String) (body : Expr) :
    SameButPlaces (d.addFunction resident name params body)
      (d.addFunction resident name params (body.relocate m)) := by
  have hrun := Lower.function_relocate m ⟨resident, d.arities⟩ body
    { builder := .start name params, scope := {}, unit := d.unit }
  simp only [addFunction]
  generalize (Lower.function ⟨resident, d.arities⟩ body).run _ = r at hrun ⊢
  generalize (Lower.function ⟨resident, d.arities⟩ (body.relocate m)).run _ = r' at hrun ⊢
  cases hrun with
  | ok f s => exact .refl _
  | error hf s => exact .error hf _

theorem lowerDefinition_relocate (proto : Prototype) (body : Expr) :
    SameButPlaces (d.lowerDefinition resident proto body)
      (d.lowerDefinition resident (proto.relocate m) (body.relocate m)) := by
  have hadd := addFunction_relocate m (d.record proto.name proto.arity) resident proto.name
    proto.params body
  simp only [lowerDefinition]
  exact .ite (fun _ => .moved m ⟨.redefinition proto.name, proto.span⟩ d) fun _ =>
    hadd.map fun _ => Lowered.definition proto.name

theorem lowerDeclaration_relocate (proto : Prototype) :
    SameButPlaces (d.lowerDeclaration resident proto)
      (d.lowerDeclaration resident (proto.relocate m)) := by
  cases hk : d.unit.arity? proto.name with
  | some known =>
    have hk' : d.unit.arity? (proto.relocate m).name = some known := hk
    rw [lowerDeclaration_known hk, lowerDeclaration_known hk']
    exact .ite (fun _ => .refl _) fun _ =>
      .moved m ⟨.wrongParameterCount proto.name known proto.arity, proto.span⟩ d
  | none =>
    have hk' : d.unit.arity? (proto.relocate m).name = none := hk
    cases hr : resident proto.name with
    | false =>
      have hr' : resident (proto.relocate m).name = false := hr
      rw [lowerDeclaration_unmatched hk hr, lowerDeclaration_unmatched hk' hr']
      exact .moved m ⟨.unmatchedDeclaration proto.name, proto.span⟩ d
    | true =>
      have hr' : resident (proto.relocate m).name = true := hr
      rw [lowerDeclaration_resident hk hr, lowerDeclaration_resident hk' hr']
      exact .ite (fun _ => .refl _) fun _ =>
        .moved m ⟨.wrongParameterCount proto.name _ proto.arity, proto.span⟩ d

theorem lowerExpression_relocate (wrapper : String) (e : Expr) :
    SameButPlaces (d.lowerExpression resident wrapper e)
      (d.lowerExpression resident wrapper (e.relocate m)) := by
  simp only [lowerExpression]
  exact .ite (fun _ => .refl _) fun _ =>
    (addFunction_relocate m d resident wrapper [] e).map fun _ => Lowered.wrapper wrapper

theorem lower_relocate (wrapper : String) (statement : Statement) :
    SameButPlaces (d.lower resident wrapper statement)
      (d.lower resident wrapper (statement.relocate m)) := by
  cases statement with
  | definition proto body => exact lowerDefinition_relocate m d resident proto body
  | declaration proto => exact lowerDeclaration_relocate m d resident proto
  | expression e => exact lowerExpression_relocate m d resident wrapper e

end Draft

end NumericJit
