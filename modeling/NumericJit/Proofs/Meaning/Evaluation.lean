import NumericJit.Meaning.Expression
import NumericJit.Proofs.Meaning.Scoping

/-!
# Evaluating with two ways to answer calls

A well-formed expression asks for nothing but calls that fit their functions, so two evaluations of
it differ only as far as the answers to these calls do. If the answers are the same, the variables
and the value are the same all along, the worlds stay related as the answers relate them, and
neither evaluation is ever stuck (`eval_alike`).
-/

namespace NumericJit

section
variable {W : Type} {vars : Variables}

theorem run_read (h : vars.get? name = some x) (w : W) :
    (Eval.read name : Eval W Number).run ⟨vars, w⟩ = (.ok x, ⟨vars, w⟩) := by
  simp [Eval.read, run_bind, h]

theorem run_assign (h : vars.get? name = some y) (x : Number) (w : W) :
    (Eval.assign name x : Eval W Unit).run ⟨vars, w⟩ = (.ok (), ⟨vars.set name x, w⟩) := by
  rw [Eval.assign, run_bind_ok (run_read h w)]
  rfl

theorem run_bindVariable (name : String) (x : Number) (w : W) :
    (Eval.bind name x : Eval W (Option Number)).run ⟨vars, w⟩ =
      (.ok (vars.get? name), ⟨vars.set name x, w⟩) := rfl

theorem run_restore (name : String) (prior : Option Number) (w : W) :
    (Eval.restore name prior : Eval W Unit).run ⟨vars, w⟩ =
      (.ok (), ⟨vars.restore name prior, w⟩) := rfl

theorem run_answer (call : String → List Number → W → CallResult W) (callee : String)
    (args : List Number) (w : W) :
    (Eval.answer call callee args).run ⟨vars, w⟩ =
      ((call callee args w).1, ⟨vars, (call callee args w).2⟩) := rfl

end

-- ---------------------------------------------------------------------------
-- Variables in scope
-- ---------------------------------------------------------------------------

def Covers (vars : Variables) (names : List String) : Prop :=
  ∀ name ∈ names, ∃ x, vars.get? name = some x

section
variable {vars vars' : Variables}

theorem Covers.set (h : Covers vars names) (name : String) (x : Number) :
    Covers (vars.set name x) names := by
  intro other ho
  rw [NameTable.get?_set]
  split
  · exact ⟨x, rfl⟩
  · exact h other ho

theorem Covers.enter (h : Covers vars names) (name : String) (x : Number) :
    Covers (vars.set name x) (name :: names) := by
  refine List.forall_mem_cons.mpr ⟨⟨x, ?_⟩, h.set name x⟩
  simp [NameTable.get?_set]

/-- Going back to what a name stood for before keeps the names around it in scope. -/
theorem Covers.leave (h : Covers vars names) (h' : Covers vars' (name :: names)) :
    Covers (vars'.restore name (vars.get? name)) names := by
  intro other ho
  rw [NameTable.get?_restore]
  split
  · rename_i heq
    exact heq ▸ h other ho
  · exact h' other (List.mem_cons_of_mem name ho)

theorem Covers.bindAll (h : Covers vars names) (hlen : args.length = params.length) :
    Covers ((params.zip args).foldl (fun vars (name, x) => vars.set name x) vars)
      (params ++ names) := by
  induction params generalizing args vars names with
  | nil => exact h
  | cons name rest ih =>
    cases args with
    | nil => cases hlen
    | cons x xs =>
      intro other ho
      refine ih (h.enter name x) (Nat.succ.inj hlen) other ?_
      simpa [or_left_comm] using ho

theorem covers_ofParams (hlen : args.length = params.length) :
    Covers (.ofParams params args) params := by
  have h : Covers (.ofParams params args) (params ++ []) :=
    Covers.bindAll (fun _ hn => by cases hn) hlen
  rwa [List.append_nil] at h

end

-- ---------------------------------------------------------------------------
-- Two evaluations
-- ---------------------------------------------------------------------------

/-- Calls that come to the same: the same value, or the same reason to stop other than being stuck,
in related worlds. -/
structure SameAnswer {W₁ W₂ : Type} (R : W₁ → W₂ → Prop) (r₁ : CallResult W₁)
    (r₂ : CallResult W₂) : Prop where
  value : r₁.1 = r₂.1
  unstuck : r₁.1 ≠ .error .stuck
  world : R r₁.2 r₂.2

/-- Evaluations that come to the same, with a value and variables that `Q` holds of. -/
inductive Alike {W₁ W₂ : Type} (R : W₁ → W₂ → Prop) (Q : α → Variables → Prop) :
    Except Halt α × EvalState W₁ → Except Halt α × EvalState W₂ → Prop where
  | ok (h : Q a vars) (hw : R w₁ w₂) : Alike R Q (.ok a, ⟨vars, w₁⟩) (.ok a, ⟨vars, w₂⟩)
  | halt (h : why ≠ .stuck) (hw : R s₁.world s₂.world) : Alike R Q (.error why, s₁) (.error why, s₂)

section
variable {W₁ W₂ : Type} {R : W₁ → W₂ → Prop} {Q Q' : α → Variables → Prop}
  {P : β → Variables → Prop} {s₁ : EvalState W₁} {s₂ : EvalState W₂}

theorem Alike.bind {m₁ : Eval W₁ α} {m₂ : Eval W₂ α} {k₁ : α → Eval W₁ β} {k₂ : α → Eval W₂ β}
    (h : Alike R Q (m₁.run s₁) (m₂.run s₂))
    (hk : ∀ a vars w₁ w₂, Q a vars → R w₁ w₂ →
      Alike R P ((k₁ a).run ⟨vars, w₁⟩) ((k₂ a).run ⟨vars, w₂⟩)) :
    Alike R P ((m₁ >>= k₁).run s₁) ((m₂ >>= k₂).run s₂) := by
  rw [run_bind, run_bind]
  generalize m₁.run s₁ = r₁ at h
  generalize m₂.run s₂ = r₂ at h
  cases h with
  | ok hq hw => exact hk _ _ _ _ hq hw
  | halt hwhy hw => exact .halt hwhy hw

theorem Alike.step {m₁ : Eval W₁ α} {m₂ : Eval W₂ α} {k₁ : α → Eval W₁ β} {k₂ : α → Eval W₂ β}
    (h₁ : m₁.run s₁ = (.ok a, t₁)) (h₂ : m₂.run s₂ = (.ok a, t₂))
    (h : Alike R P ((k₁ a).run t₁) ((k₂ a).run t₂)) :
    Alike R P ((m₁ >>= k₁).run s₁) ((m₂ >>= k₂).run s₂) := by
  rw [run_bind_ok h₁, run_bind_ok h₂]
  exact h

theorem Alike.repeatWhile {round₁ : Eval W₁ Bool} {round₂ : Eval W₂ Bool} {I : Variables → Prop}
    (h : ∀ vars w₁ w₂, I vars → R w₁ w₂ →
      Alike R (fun _ vars => I vars) (round₁.run ⟨vars, w₁⟩) (round₂.run ⟨vars, w₂⟩))
    (rounds : Nat) (hi : I vars) (hw : R w₁ w₂) :
    Alike R (fun _ vars => I vars) ((Eval.repeatWhile round₁ rounds).run ⟨vars, w₁⟩)
      ((Eval.repeatWhile round₂ rounds).run ⟨vars, w₂⟩) := by
  induction rounds generalizing vars w₁ w₂ with
  | zero => exact .halt (by decide) hw
  | succ rounds ih =>
    refine (h vars w₁ w₂ hi hw).bind fun again vars w₁ w₂ hi hw => ?_
    cases again with
    | true => exact ih hi hw
    | false => exact .ok hi hw

end

-- ---------------------------------------------------------------------------
-- All expressions
-- ---------------------------------------------------------------------------

section
variable {W₁ W₂ : Type} (R : W₁ → W₂ → Prop) (call₁ : String → List Number → W₁ → CallResult W₁)
  (call₂ : String → List Number → W₂ → CallResult W₂) (fuel : Nat)

def CallsAlike (arityOf : String → Except Cause Nat) : Prop :=
  ∀ {callee args w₁ w₂}, arityOf callee = .ok args.length → R w₁ w₂ →
    SameAnswer R (call₁ callee args w₁) (call₂ callee args w₂)

def EvalsAlike (names : List String) (e : Expr) : Prop :=
  ∀ {vars w₁ w₂}, Covers vars names → R w₁ w₂ →
    Alike R (fun _ vars => Covers vars names) ((e.eval call₁ fuel).run ⟨vars, w₁⟩)
      ((e.eval call₂ fuel).run ⟨vars, w₂⟩)

end

section
variable {W₁ W₂ : Type} {R : W₁ → W₂ → Prop} {call₁ : String → List Number → W₁ → CallResult W₁}
  {call₂ : String → List Number → W₂ → CallResult W₂} {fuel : Nat} {vars : Variables} {w₁ : W₁}
  {w₂ : W₂}

theorem read_alike (h : Covers vars names) (hin : name ∈ names) (hw : R w₁ w₂) :
    Alike R (fun _ vars => Covers vars names) ((Eval.read name : Eval W₁ Number).run ⟨vars, w₁⟩)
      ((Eval.read name : Eval W₂ Number).run ⟨vars, w₂⟩) := by
  obtain ⟨x, hx⟩ := h name hin
  rw [run_read hx, run_read hx]
  exact .ok h hw

theorem assign_alike (h : Covers vars names) (hin : name ∈ names) (x : Number) (hw : R w₁ w₂) :
    Alike R (fun _ vars => Covers vars names) ((Eval.assign name x : Eval W₁ Unit).run ⟨vars, w₁⟩)
      ((Eval.assign name x : Eval W₂ Unit).run ⟨vars, w₂⟩) := by
  obtain ⟨y, hy⟩ := h name hin
  rw [run_assign hy, run_assign hy]
  exact .ok (h.set name x) hw

theorem answer_alike (hcalls : CallsAlike R call₁ call₂ arityOf)
    (harity : arityOf callee = .ok args.length) (h : Covers vars names) (hw : R w₁ w₂) :
    Alike R (fun _ vars => Covers vars names) ((Eval.answer call₁ callee args).run ⟨vars, w₁⟩)
      ((Eval.answer call₂ callee args).run ⟨vars, w₂⟩) := by
  rw [run_answer, run_answer]
  obtain ⟨hvalue, hunstuck, hworld⟩ := hcalls harity hw
  rw [← hvalue]
  cases hr : (call₁ callee args w₁).1 with
  | ok v => exact .ok h hworld
  | error why =>
    refine .halt ?_ hworld
    rintro rfl
    exact hunstuck hr

theorem args_alike (ih : ∀ e ∈ args, EvalsAlike R call₁ call₂ fuel names e)
    (h : Covers vars names) (hw : R w₁ w₂) :
    Alike R (fun xs vars => xs.length = args.length ∧ Covers vars names)
      ((Expr.evalArgs call₁ fuel args).run ⟨vars, w₁⟩)
      ((Expr.evalArgs call₂ fuel args).run ⟨vars, w₂⟩) := by
  induction args generalizing vars w₁ w₂ with
  | nil => exact .ok ⟨rfl, h⟩ hw
  | cons e es ihes =>
    refine (ih e (by simp) h hw).bind fun x vars₁ w₁ w₂ h₁ hw₁ => ?_
    refine (ihes (fun e he => ih e (by simp [he])) h₁ hw₁).bind ?_
    rintro xs vars₂ w₁ w₂ ⟨hlen, h₂⟩ hw₂
    exact .ok ⟨by simp [hlen], h₂⟩ hw₂

theorem operator?_isSome (h : isOperator op = true) (x y : Number) :
    ∃ v, operator? op x y = some v := by
  simp only [isOperator, Bool.or_eq_true, beq_iff_eq] at h
  rcases h with (((rfl | rfl) | rfl) | rfl) | rfl <;> exact ⟨_, rfl⟩

theorem loop_alike {span : Span} (ihstart : EvalsAlike R call₁ call₂ fuel names start)
    (ihstep : ∀ e ∈ step, EvalsAlike R call₁ call₂ fuel names e)
    (ihbody : EvalsAlike R call₁ call₂ fuel (counter :: names) body)
    (ihstop : EvalsAlike R call₁ call₂ fuel (counter :: names) stop) :
    EvalsAlike R call₁ call₂ fuel names (.loop counter start stop step body span) := by
  intro vars w₁ w₂ h hw
  simp only [Expr.eval]
  refine (ihstart h hw).bind fun first vars₁ w₁ w₂ h₁ hw₁ => ?_
  refine Alike.bind (Q := fun _ vars => Covers vars names) ?_ fun growth vars₂ w₁ w₂ h₂ hw₂ => ?_
  · cases step with
    | none => exact .ok h₁ hw₁
    | some e => exact ihstep e rfl h₁ hw₁
  refine .step (run_bindVariable counter first w₁) (run_bindVariable counter first w₂) ?_
  -- in every round the counter is in scope besides the names around the loop
  refine Alike.bind (Alike.repeatWhile (I := fun vars => Covers vars (counter :: names)) ?_ fuel
    (h₂.enter counter first) hw₂) ?_
  · intro vars w₁ w₂ hround hw
    refine (ihbody hround hw).bind fun _ vars w₁ w₂ hround hw => ?_
    refine (read_alike hround (by simp) hw).bind fun x vars w₁ w₂ hround hw => ?_
    refine (assign_alike hround (by simp) _ hw).bind fun _ vars w₁ w₂ hround hw => ?_
    exact (ihstop hround hw).bind fun last vars w₁ w₂ hround hw => .ok hround hw
  · intro _ vars₃ w₁ w₂ h₃ hw₃
    refine .step (run_restore counter _ w₁) (run_restore counter _ w₂) ?_
    exact .ok (h₂.leave h₃) hw₃

theorem localVar_alike {span : Span} (ih : ∀ e ∈ b.2, EvalsAlike R call₁ call₂ fuel names e)
    (ihrest : EvalsAlike R call₁ call₂ fuel (b.1 :: names) (.locals rest body span)) :
    EvalsAlike R call₁ call₂ fuel names (.locals (b :: rest) body span) := by
  intro vars w₁ w₂ h hw
  simp only [Expr.eval, Expr.evalLocals]
  refine Alike.bind (Q := fun _ vars => Covers vars names) ?_ fun x vars₁ w₁ w₂ h₁ hw₁ => ?_
  · obtain ⟨name, initial⟩ := b
    cases initial with
    | none => exact .ok h hw
    | some e => exact ih e rfl h hw
  refine .step (run_bindVariable b.1 x w₁) (run_bindVariable b.1 x w₂) ?_
  refine (ihrest (h₁.enter b.1 x) hw₁).bind fun y vars₂ w₁ w₂ h₂ hw₂ => ?_
  exact .step (run_restore b.1 _ w₁) (run_restore b.1 _ w₂) (.ok (h₁.leave h₂) hw₂)

/-- A well-formed expression evaluates to the same wherever its calls do. -/
theorem eval_alike (hcalls : CallsAlike R call₁ call₂ arityOf) (fuel : Nat)
    (h : Expr.Formed arityOf names e) : EvalsAlike R call₁ call₂ fuel names e := by
  induction h with
  | number value span => exact fun h hw => .ok h hw
  | var hin span => exact fun h hw => read_alike h hin hw
  | assign target _ hin span ih =>
    intro vars w₁ w₂ h hw
    simp only [Expr.eval]
    refine (ih h hw).bind fun x vars w₁ w₂ h hw => ?_
    exact (assign_alike h hin x hw).bind fun _ vars w₁ w₂ h hw => .ok h hw
  | @operator op names lhs rhs hop _ _ span ihl ihr =>
    intro vars w₁ w₂ h hw
    simp only [Expr.eval, ne_assign_of_isOperator hop, ↓reduceIte]
    refine (ihl h hw).bind fun x vars w₁ w₂ h hw => ?_
    refine (ihr h hw).bind fun y vars w₁ w₂ h hw => ?_
    obtain ⟨v, hv⟩ := operator?_isSome hop x y
    rw [hv]
    exact .ok h hw
  | call harity _ span ih =>
    intro vars w₁ w₂ h hw
    refine (args_alike ih h hw).bind ?_
    rintro xs vars w₁ w₂ ⟨hlen, h⟩ hw
    exact answer_alike hcalls (hlen ▸ harity) h hw
  | branch _ _ _ span ihc ihy ihn =>
    intro vars w₁ w₂ h hw
    simp only [Expr.eval]
    refine (ihc h hw).bind fun c vars w₁ w₂ h hw => ?_
    split
    · exact ihy h hw
    · exact ihn h hw
  | loop _ _ _ _ span ihstart ihstep ihbody ihstop =>
    exact loop_alike ihstart ihstep ihbody ihstop
  | body _ span ih => exact ih
  | localVar _ _ ih ihrest => exact localVar_alike ih ihrest

theorem asFunction_alike (hcalls : CallsAlike R call₁ call₂ arityOf) (fuel : Nat)
    (h : Expr.Formed arityOf params body) (hlen : args.length = params.length) (hw : R w₁ w₂) :
    SameAnswer R (body.asFunction call₁ fuel params args w₁)
      (body.asFunction call₂ fuel params args w₂) := by
  have halike := eval_alike hcalls fuel h (covers_ofParams hlen) hw
  unfold Expr.asFunction
  generalize (body.eval call₁ fuel).run _ = r₁ at halike
  generalize (body.eval call₂ fuel).run _ = r₂ at halike
  cases halike with
  | ok _ hw => exact ⟨rfl, by simp, hw⟩
  | halt hwhy hw => exact ⟨rfl, by simpa using hwhy, hw⟩

end

end NumericJit
