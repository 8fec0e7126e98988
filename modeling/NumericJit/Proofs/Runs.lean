import NumericJit.Expr

/-!
# Opening trees and effectful code

What proofs about expressions and about code in an exception-over-state monad have in common:
induction over expressions with hypotheses for the expressions inside lists, and what a sequence of
steps comes to, state after state.
-/

namespace NumericJit

-- ---------------------------------------------------------------------------
-- Induction over expressions
-- ---------------------------------------------------------------------------

/-- Induction over expressions, with a hypothesis for every argument of a call, for the step of a
loop and for every initial value. -/
@[induction_eliminator]
theorem Expr.induction {motive : Expr → Prop}
    (number : ∀ value span, motive (.number value span))
    (var : ∀ name span, motive (.variable name span))
    (binary : ∀ op lhs rhs span, motive lhs → motive rhs → motive (.binary op lhs rhs span))
    (call : ∀ callee args span, (∀ e ∈ args, motive e) → motive (.call callee args span))
    (branch : ∀ condition yes no span, motive condition → motive yes → motive no →
      motive (.branch condition yes no span))
    (loop : ∀ counter start stop step body span, motive start → motive stop →
      (∀ e ∈ step, motive e) → motive body → motive (.loop counter start stop step body span))
    (locals : ∀ bindings body span, (∀ b ∈ bindings, ∀ e ∈ b.2, motive e) → motive body →
      motive (.locals bindings body span)) (e : Expr) : motive e := by
  refine @Expr.rec motive (fun args => ∀ e ∈ args, motive e) (fun step => ∀ e ∈ step, motive e)
    (fun bindings => ∀ b ∈ bindings, ∀ e ∈ b.2, motive e) (fun b => ∀ e ∈ b.2, motive e)
    number var binary call branch loop locals ?_ ?_ ?_ ?_ ?_ ?_ ?_ e
  · simp
  · intro head tail hhead htail
    simpa using ⟨hhead, htail⟩
  · simp
  · intro e he
    simpa using he
  · simp
  · intro head tail hhead htail
    exact List.forall_mem_cons.mpr ⟨hhead, htail⟩
  · intro _ _ h
    exact h

-- ---------------------------------------------------------------------------
-- Runs of exception-over-state code
-- ---------------------------------------------------------------------------

section
variable {ε σ α β : Type}

@[simp] theorem run_pure (a : α) (s : σ) :
    (pure a : ExceptT ε (StateM σ) α).run s = (.ok a, s) := rfl

@[simp] theorem run_throw (e : ε) (s : σ) :
    (throw e : ExceptT ε (StateM σ) α).run s = (.error e, s) := rfl

@[simp] theorem run_get (s : σ) : (get : ExceptT ε (StateM σ) σ).run s = (.ok s, s) := rfl

@[simp] theorem run_modify (f : σ → σ) (s : σ) :
    (modify f : ExceptT ε (StateM σ) Unit).run s = (.ok (), f s) := rfl

@[simp] theorem run_modifyGet (f : σ → α × σ) (s : σ) :
    (modifyGet f : ExceptT ε (StateM σ) α).run s = (.ok (f s).1, (f s).2) := rfl

theorem run_bind (m : ExceptT ε (StateM σ) α) (f : α → ExceptT ε (StateM σ) β) (s : σ) :
    (m >>= f).run s = match m.run s with
      | (.ok a, next) => (f a).run next
      | (.error e, next) => (.error e, next) := by
  simp only [bind, ExceptT.bind, ExceptT.mk, ExceptT.run, StateT.bind]
  cases m s with
  | mk result next => cases result <;> rfl

theorem run_bind_ok {m : ExceptT ε (StateM σ) α} (h : m.run s = (.ok a, next))
    (f : α → ExceptT ε (StateM σ) β) : (m >>= f).run s = (f a).run next := by
  rw [run_bind, h]

theorem run_bind_error {m : ExceptT ε (StateM σ) α} (h : m.run s = (.error e, next))
    (f : α → ExceptT ε (StateM σ) β) : (m >>= f).run s = (.error e, next) := by
  rw [run_bind, h]

end

theorem bind_ok {x : Except ε α} {f : α → Except ε β} :
    x >>= f = .ok b ↔ ∃ a, x = .ok a ∧ f a = .ok b := by
  cases x <;> simp [bind, Except.bind]

theorem map_ok {x : Except ε α} {f : α → β} : x.map f = .ok b ↔ ∃ a, x = .ok a ∧ f a = b := by
  cases x <;> simp [Except.map]

theorem bind_error {x : Except ε α} {f : α → Except ε β} :
    x >>= f = .error e ↔ x = .error e ∨ ∃ a, x = .ok a ∧ f a = .error e := by
  cases x <;> simp [bind, Except.bind]

theorem seq_ok {x : Except ε Unit} {f : Unit → Except ε β} :
    x >>= f = .ok b ↔ x = .ok () ∧ f () = .ok b := by
  cases x <;> simp [bind, Except.bind]

theorem error_of_not_ok {x : Except ε α} (h : x.isOk = false) : ∃ e, x = .error e := by
  cases x with
  | error e => exact ⟨e, rfl⟩
  | ok a => cases h

theorem mapM_eq_pure_map {m : Type → Type} [Monad m] [LawfulMonad m] {α β : Type} {l : List α}
    {f : α → m β} {g : α → β} (h : ∀ x ∈ l, f x = pure (g x)) : l.mapM f = pure (l.map g) := by
  induction l with
  | nil => rfl
  | cons x xs ih =>
    obtain ⟨hx, hxs⟩ := List.forall_mem_cons.mp h
    simp [List.mapM_cons, hx, ih hxs]

end NumericJit
