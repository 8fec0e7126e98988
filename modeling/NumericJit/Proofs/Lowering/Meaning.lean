import NumericJit.Proofs.Lowering.Code
import NumericJit.Proofs.Machine
import NumericJit.Proofs.Meaning.Evaluation

/-!
# Lowered code does what the expression means

Variables are names on one side and slots on the other. While the slots in scope hold the values
of the variables (`Agree`), running the code of a well-formed expression and evaluating the
expression go the same way: both stop for the same reason with the same world, or both go on, with
the value on top of the operands, slots and variables still in agreement, and every slot that is
not in scope as it was (`code_realises`).

The argument rests on slots being fresh: a slot that is made for a loop counter, a step, a local
variable or a left operand of `>` is not the slot of any name in scope, so the code between can
change it only through its own name.
-/

namespace NumericJit

-- ---------------------------------------------------------------------------
-- Variables in slots
-- ---------------------------------------------------------------------------

/-- Every name in scope has a slot of its own among the slots in use. -/
structure SlotMap.Fits (scope : SlotMap) (slots : Nat) : Prop where
  below : ∀ {name i}, scope name = some i → i < slots
  distinct : ∀ {a b i}, scope a = some i → scope b = some i → a = b

def SlotMap.Hidden (scope : SlotMap) (i : Nat) : Prop := ∀ name, scope name ≠ some i

/-- The variables are those in scope, with the values in their slots. -/
def Agree (scope : SlotMap) (slots : Array Number) (vars : Variables) : Prop :=
  ∀ name, vars.get? name = (scope name).bind (slots[·]?)

/-- Of the slots in use, only those in scope may have changed. -/
structure Keeps (scope : SlotMap) (n : Nat) (slots slots' : Array Number) : Prop where
  size : slots'.size = slots.size
  hidden : ∀ {i}, i < n → scope.Hidden i → slots'[i]? = slots[i]?

section
variable {scope : SlotMap} {n m : Nat} {slots slots₁ slots₂ : Array Number} {vars : Variables}

theorem SlotMap.Fits.mono (h : scope.Fits n) (hle : n ≤ m) : scope.Fits m :=
  ⟨fun hs => Nat.lt_of_lt_of_le (h.below hs) hle, h.distinct⟩

theorem SlotMap.Fits.hidden (h : scope.Fits n) (hle : n ≤ i) : scope.Hidden i :=
  fun _ hs => Nat.not_lt.mpr hle (h.below hs)

theorem SlotMap.Fits.bind (h : scope.Fits n) (name : String) (hle : n ≤ slot) :
    (scope.bind name slot).Fits (slot + 1) where
  below {other i} hs := by
    by_cases ho : other = name
    · subst ho
      simp at hs
      omega
    · rw [SlotMap.bind_of_ne scope slot ho] at hs
      exact Nat.lt_succ_of_lt (Nat.lt_of_lt_of_le (h.below hs) hle)
  distinct {a b i} ha hb := by
    -- a name other than the new one has a slot below the new one
    have hold : ∀ {c}, c ≠ name → scope.bind name slot c = some i → i < n := by
      intro c hc hs
      rw [SlotMap.bind_of_ne scope slot hc] at hs
      exact h.below hs
    have hnew : ∀ {c}, c = name → scope.bind name slot c = some i → i = slot := by
      rintro c rfl hs
      simpa using hs.symm
    by_cases haName : a = name <;> by_cases hbName : b = name
    · rw [haName, hbName]
    · have h₁ := hnew haName ha
      have h₂ := hold hbName hb
      omega
    · have h₁ := hold haName ha
      have h₂ := hnew hbName hb
      omega
    · rw [SlotMap.bind_of_ne scope slot haName] at ha
      rw [SlotMap.bind_of_ne scope slot hbName] at hb
      exact h.distinct ha hb

/-- Binding a name hides the slot that it had before. -/
theorem SlotMap.Fits.hidden_bind (h : scope.Fits n) (hle : n ≤ slot)
    (hs : scope name = some i ∨ (i < n ∧ scope.Hidden i)) : (scope.bind name slot).Hidden i := by
  intro other ho
  by_cases hname : other = name
  · subst hname
    have hi : i < n := hs.elim h.below And.left
    simp at ho
    omega
  · rw [SlotMap.bind_of_ne scope slot hname] at ho
    rcases hs with hs | ⟨-, hs⟩
    · exact hname (h.distinct ho hs)
    · exact hs other ho

theorem Keeps.refl (scope : SlotMap) (n : Nat) (slots : Array Number) :
    Keeps scope n slots slots := ⟨rfl, fun _ _ => rfl⟩

theorem Keeps.trans (h₁ : Keeps scope n slots slots₁) (h₂ : Keeps scope n slots₁ slots₂) :
    Keeps scope n slots slots₂ :=
  ⟨h₂.size.trans h₁.size, fun hi hh => (h₂.hidden hi hh).trans (h₁.hidden hi hh)⟩

theorem Keeps.mono (h : Keeps scope m slots slots₁) (hle : n ≤ m) : Keeps scope n slots slots₁ :=
  ⟨h.size, fun hi hh => h.hidden (Nat.lt_of_lt_of_le hi hle) hh⟩

theorem Keeps.set_new (scope : SlotMap) (slots : Array Number) (hle : n ≤ slot) (x : Number) :
    Keeps scope n slots (slots.setIfInBounds slot x) where
  size := by simp
  hidden {i} hi _ := by
    rw [Array.getElem?_setIfInBounds, if_neg (by omega)]

theorem Keeps.set_visible (hs : scope name = some slot) (n : Nat) (slots : Array Number)
    (x : Number) : Keeps scope n slots (slots.setIfInBounds slot x) where
  size := by simp
  hidden {i} _ hh := by
    rw [Array.getElem?_setIfInBounds, if_neg]
    rintro rfl
    exact hh name hs

theorem Agree.set_new (h : Agree scope slots vars) (hf : scope.Fits n) (hle : n ≤ slot)
    (x : Number) : Agree scope (slots.setIfInBounds slot x) vars := by
  intro name
  rw [h name]
  cases hs : scope name with
  | none => rfl
  | some i =>
    have hi := hf.below hs
    simp only [Option.bind_some]
    rw [Array.getElem?_setIfInBounds, if_neg (by omega)]

theorem Agree.assign (h : Agree scope slots vars) (hf : scope.Fits n) (hs : scope name = some slot)
    (hlt : slot < slots.size) (x : Number) :
    Agree scope (slots.setIfInBounds slot x) (vars.set name x) := by
  intro other
  rw [NameTable.get?_set]
  by_cases ho : other = name
  · subst ho
    simp [hs, hlt]
  · rw [if_neg ho, h other]
    cases hos : scope other with
    | none => rfl
    | some i =>
      have hne : slot ≠ i := by
        rintro rfl
        exact ho (hf.distinct hos hs)
      simp only [Option.bind_some]
      rw [Array.getElem?_setIfInBounds, if_neg hne]

theorem Agree.enter (h : Agree scope slots vars) (hx : slots[slot]? = some x) (name : String) :
    Agree (scope.bind name slot) slots (vars.set name x) := by
  intro other
  rw [NameTable.get?_set]
  by_cases ho : other = name
  · subst ho
    simp [hx]
  · rw [if_neg ho, SlotMap.bind_of_ne scope slot ho, h other]

theorem Agree.leave (h : Agree (scope.bind name slot) slots₁ vars)
    (hkept : ∀ i, scope name = some i → slots₁[i]? = slots[i]?) :
    Agree scope slots₁ (vars.restore name ((scope name).bind (slots[·]?))) := by
  intro other
  rw [NameTable.get?_restore]
  by_cases ho : other = name
  · subst ho
    rw [if_pos rfl]
    cases hs : scope other with
    | none => rfl
    | some i => exact (hkept i hs).symm
  · rw [if_neg ho, h other, SlotMap.bind_of_ne scope slot ho]

end

-- ---------------------------------------------------------------------------
-- Runs and evaluations side by side
-- ---------------------------------------------------------------------------

/-- A run that goes the way of an evaluation: it stops for the same reason, or goes on with a frame
that `Q` relates to the value and the variables. The worlds are the same. -/
def Realises {W α : Type} (flow : Flow Unit W) (result : Except Halt α × EvalState W)
    (Q : α → Frame → Variables → Prop) : Prop :=
  match result with
  | (.ok a, s) => ∃ f, flow = .next f s.world ∧ Q a f s.vars
  | (.error why, s) => flow = .halt why s.world

section
variable {W α β : Type} {flow : Flow Unit W} {Q Q' : α → Frame → Variables → Prop}
  {R : β → Frame → Variables → Prop}

theorem Realises.bind {m : Eval W α} {k : α → Eval W β} {next : Frame → W → Flow Unit W}
    (h : Realises flow (m.run s) Q)
    (hk : ∀ a f vars w, Q a f vars → Realises (next f w) ((k a).run ⟨vars, w⟩) R) :
    Realises (flow.andThen next) ((m >>= k).run s) R := by
  unfold Realises at h
  rw [run_bind]
  split at h
  · rename_i a s' hrun
    obtain ⟨f, rfl, hq⟩ := h
    rw [hrun]
    exact hk a f s'.vars s'.world hq
  · rename_i why s' hrun
    subst h
    rw [hrun]
    rfl

theorem Realises.mono {result : Except Halt α × EvalState W} (h : Realises flow result Q)
    (hq : ∀ a f vars, Q a f vars → Q' a f vars) : Realises flow result Q' := by
  unfold Realises at h ⊢
  split
  · obtain ⟨f, hf, h⟩ := h
    exact ⟨f, hf, hq _ _ _ h⟩
  · exact h

theorem Realises.pure {f : Frame} {w : W} (h : Q a f vars) :
    Realises (.next f w) ((pure a : Eval W α).run ⟨vars, w⟩) Q := ⟨f, rfl, h⟩

theorem Realises.map {m : Eval W α} {g : α → β} (h : Realises flow (m.run s) Q)
    (hq : ∀ a f vars, Q a f vars → R (g a) f vars) :
    Realises flow ((m >>= fun a => Pure.pure (g a)).run s) R := by
  rw [← flow.andThen_next_eq]
  exact Realises.bind h fun a f vars w hqa => .pure (hq a f vars hqa)

theorem Realises.eval_step {m : Eval W α} {k : α → Eval W β} (hm : m.run s = (.ok a, s'))
    (h : Realises flow ((k a).run s') R) : Realises flow ((m >>= k).run s) R := by
  rw [run_bind_ok hm]
  exact h

end

structure Computed (scope : SlotMap) (n : Nat) (f : Frame) (v : Number) (f' : Frame)
    (vars : Variables) : Prop where
  operands : f'.operands = .num v :: f.operands
  agree : Agree scope f'.slots vars
  keeps : Keeps scope n f.slots f'.slots

section
variable {W : Type} (call : String → List Number → W → CallResult W) (fuel : Nat)

/-- Running the code of an expression goes the way of evaluating it, wherever the given names are
in scope. -/
def RunsAs (names : List String) (e : Expr) : Prop :=
  ∀ {scope : SlotMap} {n : Nat} {f : Frame} {vars : Variables} {w : W}, scope.Names names →
    scope.Fits n → n + e.slotCount ≤ f.slots.size → Agree scope f.slots vars →
    Realises (Code.run call fuel (e.code scope n) f w) ((e.eval call fuel).run ⟨vars, w⟩)
      (Computed scope n f)

end

section
variable {W : Type} {call : String → List Number → W → CallResult W} {fuel : Nat}
  {scope : SlotMap} {n : Nat} {f : Frame} {vars : Variables} {w : W}

theorem Agree.slot_of_mem (h : Agree scope f.slots vars) (hf : scope.Fits n)
    (hn : scope.Names names) (hsize : n ≤ f.slots.size) (hin : name ∈ names) :
    ∃ i x, scope name = some i ∧ i < f.slots.size ∧ f.slots[i]? = some x ∧
      vars.get? name = some x := by
  obtain ⟨i, hi⟩ := Option.isSome_iff_exists.mp ((hn name).mp hin)
  have hlt : i < f.slots.size := Nat.lt_of_lt_of_le (hf.below hi) hsize
  refine ⟨i, f.slots[i], hi, hlt, by simp [hlt], ?_⟩
  rw [h name, hi]
  simp [hlt]

theorem assignment_realises (ih : RunsAs call fuel names rhs)
    (hin : name ∈ names) (hn : scope.Names names) (hf : scope.Fits n)
    (hsize : n + rhs.slotCount ≤ f.slots.size) (ha : Agree scope f.slots vars) :
    Realises (Code.run call fuel (rhs.code scope n ++ [.tee ((scope name).getD 0)]) f w)
      ((do let x ← rhs.eval call fuel
           Eval.assign name x
           pure x : Eval W Number).run ⟨vars, w⟩) (Computed scope n f) := by
  rw [Code.run_append]
  refine Realises.bind (ih hn hf hsize ha) ?_
  rintro v ⟨slots₁, operands₁⟩ vars₁ w₁ ⟨rfl, ha₁, hk₁⟩
  have hsize₁ : n ≤ slots₁.size := by
    have := hk₁.size
    simp only at this
    omega
  obtain ⟨i, x, hi, hlt, -, hx⟩ :=
    Agree.slot_of_mem (f := ⟨slots₁, []⟩) ha₁ hf hn hsize₁ hin
  refine .eval_step (run_assign hx v w₁) ?_
  rw [hi, Option.getD_some, Code.run_tee _ _ _ _ _ _ hlt]
  exact .pure ⟨rfl, ha₁.assign hf hi hlt v, hk₁.trans (.set_visible hi n slots₁ v)⟩

theorem greater_realises (ihl : RunsAs call fuel names lhs) (ihr : RunsAs call fuel names rhs)
    (hn : scope.Names names) (hf : scope.Fits n)
    (hsize : n + lhs.slotCount + 1 + rhs.slotCount ≤ f.slots.size) (ha : Agree scope f.slots vars) :
    Realises
      (Code.run call fuel (lhs.code scope n ++ .store (n + lhs.slotCount)
        :: (rhs.code scope (n + lhs.slotCount + 1)
          ++ [.load (n + lhs.slotCount), .ltUnordered, .boolToNumber])) f w)
      ((do let x ← lhs.eval call fuel
           let y ← rhs.eval call fuel
           pure (.ofBool !(y.ge x)) : Eval W Number).run ⟨vars, w⟩) (Computed scope n f) := by
  rw [Code.run_append]
  refine Realises.bind (ihl hn hf (by omega) ha) ?_
  rintro x ⟨slots₁, operands₁⟩ vars₁ w₁ ⟨rfl, ha₁, hk₁⟩
  have hsize₁ : slots₁.size = f.slots.size := hk₁.size
  rw [Code.run_store _ _ _ _ _ _ (by omega), Code.run_append]
  -- the scratch slot is not in scope, so the right operand leaves it alone
  have hk₂ : Keeps scope n slots₁ _ := .set_new scope slots₁ (Nat.le_add_right n lhs.slotCount) x
  refine Realises.bind (ihr hn (hf.mono (by omega)) (by simp; omega)
    (ha₁.set_new hf (Nat.le_add_right n lhs.slotCount) x)) ?_
  rintro y ⟨slots₂, operands₂⟩ vars₂ w₂ ⟨rfl, ha₂, hk₃⟩
  have hscratch : slots₂[n + lhs.slotCount]? = some x := by
    rw [hk₃.hidden (by omega) (hf.hidden (by omega))]
    exact Array.getElem?_setIfInBounds_self_of_lt (by omega)
  rw [Code.run_load _ _ _ _ _ _ hscratch, Code.run_ltUnordered, Code.run_boolToNumber]
  exact .pure ⟨rfl, ha₂, (hk₁.trans hk₂).trans (hk₃.mono (by omega))⟩

theorem operatorCode_run (call : String → List Number → W → CallResult W) (fuel : Nat)
    (h : isOperator op = true) (hne : op ≠ '>') (x y : Number) (slots : Array Number)
    (operands : List Operand) (w : W) :
    ∃ v, operator? op x y = some v ∧
      Code.run call fuel ((Lower.operatorCode? op).getD []) ⟨slots, .num y :: .num x :: operands⟩ w =
        .next ⟨slots, .num v :: operands⟩ w := by
  simp only [isOperator, Bool.or_eq_true, beq_iff_eq] at h
  rcases h with (((rfl | rfl) | rfl) | rfl) | rfl
  · exact ⟨_, rfl, by
      simp only [Lower.operatorCode?, Option.getD_some]
      rw [Code.run_ltUnordered, Code.run_boolToNumber]
      rfl⟩
  · exact absurd rfl hne
  · exact ⟨_, rfl, rfl⟩
  · exact ⟨_, rfl, rfl⟩
  · exact ⟨_, rfl, rfl⟩

theorem arithmetic_realises (ihl : RunsAs call fuel names lhs) (ihr : RunsAs call fuel names rhs)
    (hop : isOperator op = true) (hne : op ≠ '>') (hn : scope.Names names) (hf : scope.Fits n)
    (hsize : n + lhs.slotCount + rhs.slotCount ≤ f.slots.size) (ha : Agree scope f.slots vars) :
    Realises
      (Code.run call fuel (lhs.code scope n ++ (rhs.code scope (n + lhs.slotCount)
        ++ (Lower.operatorCode? op).getD [])) f w)
      ((do let x ← lhs.eval call fuel
           let y ← rhs.eval call fuel
           match operator? op x y with
           | some v => pure v
           | none => throw .stuck : Eval W Number).run ⟨vars, w⟩) (Computed scope n f) := by
  rw [Code.run_append]
  refine Realises.bind (ihl hn hf (by omega) ha) ?_
  rintro x ⟨slots₁, operands₁⟩ vars₁ w₁ ⟨rfl, ha₁, hk₁⟩
  have hsize₁ : slots₁.size = f.slots.size := hk₁.size
  rw [Code.run_append]
  refine Realises.bind (ihr hn (hf.mono (by omega)) (by simp only; omega) ha₁) ?_
  rintro y ⟨slots₂, operands₂⟩ vars₂ w₂ ⟨rfl, ha₂, hk₂⟩
  obtain ⟨v, hv, hrun⟩ := operatorCode_run call fuel hop hne x y slots₂ f.operands w₂
  rw [hv, hrun]
  exact .pure ⟨rfl, ha₂, hk₁.trans (hk₂.mono (by omega))⟩

-- ---------------------------------------------------------------------------
-- Calls and blocks
-- ---------------------------------------------------------------------------

theorem args_realises (ih : ∀ e ∈ args, RunsAs call fuel names e) (hn : scope.Names names)
    (hf : scope.Fits n)
    (hsize : n + Expr.argSlots args ≤ f.slots.size) (ha : Agree scope f.slots vars) :
    Realises (Code.run call fuel (Expr.argCode scope n args) f w)
      ((Expr.evalArgs call fuel args).run ⟨vars, w⟩) fun xs f' vars' =>
      xs.length = args.length ∧ f'.operands = pushed xs f.operands ∧ Agree scope f'.slots vars' ∧
        Keeps scope n f.slots f'.slots := by
  induction args generalizing n f vars w with
  | nil => exact .pure ⟨rfl, rfl, ha, .refl scope n f.slots⟩
  | cons e es ihes =>
    simp only [Expr.argSlots] at hsize
    simp only [Expr.argCode, Expr.evalArgs]
    rw [Code.run_append]
    refine Realises.bind (ih e (by simp) hn hf (by omega) ha) ?_
    rintro x ⟨slots₁, operands₁⟩ vars₁ w₁ ⟨rfl, ha₁, hk₁⟩
    have hsize₁ : slots₁.size = f.slots.size := hk₁.size
    refine Realises.map (ihes (fun e he => ih e (by simp [he])) (hf.mono (by omega))
      (by simp only; omega) ha₁) ?_
    rintro xs f₂ vars₂ ⟨hlen, hops, ha₂, hk₂⟩
    refine ⟨by simp [hlen], ?_, ha₂, hk₁.trans (hk₂.mono (by omega))⟩
    rw [hops, pushed_cons]

theorem call_realises (callee : String) (xs : List Number) (slots : Array Number)
    (operands : List Operand) :
    Realises (Code.run call fuel [.call callee xs.length] ⟨slots, pushed xs operands⟩ w)
      ((Eval.answer call callee xs).run ⟨vars, w⟩) fun v f' vars' =>
      f' = ⟨slots, .num v :: operands⟩ ∧ vars' = vars := by
  rw [Code.run_cons, Instr.run, Frame.popArgs?_pushed]
  rw [run_answer]
  simp only
  rcases call callee xs w with ⟨result, w'⟩
  cases result with
  | ok v => exact ⟨_, rfl, rfl, rfl⟩
  | error why => rfl

theorem block_realises {body : Frame → W → Flow Unit W} {result : Except Halt Number × EvalState W}
    (h : Realises (body ⟨f.slots, []⟩ w) result (Computed scope n ⟨f.slots, []⟩)) :
    Realises (Flow.block .inr body f w) result (Computed scope n f) := by
  unfold Realises at h ⊢
  unfold Flow.block
  split
  · obtain ⟨f', hrun, hc⟩ := h
    refine ⟨{ f' with operands := f'.operands ++ f.operands }, ?_, ?_, hc.agree, hc.keeps⟩
    · rw [hrun]
    · simp [hc.operands]
  · rw [h]

-- ---------------------------------------------------------------------------
-- Loops
-- ---------------------------------------------------------------------------

/-- A loop goes round as often as the evaluation repeats. `test` is the loop's code up to the
truth value that decides, and `I` relates slots and variables at the start of each round. -/
theorem repeat_realises {test : Code} {round : Eval W Bool} {I : Array Number → Variables → Prop}
    (h : ∀ slots vars w, I slots vars →
      Realises (Code.run call fuel test ⟨slots, []⟩ w) (round.run ⟨vars, w⟩) fun b f' vars' =>
        f'.operands = [.flag b] ∧ I f'.slots vars')
    (operands : List Operand) (rounds : Nat) (hi : I f.slots vars) :
    Realises
      (Flow.loop (fun _ => none) (fun f w => Code.run call fuel (test ++ [.continueIf]) f w)
        operands rounds f w)
      ((Eval.repeatWhile round rounds).run ⟨vars, w⟩) fun _ f' vars' =>
      f'.operands = operands ∧ I f'.slots vars' := by
  induction rounds generalizing f vars w with
  | zero => rfl
  | succ rounds ih =>
    have hround := h f.slots vars w hi
    unfold Realises at hround
    simp only [Flow.loop, Eval.repeatWhile]
    rw [run_bind, Code.run_append]
    split at hround
    · rename_i b s hrun
      obtain ⟨⟨slots₁, operands₁⟩, hflow, rfl, hi₁⟩ := hround
      rw [hflow, hrun]
      cases b with
      | true => exact ih (f := ⟨slots₁, []⟩) hi₁
      | false => exact ⟨⟨slots₁, operands⟩, rfl, rfl, hi₁⟩
    · rename_i why s hrun
      rw [hround, hrun]
      rfl

def StepIn (slots : Array Number) (n : Nat) (step : Option Expr) (growth : Number) : Prop :=
  match step with
  | none => growth = .one
  | some e => slots[n + e.slotCount]? = some growth

theorem StepIn.keep (h : StepIn slots n step growth) (hf : scope.Fits n)
    (hk : Keeps scope (n + Expr.stepSlots step) slots slots') : StepIn slots' n step growth := by
  cases step with
  | none => exact h
  | some e =>
    refine (hk.hidden ?_ (hf.hidden (Nat.le_add_right n e.slotCount))).trans h
    simp only [Expr.stepSlots]
    omega

theorem StepIn.run (h : StepIn slots n step growth) (rest : Code) (operands : List Operand) :
    Code.run call fuel (Expr.stepInstr n step :: rest) ⟨slots, operands⟩ w =
      Code.run call fuel rest ⟨slots, .num growth :: operands⟩ w := by
  cases step with
  | none =>
    have hone : growth = .one := h
    rw [hone]
    rfl
  | some e => exact Code.run_load call fuel rest slots operands w h

theorem step_realises (ih : ∀ e ∈ step, RunsAs call fuel names e) (hn : scope.Names names)
    (hf : scope.Fits n)
    (hsize : n + Expr.stepSlots step ≤ f.slots.size) (ha : Agree scope f.slots vars) :
    Realises (Code.run call fuel (Expr.stepCode scope n step) f w)
      ((Expr.evalStep call fuel step).run ⟨vars, w⟩) fun growth f' vars' =>
      f'.operands = f.operands ∧ StepIn f'.slots n step growth ∧ Agree scope f'.slots vars' ∧
        Keeps scope n f.slots f'.slots := by
  cases step with
  | none => exact .pure ⟨rfl, rfl, ha, .refl scope n f.slots⟩
  | some e =>
    simp only [Expr.stepSlots] at hsize
    simp only [Expr.stepCode, Expr.evalStep]
    rw [Code.run_append, ← bind_pure (Expr.eval call fuel e)]
    refine Realises.bind (ih e rfl hn hf (by omega) ha) ?_
    rintro x ⟨slots₁, operands₁⟩ vars₁ w₁ ⟨rfl, ha₁, hk₁⟩
    have hsize₁ : slots₁.size = f.slots.size := hk₁.size
    rw [Code.run_store _ _ _ _ _ _ (by omega)]
    refine .pure ⟨rfl, ?_, ha₁.set_new hf (Nat.le_add_right n _) x,
      hk₁.trans (.set_new scope slots₁ (Nat.le_add_right n _) x)⟩
    exact Array.getElem?_setIfInBounds_self_of_lt (by omega)

def Expr.roundCode (scope : SlotMap) (slot n : Nat) (step : Option Expr) (body stop : Expr) :
    Code :=
  body.code scope (n + Expr.stepSlots step)
    ++ .drop :: .load slot :: Expr.stepInstr n step :: .add :: .tee slot
    :: (stop.code scope (n + Expr.stepSlots step + body.slotCount) ++ [.ltUnordered])

theorem Expr.code_loop {span : Span} (scope : SlotMap) (n : Nat) :
    (Expr.loop counter start stop step body span).code scope n =
      start.code scope (n + 1) ++ .store n
        :: (Expr.stepCode scope (n + 1 + start.slotCount) step
        ++ [.loop (Expr.roundCode (scope.bind counter n) n (n + 1 + start.slotCount) step body stop
          ++ [.continueIf]), .const .zero]) := by
  simp only [Expr.code, Expr.roundCode, List.append_assoc, List.cons_append, List.nil_append]

theorem round_realises (ihb : RunsAs call fuel names body) (ihs : RunsAs call fuel names stop)
    (hn : scope.Names names) (hf : scope.Fits n) (hc : scope counter = some slot)
    (hstep : StepIn f.slots n step growth)
    (hsize : n + Expr.stepSlots step + body.slotCount + stop.slotCount ≤ f.slots.size)
    (hempty : f.operands = []) (ha : Agree scope f.slots vars) :
    Realises (Code.run call fuel (Expr.roundCode scope slot n step body stop) f w)
      ((do let _ ← body.eval call fuel
           let grown := (← Eval.read counter).add growth
           Eval.assign counter grown
           let last ← stop.eval call fuel
           pure !(grown.ge last) : Eval W Bool).run ⟨vars, w⟩) fun b f' vars' =>
      f'.operands = [.flag b] ∧ Agree scope f'.slots vars' ∧
        Keeps scope (n + Expr.stepSlots step) f.slots f'.slots := by
  rw [Expr.roundCode, Code.run_append]
  refine Realises.bind (ihb hn (hf.mono (by omega)) (by omega) ha) ?_
  rintro v ⟨slots₁, operands₁⟩ vars₁ w₁ ⟨rfl, ha₁, hk₁⟩
  have hsize₁ : slots₁.size = f.slots.size := hk₁.size
  have hlt : slot < slots₁.size := by
    have := hf.below hc
    omega
  have hx : slots₁[slot]? = some slots₁[slot] := Array.getElem?_eq_getElem hlt
  have hread : vars₁.get? counter = some slots₁[slot] := by
    rw [ha₁ counter, hc]
    exact hx
  rw [Code.run_drop, Code.run_load _ _ _ _ _ _ hx, (hstep.keep hf hk₁).run, Code.run_add,
    Code.run_tee _ _ _ _ _ _ hlt, Code.run_append]
  refine .eval_step (run_read hread w₁) (.eval_step (run_assign hread _ w₁) ?_)
  have hk₂ := Keeps.set_visible hc (n + Expr.stepSlots step) slots₁ (slots₁[slot].add growth)
  refine Realises.bind (ihs hn (hf.mono (by omega)) (by simp only [hk₂.size]; omega)
    (ha₁.assign hf hc hlt _)) ?_
  rintro last ⟨slots₂, operands₂⟩ vars₂ w₂ ⟨rfl, ha₂, hk₃⟩
  rw [Code.run_ltUnordered, hempty]
  exact .pure ⟨rfl, ha₂, (hk₁.trans hk₂).trans (hk₃.mono (by omega))⟩

/-- Leaving the scope of a name. The slot that the name had before was hidden meanwhile, so it
still has the value to go back to. -/
theorem leave_scope (hf : scope.Fits n) (hle : n ≤ slot) (ha : Agree scope slots vars)
    (ha' : Agree (scope.bind name slot) slots' vars')
    (hk : Keeps (scope.bind name slot) n slots slots') :
    Agree scope slots' (vars'.restore name (vars.get? name)) ∧ Keeps scope n slots slots' := by
  refine ⟨?_, hk.size, fun hi hh => hk.hidden hi (hf.hidden_bind hle (.inr ⟨hi, hh⟩))⟩
  rw [ha name]
  exact ha'.leave fun i hi => hk.hidden (hf.below hi) (hf.hidden_bind hle (.inl hi))

theorem loop_realises {span : Span} (ihs : RunsAs call fuel names start)
    (ihStep : ∀ e ∈ step, RunsAs call fuel names e)
    (ihb : RunsAs call fuel (counter :: names) body)
    (ihe : RunsAs call fuel (counter :: names) stop) :
    RunsAs call fuel names (.loop counter start stop step body span) := by
  intro scope n f vars w hn hf hsize ha
  simp only [Expr.slotCount] at hsize
  rw [Expr.code_loop, Expr.eval, Code.run_append]
  refine Realises.bind (ihs hn (hf.mono (by omega)) (by omega) ha) ?_
  rintro first ⟨slots₁, operands₁⟩ vars₁ w₁ ⟨rfl, ha₁, hk₁⟩
  have hsize₁ : slots₁.size = f.slots.size := hk₁.size
  rw [Code.run_store _ _ _ _ _ _ (by omega), Code.run_append]
  have hk₂ : Keeps scope n slots₁ _ := .set_new scope slots₁ (Nat.le_refl n) first
  refine Realises.bind (step_realises ihStep hn (hf.mono (by omega)) (by simp; omega)
    (ha₁.set_new hf (Nat.le_refl n) first)) ?_
  rintro growth ⟨slots₂, operands₂⟩ vars₂ w₂ ⟨rfl, hgrowth, ha₂, hk₃⟩
  have hsize₂ : slots₂.size = f.slots.size := by simpa [hsize₁] using hk₃.size
  have hcounter : slots₂[n]? = some first := by
    rw [hk₃.hidden (by omega) (hf.hidden (Nat.le_refl n))]
    exact Array.getElem?_setIfInBounds_self_of_lt (by omega)
  have hinner := hf.bind counter (Nat.le_refl n)
  have hfits : (scope.bind counter n).Fits (n + 1 + start.slotCount) := hinner.mono (by omega)
  refine .eval_step (run_bindVariable counter first w₂) ?_
  rw [Code.run_cons, Instr.run]
  -- at the start of each round the variables are in their slots, and the slots of the step and of
  -- everything outside are as they were at the start of the first
  refine Realises.bind (Q := fun _ f' vars' => f'.operands = f.operands ∧
    Agree (scope.bind counter n) f'.slots vars' ∧
    Keeps (scope.bind counter n) (n + 1 + start.slotCount + Expr.stepSlots step) slots₂ f'.slots)
    ?_ ?_
  · refine repeat_realises (I := fun slots vars => Agree (scope.bind counter n) slots vars ∧
      Keeps (scope.bind counter n) (n + 1 + start.slotCount + Expr.stepSlots step) slots₂ slots)
      ?_ f.operands fuel ⟨ha₂.enter hcounter counter, .refl _ _ _⟩
    rintro slots vars w ⟨ha, hk⟩
    have hsize' : slots.size = slots₂.size := hk.size
    refine (round_realises (f := ⟨slots, []⟩) ihb ihe (hn.bind counter n) hfits
      (scope.bind_self counter n) (hgrowth.keep hfits hk) (by simp only; omega) rfl ha).mono ?_
    rintro b f' vars' ⟨hops, ha', hk'⟩
    exact ⟨hops, ha', hk.trans hk'⟩
  · rintro _ ⟨slots₃, operands₃⟩ vars₃ w₃ ⟨rfl, ha₃, hk₄⟩
    obtain ⟨ha₄, hk₅⟩ := leave_scope hf (Nat.le_refl n) ha₂ ha₃ (hk₄.mono (by omega))
    refine .eval_step (run_restore counter _ w₃) ?_
    rw [Code.run_const]
    exact .pure ⟨rfl, ha₄, ((hk₁.mono (by omega)).trans hk₂).trans
      ((hk₃.mono (by omega)).trans hk₅)⟩

theorem initial_realises (ih : ∀ e ∈ b.2, RunsAs call fuel names e) (hn : scope.Names names)
    (hf : scope.Fits n) (hsize : n + Expr.initialSlots b ≤ f.slots.size)
    (ha : Agree scope f.slots vars) :
    Realises (Code.run call fuel (Expr.initialCode scope n b) f w)
      ((Expr.evalLocal call fuel b).run ⟨vars, w⟩) (Computed scope n f) := by
  obtain ⟨name, initial⟩ := b
  cases initial with
  | none => exact .pure ⟨rfl, ha, .refl scope n f.slots⟩
  | some e => exact ih e rfl hn hf hsize ha

theorem localVar_realises {span : Span} (ih : ∀ e ∈ b.2, RunsAs call fuel names e)
    (ihRest : RunsAs call fuel (b.1 :: names) (.locals rest body span)) :
    RunsAs call fuel names (.locals (b :: rest) body span) := by
  intro scope n f vars w hn hf hsize ha
  simp only [Expr.slotCount, Expr.localSlots] at hsize
  simp only [Expr.code, Expr.localCode, Expr.eval, Expr.evalLocals]
  rw [Code.run_append]
  refine Realises.bind (initial_realises ih hn hf (by omega) ha) ?_
  rintro x ⟨slots₁, operands₁⟩ vars₁ w₁ ⟨rfl, ha₁, hk₁⟩
  have hsize₁ : slots₁.size = f.slots.size := hk₁.size
  have hle : n ≤ n + Expr.initialSlots b := Nat.le_add_right n _
  rw [Code.run_store _ _ _ _ _ _ (by omega)]
  refine .eval_step (run_bindVariable b.1 x w₁) ?_
  have ha₂ := ha₁.set_new hf hle x
  have hx : (slots₁.setIfInBounds (n + Expr.initialSlots b) x)[n + Expr.initialSlots b]? =
      some x := Array.getElem?_setIfInBounds_self_of_lt (by omega)
  -- going back to what the name stood for has no code of its own
  rw [← Flow.andThen_next_eq (Code.run _ _ _ _ _)]
  refine Realises.bind (ihRest (hn.bind b.1 _) (hf.bind b.1 hle)
    (by simp [Expr.slotCount]; omega) (ha₂.enter hx b.1)) ?_
  rintro y ⟨slots₃, operands₃⟩ vars₃ w₃ ⟨rfl, ha₃, hk₃⟩
  obtain ⟨ha₄, hk₄⟩ := leave_scope hf hle ha₂ ha₃ (hk₃.mono (by omega))
  refine .eval_step (run_restore b.1 _ w₃) (.pure ⟨rfl, ha₄, ?_⟩)
  exact (hk₁.trans (.set_new scope slots₁ hle x)).trans hk₄

-- ---------------------------------------------------------------------------
-- All expressions
-- ---------------------------------------------------------------------------

theorem var_realises (hin : name ∈ names) (span : Span) :
    RunsAs call fuel names (.variable name span) := by
  intro scope n f vars w hn hf hsize ha
  obtain ⟨i, x, hi, -, hx, hread⟩ := ha.slot_of_mem hf hn hsize hin
  simp only [Expr.code, Expr.eval]
  rw [hi, Option.getD_some, Code.run_load _ _ _ _ _ _ hx, ← bind_pure (Eval.read name)]
  exact .eval_step (run_read hread w) (.pure ⟨rfl, ha, .refl scope n f.slots⟩)

theorem branch_realises (ihc : RunsAs call fuel names condition)
    (ihy : RunsAs call fuel names yes) (ihn : RunsAs call fuel names no) (span : Span) :
    RunsAs call fuel names (.branch condition yes no span) := by
  intro scope n f vars w hn hf hsize ha
  simp only [Expr.slotCount] at hsize
  simp only [Expr.code, Expr.eval]
  rw [Code.run_append]
  refine Realises.bind (ihc hn hf (by omega) ha) ?_
  rintro c ⟨slots₁, operands₁⟩ vars₁ w₁ ⟨rfl, ha₁, hk₁⟩
  have hsize₁ : slots₁.size = f.slots.size := hk₁.size
  rw [Code.run_numberToBool, Code.run_branch]
  -- either block starts from slots that the condition may have changed
  refine Realises.mono (Q := Computed scope n ⟨slots₁, f.operands⟩) ?_
    fun v f' vars' h => ⟨h.operands, h.agree, hk₁.trans h.keeps⟩
  cases c.isTrue with
  | true =>
    have h := ihy (n := n + condition.slotCount) (f := ⟨slots₁, []⟩) (w := w₁) hn
      (hf.mono (by omega)) (by simp only; omega) ha₁
    exact block_realises (h.mono fun v f' vars' h =>
      ⟨h.operands, h.agree, h.keeps.mono (by omega)⟩)
  | false =>
    have h := ihn (n := n + condition.slotCount + yes.slotCount) (f := ⟨slots₁, []⟩) (w := w₁) hn
      (hf.mono (by omega)) (by simp only; omega) ha₁
    exact block_realises (h.mono fun v f' vars' h =>
      ⟨h.operands, h.agree, h.keeps.mono (by omega)⟩)

theorem code_realises (call : String → List Number → W → CallResult W) (fuel : Nat)
    (h : Expr.Formed arityOf names e) : RunsAs call fuel names e := by
  induction h with
  | number x span =>
    intro scope n f vars w _ _ _ ha
    exact .pure ⟨rfl, ha, .refl scope n f.slots⟩
  | var h span => exact var_realises h span
  | assign target _ h span ih =>
    intro scope n f vars w hn hf hsize ha
    simp only [Expr.slotCount] at hsize
    exact assignment_realises ih h hn hf (by omega) ha
  | @operator op names lhs rhs hop _ _ span ihl ihr =>
    intro scope n f vars w hn hf hsize ha
    have hassign : op ≠ '=' := ne_assign_of_isOperator hop
    simp only [Expr.slotCount] at hsize
    simp only [Expr.code, Expr.eval, hassign, ↓reduceIte]
    by_cases hgt : op = '>'
    · subst hgt
      simp only [↓reduceIte] at hsize
      simp only [↓reduceIte, operator?, List.append_assoc, List.cons_append]
      exact greater_realises ihl ihr hn hf (by omega) ha
    · simp only [hgt, ↓reduceIte] at hsize
      simp only [hgt, ↓reduceIte, List.append_assoc]
      exact arithmetic_realises ihl ihr hop hgt hn hf (by omega) ha
  | @call callee args names _ _ span ih =>
    intro scope n f vars w hn hf hsize ha
    simp only [Expr.code, Expr.eval]
    rw [Code.run_append]
    refine Realises.bind (args_realises ih hn hf hsize ha) ?_
    rintro xs ⟨slots₁, operands₁⟩ vars₁ w₁ ⟨hlen, rfl, ha₁, hk₁⟩
    rw [← hlen]
    refine (call_realises callee xs slots₁ f.operands).mono ?_
    rintro v f' vars' ⟨rfl, rfl⟩
    exact ⟨rfl, ha₁, hk₁⟩
  | branch _ _ _ span ihc ihy ihn => exact branch_realises ihc ihy ihn span
  | loop _ _ _ _ span ihs ihStep ihb ihe => exact loop_realises ihs ihStep ihb ihe
  | body _ span ih =>
    intro scope n f vars w hn hf hsize ha
    simp only [Expr.slotCount, Expr.localSlots, Nat.zero_add] at hsize
    exact ih hn hf hsize ha
  | localVar _ _ ih ihrest => exact localVar_realises ih ihrest

end

/-- Lowering succeeds on well-formed expressions only, and has then put their code at the end of
the innermost region. -/
theorem formed_of_lowered {around : Surroundings} {s s' : LowerState}
    (h : (Lower.expression around e).run s = (.ok (), s')) :
    e.Formed (arityIn around s.builder.name s.builder.arity s.unit) (s.scope.entries.map Prod.fst) ∧
      Emitted around s (e.code s.scope.get? s.builder.slots) e.slotCount e.callees s' := by
  have hy := expression_yields around e (s := s) ⟨rfl, rfl, rfl⟩ (SlotMap.names_get? s.scope)
  cases hc : e.check (arityIn around s.builder.name s.builder.arity s.unit)
      (s.scope.entries.map Prod.fst) with
  | error failure =>
    rw [hc] at hy
    obtain ⟨s₁, hrun, -⟩ := hy
    rw [h] at hrun
    cases hrun
  | ok _ =>
    rw [hc] at hy
    obtain ⟨_, s₁, hrun, hemitted⟩ := hy
    rw [h] at hrun
    cases hrun
    exact ⟨Expr.formed_of_check hc, hemitted⟩

/-- Lowering keeps the meaning of an expression in any context. The world that calls act on is
arbitrary, and so is what they answer: a world that logs the calls shows them to be the same, with
the same arguments and in the same order. -/
theorem lowering_keeps_meaning (around : Surroundings) (e : Expr) {s s' : LowerState}
    (hfits : SlotMap.Fits s.scope.get? s.builder.slots)
    (h : (Lower.expression around e).run s = (.ok (), s')) :
    ∃ code, s'.builder.code = s.builder.code ++ code ∧
      s'.builder.enclosing = s.builder.enclosing ∧
      ∀ {W : Type} (call : String → List Number → W → CallResult W) (fuel : Nat) (f : Frame)
        (vars : Variables) (w : W), s'.builder.slots ≤ f.slots.size →
        Agree s.scope.get? f.slots vars →
        Realises (Code.run call fuel code f w) ((e.eval call fuel).run ⟨vars, w⟩)
          (Computed s.scope.get? s.builder.slots f) := by
  obtain ⟨hformed, hemitted⟩ := formed_of_lowered h
  refine ⟨_, by rw [hemitted.builder], by rw [hemitted.builder], ?_⟩
  intro W call fuel f vars w hsize hagree
  rw [hemitted.builder] at hsize
  exact code_realises call fuel hformed (SlotMap.names_get? s.scope) hfits hsize hagree

/-- A loop whose counter takes the name of a variable around it, with an assignment inside an
operand of `>`, in the body of another loop. -/
theorem lowering_keeps_meaning_of_shadowing_loop :
    let e : Expr := .loop "x" (.variable "x" {}) (.variable "y" {}) none
      (.binary '>' (.variable "y" {}) (.binary '=' (.variable "y" {}) (.variable "x" {}) {}) {}) {}
    let s : LowerState :=
      { builder := { name := "f", params := ["x", "x", "y"], slots := 3, code := [.const .one],
                     enclosing := [(.loop, [.load 1])] }
        scope := ⟨[("y", 2), ("x", 1)]⟩
        unit := { id := 0 } }
    let f : Frame := ⟨#[.zero, .one, .nan, .one, .one], [.flag true]⟩
    ∃ code, ((Lower.expression ⟨fun _ => false, {}⟩ e).run s).2.builder.code =
        [.const .one] ++ code ∧
      ((Lower.expression ⟨fun _ => false, {}⟩ e).run s).2.builder.enclosing =
        [(.loop, [.load 1])] ∧
      ∀ call : String → List Number → List (List Number) → CallResult (List (List Number)),
        Realises (Code.run call 10 code f [])
          ((e.eval call 10).run ⟨⟨[("x", .one), ("y", .nan)]⟩, []⟩)
          (Computed s.scope.get? 3 f) := by
  intro e s f
  have hget : ∀ name, s.scope.get? name =
      if name = "y" then some 2 else if name = "x" then some 1 else none := by
    intro name
    simp only [s, NameTable.get?, List.lookup_cons, List.lookup_nil]
    grind
  obtain ⟨code, hcode, henclosing, hrun⟩ :=
    lowering_keeps_meaning ⟨fun _ => false, {}⟩ e (s := s) ⟨by grind, by grind⟩ rfl
  refine ⟨code, hcode, henclosing, fun call => hrun call 10 f _ [] (by decide) fun name => ?_⟩
  rw [hget]
  simp only [NameTable.get?, List.lookup_cons, List.lookup_nil]
  grind

end NumericJit
