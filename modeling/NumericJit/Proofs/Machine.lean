import NumericJit.SlotCode.Exec
import NumericJit.Wasm.Exec

/-!
# Running code piece by piece

Code that is joined from two pieces runs one after the other, and the second runs only if the first
goes on behind itself (`Code.run_append`, `Op.runAll_append`). Arguments come off the operands in
the order in which they were put there.
-/

namespace NumericJit

namespace Flow

variable {J W : Type}

def andThen (flow : Flow J W) (k : Frame → W → Flow J W) : Flow J W :=
  match flow with
  | .next f w => k f w
  | .jump target f w => .jump target f w
  | .halt why w => .halt why w

@[simp] theorem andThen_next (f : Frame) (w : W) (k : Frame → W → Flow J W) :
    (next f w).andThen k = k f w := rfl

@[simp] theorem andThen_jump (target : J) (f : Frame) (w : W) (k : Frame → W → Flow J W) :
    (jump target f w).andThen k = .jump target f w := rfl

@[simp] theorem andThen_halt (why : Halt) (w : W) (k : Frame → W → Flow J W) :
    (halt why w : Flow J W).andThen k = .halt why w := rfl

theorem andThen_next_eq (flow : Flow J W) : (flow.andThen fun f w => .next f w) = flow := by
  cases flow <;> rfl

theorem andThen_assoc (flow : Flow J W) (k l : Frame → W → Flow J W) :
    (flow.andThen k).andThen l = flow.andThen fun f w => (k f w).andThen l := by
  cases flow <;> rfl

end Flow

section
variable {W : Type} (call : String → List Number → W → CallResult W) (fuel : Nat)

@[simp] theorem Code.run_nil (f : Frame) (w : W) : Code.run call fuel [] f w = .next f w := rfl

theorem Code.run_cons (i : Instr) (rest : Code) (f : Frame) (w : W) :
    Code.run call fuel (i :: rest) f w =
      (Instr.run call fuel i f w).andThen (Code.run call fuel rest) := by
  simp only [Code.run]
  cases Instr.run call fuel i f w <;> rfl

theorem Code.run_append (c d : Code) (f : Frame) (w : W) :
    Code.run call fuel (c ++ d) f w =
      (Code.run call fuel c f w).andThen (Code.run call fuel d) := by
  induction c generalizing f w with
  | nil => rfl
  | cons i rest ih =>
    rw [List.cons_append, Code.run_cons, Code.run_cons, Flow.andThen_assoc]
    exact congrArg _ (funext fun f => funext fun w => ih f w)

end

namespace Wasm

section
variable {W : Type} (callees : Callees W) (fuel : Nat)

theorem Op.runAll_cons (op : Op) (rest : List Op) (f : Frame) (w : W) :
    Op.runAll callees fuel (op :: rest) f w =
      (Op.run callees fuel op f w).andThen (Op.runAll callees fuel rest) := by
  simp only [Op.runAll]
  cases Op.run callees fuel op f w <;> rfl

theorem Op.runAll_single (op : Op) (f : Frame) (w : W) :
    Op.runAll callees fuel [op] f w = Op.run callees fuel op f w := by
  rw [Op.runAll_cons]
  exact Flow.andThen_next_eq _

theorem Op.runAll_append (ops others : List Op) (f : Frame) (w : W) :
    Op.runAll callees fuel (ops ++ others) f w =
      (Op.runAll callees fuel ops f w).andThen (Op.runAll callees fuel others) := by
  induction ops generalizing f w with
  | nil => rfl
  | cons op rest ih =>
    rw [List.cons_append, Op.runAll_cons, Op.runAll_cons, Flow.andThen_assoc]
    exact congrArg _ (funext fun f => funext fun w => ih f w)

end

end Wasm

-- ---------------------------------------------------------------------------
-- Single instructions
-- ---------------------------------------------------------------------------

section
variable {W : Type} (call : String → List Number → W → CallResult W) (fuel : Nat) (rest : Code)
  (slots : Array Number) (operands : List Operand) (w : W)

theorem Code.run_step {i : Instr} {f f' : Frame} (h : Instr.run call fuel i f w = .next f' w') :
    Code.run call fuel (i :: rest) f w = Code.run call fuel rest f' w' := by
  rw [Code.run_cons, h, Flow.andThen_next]

theorem Code.run_const (x : Number) :
    Code.run call fuel (.const x :: rest) ⟨slots, operands⟩ w =
      Code.run call fuel rest ⟨slots, .num x :: operands⟩ w := rfl

theorem Code.run_load (h : slots[i]? = some x) :
    Code.run call fuel (.load i :: rest) ⟨slots, operands⟩ w =
      Code.run call fuel rest ⟨slots, .num x :: operands⟩ w := by
  refine Code.run_step call fuel rest w ?_
  simp [Instr.run, Instr.effect?, h, Flow.ofFrame?, Frame.push]

theorem Code.run_store (h : i < slots.size) (x : Number) :
    Code.run call fuel (.store i :: rest) ⟨slots, .num x :: operands⟩ w =
      Code.run call fuel rest ⟨slots.setIfInBounds i x, operands⟩ w := by
  refine Code.run_step call fuel rest w ?_
  simp [Instr.run, Instr.effect?, Frame.popNumber?, Frame.setSlot?, h, Flow.ofFrame?]

theorem Code.run_tee (h : i < slots.size) (x : Number) :
    Code.run call fuel (.tee i :: rest) ⟨slots, .num x :: operands⟩ w =
      Code.run call fuel rest ⟨slots.setIfInBounds i x, .num x :: operands⟩ w := by
  refine Code.run_step call fuel rest w ?_
  simp [Instr.run, Instr.effect?, Frame.popNumber?, Frame.setSlot?, h, Flow.ofFrame?]

theorem Code.run_add (x y : Number) :
    Code.run call fuel (.add :: rest) ⟨slots, .num y :: .num x :: operands⟩ w =
      Code.run call fuel rest ⟨slots, .num (x.add y) :: operands⟩ w := rfl

theorem Code.run_ltUnordered (x y : Number) :
    Code.run call fuel (.ltUnordered :: rest) ⟨slots, .num y :: .num x :: operands⟩ w =
      Code.run call fuel rest ⟨slots, .flag (!x.ge y) :: operands⟩ w := by
  rw [← Number.ltUnordered_eq_not_ge]
  rfl

theorem Code.run_boolToNumber (b : Bool) :
    Code.run call fuel (.boolToNumber :: rest) ⟨slots, .flag b :: operands⟩ w =
      Code.run call fuel rest ⟨slots, .num (.ofBool b) :: operands⟩ w := rfl

theorem Code.run_numberToBool (x : Number) :
    Code.run call fuel (.numberToBool :: rest) ⟨slots, .num x :: operands⟩ w =
      Code.run call fuel rest ⟨slots, .flag x.isTrue :: operands⟩ w := rfl

theorem Code.run_drop (v : Operand) :
    Code.run call fuel (.drop :: rest) ⟨slots, v :: operands⟩ w =
      Code.run call fuel rest ⟨slots, operands⟩ w := rfl

/-- A branch is its own last instruction: what is taken runs as a block. -/
theorem Code.run_branch (yes no : Code) (b : Bool) :
    Code.run call fuel [.branch yes no] ⟨slots, .flag b :: operands⟩ w =
      Flow.block .inr (Code.run call fuel (if b then yes else no)) ⟨slots, operands⟩ w := by
  rw [Code.run_cons, Instr.run]
  cases b <;> exact Flow.andThen_next_eq _

end

def pushed (values : List Number) (operands : List Operand) : List Operand :=
  (values.map Operand.num).reverse ++ operands

@[simp] theorem pushed_nil (operands : List Operand) : pushed [] operands = operands := rfl

theorem pushed_cons (x : Number) (xs : List Number) (operands : List Operand) :
    pushed (x :: xs) operands = pushed xs (.num x :: operands) := by
  simp [pushed]

theorem Frame.popArgs?_reverse (taken : List Number) (args : List Number) (slots : Array Number)
    (operands : List Operand) :
    Frame.popArgs? taken.length args ⟨slots, taken.map Operand.num ++ operands⟩ =
      some (taken.reverse ++ args, ⟨slots, operands⟩) := by
  induction taken generalizing args with
  | nil => rfl
  | cons x xs ih => simp [Frame.popArgs?, Frame.popNumber?, ih]

theorem Frame.popArgs?_pushed (values : List Number) (slots : Array Number)
    (operands : List Operand) :
    Frame.popArgs? values.length [] ⟨slots, pushed values operands⟩ =
      some (values, ⟨slots, operands⟩) := by
  have h := Frame.popArgs?_reverse values.reverse [] slots operands
  simpa [pushed] using h

end NumericJit
