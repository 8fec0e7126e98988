import NumericJit.Meaning.Code
import NumericJit.Proofs.Runs

/-!
# How many bytes code takes

Code that can be assembled takes as many bytes as its instructions say (`length_bytesAll`), so that
the limit on the bytes of a function is a limit on the unit.
-/

namespace NumericJit.Wasm

variable {u : CodeUnit} {name : String}

theorem Op.bytesAll_append (ops more : List Op) :
    Op.bytesAll (ops ++ more) = Op.bytesAll ops ++ Op.bytesAll more := by
  induction ops with
  | nil => rfl
  | cons op rest ih => simp only [List.cons_append, Op.bytesAll, ih, List.append_assoc]

theorem length_numberBytes (x : Number) : (numberBytes x).length = 8 := by
  simp [numberBytes]

theorem findIdx_of_callTarget? (h : u.callTarget? callee = some (index, arity)) :
    u.callables.findIdx (fun c => c.1 == callee) = index := by
  obtain ⟨i, hi, hget⟩ := Option.bind_eq_some_iff.mp h
  obtain ⟨c, -, heq⟩ := Option.map_eq_some_iff.mp hget
  cases heq
  exact (List.findIdx?_eq_some_iff_findIdx_eq.mp hi).2

mutual
theorem length_bytes {labels : List Label} {ops : List Op} : (i : Instr) →
    opsOfInstr u name labels i = .ok ops →
    (Op.bytesAll ops).length = Instr.byteSize u.callables labels i
  | .call callee argCount, h => by
    rw [opsOfInstr] at h
    split at h
    · cases h
    · rename_i index arity htarget
      split at h
      · cases h
        simp [Op.bytesAll, Op.bytes, Instr.byteSize, indexedSize,
          findIdx_of_callTarget? htarget, Nat.add_comm]
      · cases h
  | .loop body, h => by
    obtain ⟨inside, hinside, rfl⟩ := map_ok.mp h
    have hbody := length_bytesAll body hinside
    simp only [Op.bytesAll, Op.bytes, Instr.byteSize, List.length_append, List.length_cons,
      List.length_nil, hbody]
    omega
  | .continueIf, h => by
    rw [opsOfInstr] at h
    split at h
    · rename_i depth hdepth
      cases h
      simp [Op.bytesAll, Op.bytes, Instr.byteSize, indexedSize, hdepth, Nat.add_comm]
    · cases h
  | .branch yes no, h => by
    simp only [opsOfInstr, bind_ok] at h
    obtain ⟨yesOps, hyes, noOps, hno, h⟩ := h
    cases h
    have hyes := length_bytesAll yes hyes
    have hno := length_bytesAll no hno
    simp only [Op.bytesAll, Op.bytes, Instr.byteSize, List.length_append, List.length_cons,
      List.length_nil, hyes, hno]
    omega
  | .const value, h | .numberToBool, h => by
    cases h
    simp [Op.bytesAll, Op.bytes, Instr.byteSize, length_numberBytes]
  | .load slot, h | .store slot, h | .tee slot, h => by
    cases h
    simp [Op.bytesAll, Op.bytes, Instr.byteSize, indexedSize, Nat.add_comm]
  | .add, h | .sub, h | .mul, h | .ltUnordered, h | .boolToNumber, h | .drop, h => by
    cases h
    rfl

theorem length_bytesAll {labels : List Label} {ops : List Op} : (code : Code) →
    opsOfCode u name labels code = .ok ops →
    (Op.bytesAll ops).length = Code.byteSize u.callables labels code
  | [], h => by
    cases h
    rfl
  | i :: rest, h => by
    simp only [opsOfCode, bind_ok] at h
    obtain ⟨first, hfirst, others, hothers, h⟩ := h
    cases h
    rw [Op.bytesAll_append, List.length_append, length_bytes i hfirst,
      length_bytesAll rest hothers, Code.byteSize]
end

end NumericJit.Wasm
