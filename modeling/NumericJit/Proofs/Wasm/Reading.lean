import NumericJit.Wasm.Decode

/-!
# Bytes are read back

What each part of a module is written as is read back, whatever stands behind it
(`ByteReader.Reads`): integers, numbers, names, operations in blocks inside each other, entries
behind their count, sections behind their size. So every module is read back from its bytes, and all
of them are used up (`ofBytes?_bytes`).
-/

namespace NumericJit.Wasm

-- ---------------------------------------------------------------------------
-- The bytes of a number
-- ---------------------------------------------------------------------------

theorem byteShift_toNat {i : Nat} (h : i < 8) : ((8 * i).toUInt64).toNat % 64 = 8 * i := by
  simp
  omega

theorem join_lowest (x : UInt64) {i : Nat} (h : i < 7) :
    (x >>> (8 * (i + 1)).toUInt64) <<< 8 ||| (x >>> (8 * i).toUInt64).toUInt8.toUInt64 =
      x >>> (8 * i).toUInt64 := by
  have hx := x.toNat_lt
  have hlow := byteShift_toNat (i := i) (by omega)
  have hhigh := byteShift_toNat (i := i + 1) (by omega)
  have hsplit : x.toNat >>> (8 * (i + 1)) = x.toNat >>> (8 * i) / 256 := by
    rw [Nat.mul_succ, Nat.shiftRight_add, Nat.shiftRight_eq_div_pow _ 8]
  have hle : x.toNat >>> (8 * i) ≤ x.toNat := Nat.shiftRight_le _ _
  apply UInt64.toNat_inj.mp
  simp only [UInt64.toNat_or, UInt64.toNat_shiftLeft, UInt64.toNat_shiftRight, hlow, hhigh, hsplit,
    UInt8.toNat_toUInt64, UInt64.toNat_toUInt8]
  generalize x.toNat >>> (8 * i) = y at hle
  have hsmall : (y / 256) <<< 8 % 2 ^ 64 = (y / 256) <<< 8 := by
    rw [Nat.shiftLeft_eq]
    omega
  have hjoin : (y / 256) <<< 8 ||| y % 2 ^ 8 = y := by
    rw [← Nat.shiftLeft_add_eq_or_of_lt (Nat.mod_lt y (Nat.two_pow_pos 8)), Nat.shiftLeft_eq]
    omega
  exact (congrArg (· ||| y % 2 ^ 8) hsmall).trans hjoin

theorem highest_byte (x : UInt64) :
    (0 : UInt64) <<< 8 ||| (x >>> (8 * 7).toUInt64).toUInt8.toUInt64 = x >>> (8 * 7).toUInt64 := by
  have hx := x.toNat_lt
  have hshift := byteShift_toNat (i := 7) (by omega)
  apply UInt64.toNat_inj.mp
  simp only [UInt64.toNat_or, UInt64.toNat_shiftLeft, UInt64.toNat_shiftRight, hshift,
    UInt8.toNat_toUInt64, UInt64.toNat_toUInt8, Nat.shiftRight_eq_div_pow]
  simp
  omega

-- ---------------------------------------------------------------------------
-- The bytes of a name
-- ---------------------------------------------------------------------------

theorem toList_loop (bytes : ByteArray) (i : Nat) (taken : List UInt8) :
    ByteArray.toList.loop bytes i taken = taken.reverse ++ bytes.data.toList.drop i := by
  fun_induction ByteArray.toList.loop bytes i taken with
  | case1 i taken h ih =>
    have hdrop : bytes.data.toList.drop i = bytes.get! i :: bytes.data.toList.drop (i + 1) := by
      rw [List.drop_eq_getElem_cons (by simpa using h)]
      simp [ByteArray.get!, getElem!_pos, h]
    rw [ih, hdrop]
    simp
  | case2 i taken h =>
    have hdrop : bytes.data.toList.drop i = [] := by simpa using h
    simp [hdrop]

theorem toArray_toList (bytes : ByteArray) : (⟨bytes.toList.toArray⟩ : ByteArray) = bytes := by
  simp [ByteArray.toList, toList_loop]

namespace ByteReader

theorem text_toUTF8 (s : String) : text s.toUTF8.toList = some (s, []) := by
  simp only [text, toArray_toList]
  simp [String.fromUTF8?, s.isValidUTF8, String.fromUTF8]

-- ---------------------------------------------------------------------------
-- Readers
-- ---------------------------------------------------------------------------

/-- A reader takes these bytes for `x` and leaves whatever stands behind them. -/
def Reads (reader : ByteReader α) (bytes : Bytes) (x : α) : Prop :=
  ∀ rest, reader (bytes ++ rest) = some (x, rest)

theorem reads_expect (bytes : Bytes) : (expect bytes).Reads bytes () := by
  intro rest
  simp [expect]

theorem reads_lebWith (h : n ≤ fuel) : leb.Reads (lebWith fuel n) n := by
  intro rest
  induction fuel generalizing n with
  | zero =>
    obtain rfl := Nat.le_zero.mp h
    rfl
  | succ fuel ih =>
    simp only [lebWith]
    split
    · rename_i hn
      have hbyte : n.toUInt8.toNat = n := by simp; omega
      simp [leb, UInt8.lt_iff_toNat_lt, hbyte, hn]
    · rename_i hn
      have hbyte : (n % 128 + 128).toUInt8.toNat = n % 128 + 128 := by simp; omega
      have hmore : ¬ (n % 128 + 128).toUInt8 < 128 := by
        rw [UInt8.lt_iff_toNat_lt, hbyte]
        exact Nat.not_lt.mpr (Nat.le_add_left 128 _)
      have hrest := ih (n := n / 128) (by omega)
      -- more bytes follow because what is left is not zero, as the reader demands
      obtain ⟨m, hm⟩ : ∃ m, n / 128 = m + 1 := ⟨n / 128 - 1, by omega⟩
      have hvalue : n % 128 + 128 - 128 + 128 * (m + 1) = n := by omega
      rw [hm] at hrest
      simp only [List.cons_append, leb, hmore, if_false, hm, hrest, hbyte, hvalue]

theorem reads_leb (n : Nat) : leb.Reads (Wasm.leb n) n := reads_lebWith (Nat.le_refl n)

theorem reads_number (x : Number) : number.Reads (numberBytes x) x := by
  intro rest
  obtain ⟨bits⟩ := x
  simp only [numberBytes, List.range, List.range.loop, List.map_cons, List.map_nil,
    List.cons_append, List.nil_append, number, List.foldl_cons, List.foldl_nil]
  rw [highest_byte, join_lowest bits (i := 6) (by decide), join_lowest bits (i := 5) (by decide),
    join_lowest bits (i := 4) (by decide), join_lowest bits (i := 3) (by decide),
    join_lowest bits (i := 2) (by decide), join_lowest bits (i := 1) (by decide),
    join_lowest bits (i := 0) (by decide)]
  simp

theorem reads_sized {reader : ByteReader α} (h : reader bytes = some (x, [])) :
    (sized reader).Reads (Wasm.sized bytes) x := by
  intro rest
  simp [sized, Wasm.sized, reads_leb _ _, h]

section
variable {reader : ByteReader α} {entries : List β} {write : β → Bytes} {value : β → α}

theorem reads_times (h : ∀ x ∈ entries, reader.Reads (write x) (value x)) :
    (times reader entries.length).Reads (entries.map write).flatten (entries.map value) := by
  intro rest
  induction entries with
  | nil => rfl
  | cons x xs ih =>
    obtain ⟨hx, hxs⟩ := List.forall_mem_cons.mp h
    simp [times, hx _, ih hxs]

theorem reads_vec (h : ∀ x ∈ entries, reader.Reads (write x) (value x)) :
    (vec reader).Reads (Wasm.vec (entries.map write)) (entries.map value) := by
  intro rest
  have hentries := reads_times h rest
  simp [vec, Wasm.vec, reads_leb _ _, hentries]

theorem reads_part (id : UInt8) (h : ∀ x ∈ entries, reader.Reads (write x) (value x)) :
    (part id reader).Reads (sectionBytes id (Wasm.vec (entries.map write)))
      (entries.map value) := by
  intro rest
  have hcontent : vec reader (Wasm.vec (entries.map write)) = some (entries.map value, []) := by
    simpa using reads_vec h []
  have hid := reads_expect [id] (Wasm.sized (Wasm.vec (entries.map write)) ++ rest)
  simp only [part, sectionBytes, List.cons_append, List.nil_append] at hid ⊢
  simp [hid, reads_sized hcontent rest]

end

theorem reads_name (s : String) : name.Reads (nameBytes s) s := reads_sized (text_toUTF8 s)

-- ---------------------------------------------------------------------------
-- Operations
-- ---------------------------------------------------------------------------

theorem bytes_head (op : Op) : ∃ b rest, Op.bytes op = b :: rest ∧ endsBlock b = false := by
  cases op <;> exact ⟨_, _, rfl, rfl⟩

mutual
theorem reads_operation (fuel : Nat) : (op : Op) → (Op.bytes op).length ≤ fuel →
    (operation (opsUntil fuel)).Reads (Op.bytes op) op
  | .const value, _, rest => by simp [Op.bytes, operation, reads_number _ _]
  | .localGet i, _, rest | .localSet i, _, rest | .localTee i, _, rest | .call i, _, rest
  | .brIf i, _, rest => by simp [Op.bytes, operation, reads_leb _ _]
  | .add, _, _ | .sub, _, _ | .mul, _, _ | .abs, _, _ | .ge, _, _ | .gt, _, _ | .eqz, _, _
  | .convert, _, _ | .drop, _, _ => rfl
  | .loop body, h, rest => by
    have hbody := opsUntil_bytesAll fuel 0x0B rfl rest body (by simp [Op.bytes] at h; omega)
    simp [Op.bytes, operation, hbody]
  | .ifElse yes no, h, rest => by
    simp only [Op.bytes, List.length_append, List.length_cons, List.length_nil] at h
    have hno := opsUntil_bytesAll fuel 0x0B rfl rest no (by omega)
    have hyes := opsUntil_bytesAll fuel 0x05 rfl (Op.bytesAll no ++ 0x0B :: rest) yes
      (by omega)
    simp [Op.bytes, operation, numType, hyes, hno]

/-- A block ends at its own end, whatever blocks are inside it. -/
theorem opsUntil_bytesAll (fuel : Nat) (last : UInt8) (hlast : endsBlock last = true)
    (rest : Bytes) : (ops : List Op) → (Op.bytesAll ops).length < fuel →
    opsUntil fuel (Op.bytesAll ops ++ last :: rest) = some (ops, last, rest)
  | [], h => by
    cases fuel with
    | zero => cases h
    | succ fuel => simp [Op.bytesAll, opsUntil, hlast]
  | op :: ops, h => by
    cases fuel with
    | zero => cases h
    | succ fuel =>
      obtain ⟨b, tail, hbytes, hb⟩ := bytes_head op
      simp only [Op.bytesAll, List.length_append] at h
      have hlen : 0 < (Op.bytes op).length := by simp [hbytes]
      have hop := reads_operation fuel op (by omega) (Op.bytesAll ops ++ last :: rest)
      have hops := opsUntil_bytesAll fuel last hlast rest ops (by omega)
      simp only [hbytes, List.cons_append] at hop
      simp only [Op.bytesAll, hbytes, List.cons_append, List.append_assoc, opsUntil, hb]
      simp [hop, hops]
end

-- ---------------------------------------------------------------------------
-- Entries
-- ---------------------------------------------------------------------------

theorem reads_params (count : Nat) :
    (vec (expect [numType])).Reads (Wasm.vec (List.replicate count [numType]))
      (List.replicate count ()) := by
  have hentry : ∀ x ∈ List.replicate count (), (expect [numType]).Reads [numType] x :=
    fun _ _ => reads_expect [numType]
  have h := reads_vec hentry
  rwa [List.map_replicate, List.map_id'] at h

theorem reads_funcType (params : Nat) : funcType.Reads (typeBytes params) params := by
  intro rest
  have hfront := reads_expect [0x60]
    (Wasm.vec (List.replicate params [numType]) ++ ([0x01, numType] ++ rest))
  have hparams := reads_params params ([0x01, numType] ++ rest)
  have hback := reads_expect [0x01, numType] rest
  simp only [List.cons_append, List.nil_append] at hfront hparams hback
  simp [funcType, typeBytes, hfront, hparams, hback]

theorem reads_importEntry (entry : String × Nat) :
    importEntry.Reads (importBytes entry) entry := by
  intro rest
  have hkind := reads_expect [0x00] (Wasm.leb entry.2 ++ rest)
  simp only [List.cons_append, List.nil_append] at hkind
  simp [importEntry, importBytes, reads_expect (nameBytes importModule) _, reads_name _ _, hkind,
    reads_leb _ _]

theorem reads_exportEntry (entry : String × Nat) :
    exportEntry.Reads (exportBytes entry) entry := by
  intro rest
  have hkind := reads_expect [0x00] (Wasm.leb entry.2 ++ rest)
  simp only [List.cons_append, List.nil_append] at hkind
  simp [exportEntry, exportBytes, reads_name _ _, hkind, reads_leb _ _]

theorem reads_localCount (count : Nat) : localCount.Reads (localsBytes count) count := by
  intro rest
  unfold localsBytes
  split
  · rename_i h
    subst h
    rfl
  · have hgroups : leb (0x01 :: (Wasm.leb count ++ numType :: rest)) =
        some (1, Wasm.leb count ++ numType :: rest) := rfl
    have htype := reads_expect [numType] rest
    simp only [List.cons_append, List.nil_append] at htype
    simp [localCount, hgroups, reads_leb _ _, htype]

theorem reads_codeEntry (f : Func) : codeEntry.Reads f.bytes (f.locals, f.body) := by
  apply reads_sized
  have hbody := opsUntil_bytesAll ((Op.bytesAll f.body ++ [0x0B]).length + 1) 0x0B rfl [] f.body
    (by rw [List.length_append]; omega)
  have hlocals := reads_localCount f.locals (Op.bytesAll f.body ++ [0x0B])
  simp only [Func.content, List.append_assoc, hlocals, bind, Option.bind, hbody]

end ByteReader

open ByteReader in
/-- Every module is read back from its bytes. -/
theorem ofBytes?_bytes (m : Module) : Module.ofBytes? m.bytes = some m := by
  have hheader := reads_expect header
  have htypes := reads_part 1 fun params (_ : params ∈ m.types) => reads_funcType params
  have himports := reads_part 2 fun entry (_ : entry ∈ m.imports) => reads_importEntry entry
  have hindices := reads_part 3 fun f (_ : f ∈ m.functions) => reads_leb f.typeIndex
  have hexports := reads_part 7 fun entry (_ : entry ∈ m.exports) => reads_exportEntry entry
  have hcodes := reads_part 10 (fun f (_ : f ∈ m.functions) => reads_codeEntry f) []
  rw [List.append_nil] at hcodes
  simp only [Module.ofBytes?, Module.bytes, List.append_assoc, hheader _, htypes _, himports _,
    hindices _, hexports _, hcodes, Option.bind_eq_bind, Option.bind_some, List.map_id']
  simp [List.zipWith_map, List.zipWith_self]

end NumericJit.Wasm
