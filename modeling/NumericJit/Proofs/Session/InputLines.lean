import NumericJit.Proofs.Wasm.Reading
import NumericJit.Session.Repl

/-!
# The lines of a text

An input is cut into lines as bytes. In the bytes of a text a line feed stands for itself and for
nothing else, so the lines of the bytes are those of the text (`Repl.inputLines_toUTF8`). Put
together again, whole, they are the text, but for a line feed at its end
(`Text.flatten_completeLine`).
-/

namespace NumericJit

namespace Text

/-- The lines of a text, each with its line feed; the current one begins with `current`, kept
backwards. -/
def wholeLinesFrom (current : List Char) : List Char → List (List Char)
  | [] => if current.isEmpty then [] else [current.reverse]
  | c :: cs =>
    if c = '\n' then (c :: current).reverse :: wholeLinesFrom [] cs
    else wholeLinesFrom (c :: current) cs

def wholeLines (cs : List Char) : List (List Char) := wholeLinesFrom [] cs

def encode (cs : List Char) : List UInt8 := cs.flatMap String.utf8EncodeChar

theorem encode_append (cs ds : List Char) : encode (cs ++ ds) = encode cs ++ encode ds :=
  List.flatMap_append

theorem encode_nil : encode [] = [] := rfl

theorem encode_isEmpty (cs : List Char) : (encode cs).isEmpty = cs.isEmpty := by
  cases cs with
  | nil => rfl
  | cons c cs =>
    have hsize := c.utf8Size_pos
    rw [← String.length_utf8EncodeChar] at hsize
    obtain ⟨b, bs, hbytes⟩ := List.exists_cons_of_length_pos hsize
    simp [encode, hbytes]

theorem toUTF8_toList (text : String) : text.toUTF8.toList = encode text.toList := by
  have hbytes : text.toByteArray = text.toList.utf8Encode := by
    rw [← String.toByteArray_ofList, String.ofList_toList]
  rw [String.toUTF8_eq_toByteArray, hbytes, List.utf8Encode]
  simp [ByteArray.toList, Wasm.toList_loop, encode]

theorem fromUTF8?_encode (cs : List Char) :
    String.fromUTF8? ⟨(encode cs).toArray⟩ = some (String.ofList cs) := by
  have hbytes : (⟨(encode cs).toArray⟩ : ByteArray) = (String.ofList cs).toByteArray := by
    rw [String.toByteArray_ofList]
    ext1
    simp [encode, List.utf8Encode]
  rw [hbytes]
  exact dif_pos (String.ofList cs).isValidUTF8

/-- The bytes of a longer code are all above those that are a code of their own. -/
theorem eq_newline_of_mem (h : 10 ∈ String.utf8EncodeChar c) : c = '\n' := by
  have hbyte : ∀ {n : Nat}, n < 256 → (10 : UInt8) = UInt8.ofNat n → n = 10 := by
    intro n hn heq
    have heq := congrArg UInt8.toNat heq
    simpa [Nat.mod_eq_of_lt hn] using heq.symm
  rw [String.utf8EncodeChar] at h
  split at h
  · exact Char.ext (UInt32.toNat.inj (hbyte (by omega) (List.mem_singleton.mp h)))
  split at h
  · simp only [List.mem_cons, List.not_mem_nil, or_false] at h
    rcases h with h | h <;> have := hbyte (by omega) h <;> omega
  split at h
  · simp only [List.mem_cons, List.not_mem_nil, or_false] at h
    rcases h with h | h | h <;> have := hbyte (by omega) h <;> omega
  · simp only [List.mem_cons, List.not_mem_nil, or_false] at h
    rcases h with h | h | h | h <;> have := hbyte (by omega) h <;> omega

-- ---------------------------------------------------------------------------
-- Cutting
-- ---------------------------------------------------------------------------

theorem byteLinesFrom_append {bytes : List UInt8} (h : 10 ∉ bytes) (current rest : List UInt8) :
    byteLinesFrom current (bytes ++ rest) = byteLinesFrom (bytes.reverse ++ current) rest := by
  induction bytes generalizing current with
  | nil => rfl
  | cons b bytes ih =>
    obtain ⟨hb, hbytes⟩ := not_or.mp ((not_congr List.mem_cons).mp h)
    rw [List.cons_append, byteLinesFrom, if_neg (Ne.symm hb), ih hbytes, List.reverse_cons,
      List.append_assoc]
    rfl

theorem byteLinesFrom_encode (current cs : List Char) :
    byteLinesFrom (encode current.reverse).reverse (encode cs) =
      (wholeLinesFrom current cs).map encode := by
  induction cs generalizing current with
  | nil =>
    simp only [byteLinesFrom, wholeLinesFrom, encode_nil, encode_isEmpty, List.isEmpty_reverse,
      List.reverse_reverse]
    split <;> rfl
  | cons c cs ih =>
    have hcons : encode (c :: cs) = String.utf8EncodeChar c ++ encode cs := List.flatMap_cons
    have hcurrent : encode (c :: current).reverse =
        encode current.reverse ++ String.utf8EncodeChar c := by
      rw [List.reverse_cons, encode_append]
      exact congrArg _ (List.append_nil _)
    rw [hcons, wholeLinesFrom]
    split
    · rename_i hc
      have hbyte : String.utf8EncodeChar c = [10] := hc ▸ rfl
      rw [List.map_cons, hcurrent, hbyte, List.singleton_append, byteLinesFrom, if_pos rfl, ← ih []]
      simp [encode]
    · rename_i hc
      rw [byteLinesFrom_append fun h => hc (eq_newline_of_mem h), ← List.reverse_append, ← hcurrent]
      exact ih (c :: current)

theorem flatten_completeLine (current cs : List Char) :
    ((wholeLinesFrom current cs).map StatementBuffer.completeLine).flatten = current.reverse ++ cs ∨
      ((wholeLinesFrom current cs).map StatementBuffer.completeLine).flatten =
        current.reverse ++ cs ++ ['\n'] := by
  induction cs generalizing current with
  | nil =>
    rw [wholeLinesFrom, List.append_nil]
    split
    · rename_i hempty
      obtain rfl := List.isEmpty_iff.mp hempty
      exact .inl rfl
    · simp only [List.map_singleton, List.flatten_singleton, StatementBuffer.completeLine]
      split
      · exact .inl rfl
      · exact .inr rfl
  | cons c cs ih =>
    rw [wholeLinesFrom]
    split
    · rename_i hc
      have hlast : (current.reverse ++ [c]).getLast? = some '\n' := by rw [List.getLast?_concat, hc]
      have hwhole : StatementBuffer.completeLine (c :: current).reverse =
          current.reverse ++ [c] := by
        rw [List.reverse_cons, StatementBuffer.completeLine, if_pos hlast]
      rw [List.map_cons, List.flatten_cons, hwhole]
      obtain hrest | hrest := ih [] <;> rw [hrest] <;> simp
    · obtain hrest | hrest := ih (c :: current) <;> rw [hrest] <;> simp

end Text

theorem Repl.inputLines_toUTF8 (text : String) :
    Repl.inputLines text.toUTF8 = (Text.wholeLines text.toList).map some := by
  have hlines : Text.byteLines (Text.encode text.toList) = _ :=
    Text.byteLinesFrom_encode [] text.toList
  rw [Repl.inputLines, Text.toUTF8_toList, hlines, List.map_map]
  refine List.map_congr_left fun line _ => ?_
  simp [Text.fromUTF8?_encode]

end NumericJit
