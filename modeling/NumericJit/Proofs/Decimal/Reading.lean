import NumericJit.Decimal.Notation
import NumericJit.Decimal.Reading
import NumericJit.Proofs.Decimal.Nearest
import NumericJit.Statement.Writable

/-!
# Plain notation reads back

The plain text of a finite number without a sign is digits, with a point among them at most once,
and the number that it is read as is that number (`readChars?_plain`).
-/

namespace NumericJit

namespace Decimal

-- ---------------------------------------------------------------------------
-- Digits
-- ---------------------------------------------------------------------------

def AllDigits (cs : List Char) : Prop := ∀ c ∈ cs, c.isDigit = true

theorem allDigits_append : AllDigits (cs ++ ds) ↔ AllDigits cs ∧ AllDigits ds :=
  List.forall_mem_append

theorem allDigits_toDigits (n : Nat) : AllDigits (Nat.toDigits 10 n) :=
  fun _ => Nat.isDigit_of_mem_toDigits (by decide) (by decide)

theorem allDigits_replicate (n : Nat) : AllDigits (List.replicate n '0') := by
  intro c hc
  rw [List.eq_of_mem_replicate hc]
  rfl

theorem natOfDigits_toDigits (n : Nat) : natOfDigits (Nat.toDigits 10 n) = n :=
  Nat.ofDigitChars_ten_toDigits

theorem natOfDigits_append_zeros (cs : List Char) (n : Nat) :
    natOfDigits (cs ++ List.replicate n '0') = natOfDigits cs * 10 ^ n := by
  have happend := Nat.ofDigitChars_append (b := 10) (l := cs) (m := List.replicate n '0') 0
  rw [Nat.ofDigitChars_replicate_zero, Nat.mul_comm] at happend
  exact happend

theorem natOfDigits_zeros_append (n : Nat) (cs : List Char) :
    natOfDigits (List.replicate n '0' ++ cs) = natOfDigits cs := by
  have happend := Nat.ofDigitChars_append (b := 10) (l := List.replicate n '0') (m := cs) 0
  rw [Nat.ofDigitChars_replicate_zero, Nat.mul_zero] at happend
  exact happend

-- ---------------------------------------------------------------------------
-- Digits with a point
-- ---------------------------------------------------------------------------

section
variable {whole fraction : List Char}

theorem takeWhile_digits (h : AllDigits whole) (rest : List Char)
    (hrest : ∀ c ∈ rest.head?, c.isDigit = false) :
    (whole ++ rest).takeWhile Char.isDigit = whole ∧
      (whole ++ rest).dropWhile Char.isDigit = rest := by
  rw [List.takeWhile_append_of_pos h, List.dropWhile_append_of_pos h]
  cases rest with
  | nil => exact ⟨List.append_nil _, rfl⟩
  | cons c rest =>
    have hc : c.isDigit = false := hrest c rfl
    rw [List.takeWhile_cons_of_neg (by rw [hc]; exact nofun),
      List.dropWhile_cons_of_neg (by rw [hc]; exact nofun)]
    exact ⟨List.append_nil _, rfl⟩

theorem clamp_zero (n : Nat) : max (-((n : Int) + 400)) (min ((n : Int) + 400) 0) = 0 := by omega

theorem read?_whole (h : AllDigits whole) (hne : whole ≠ []) :
    read? whole = some ⟨natOfDigits whole, 0⟩ := by
  obtain ⟨htake, hdrop⟩ := takeWhile_digits h [] nofun
  rw [List.append_nil] at htake hdrop
  have hwhole : whole.isEmpty = false := List.isEmpty_eq_false_iff.mpr hne
  simp only [read?, htake, hdrop, hwhole, Bool.false_and, Bool.false_eq_true, if_false,
    readExponent?, Option.map_some, clamp_zero, List.append_nil, List.length_nil]
  rfl

theorem read?_pointed (h : AllDigits whole) (hne : whole ≠ []) (hfraction : AllDigits fraction) :
    read? (whole ++ '.' :: fraction) =
      some ⟨natOfDigits (whole ++ fraction), -fraction.length⟩ := by
  obtain ⟨htake, hdrop⟩ := takeWhile_digits h ('.' :: fraction) (by simp)
  obtain ⟨htake', hdrop'⟩ := takeWhile_digits hfraction [] nofun
  rw [List.append_nil] at htake' hdrop'
  have hwhole : whole.isEmpty = false := List.isEmpty_eq_false_iff.mpr hne
  simp only [read?, htake, hdrop, htake', hdrop', hwhole, Bool.false_and, Bool.false_eq_true,
    if_false, readExponent?, Option.map_some, clamp_zero, Int.zero_sub]

end

/-- Digits that a number begins with, and then a point with more digits or nothing. -/
inductive Digital : List Char → Prop where
  | whole (h : AllDigits whole) (hne : whole ≠ []) : Digital whole
  | pointed (h : AllDigits whole) (hne : whole ≠ []) (hfraction : AllDigits fraction) :
    Digital (whole ++ '.' :: fraction)

theorem Digital.exists_cons (h : Digital cs) : ∃ c rest, cs = c :: rest ∧ c.isDigit = true := by
  cases h with
  | whole h hne =>
    obtain ⟨c, rest, rfl⟩ := List.exists_cons_of_ne_nil hne
    exact ⟨c, rest, rfl, h c (List.mem_cons_self ..)⟩
  | pointed h hne hfraction =>
    obtain ⟨c, rest, rfl⟩ := List.exists_cons_of_ne_nil hne
    exact ⟨c, _, rfl, h c (List.mem_cons_self ..)⟩

theorem Digital.digit_or_point (h : Digital cs) (hc : c ∈ cs) : c.isDigit = true ∨ c = '.' := by
  cases h with
  | whole h hne => exact .inl (h c hc)
  | pointed h hne hfraction =>
    obtain hc | hc := List.mem_append.mp hc
    · exact .inl (h c hc)
    · exact (List.mem_cons.mp hc).symm.imp_left (hfraction c)

-- ---------------------------------------------------------------------------
-- Positional text
-- ---------------------------------------------------------------------------

theorem read?_pointed_text (n : Nat) (hplaces : places ≠ 0) :
    Digital (pointed n places).toList ∧
      read? (pointed n places).toList = some ⟨n, -places⟩ := by
  obtain ⟨digits, hdigits⟩ : ∃ digits, Nat.toDigits 10 n = digits := ⟨_, rfl⟩
  obtain ⟨padded, hpadded⟩ :
      ∃ padded, List.replicate (places + 1 - digits.length) '0' ++ digits = padded := ⟨_, rfl⟩
  have hlength : places + 1 ≤ padded.length := by
    rw [← hpadded, List.length_append, List.length_replicate]
    omega
  have hall : AllDigits padded := by
    rw [← hpadded, ← hdigits]
    exact allDigits_append.mpr ⟨allDigits_replicate _, allDigits_toDigits n⟩
  have hvalue : natOfDigits padded = n := by
    rw [← hpadded, natOfDigits_zeros_append, ← hdigits, natOfDigits_toDigits]
  have htext : (pointed n places).toList = padded.take (padded.length - places) ++
      '.' :: padded.drop (padded.length - places) := by
    rw [pointed, if_neg hplaces, String.toList_ofList, hdigits, hpadded]
  have hwhole : padded.take (padded.length - places) ≠ [] := by
    rw [← List.length_pos_iff, List.length_take]
    omega
  have hfraction : (padded.drop (padded.length - places)).length = places := by
    rw [List.length_drop]
    omega
  have htake : AllDigits (padded.take (padded.length - places)) :=
    fun c hc => hall c (List.mem_of_mem_take hc)
  have hdrop : AllDigits (padded.drop (padded.length - places)) :=
    fun c hc => hall c (List.mem_of_mem_drop hc)
  rw [htext]
  refine ⟨.pointed htake hwhole hdrop, ?_⟩
  rw [read?_pointed htake hwhole hdrop, hfraction, List.take_append_drop, hvalue]

theorem read?_positional (x : Decimal) :
    Digital x.positional.toList ∧ ∃ y, read? x.positional.toList = some y ∧ y.value = x.value := by
  obtain ⟨digits, exponent⟩ := x
  unfold positional
  dsimp only
  split
  next hexponent =>
    obtain ⟨k, rfl⟩ := Int.eq_ofNat_of_zero_le hexponent
    have hne : Nat.toDigits 10 digits ≠ [] := Nat.toDigits_ne_nil
    rw [String.toList_append, digitText, String.toList_ofList]
    split
    next hzero =>
      rw [String.toList_empty, List.append_nil]
      have hall := allDigits_toDigits digits
      refine ⟨.whole hall hne, _, read?_whole hall hne, ?_⟩
      rw [natOfDigits_toDigits, hzero, value, value, Nat.cast_zero, zero_mul, zero_mul]
    next hzero =>
      have hall : AllDigits (Nat.toDigits 10 digits ++ List.replicate k '0') :=
        allDigits_append.mpr ⟨allDigits_toDigits digits, allDigits_replicate k⟩
      have hne : Nat.toDigits 10 digits ++ List.replicate k '0' ≠ [] :=
        List.append_ne_nil_of_left_ne_nil hne _
      rw [zeros, String.toList_ofList, Int.toNat_natCast]
      refine ⟨.whole hall hne, _, read?_whole hall hne, ?_⟩
      rw [natOfDigits_append_zeros, natOfDigits_toDigits, value, value, zpow_zero, mul_one,
        zpow_natCast]
      push_cast
      rfl
  next hexponent =>
    have hne : (-exponent).toNat ≠ 0 := by omega
    obtain ⟨hdigital, hread⟩ := read?_pointed_text digits hne
    refine ⟨hdigital, _, hread, ?_⟩
    have hplaces : (-((-exponent).toNat : Int)) = exponent := by omega
    rw [hplaces]

end Decimal

namespace Number

-- ---------------------------------------------------------------------------
-- Numbers
-- ---------------------------------------------------------------------------

variable {x : Number}

theorem magnitude_eq (h : x.bits.toNat < 2 ^ 63) : x.magnitude = x.bits := by
  refine UInt64.toNat_inj.mp ?_
  rw [magnitude, UInt64.toNat_and]
  exact (Nat.and_two_pow_sub_one_eq_mod _ 63).trans (Nat.mod_eq_of_lt h)

theorem isPlain_iff : x.isPlain = true ↔ x.bits.toNat < Decimal.infinityBits := by
  have hlt : x.bits < infinity.bits ↔ x.bits.toNat < Decimal.infinityBits := UInt64.lt_iff_toNat_lt
  rw [← hlt]
  constructor
  · intro h
    simp only [isPlain, isNaN, isInfinite, isNegative, Bool.and_eq_true, Bool.not_eq_true',
      decide_eq_false_iff_not, beq_eq_false_iff_ne, bne_eq_false_iff_eq] at h
    obtain ⟨⟨hnan, hinfinite⟩, hnegative⟩ := h
    rw [hnegative] at hnan hinfinite
    exact UInt64.lt_of_le_of_ne (UInt64.not_lt.mp hnan) hinfinite
  · intro h
    have hbits : x.magnitude = x.bits :=
      magnitude_eq ((hlt.mp h).trans (by decide))
    simp [isPlain, isNaN, isInfinite, isNegative, hbits, UInt64.ne_of_lt h, UInt64.lt_asymm h]

theorem toLower_of_isDigit (h : Char.isDigit c = true) : c.toLower = c := by
  simp only [Char.isDigit, Bool.and_eq_true, decide_eq_true_eq, UInt32.le_iff_toNat_le] at h
  unfold Char.toLower
  split
  next hupper =>
    have := UInt32.le_iff_toNat_le.mp hupper.1
    exact absurd (this.trans h.2) (by decide)
  next => rfl

theorem readChars?_of_digit_or_point (h : c.isDigit = true ∨ c = '.') :
    readChars? (c :: rest) = (Decimal.read? (c :: rest)).map Decimal.toNumber := by
  have hne : ∀ d : Char, d.isDigit = false → d ≠ '.' → c ≠ d := by
    rintro d hd hd' rfl
    obtain h | h := h
    · rw [hd] at h
      cases h
    · exact hd' h
  have hlower : c.toLower = c := by
    obtain h | rfl := h
    · exact toLower_of_isDigit h
    · rfl
  have hmagnitude : readChars? (c :: rest) = readMagnitude? (c :: rest) := by
    unfold readChars?
    split
    next heq => exact absurd (List.cons.inj heq).1 (hne '-' rfl (by decide))
    next heq => exact absurd (List.cons.inj heq).1 (hne '+' rfl (by decide))
    next => rfl
  rw [hmagnitude, readMagnitude?, List.map_cons, hlower]
  split
  next heq => exact absurd (List.cons.inj heq).1 (hne 'i' rfl (by decide))
  next heq => exact absurd (List.cons.inj heq).1 (hne 'i' rfl (by decide))
  next heq => exact absurd (List.cons.inj heq).1 (hne 'n' rfl (by decide))
  next => rfl

theorem nearestBits_le (n d : Nat) : Decimal.nearestBits n d ≤ Decimal.infinityBits := by
  unfold Decimal.nearestBits
  split
  · exact Nat.zero_le _
  · exact Nat.min_le_left _ _

/-- Digits give a number without a sign; too many of them give infinity. -/
theorem isPlain_of_readChars? (h : c.isDigit = true ∨ c = '.')
    (hread : readChars? (c :: rest) = some x) : x.isPlain = !x.isInfinite := by
  rw [readChars?_of_digit_or_point h, Option.map_eq_some_iff] at hread
  obtain ⟨y, -, rfl⟩ := hread
  have hle : y.nearest ≤ Decimal.infinityBits := nearestBits_le _ _
  have hbits : y.toNumber.bits.toNat = y.nearest :=
    Nat.mod_eq_of_lt (hle.trans_lt (by decide))
  have hmagnitude : y.toNumber.magnitude = y.toNumber.bits :=
    magnitude_eq (hbits ▸ hle.trans_lt (by decide))
  rw [Bool.eq_iff_iff, isPlain_iff, hbits, Bool.not_eq_true', isInfinite, hmagnitude,
    beq_eq_false_iff_ne, Ne, ← UInt64.toNat_inj, hbits]
  exact hle.lt_iff_ne

theorem plain_eq (h : x.isPlain = true) :
    x.plain = (Decimal.shortest x.bits.toNat).positional := by
  simp only [isPlain, Bool.and_eq_true, Bool.not_eq_true'] at h
  obtain ⟨⟨hnan, hinfinite⟩, hnegative⟩ := h
  have hbits : x.magnitude = x.bits := bne_eq_false_iff_eq.mp hnegative
  simp [plain, written, signText, hnan, hinfinite, hnegative, hbits]

theorem readChars?_plain (h : x.isPlain = true) :
    Decimal.Digital x.plain.toList ∧ readChars? x.plain.toList = some x := by
  obtain ⟨hdigital, y, hread, hvalue⟩ := Decimal.read?_positional (Decimal.shortest x.bits.toNat)
  rw [← plain_eq h] at hdigital hread
  refine ⟨hdigital, ?_⟩
  obtain ⟨c, rest, hcs, hc⟩ := hdigital.exists_cons
  have hnearest : y.nearest = x.bits.toNat :=
    (Decimal.nearest_congr hvalue).trans (Decimal.nearest_shortest (isPlain_iff.mp h))
  rw [hcs] at hread ⊢
  rw [readChars?_of_digit_or_point (.inl hc), hread, Option.map_some, Decimal.toNumber, hnearest]
  exact congrArg (fun bits => some (Number.mk bits)) UInt64.ofNat_toNat

end Number
end NumericJit
