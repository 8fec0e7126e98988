import Mathlib.Algebra.Order.Field.Power
import Mathlib.Data.Int.Log
import Mathlib.Data.Rat.Floor
import Mathlib.Tactic.FieldSimp
import NumericJit.Decimal.Shortest

/-!
# The nearest number depends on the value alone

Two fractions that stand for one value have one nearest number, and the nearest number to the exact
value of a finite magnitude is that magnitude.
-/

namespace NumericJit

namespace Decimal

theorem zpow_mul_toNat {b : ℚ} (hb : b ≠ 0) (k : Int) : b ^ k * b ^ (-k).toNat = b ^ k.toNat := by
  rw [← zpow_natCast, ← zpow_natCast, ← zpow_add₀ hb]
  congr 1
  omega

-- ---------------------------------------------------------------------------
-- Rounded quotients
-- ---------------------------------------------------------------------------

theorem roundDiv_mul_left (hk : 0 < k) (n d : Nat) : roundDiv (k * n) (k * d) = roundDiv n d := by
  have hlt : ∀ a b : Nat, k * a < k * b ↔ a < b := fun a b => Nat.mul_lt_mul_left hk
  simp only [roundDiv, Nat.mul_div_mul_left _ _ hk, Nat.mul_mod_mul_left, Nat.mul_left_comm 2 k,
    hlt]

theorem roundDiv_congr {n d n' d' : Nat} (hd : 0 < d) (hd' : 0 < d') (h : n * d' = n' * d) :
    roundDiv n d = roundDiv n' d' :=
  calc roundDiv n d = roundDiv (d' * n) (d' * d) := (roundDiv_mul_left hd' n d).symm
    _ = roundDiv (d * n') (d * d') := by rw [Nat.mul_comm d' n, h, Nat.mul_comm n', Nat.mul_comm d']
    _ = roundDiv n' d' := roundDiv_mul_left hd n' d'

theorem roundDiv_one (n : Nat) : roundDiv n 1 = n := by
  simp [roundDiv, Nat.mod_one]

theorem roundDiv_eq {n d m : Nat} (hd : 0 < d) (h : n = m * d) : roundDiv n d = m := by
  have hwhole : n * 1 = m * d := by rw [h, Nat.mul_one]
  rw [roundDiv_congr hd Nat.one_pos hwhole, roundDiv_one]

-- ---------------------------------------------------------------------------
-- The binary exponent
-- ---------------------------------------------------------------------------

theorem log_eq_of_le_of_lt {r : ℚ} {e : Int} (hle : (2 : ℚ) ^ e ≤ r) (hlt : r < 2 ^ (e + 1)) :
    Int.log 2 r = e := by
  have hr : 0 < r := (zpow_pos two_pos e).trans_le hle
  have h₁ : e ≤ Int.log 2 r := (Int.zpow_le_iff_le_log one_lt_two hr).mp hle
  have h₂ : Int.log 2 r < e + 1 := (Int.lt_zpow_iff_log_lt one_lt_two hr).mp hlt
  omega

theorem mul_lt_mul_iff_ratio {n d : Nat} (hd : d ≠ 0) (e : Int) :
    n * 2 ^ (-e).toNat < d * 2 ^ e.toNat ↔ (n / d : ℚ) < 2 ^ e := by
  have hd₀ : (0 : ℚ) < d := by exact_mod_cast Nat.pos_of_ne_zero hd
  have hp : (0 : ℚ) < 2 ^ (-e).toNat := pow_pos two_pos _
  have hscaled : (2 : ℚ) ^ e * d * 2 ^ (-e).toNat = d * 2 ^ e.toNat := by
    rw [← zpow_mul_toNat two_ne_zero e]
    ring
  rw [div_lt_iff₀ hd₀, ← mul_lt_mul_iff_of_pos_right hp, hscaled]
  exact_mod_cast Iff.rfl

theorem log2Ratio_eq {n d : Nat} (hn : n ≠ 0) (hd : d ≠ 0) :
    log2Ratio n d = Int.log 2 (n / d : ℚ) := by
  have hd₀ : (0 : ℚ) < d := by exact_mod_cast Nat.pos_of_ne_zero hd
  have hn₁ : (2 : ℚ) ^ (n.log2 : Int) ≤ n := by exact_mod_cast Nat.log2_self_le hn
  have hn₂ : (n : ℚ) < 2 ^ (n.log2 + 1 : Int) := by exact_mod_cast Nat.lt_log2_self
  have hd₁ : (2 : ℚ) ^ (d.log2 : Int) ≤ d := by exact_mod_cast Nat.log2_self_le hd
  have hd₂ : (d : ℚ) < 2 ^ (d.log2 + 1 : Int) := by exact_mod_cast Nat.lt_log2_self
  -- the exponents of both sides fix the one of the ratio up to one
  obtain ⟨e, he⟩ : ∃ e : Int, (n.log2 : Int) - (d.log2 : Int) = e := ⟨_, rfl⟩
  have hupper : (n / d : ℚ) < 2 ^ (e + 1) := by
    rw [div_lt_iff₀ hd₀]
    calc (n : ℚ) < 2 ^ (n.log2 + 1 : Int) := hn₂
      _ = 2 ^ (e + 1) * 2 ^ (d.log2 : Int) := by
        rw [← zpow_add₀ two_ne_zero, ← he]
        congr 1
        omega
      _ ≤ 2 ^ (e + 1) * d := by gcongr
  have hlower : (2 : ℚ) ^ (e - 1) ≤ n / d := by
    rw [le_div_iff₀ hd₀]
    calc (2 : ℚ) ^ (e - 1) * d ≤ 2 ^ (e - 1) * 2 ^ (d.log2 + 1 : Int) := by gcongr
      _ = 2 ^ (n.log2 : Int) := by
        rw [← zpow_add₀ two_ne_zero, ← he]
        congr 1
        omega
      _ ≤ n := hn₁
  have hratio := mul_lt_mul_iff_ratio (n := n) hd e
  simp only [log2Ratio, he, Nat.pow_eq, hratio]
  split
  next h => exact (log_eq_of_le_of_lt hlower (by rwa [sub_add_cancel])).symm
  next h => exact (log_eq_of_le_of_lt (not_lt.mp h) hupper).symm

-- ---------------------------------------------------------------------------
-- The nearest number
-- ---------------------------------------------------------------------------

/-- The exponent of the last binary digit that is kept. -/
def lastPlace (r : ℚ) : Int := max (Int.log 2 r - 52) (-1074)

theorem nearestBits_eq {n d : Nat} (hn : n ≠ 0) (hd : d ≠ 0) {q : Int}
    (hq : lastPlace (n / d) = q) :
    nearestBits n d = min infinityBits
      ((q + 1074).toNat * 2 ^ 52 + roundDiv (n * 2 ^ (-q).toNat) (d * 2 ^ q.toNat)) := by
  subst hq
  simp only [nearestBits, if_neg hn, log2Ratio_eq hn hd, Nat.pow_eq]
  rfl

theorem nearestBits_congr {n d n' d' : Nat} (hd : d ≠ 0) (hd' : d' ≠ 0)
    (h : (n / d : ℚ) = n' / d') : nearestBits n d = nearestBits n' d' := by
  have hd₀ : (d : ℚ) ≠ 0 := by exact_mod_cast hd
  have hd₀' : (d' : ℚ) ≠ 0 := by exact_mod_cast hd'
  have hcross : n * d' = n' * d := by exact_mod_cast (div_eq_div_iff hd₀ hd₀').mp h
  by_cases hn : n = 0
  · obtain rfl : n' = 0 := by
      subst hn
      rw [Nat.zero_mul] at hcross
      exact (Nat.mul_eq_zero.mp hcross.symm).resolve_right hd
    rw [hn, nearestBits, nearestBits, if_pos rfl, if_pos rfl]
  have hn' : n' ≠ 0 := by
    rintro rfl
    rw [Nat.zero_mul] at hcross
    exact (Nat.mul_eq_zero.mp hcross).elim hn hd'
  rw [nearestBits_eq hn hd rfl, nearestBits_eq hn' hd' rfl, h]
  congr 2
  refine roundDiv_congr ?_ ?_ ?_
  · exact Nat.mul_pos (Nat.pos_of_ne_zero hd) (Nat.two_pow_pos _)
  · exact Nat.mul_pos (Nat.pos_of_ne_zero hd') (Nat.two_pow_pos _)
  · rw [Nat.mul_mul_mul_comm, Nat.mul_mul_mul_comm n', hcross]

def value (x : Decimal) : ℚ := x.digits * 10 ^ x.exponent

theorem value_eq_div (x : Decimal) :
    x.value = (x.digits * 10 ^ x.exponent.toNat : Nat) / (10 ^ (-x.exponent).toNat : Nat) := by
  have hten : (10 : ℚ) ≠ 0 := by norm_num
  have hp : (10 : ℚ) ^ (-x.exponent).toNat ≠ 0 := pow_ne_zero _ hten
  push_cast
  rw [eq_div_iff hp, value, mul_assoc, zpow_mul_toNat hten]

theorem nearest_congr {x y : Decimal} (h : x.value = y.value) : x.nearest = y.nearest := by
  rw [value_eq_div, value_eq_div] at h
  have hten : ∀ k, 10 ^ k ≠ 0 := fun k => (Nat.pow_pos (by decide)).ne'
  exact nearestBits_congr (hten _) (hten _) h

-- ---------------------------------------------------------------------------
-- Exact values
-- ---------------------------------------------------------------------------

/-- The last place of `m * 2 ^ q` is `q` if `m` has fifty-three binary digits, or fewer and `q` is
the least one. -/
theorem lastPlace_eq {m : Nat} {q : Int} (hm₀ : m ≠ 0) (hm : m < 2 ^ 53) (hq : -1074 ≤ q)
    (hlead : q = -1074 ∨ 2 ^ 52 ≤ m) : lastPlace (m * 2 ^ q) = q := by
  have hp : (0 : ℚ) < 2 ^ q := zpow_pos two_pos q
  have hr : (0 : ℚ) < m * 2 ^ q := mul_pos (by exact_mod_cast Nat.pos_of_ne_zero hm₀) hp
  have hupper : Int.log 2 (m * 2 ^ q : ℚ) < 53 + q := by
    refine (Int.lt_zpow_iff_log_lt one_lt_two hr).mp ?_
    rw [Nat.cast_ofNat, zpow_add₀ two_ne_zero]
    exact (mul_lt_mul_iff_of_pos_right hp).mpr (by exact_mod_cast hm)
  have hlower : 2 ^ 52 ≤ m → 52 + q ≤ Int.log 2 (m * 2 ^ q : ℚ) := by
    intro hm
    refine (Int.zpow_le_iff_le_log one_lt_two hr).mp ?_
    rw [Nat.cast_ofNat, zpow_add₀ two_ne_zero]
    exact (mul_le_mul_iff_of_pos_right hp).mpr (by exact_mod_cast hm)
  unfold lastPlace
  obtain rfl | hlead := hlead
  · omega
  · have := hlower hlead
    omega

theorem nearestBits_exact {n d m : Nat} {q : Int} (hd : d ≠ 0) (h : (n / d : ℚ) = m * 2 ^ q)
    (hm : m < 2 ^ 53) (hq : -1074 ≤ q) (hlead : q = -1074 ∨ 2 ^ 52 ≤ m) :
    nearestBits n d = min infinityBits ((q + 1074).toNat * 2 ^ 52 + m) := by
  have hd₀ : (d : ℚ) ≠ 0 := by exact_mod_cast hd
  have hp : (2 : ℚ) ^ q ≠ 0 := zpow_ne_zero q two_ne_zero
  have hn : (n : ℚ) = m * 2 ^ q * d := (div_eq_iff hd₀).mp h
  by_cases hm₀ : m = 0
  · obtain rfl : q = -1074 := hlead.resolve_right (by omega)
    obtain rfl : n = 0 := by
      rw [hm₀, Nat.cast_zero, zero_mul, zero_mul] at hn
      exact_mod_cast hn
    rw [hm₀, nearestBits, if_pos rfl]
    exact (Nat.min_eq_right (Nat.zero_le _)).symm
  have hn₀ : n ≠ 0 := by
    rintro rfl
    rw [Nat.cast_zero, zero_div] at h
    exact mul_ne_zero (by exact_mod_cast hm₀) hp h.symm
  have hwhole : n * 2 ^ (-q).toNat = m * (d * 2 ^ q.toNat) := by
    have : (n : ℚ) * 2 ^ (-q).toNat = m * (d * 2 ^ q.toNat) := by
      rw [hn, ← zpow_mul_toNat two_ne_zero q]
      ring
    exact_mod_cast this
  rw [nearestBits_eq hn₀ hd (h ▸ lastPlace_eq hm₀ hm hq hlead), roundDiv_eq ?_ hwhole]
  exact Nat.mul_pos (Nat.pos_of_ne_zero hd) (Nat.two_pow_pos _)

/-- The parts of a finite magnitude: an exponent that counts from the least one, and the digits. -/
theorem exists_ofBits (bits : Nat) :
    ∃ m k : Nat, (Ratio.ofBits bits).num = m * 2 ^ (k - 1074) ∧
      (Ratio.ofBits bits).den = 2 ^ (1074 - k) ∧ k * 2 ^ 52 + m = bits ∧ m < 2 ^ 53 ∧
      (k = 0 ∨ 2 ^ 52 ≤ m) := by
  have hbits := Nat.div_add_mod bits (2 ^ 52)
  have hf := Nat.mod_lt bits (Nat.two_pow_pos 52)
  -- a variable, as nothing is gained by the digits of this power
  obtain ⟨p, hp⟩ : ∃ p, 1074 = p := ⟨_, rfl⟩
  unfold Ratio.ofBits
  rw [hp]
  dsimp only [Nat.pow_eq]
  split
  next he =>
    rw [he, Nat.mul_zero, Nat.zero_add] at hbits
    refine ⟨bits % 2 ^ 52, 0, ?_, ?_, ?_, ?_, .inl rfl⟩
    · rw [Nat.zero_sub, Nat.pow_zero, Nat.mul_one]
    · rw [Nat.sub_zero]
    · rw [Nat.zero_mul, Nat.zero_add, hbits]
    · omega
  next he =>
    refine ⟨2 ^ 52 + bits % 2 ^ 52, bits / 2 ^ 52 - 1, ?_, ?_, ?_, ?_, .inr (Nat.le_add_right _ _)⟩
    · rw [Nat.sub_sub, Nat.add_comm 1, ← hp]
    · have hk : 1075 - bits / 2 ^ 52 = p - (bits / 2 ^ 52 - 1) := by omega
      exact congrArg (2 ^ ·) hk
    · omega
    · omega

theorem ratio_eq (m k : Nat) :
    ((m * 2 ^ (k - 1074) : Nat) / (2 ^ (1074 - k) : Nat) : ℚ) = m * 2 ^ ((k : Int) - 1074) := by
  have hp : (2 : ℚ) ^ (1074 - k) ≠ 0 := pow_ne_zero _ two_ne_zero
  have hk : ((k : Int) - 1074).toNat = k - 1074 := by omega
  have hk' : (-((k : Int) - 1074)).toNat = 1074 - k := by omega
  push_cast
  rw [div_eq_iff hp, mul_assoc, ← hk, ← hk', zpow_mul_toNat two_ne_zero]

/-- The exact value of a finite magnitude has that magnitude as its nearest number. -/
theorem nearestBits_ofBits (h : bits < infinityBits) :
    nearestBits (Ratio.ofBits bits).num (Ratio.ofBits bits).den = bits := by
  obtain ⟨m, k, hnum, hden, hbits, hm, hlead⟩ := exists_ofBits bits
  have hk : ((k : Int) - 1074 + 1074).toNat = k := by omega
  rw [hnum, hden, nearestBits_exact (Nat.two_pow_pos _).ne' (ratio_eq m k) hm (by omega) (by omega),
    hk, hbits]
  exact Nat.min_eq_right h.le

theorem nearest_exact (h : bits < infinityBits) : (exact bits).nearest = bits := by
  obtain ⟨m, k, -, hden, -⟩ := exists_ofBits bits
  have hfive : (5 : ℚ) ^ (1074 - k) ≠ 0 := pow_ne_zero _ (by norm_num)
  have hratio : ((Ratio.ofBits bits).num * 5 ^ (1074 - k) * 10 ^ 0 : Nat) / (10 ^ (1074 - k) : Nat) =
      ((Ratio.ofBits bits).num / (Ratio.ofBits bits).den : ℚ) := by
    rw [hden, Nat.pow_zero, Nat.mul_one, show 10 = 2 * 5 from rfl, Nat.mul_pow]
    push_cast
    exact mul_div_mul_right _ _ hfive
  have hnearest : (exact bits).nearest =
      nearestBits ((Ratio.ofBits bits).num * 5 ^ (1074 - k) * 10 ^ 0) (10 ^ (1074 - k)) := by
    simp only [exact, nearest, hden, Nat.log2_two_pow, Nat.pow_eq, Int.toNat_neg_natCast, neg_neg,
      Int.toNat_natCast]
  have hten : 10 ^ (1074 - k) ≠ 0 := (Nat.pow_pos (by decide)).ne'
  have hden₀ : (Ratio.ofBits bits).den ≠ 0 := hden ▸ (Nat.two_pow_pos _).ne'
  rw [hnearest, nearestBits_congr hten hden₀ hratio, nearestBits_ofBits h]

-- ---------------------------------------------------------------------------
-- The fewest digits
-- ---------------------------------------------------------------------------

theorem trim_value (fuel : Nat) (x : Decimal) : (trim fuel x).value = x.value := by
  induction fuel generalizing x with
  | zero => rfl
  | succ fuel ih =>
    rw [trim]
    split
    next h =>
      have hdigits : x.digits = 10 * (x.digits / 10) := by omega
      rw [ih, value, value, zpow_add_one₀ (by norm_num)]
      nth_rewrite 2 [hdigits]
      push_cast
      ring
    next h => rfl

theorem onGrid?_nearest (h : onGrid? bits x k = some y) : y.nearest = bits := by
  unfold onGrid? at h
  dsimp only at h
  split at h
  next hbelow habove =>
    split at h
    · exact Option.some.inj h ▸ beq_iff_eq.mp hbelow
    · exact Option.some.inj h ▸ beq_iff_eq.mp habove
  next hbelow habove => exact Option.some.inj h ▸ beq_iff_eq.mp hbelow
  next hbelow habove => exact Option.some.inj h ▸ beq_iff_eq.mp habove
  next => cases h

/-- What is written for a finite magnitude reads back as it. -/
theorem nearest_shortest (h : bits < infinityBits) : (shortest bits).nearest = bits := by
  unfold shortest
  split
  next hzero =>
    subst hzero
    rfl
  next =>
    dsimp only
    rw [nearest_congr (trim_value 400 _)]
    cases hfound : (List.range 17).findSome? fun (i : Nat) =>
        onGrid? bits (Ratio.ofBits bits) (scale (Ratio.ofBits bits) - (i + 1)) with
    | none => exact nearest_exact h
    | some y =>
      obtain ⟨i, -, hi⟩ := List.exists_of_findSome?_eq_some hfound
      exact onGrid?_nearest hi

end Decimal
end NumericJit
