import LedgerLoad.Decimal.Plain
import LedgerLoad.Proofs.Double.Nearest

/-! # Doubles and natural numbers

How far a double is from the number that was rounded to it, and how it is rounded to a natural
number: down to a word (`toNat_toUInt64`), or to the nearest one (`nearest_roundHalfEven`). -/

namespace LedgerLoad.Double

open Float.Model (UnpackedFloat)
open Float.Model.UnpackedFloat (ExtendedMantissa Sign)

/-! ### The error of rounding -/

/-- **A double exceeds the number that was rounded to it by a share of `2 ^ -53` at most**, or by
half of the smallest double. -/
theorem Rounds.units_le {w : ℚ} {n : ℕ} (h : Rounds w n) (hn : n < farthest) (hw : 0 ≤ w) :
    (units n : ℚ) ≤ w * (1 + 1 / 2 ^ 53) + 1 / 2 := by
  obtain ⟨k, r, hbelow, hk, hr, rfl⟩ := h
  rw [Nat.min_eq_right (by omega)]
  obtain ⟨hdigits, hk'⟩ := hr.digits hbelow hk
  have hge := hr.ge
  have hpow : (0 : ℚ) < 2 ^ k := by positivity
  have hle : (r : ℚ) * 2 ^ k ≤ w + 2 ^ k / 2 := by
    calc (r : ℚ) * 2 ^ k ≤ (w / 2 ^ k + 1 / 2) * 2 ^ k := mul_le_mul_of_nonneg_right hge hpow.le
      _ = w + 2 ^ k / 2 := by field_simp
  rw [units_eq hdigits hk']
  push_cast
  rcases hk with rfl | hk
  · linarith
  · have hshare : (2 : ℚ) ^ k / 2 = 2 ^ (k + 52) / 2 ^ 53 := by
      rw [pow_add]
      ring
    linarith

/-! ### Values -/

/-- The number that a positive double stands for. -/
def value (x : Float) : ℚ := units (steps x) / whole

theorem value_nonneg (x : Float) : 0 ≤ value x :=
  div_nonneg (Nat.cast_nonneg _) (Nat.cast_nonneg _)

section Value

variable {x y : Float}

theorem units_eq_value (x : Float) : (units (steps x) : ℚ) = value x * whole :=
  (div_mul_cancel₀ _ whole_pos.ne').symm

theorem near_mul_value (hx : signOf x.toBits.toNat = .positive)
    (hy : signOf y.toBits.toNat = .positive) (hx' : steps x < farthest) (hy' : steps y < farthest) :
    Near (value x * value y * whole) (x * y) := by
  have hnear := near_mul hx hy hx' hy'
  have hwhole := whole_pos.ne'
  have hsame : value x * whole * (value y * whole) / whole = value x * value y * whole := by
    field_simp
  rwa [units_eq_value, units_eq_value, hsame] at hnear

theorem near_div_value (hx : signOf x.toBits.toNat = .positive)
    (hy : signOf y.toBits.toNat = .positive) (hx' : steps x < farthest) (hpos : 0 < steps y)
    (hy' : steps y < farthest) : Near (value x / value y * whole) (x / y) := by
  have hnear := near_div hx hy hx' hpos hy'
  rwa [units_eq_value, units_eq_value, mul_div_mul_right _ _ whole_pos.ne'] at hnear

/-- A number below a power of two is not rounded to infinity. -/
theorem Near.steps_lt {v : ℚ} (h : Near (v * whole) x) {j : ℕ} (hv : v ≤ 2 ^ j) (hj : j ≤ 1023) :
    steps x < farthest := by
  have hfar : farthest = 2047 * 2 ^ 52 := rfl
  have hpower := rounds_units (n := (1023 + j) * 2 ^ 52) (by omega)
  rw [units_power] at hpower
  have hle := h.rounds.mono hpower (by
    push_cast
    exact mul_le_mul_of_nonneg_right hv whole_pos.le)
  omega

/-- One rounding adds a share of `2 ^ -53` at most, or half of the smallest double. -/
theorem Near.value_le {v : ℚ} (h : Near (v * whole) x) (hv : 0 ≤ v) (hx : steps x < farthest) :
    value x ≤ v * (1 + 1 / 2 ^ 53) + 1 / (2 * whole) := by
  have hunits := h.rounds.units_le hx (mul_nonneg hv whole_pos.le)
  have hwhole := whole_pos
  rw [value, div_le_iff₀ hwhole]
  have hhalf : 1 / (2 * (whole : ℚ)) * whole = 1 / 2 := by field_simp
  linarith [hhalf, hunits]

end Value

/-! ### Down to a word -/

/-- Digits that are moved on and then cut off are cut off at once. -/
theorem shifted_div {m k j a d : ℕ} (h : k + d = a + j) : m * 2 ^ a / 2 ^ d = m * 2 ^ k / 2 ^ j := by
  have hsame : m * 2 ^ a * 2 ^ j = m * 2 ^ k * 2 ^ d := by
    rw [Nat.mul_assoc, Nat.mul_assoc, ← Nat.pow_add, ← Nat.pow_add, h]
  calc m * 2 ^ a / 2 ^ d = m * 2 ^ a * 2 ^ j / (2 ^ d * 2 ^ j) :=
        (Nat.mul_div_mul_right _ _ (Nat.two_pow_pos j)).symm
    _ = m * 2 ^ k * 2 ^ d / (2 ^ j * 2 ^ d) := by rw [hsame, Nat.mul_comm (2 ^ d)]
    _ = m * 2 ^ k / 2 ^ j := Nat.mul_div_mul_right _ _ (Nat.two_pow_pos d)

theorem toInt_finite {m k : ℕ} (hm : 0 < m) (low high : ℤ) :
    (UnpackedFloat.finite .positive m (k - 1074) hm).toInt low high = (m * 2 ^ k / whole : ℕ) := by
  show ((ExtendedMantissa.ofMantissaAndAccuracy (m <<< ((k : ℤ) - 1074 - 0).toNat) .exact >>>
    (0 - ((k : ℤ) - 1074 - (((k : ℤ) - 1074 - 0).toNat : ℤ))).toNat).mantissa : ℤ) = _
  have hplaces : k + (0 - ((k : ℤ) - 1074 - (((k : ℤ) - 1074 - 0).toNat : ℤ))).toNat =
      ((k : ℤ) - 1074 - 0).toNat + 1074 := by omega
  rw [mantissa_shiftRight, mantissa_ofMantissaAndAccuracy, Nat.shiftLeft_eq, shifted_div hplaces,
    whole]

/-- **A positive double is rounded down to a word**, and to the greatest word beyond them. -/
theorem toNat_toUInt64 {x : Float} (hsign : signOf x.toBits.toNat = .positive)
    (hfinite : steps x < farthest) :
    x.toUInt64.toNat = min (units (steps x) / whole) (2 ^ 64 - 1) := by
  have hword : x.toUInt64 = UInt64.ofNatClamp (x.toModel.unpack.toInt 0 (2 ^ 64 - 1)).toNat := rfl
  have hnat : (x.toModel.unpack.toInt 0 (2 ^ 64 - 1)).toNat = units (steps x) / whole := by
    by_cases hzero : steps x = 0
    · have hnone : units 0 = 0 := rfl
      rw [unpack_of_steps_zero hsign hzero, hzero, hnone, Nat.zero_div]
      rfl
    · obtain ⟨m, k, hm, hunpack, -, -, -, hunits⟩ :=
        unpack_digits hsign (Nat.pos_of_ne_zero hzero) hfinite
      rw [hunpack, hunits, toInt_finite hm, Int.toNat_natCast]
  rw [hword, hnat]
  rcases Nat.lt_or_ge (units (steps x) / whole) UInt64.size with hlt | hge
  · rw [UInt64.toNat_ofNatClamp_of_lt hlt]
    have hsize : UInt64.size = 2 ^ 64 := rfl
    omega
  · rw [UInt64.toNat_ofNatClamp_of_le hge]
    have hsize : UInt64.size = 2 ^ 64 := rfl
    omega

theorem toNat_toUInt64_infinite {x : Float} (hsign : signOf x.toBits.toNat = .positive)
    (hinfinite : steps x = farthest) : x.toUInt64.toNat = 2 ^ 64 - 1 := by
  have hword : x.toUInt64 = UInt64.ofNatClamp (x.toModel.unpack.toInt 0 (2 ^ 64 - 1)).toNat := rfl
  rw [hword, unpack_of_steps_farthest hsign hinfinite]
  rfl

/-! ### To the nearest natural number -/

/-- Rounding a fraction leads to the nearest natural number, of two to the even one. -/
theorem nearest_roundHalfEven (num : ℕ) {den : ℕ} (hden : 0 < den) :
    Nearest (num / den) (Decimal.roundHalfEven num den) := by
  have hcut := cut_quotient num hden
  have hround : Decimal.roundHalfEven num den = ExtendedMantissa.roundedMantissa
      (.ofMantissaAndAccuracy (num / den)
        (UnpackedFloat.accuracyOfFraction (num % den) den)) := by
    unfold Decimal.roundHalfEven UnpackedFloat.accuracyOfFraction
    dsimp only
    generalize num / den = down
    generalize num % den = rest
    by_cases hzero : rest = 0
    · rw [if_pos hzero, hzero, if_pos (by omega)]
      rfl
    · rw [if_neg hzero]
      rcases Nat.lt_trichotomy (2 * rest) den with h | h | h
      · rw [if_pos h, Nat.compare_eq_lt.mpr h]
        rfl
      · rw [if_neg (by omega), if_neg (by omega), Nat.compare_eq_eq.mpr h]
        simp only [ExtendedMantissa.ofMantissaAndAccuracy, ExtendedMantissa.roundedMantissa,
          ExtendedMantissa.accuracy, UnpackedFloat.Accuracy.roundToNearestEven]
        split_ifs <;> omega
      · rw [if_neg (by omega), if_pos h, Nat.compare_eq_gt.mpr h]
        rfl
  rw [hround]
  exact hcut.nearest

/-! ### The parts of a positive double -/

/-- A positive double has no minus sign, and its digits with their place are its units. -/
theorem parts_of_positive {x : Float} (hsign : signOf x.toBits.toNat = .positive)
    (hfinite : steps x < farthest) : ∃ (m k : ℕ),
      Decimal.Parts.of x = .finite false m (k - 1074) ∧ units (steps x) = m * 2 ^ k := by
  have hfar : farthest = 2047 * 2 ^ 52 := rfl
  rw [Decimal.Parts.of, Decimal.Parts.ofBits]
  rw [toNat_toBits_of_positive hsign, decide_eq_false (by omega : ¬ 2 ^ 63 ≤ steps x)]
  generalize steps x = n at *
  have hfield : n / 2 ^ 52 % 2048 = n / 2 ^ 52 := Nat.mod_eq_of_lt (by omega)
  rw [hfield, if_neg (by omega)]
  by_cases hsmall : n < 2 ^ 52
  · have hnone : n / 2 ^ 52 = 0 := by omega
    refine ⟨n, 0, ?_, ?_⟩
    · rw [if_pos hnone, Nat.mod_eq_of_lt hsmall]
      rfl
    · rw [units, if_pos hsmall, Nat.pow_zero, Nat.mul_one]
  · refine ⟨2 ^ 52 + n % 2 ^ 52, n / 2 ^ 52 - 1, ?_, ?_⟩
    · rw [if_neg (by omega), Int.ofNat_eq_natCast]
      congr 1
      omega
    · rw [units, if_neg hsmall]

theorem parts_of_infinite {x : Float} (hsign : signOf x.toBits.toNat = .positive)
    (hinfinite : steps x = farthest) : Decimal.Parts.of x = .infinite false := by
  rw [Decimal.Parts.of, Decimal.Parts.ofBits]
  rw [toNat_toBits_of_positive hsign, hinfinite]
  rfl

end LedgerLoad.Double
