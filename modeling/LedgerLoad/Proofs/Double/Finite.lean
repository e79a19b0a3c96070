import LedgerLoad.Proofs.Double.Rounding
import LedgerLoad.Json.Numeral

/-! # Operations that stay clear of infinity

Bounds of the operations by which a numeral becomes a double: a natural number of 64 bits is far
below infinity (`steps_ofNat_lt`), and a quotient by a power of ten is finite if the dividend is
(`isInf_div` with `le_steps_power`). -/

namespace LedgerLoad.Double

open Float.Model (UnpackedFloat Format)
open Float.Model.UnpackedFloat (Sign roundWithAccuracy)

theorem isInf_eq_false {x : Float} : x.isInf = false ↔ steps x ≠ farthest := by
  rw [Bool.eq_false_iff, ne_eq, isInf_iff]

theorem farthest_eq : farthest = (971 + 1076 : Int).toNat * 2 ^ 52 := by decide

theorem isInf_ofParts_zero (s : Sign) : (ofParts (.zero s)).isInf = false := by
  rw [isInf_eq_false, steps_zero]
  decide

theorem isInf_ofParts_nan : (ofParts .notANumber).isInf = false := by decide +kernel

theorem isInf_ofParts_finite {s : Sign} {m : Nat} {e : Int} {h : 0 < m} (he : e ≤ 971) :
    (ofParts (.finite s m e h)).isInf = false := by
  have hlt := stepsOf_lt (m := m) he (by decide) (by decide)
  rw [isInf_eq_false, (ofParts_finite s h).2, farthest_eq]
  exact Nat.ne_of_lt hlt

/-! ### Signs -/

theorem isInf_neg {x : Float} (h : x.isInf = false) : (-x).isInf = false := by
  have hfar : farthest = 2047 * 2 ^ 52 := rfl
  have hneg : -x = ofParts x.toModel.unpack.neg := rfl
  rw [hneg, unpack_eq]
  by_cases hnan : x.isNaN = true
  · rw [ofSteps_beyond (isNaN_iff.mp hnan)]
    exact isInf_ofParts_nan
  · rcases ofSteps_cases (signOf x.toBits.toNat) (steps_le (Bool.eq_false_iff.mpr hnan)) with
      ⟨-, hx⟩ | ⟨m, e, hm, hx, -, hlt, hform⟩ | ⟨hinf, -⟩
    · rw [hx]
      exact isInf_ofParts_zero _
    · rw [hx]
      exact isInf_ofParts_finite (by omega)
    · exact absurd hinf (isInf_eq_false.mp h)

/-! ### Quotients -/

theorem shiftLeft_div_lt {a b k : Nat} (ha : a < 2 ^ 53) (hb : 2 ^ 52 ≤ b) :
    a <<< k / b < 2 ^ (k + 1) := by
  have hsum : 53 + k = k + 1 + 52 := by omega
  rw [Nat.div_lt_iff_lt_mul (by omega), Nat.shiftLeft_eq]
  calc a * 2 ^ k < 2 ^ 53 * 2 ^ k := Nat.mul_lt_mul_of_pos_right ha (Nat.two_pow_pos _)
    _ = 2 ^ (k + 1) * 2 ^ 52 := by rw [← Nat.pow_add, hsum, Nat.pow_add]
    _ ≤ 2 ^ (k + 1) * b := Nat.mul_le_mul_left _ hb

/-- A quotient by eight or more is not infinite unless the dividend is. -/
theorem isInf_div {x p : Float} (hx : x.isInf = false) (hp : (-49 + 1075 : Int).toNat * 2 ^ 52 ≤ steps p) :
    (x / p).isInf = false := by
  have hfar : farthest = 2047 * 2 ^ 52 := rfl
  replace hp : 1026 * 2 ^ 52 ≤ steps p := Nat.le_trans (by decide) hp
  have hinf := isInf_eq_false.mp hx
  have hdiv : x / p = ofParts (.div .binary64 x.toModel.unpack p.toModel.unpack) := rfl
  rw [hdiv, unpack_eq, unpack_eq]
  generalize signOf x.toBits.toNat = s
  generalize signOf p.toBits.toNat = t
  generalize steps x = n at *
  generalize steps p = k at *
  by_cases hn : farthest < n
  · rw [ofSteps_beyond hn]
    have hnan : UnpackedFloat.div .binary64 .notANumber (ofSteps t k) = .notANumber := rfl
    rw [hnan]
    exact isInf_ofParts_nan
  by_cases hk : farthest < k
  · rw [ofSteps_beyond hk]
    have hnan : UnpackedFloat.div .binary64 (ofSteps s n) .notANumber = .notANumber := by
      cases ofSteps s n <;> rfl
    rw [hnan]
    exact isInf_ofParts_nan
  rcases ofSteps_cases t (Nat.le_of_not_lt hk) with
    ⟨hzero, -⟩ | ⟨b, f, hb, hq, -, hlt', hform'⟩ | ⟨-, hq⟩
  · omega
  · rcases ofSteps_cases s (Nat.le_of_not_lt hn) with
      ⟨-, hx⟩ | ⟨a, e, ha, hx, -, hlt, hform⟩ | ⟨hfull, -⟩
    · rw [hx, hq]
      exact isInf_ofParts_zero _
    · have ha : a < 2 ^ 53 := by omega
      have hb : 2 ^ 52 ≤ b := by omega
      have hloga : a.log2 < 53 := log2_lt_of_lt (by decide) ha
      have hlogb : 52 ≤ b.log2 := (Nat.le_log2 (by omega)).mpr hb
      rw [hx, hq, isInf_eq_false, farthest_eq]
      -- The quotient is cut off at an exponent, so many digits below the one it starts from.
      obtain ⟨d, hd⟩ : ∃ d, d = min (e - f) (Format.binary64.targetExponent
        (Float.Model.totalExponent a e - Float.Model.totalExponent b f)) := ⟨_, rfl⟩
      have hdlow : d ≤ e - f ∧ d ≤ 971 := by
        rw [targetExponent_eq, Float.Model.totalExponent, Float.Model.totalExponent] at hd
        omega
      have hquotient : a <<< (e - f - d).toNat / b < 2 ^ (971 + 52 - d).toNat :=
        Nat.lt_of_lt_of_le (shiftLeft_div_lt ha hb)
          (Nat.pow_le_pow_right (by decide) (by omega))
      subst hd
      exact Nat.ne_of_lt (steps_round_lt (by decide) (by decide) hdlow.2 hquotient)
    · omega
  · rcases ofSteps_cases s (Nat.le_of_not_lt hn) with
      ⟨-, hx⟩ | ⟨a, e, ha, hx, -, hlt, hform⟩ | ⟨hfull, -⟩
    · rw [hx, hq]
      exact isInf_ofParts_zero _
    · rw [hx, hq]
      exact isInf_ofParts_zero _
    · omega

/-! ### Products -/

/-- A product has at most the exponents of its factors together, and a digit more than theirs. -/
theorem steps_mul_lt {x y : Float} {K L : Int} (hx : steps x < (K + 1076).toNat * 2 ^ 52)
    (hy : steps y < (L + 1076).toNat * 2 ^ 52) (hK : -1074 ≤ K ∧ K ≤ 971)
    (hL : -1074 ≤ L ∧ L ≤ 971) (hlow : -1074 ≤ K + L + 54) (hhigh : K + L + 54 ≤ 971) :
    steps (x * y) < (K + L + 54 + 1076).toNat * 2 ^ 52 := by
  have hfar : farthest = 2047 * 2 ^ 52 := rfl
  have hmul : x * y = ofParts (.mul .binary64 x.toModel.unpack y.toModel.unpack) := rfl
  rw [hmul, unpack_eq, unpack_eq]
  generalize signOf x.toBits.toNat = s
  generalize signOf y.toBits.toNat = t
  have hzero (u : Sign) : steps (ofParts (.zero u)) < (K + L + 54 + 1076).toNat * 2 ^ 52 := by
    rw [steps_zero]
    omega
  rcases ofSteps_cases s (n := steps x) (by omega) with
    ⟨-, hu⟩ | ⟨a, e, ha, hu, -, -, hform⟩ | ⟨hfull, -⟩
  · rcases ofSteps_cases t (n := steps y) (by omega) with
      ⟨-, hv⟩ | ⟨b, f, hb, hv, -, -, hform'⟩ | ⟨hfull', -⟩
    · rw [hu, hv]
      exact hzero _
    · rw [hu, hv]
      exact hzero _
    · omega
  · rcases ofSteps_cases t (n := steps y) (by omega) with
      ⟨-, hv⟩ | ⟨b, f, hb, hv, -, -, hform'⟩ | ⟨hfull', -⟩
    · rw [hu, hv]
      exact hzero _
    · rw [hu, hv]
      refine steps_round_lt hlow hhigh (by omega) ?_
      calc a * b < 2 ^ 53 * 2 ^ 53 := Nat.mul_lt_mul'' (by omega) (by omega)
        _ = 2 ^ 106 := by rw [← Nat.pow_add]
        _ ≤ 2 ^ (K + L + 54 + 52 - (e + f)).toNat := Nat.pow_le_pow_right (by decide) (by omega)
    · omega
  · omega

/-! ### Natural numbers -/

/-- A word of 64 bits has its double far below infinity. -/
theorem steps_toFloat_lt (n : UInt64) : steps n.toFloat < (20 + 1076 : Int).toNat * 2 ^ 52 := by
  have hn : n.toNat < 2 ^ 64 := n.toNat_lt
  have hparts : n.toFloat = ofParts (.normalize .binary64 n.toNat 0 .positive) := rfl
  rw [hparts, UnpackedFloat.normalize]
  generalize n.toNat = m at *
  by_cases hzero : m = 0
  · subst hzero
    show steps (ofParts (.zero .positive)) < _
    rw [steps_zero]
    decide
  · rw [Int.compare_eq_gt.mpr (by omega)]
    dsimp only
    rw [UnpackedFloat.round, UnpackedFloat.decreaseExponent, targetExponent_eq, Int.toNat_natCast]
    dsimp only
    refine steps_round_lt (by decide) (by decide) (by omega) ?_
    generalize hk : (0 - max (Float.Model.totalExponent m 0 - 53) (-1074)).toNat = k
    rw [Nat.shiftLeft_eq]
    calc m * 2 ^ k < 2 ^ 64 * 2 ^ k := Nat.mul_lt_mul_of_pos_right hn (Nat.two_pow_pos _)
      _ = 2 ^ (64 + k) := (Nat.pow_add _ _ _).symm
      _ ≤ 2 ^ (20 + 52 - (0 - (k : Int))).toNat := Nat.pow_le_pow_right (by decide) (by omega)

/-- A number of 64 bits has its double far below infinity. -/
theorem steps_ofNat_lt {n : Nat} (hn : n < 2 ^ 64) :
    steps (Float.ofNat n) < (20 + -52 + 54 + 1076 : Int).toNat * 2 ^ 52 := by
  have hofNat : Float.ofNat n = Float.ofScientific n false 0 := rfl
  rw [hofNat, Float.ofScientific]
  by_cases hsmall : n < 2 ^ 53 ∧ 0 ≤ 22
  · have hone : steps Float.exactlyRepresentablePowersOfTen[0] <
        (-52 + 1076 : Int).toNat * 2 ^ 52 := by decide +kernel
    have hword := steps_toFloat_lt n.toUInt64
    rw [dif_pos hsmall]
    dsimp only
    rw [if_neg (by decide)]
    exact steps_mul_lt hword hone (by decide) (by decide) (by decide) (by decide)
  · have hpos : n ≠ 0 := by omega
    have hround : UnpackedFloat.ofScientific .binary64 n 0 =
        roundWithAccuracy .binary64 .positive (n <<< 53 * 1) (-53) .exact := by
      have hbits : (2 : Int) ^ Format.binary64.exponentBits = 2048 := by decide
      rw [UnpackedFloat.ofScientific, dif_neg hpos, if_neg (by decide), if_neg (by omega),
        if_pos (by decide)]
      rfl
    have hlong : n <<< 53 * 1 < 2 ^ (20 + -52 + 54 + 52 - -53 : Int).toNat := by
      rw [Nat.shiftLeft_eq, Nat.mul_one]
      have hexponent : (20 + -52 + 54 + 52 - -53 : Int).toNat = 127 := by decide
      rw [hexponent]
      omega
    rw [dif_neg hsmall]
    show steps (ofParts (.ofScientific .binary64 n 0)) < _
    rw [hround]
    exact steps_round_lt (by decide) (by decide) (by decide) hlong

/-! ### Powers of ten -/

/-- A power of ten from ten on has a double of at least eight. -/
theorem le_steps_power {n : Nat} (hpos : 1 ≤ n) (hn : n ≤ 308) :
    (-49 + 1075 : Int).toNat * 2 ^ 52 ≤ steps (Json.Numeral.power n) := by
  have hpower : Json.Numeral.power n = Float.ofScientific 1 false n := rfl
  by_cases hsmall : n ≤ 22
  · have htable : ∀ k : Fin 23, 1 ≤ k.val →
        (-49 + 1075 : Int).toNat * 2 ^ 52 ≤ steps (Json.Numeral.power k) := by decide +kernel
    exact htable ⟨n, by omega⟩ hpos
  · have hround : UnpackedFloat.ofScientific .binary64 1 n =
        roundWithAccuracy .binary64 .positive (1 <<< 53 * 10 ^ n) (-53 + 0) .exact := by
      have hbits : (2 : Int) ^ Format.binary64.exponentBits = 2048 := by decide
      rw [UnpackedFloat.ofScientific, dif_neg (by decide), if_neg (by omega), if_neg (by omega),
        if_pos (by omega)]
      rfl
    have hlong : 2 ^ (-49 + 52 - (-53 + 0) : Int).toNat ≤ 1 <<< 53 * 10 ^ n := by
      have hexponent : (-49 + 52 - (-53 + 0) : Int).toNat = 56 := by decide
      have hten : 10 ^ 1 ≤ 10 ^ n := Nat.pow_le_pow_right (by decide) hpos
      rw [hexponent, Nat.shiftLeft_eq, Nat.one_mul]
      omega
    rw [hpower, Float.ofScientific, dif_neg (by omega)]
    show _ ≤ steps (ofParts (.ofScientific .binary64 1 n))
    rw [hround]
    exact (le_steps_round (by decide) (by decide) (by decide) hlong).2.1

end LedgerLoad.Double
