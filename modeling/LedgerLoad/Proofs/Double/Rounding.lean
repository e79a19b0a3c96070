import LedgerLoad.Proofs.Double.Order

/-! # Rounding of doubles

Every operation on doubles ends in rounding its exact result and putting the parts together.
`roundWithAccuracy_eq` says what rounding does to a mantissa and an exponent; from it come an upper
and a lower bound of the result in steps from zero (`steps_round_lt`, `le_steps_round`). For
differences the sign is enough: `zero_le_sub`. -/

namespace LedgerLoad.Double

open Float.Model (UnpackedFloat Format)
open Float.Model.UnpackedFloat (Sign ExtendedMantissa Accuracy roundWithAccuracy)

/-! ### Doubles put together -/

/-- The double that is put together from its parts. -/
def ofParts (u : UnpackedFloat) : Float := .ofModel (.pack u)

/-- The sign as the highest bit of a double. -/
def signBit : Sign → Nat
  | .positive => 0
  | .negative => 2 ^ 63

theorem toNat_packComponents (s : Sign) (e : BitVec Format.binary64.exponentBits)
    (m : BitVec Format.binary64.mantissaBitsWithoutImplicit) :
    (UnpackedFloat.packComponents .binary64 s e m).toNat =
      signBit s + e.toNat * 2 ^ 52 + m.toNat := by
  have he : e.toNat < 2 ^ 11 := e.isLt
  have hm : m.toNat < 2 ^ 52 := m.isLt
  have hs : s.toBitVec.toNat * 2 ^ 63 = signBit s := by cases s <;> rfl
  have hhead : (s.toBitVec ++ e).toNat = 2 ^ 11 * s.toBitVec.toNat + e.toNat := by
    rw [BitVec.toNat_append, Nat.shiftLeft_eq, Nat.mul_comm, ← Nat.two_pow_add_eq_or_of_lt he]
  rw [UnpackedFloat.packComponents, BitVec.toNat_append, Nat.shiftLeft_eq, Nat.mul_comm,
    ← Nat.two_pow_add_eq_or_of_lt hm, hhead]
  omega

theorem toBits_ofParts (u : UnpackedFloat) :
    (ofParts u).toBits.toNat = (UnpackedFloat.pack .binary64 u).toNat := rfl

/-- The steps from zero of a finite double put together: infinity if the exponent is too large. -/
def stepsOf (m : Nat) (e : Int) : Nat :=
  if 972 ≤ e then farthest
  else if m.log2 = 52 then (e + 1075).toNat * 2 ^ 52 + m % 2 ^ 52
  else m % 2 ^ 52

theorem toBits_finite (s : Sign) {m : Nat} {e : Int} (h : 0 < m) :
    (ofParts (.finite s m e h)).toBits.toNat = signBit s + stepsOf m e := by
  have hbias : e + Format.binary64.exponentBias + Format.binary64.mantissaBitsWithoutImplicit =
      e + 1075 := by
    have hsum : (Format.binary64.exponentBias : Int) +
      (Format.binary64.mantissaBitsWithoutImplicit : Int) = 1075 := by decide
    omega
  have hbits : Format.binary64.mantissaBits = 53 := rfl
  have htop : 2 ^ Format.binary64.exponentBits ≤ (e + 1075).toNat + 1 ↔ 972 ≤ e := by
    have : 2 ^ Format.binary64.exponentBits = 2048 := rfl
    omega
  rw [toBits_ofParts, UnpackedFloat.pack]
  simp only [hbias, hbits, htop]
  unfold stepsOf
  by_cases he : 972 ≤ e
  · rw [if_pos he, if_pos he, UnpackedFloat.packedInfinity, toNat_packComponents]
    rfl
  · rw [if_neg he, if_neg he]
    by_cases hm : m.log2 = 52
    · rw [if_pos (by omega), if_pos hm, toNat_packComponents, BitVec.toNat_ofNat,
        BitVec.toNat_ofNat, Nat.mod_eq_of_lt (a := (e + 1075).toNat) (by
          have : 2 ^ Format.binary64.exponentBits = 2048 := rfl
          omega)]
      exact Nat.add_assoc _ _ _
    · rw [if_neg (by omega), if_neg hm, toNat_packComponents, BitVec.toNat_ofNat]
      simp

theorem stepsOf_lt {m : Nat} {e K : Int} (he : e ≤ K) (hlow : -1074 ≤ K) (hhigh : K ≤ 971) :
    stepsOf m e < (K + 1076).toNat * 2 ^ 52 := by
  have hmod : m % 2 ^ 52 < 2 ^ 52 := Nat.mod_lt m (by decide)
  unfold stepsOf
  rw [if_neg (by omega)]
  by_cases hm : m.log2 = 52
  · rw [if_pos hm]
    omega
  · rw [if_neg hm]
    omega

theorem le_stepsOf {m : Nat} {e K : Int} (he : K ≤ e) (hK : K ≤ 972) (hm : m.log2 = 52) :
    (K + 1075).toNat * 2 ^ 52 ≤ stepsOf m e := by
  have hfar : farthest = 2047 * 2 ^ 52 := rfl
  unfold stepsOf
  by_cases htop : 972 ≤ e
  · rw [if_pos htop]
    omega
  · rw [if_neg htop, if_pos hm]
    omega

theorem stepsOf_le (m : Nat) (e : Int) : stepsOf m e ≤ farthest := by
  by_cases htop : 972 ≤ e
  · have hfar : stepsOf m e = farthest := by rw [stepsOf, if_pos htop]
    exact Nat.le_of_eq hfar
  · have hlt : stepsOf m e < (971 + 1076 : Int).toNat * 2 ^ 52 :=
      stepsOf_lt (by omega) (by decide) (by decide)
    exact Nat.le_of_lt hlt

/-- Bits that are a sign and steps up to infinity are that sign and those steps. -/
theorem steps_of_bits {x : Float} {s : Sign} {n : Nat} (h : x.toBits.toNat = signBit s + n)
    (hn : n ≤ farthest) : signOf x.toBits.toNat = s ∧ steps x = n := by
  have hfar : farthest = 2047 * 2 ^ 52 := rfl
  unfold steps signOf
  cases s with
  | positive =>
    have hbits : x.toBits.toNat = n := by rw [h, signBit, Nat.zero_add]
    exact ⟨if_pos (by omega), by omega⟩
  | negative =>
    have hbits : x.toBits.toNat = 2 ^ 63 + n := h
    exact ⟨if_neg (by omega), by omega⟩

theorem ofParts_finite (s : Sign) {m : Nat} {e : Int} (h : 0 < m) :
    signOf (ofParts (.finite s m e h)).toBits.toNat = s ∧
      steps (ofParts (.finite s m e h)) = stepsOf m e :=
  steps_of_bits (toBits_finite s h) (stepsOf_le m e)

theorem steps_zero (s : Sign) : steps (ofParts (.zero s)) = 0 := by
  have hbits : (ofParts (.zero s)).toBits.toNat = signBit s + 0 := by
    rw [toBits_ofParts, UnpackedFloat.pack, UnpackedFloat.packedZero, toNat_packComponents]
    rfl
  exact (steps_of_bits hbits (by decide)).2

/-! ### Rounding -/

theorem targetExponent_eq (t : Int) :
    Format.binary64.targetExponent t = max (t - 53) (-1074) := rfl

theorem mantissa_shiftRight (em : ExtendedMantissa) (n : Nat) :
    (em >>> n).mantissa = em.mantissa / 2 ^ n := by
  show (n.repeat ExtendedMantissa.shiftRightOne em).mantissa = _
  induction n with
  | zero => simp [Nat.repeat]
  | succ n ih =>
    show (n.repeat ExtendedMantissa.shiftRightOne em).mantissa / 2 = _
    rw [ih, Nat.div_div_eq_div_mul, ← Nat.pow_succ]

theorem roundedMantissa_bounds (em : ExtendedMantissa) :
    em.mantissa ≤ em.roundedMantissa ∧ em.roundedMantissa ≤ em.mantissa + 1 := by
  obtain ⟨m, bit, sticky⟩ := em
  cases bit <;> cases sticky <;>
    simp only [ExtendedMantissa.roundedMantissa, ExtendedMantissa.accuracy,
      Accuracy.roundToNearestEven] <;> omega

theorem mantissa_ofMantissaAndAccuracy (m : Nat) (accuracy : Accuracy) :
    (ExtendedMantissa.ofMantissaAndAccuracy m accuracy).mantissa = m := by
  rcases accuracy with _ | (_ | _ | _) <;> rfl

/-- What shortening a mantissa does: the exponent becomes what is due, unless it is larger, and the
digits below it are cut off. -/
theorem shiftToTargetExponent_eq (m : Nat) (e : Int) (accuracy : Accuracy) :
    ∃ first : Int, first = max e (max (m.log2 + 1 + e - 53) (-1074)) ∧
      (UnpackedFloat.shiftToTargetExponent .binary64 m e accuracy).2 = first ∧
      (UnpackedFloat.shiftToTargetExponent .binary64 m e accuracy).1.mantissa =
        m / 2 ^ (first - e).toNat := by
  have htarget : Format.binary64.targetExponent (Float.Model.totalExponent m e) =
      max (m.log2 + 1 + e - 53) (-1074) := targetExponent_eq _
  refine ⟨_, rfl, ?_, ?_⟩
  · rw [UnpackedFloat.shiftToTargetExponent, htarget, UnpackedFloat.shiftToExponent]
    dsimp only
    omega
  · rw [UnpackedFloat.shiftToTargetExponent, htarget, UnpackedFloat.shiftToExponent]
    dsimp only
    rw [mantissa_shiftRight, mantissa_ofMantissaAndAccuracy]
    congr 2
    omega

/-- **What rounding does**: the mantissa is shortened to the exponent that is due, goes up by at
most one, and is shortened once more if it has become too long. -/
theorem roundWithAccuracy_eq (s : Sign) (m : Nat) (e : Int) (accuracy : Accuracy) :
    ∃ (first last : Int) (r : Nat), first = max e (max (m.log2 + 1 + e - 53) (-1074)) ∧
      m / 2 ^ (first - e).toNat ≤ r ∧ r ≤ m / 2 ^ (first - e).toNat + 1 ∧
      last = max first (max (r.log2 + 1 + first - 53) (-1074)) ∧
      roundWithAccuracy .binary64 s m e accuracy =
        if h : r / 2 ^ (last - first).toNat = 0 then .zero s
        else .finite s (r / 2 ^ (last - first).toNat) last (Nat.pos_of_ne_zero h) := by
  obtain ⟨first, hfirst, hexponent, hmantissa⟩ := shiftToTargetExponent_eq m e accuracy
  unfold roundWithAccuracy
  generalize UnpackedFloat.shiftToTargetExponent .binary64 m e accuracy = shifted at *
  obtain ⟨em, e'⟩ := shifted
  dsimp only at hexponent hmantissa ⊢
  subst hexponent
  obtain ⟨hlow, hhigh⟩ := roundedMantissa_bounds em
  rw [hmantissa] at hlow hhigh
  generalize em.roundedMantissa = r at *
  obtain ⟨last, hlast, hexponent', hmantissa'⟩ := shiftToTargetExponent_eq r e' .exact
  generalize UnpackedFloat.shiftToTargetExponent .binary64 r e' .exact = shifted' at *
  obtain ⟨em', e''⟩ := shifted'
  dsimp only at hexponent' hmantissa' ⊢
  subst hexponent'
  refine ⟨e', e'', r, hfirst, hlow, hhigh, hlast, ?_⟩
  simp only [hmantissa']

theorem log2_lt_of_lt {n k : Nat} (hk : 0 < k) (h : n < 2 ^ k) : n.log2 < k := by
  by_cases hn : n = 0
  · subst hn
    exact hk
  · exact (Nat.log2_lt hn).mpr h

section Bounds

variable {s : Sign} {m : Nat} {e K : Int} {accuracy : Accuracy}

/-- Rounding does not lead beyond the exponent that a number stays clear of by a digit. -/
theorem steps_round_lt (hlow : -1074 ≤ K) (hhigh : K ≤ 971) (he : e ≤ K)
    (hm : m < 2 ^ (K + 52 - e).toNat) :
    steps (ofParts (roundWithAccuracy .binary64 s m e accuracy)) < (K + 1076).toNat * 2 ^ 52 := by
  obtain ⟨first, last, r, hfirst, -, hr, hlast, heq⟩ := roundWithAccuracy_eq s m e accuracy
  have hlog : m.log2 < (K + 52 - e).toNat := log2_lt_of_lt (by omega) hm
  have hclear : e ≤ first ∧ first ≤ K := by omega
  have hquotient : m / 2 ^ (first - e).toNat < 2 ^ (K + 52 - first).toNat := by
    have hsplit : (K + 52 - first).toNat + (first - e).toNat = (K + 52 - e).toNat := by omega
    rw [Nat.div_lt_iff_lt_mul (Nat.two_pow_pos _), ← Nat.pow_add, hsplit]
    exact hm
  have hlog' : r.log2 < (K + 52 - first).toNat + 1 := by
    have hpow := Nat.two_pow_pos (K + 52 - first).toNat
    refine log2_lt_of_lt (by omega) ?_
    rw [Nat.pow_succ]
    omega
  have hlast' : last ≤ K := by omega
  rw [heq]
  split_ifs with hzero
  · rw [steps_zero]
    omega
  · rw [(ofParts_finite s _).2]
    exact stepsOf_lt hlast' hlow hhigh

/-- Rounding does not lead below the exponent that a number has reached with all its digits. -/
theorem le_steps_round (hlow : -1074 ≤ K) (hhigh : K ≤ 972) (he : e ≤ K)
    (hm : 2 ^ (K + 52 - e).toNat ≤ m) :
    signOf (ofParts (roundWithAccuracy .binary64 s m e accuracy)).toBits.toNat = s ∧
      (K + 1075).toNat * 2 ^ 52 ≤
        steps (ofParts (roundWithAccuracy .binary64 s m e accuracy)) ∧
      steps (ofParts (roundWithAccuracy .binary64 s m e accuracy)) ≤ farthest := by
  obtain ⟨first, last, r, hfirst, hr, hr', hlast, heq⟩ := roundWithAccuracy_eq s m e accuracy
  have hpos : m ≠ 0 := by
    have := Nat.two_pow_pos (K + 52 - e).toNat
    omega
  have hlog : (K + 52 - e).toNat ≤ m.log2 := (Nat.le_log2 hpos).mpr hm
  have hcut : (first - e).toNat + 52 = m.log2 := by omega
  -- All digits are there, so the mantissa that is left has exactly 53 of them.
  have hquotient : 2 ^ 52 ≤ m / 2 ^ (first - e).toNat ∧ m / 2 ^ (first - e).toNat < 2 ^ 53 := by
    have hle : 2 ^ ((first - e).toNat + 52) ≤ m := by
      rw [hcut]
      exact (Nat.le_log2 hpos).mp (Nat.le_refl _)
    have hlt : m < 2 ^ ((first - e).toNat + 53) := by
      rw [← Nat.log2_lt hpos]
      omega
    rw [Nat.le_div_iff_mul_le (Nat.two_pow_pos _), Nat.div_lt_iff_lt_mul (Nat.two_pow_pos _),
      ← Nat.pow_add, ← Nat.pow_add, Nat.add_comm 52, Nat.add_comm 53]
    exact ⟨hle, hlt⟩
  have hparts : (r / 2 ^ (last - first).toNat).log2 = 52 ∧ r / 2 ^ (last - first).toNat ≠ 0 ∧
      K ≤ last := by
    by_cases hover : r = 2 ^ 53
    · have hlogr : r.log2 = 53 := by
        subst hover
        exact Nat.log2_two_pow
      have hone : (last - first).toNat = 1 := by omega
      rw [hone, hover]
      exact ⟨by decide, by decide, by omega⟩
    · have hlogr : r.log2 = 52 := by
        rw [Nat.log2_eq_iff (by omega)]
        omega
      have hnone : (last - first).toNat = 0 := by omega
      rw [hnone, Nat.pow_zero, Nat.div_one]
      exact ⟨hlogr, by omega, by omega⟩
  obtain ⟨hlogr, hne, hK⟩ := hparts
  rw [heq, dif_neg hne, (ofParts_finite s _).1, (ofParts_finite s _).2]
  exact ⟨rfl, le_stepsOf hK hhigh hlogr, stepsOf_le _ _⟩

end Bounds

/-! ### Differences -/

theorem zero_le_iff {x : Float} : 0 ≤ x ↔ x.isNaN = false ∧ 0 ≤ place x := by
  have hzero : (0 : Float).isNaN = false ∧ place 0 = 0 := by decide +kernel
  rw [le_iff, hzero.2]
  exact ⟨fun h => ⟨h.2.1, h.2.2⟩, fun h => ⟨hzero.1, h.1, h.2⟩⟩

theorem isNaN_eq_false {x : Float} (h : steps x ≤ farthest) : x.isNaN = false := by
  rw [Bool.eq_false_iff]
  intro hnan
  have := isNaN_iff.mp hnan
  omega

/-- Parts of a double that is not below zero, nor infinite. -/
def Clear : UnpackedFloat → Prop
  | .zero _ => True
  | .finite .positive _ _ _ => True
  | _ => False

theorem zero_le_ofParts {u : UnpackedFloat} (h : Clear u) : 0 ≤ ofParts u := by
  match u with
  | .zero s =>
    refine zero_le_iff.mpr ⟨isNaN_eq_false ?_, ?_⟩
    · rw [steps_zero]
      exact Nat.zero_le _
    · rw [place, steps_zero]
      cases signOf (ofParts (.zero s)).toBits.toNat <;> decide
  | .finite .positive m e hm =>
    obtain ⟨hsign, hsteps⟩ := ofParts_finite .positive hm
    refine zero_le_iff.mpr ⟨isNaN_eq_false ?_, ?_⟩
    · rw [hsteps]
      exact stepsOf_le m e
    · rw [place, hsign]
      exact Int.natCast_nonneg _

theorem clear_round (m : Nat) (e : Int) (accuracy : Accuracy) :
    Clear (roundWithAccuracy .binary64 .positive m e accuracy) := by
  obtain ⟨first, last, r, -, -, -, -, heq⟩ := roundWithAccuracy_eq .positive m e accuracy
  rw [heq]
  split_ifs with hzero <;> trivial

theorem clear_normalize {d : Int} (hd : 0 ≤ d) (e : Int) :
    Clear (UnpackedFloat.normalize .binary64 d e .positive) := by
  unfold UnpackedFloat.normalize
  rcases Int.lt_or_eq_of_le hd with hpos | rfl
  · rw [Int.compare_eq_gt.mpr hpos]
    exact clear_round _ _ _
  · trivial

/-- Of two positive numbers with all their digits, the farther one is not the smaller one. -/
theorem shiftLeft_le {n m : Nat} (h : m ≤ n) {a b : Nat} {e f : Int}
    (ha : (n < 2 ^ 52 ∧ a = n ∧ e = -1074) ∨
      (2 ^ 52 ≤ n ∧ a = 2 ^ 52 + n % 2 ^ 52 ∧ e = (n / 2 ^ 52 : Nat) - 1075))
    (hb : (m < 2 ^ 52 ∧ b = m ∧ f = -1074) ∨
      (2 ^ 52 ≤ m ∧ b = 2 ^ 52 + m % 2 ^ 52 ∧ f = (m / 2 ^ 52 : Nat) - 1075)) :
    b <<< (f - min e f).toNat ≤ a <<< (e - min e f).toNat := by
  rw [Nat.shiftLeft_eq, Nat.shiftLeft_eq]
  rcases Int.lt_trichotomy e f with hlt | rfl | hgt
  · omega
  · rw [Int.min_self, Int.sub_self, Int.toNat_zero, Nat.pow_zero, Nat.mul_one, Nat.mul_one]
    omega
  · have hshort : b < 2 ^ 53 := by omega
    have hlong : 2 ^ 52 ≤ a := by omega
    have hnone : (f - min e f).toNat = 0 := by omega
    obtain ⟨k, hk⟩ : ∃ k, (e - min e f).toNat = k + 1 := ⟨(e - f).toNat - 1, by omega⟩
    calc b * 2 ^ (f - min e f).toNat = b := by rw [hnone, Nat.pow_zero, Nat.mul_one]
      _ ≤ a * 2 := by omega
      _ ≤ a * 2 * 2 ^ k := Nat.le_mul_of_pos_right _ (Nat.two_pow_pos k)
      _ = a * 2 ^ (e - min e f).toNat := by rw [hk, Nat.mul_assoc, Nat.pow_succ, Nat.mul_comm 2]

/-- **A difference is not below zero** if nothing larger is taken off and no infinity is involved. -/
theorem zero_le_sub {x y : Float} (hy : 0 ≤ y) (hle : y ≤ x) (hx : x.isInf = false) :
    0 ≤ x - y := by
  have hfar : farthest = 2047 * 2 ^ 52 := rfl
  obtain ⟨hynum, hxnum, hplace⟩ := le_iff.mp hle
  have hyplace := (zero_le_iff.mp hy).2
  have hxinf : steps x ≠ farthest := by
    intro hinf
    rw [isInf_iff.mpr hinf] at hx
    cases hx
  have hsub : x - y = ofParts (.sub .binary64 x.toModel.unpack y.toModel.unpack) := rfl
  rw [hsub]
  refine zero_le_ofParts ?_
  rw [unpack_eq, unpack_eq]
  unfold place at hplace hyplace
  generalize signOf x.toBits.toNat = s at *
  generalize signOf y.toBits.toNat = t at *
  have hfinite : steps x < farthest := by
    have := steps_le hxnum
    omega
  have hnear : steps y ≤ steps x := by
    cases s <;> cases t <;> simp only [Sign.apply] at hplace hyplace <;> omega
  rcases ofSteps_cases s (steps_le hxnum) with
    ⟨hzero, hx⟩ | ⟨a, e, ha, hx, hpos, -, hform⟩ | ⟨hinf, -⟩
  · have hzero' : steps y = 0 := by omega
    rw [hx, hzero', ofSteps_zero]
    cases s <;> cases t <;> trivial
  · obtain rfl : s = .positive := by
      cases s with
      | positive => rfl
      | negative => cases t <;> simp only [Sign.apply] at hplace hyplace <;> omega
    rcases ofSteps_cases t (steps_le hynum) with
      ⟨hzero', hy⟩ | ⟨b, f, hb, hy, hpos', -, hform'⟩ | ⟨hinf', -⟩
    · rw [hx, hy]
      trivial
    · obtain rfl : t = .positive := by
        cases t with
        | positive => rfl
        | negative => simp only [Sign.apply] at hyplace; omega
      have hshift := shiftLeft_le hnear hform hform'
      rw [hx, hy, UnpackedFloat.sub]
      refine clear_normalize ?_ _
      simp only [Sign.apply]
      omega
    · omega
  · omega

end LedgerLoad.Double
