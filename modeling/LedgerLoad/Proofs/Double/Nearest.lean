import LedgerLoad.Proofs.Double.Rounding

/-! # Rounding to the nearest double

A number is counted in units, the smallest positive double. `Rounds w n` says that a number of `w`
units is rounded to the double that is `n` steps away from zero; it is the nearest one, and of two
that are equally near the even one. So a greater number is never rounded to a smaller double
(`Rounds.mono`), and the doubles themselves stay as they are (`rounds_units`). Sums, products and
quotients of positive doubles are rounded in this sense (`near_add`, `near_mul`, `near_div`). -/

namespace LedgerLoad.Double

open Float.Model (UnpackedFloat Format)
open Float.Model.UnpackedFloat (Sign ExtendedMantissa Accuracy roundWithAccuracy)

/-! ### The nearest natural number -/

/-- A natural number that is nearest to another number; it is even if there are two. -/
structure Nearest (v : ℚ) (r : ℕ) : Prop where
  le : v ≤ r + 1 / 2
  ge : r ≤ v + 1 / 2
  even : v = r + 1 / 2 ∨ v + 1 / 2 = r → r % 2 = 0

theorem nearest_natCast (r : ℕ) : Nearest r r := by
  refine ⟨by linarith, by linarith, ?_⟩
  rintro (h | h) <;> linarith

theorem Nearest.mono {v w : ℚ} {r s : ℕ} (hr : Nearest v r) (hs : Nearest w s) (h : v ≤ w) :
    r ≤ s := by
  by_contra hlt
  have hstep : (s : ℚ) + 1 ≤ r := by exact_mod_cast Nat.lt_of_not_le hlt
  have hle := hs.le
  have hge := hr.ge
  -- Both lie half way between the same two numbers, of which only one is even.
  have hnext : (r : ℚ) = s + 1 := by linarith
  have hr' := hr.even (Or.inr (by linarith))
  have hs' := hs.even (Or.inl (by linarith))
  have : r = s + 1 := by exact_mod_cast hnext
  omega

/-- A number below a whole one is not rounded beyond it, nor one above it to before it. -/
theorem Nearest.le_natCast {v : ℚ} {r n : ℕ} (h : Nearest v r) (hv : v ≤ n) : r ≤ n :=
  h.mono (nearest_natCast n) hv

theorem Nearest.natCast_le {v : ℚ} {r n : ℕ} (h : Nearest v r) (hv : n ≤ v) : n ≤ r :=
  (nearest_natCast n).mono h hv

/-! ### Mantissas with residual bits -/

/-- What a mantissa with its two residual bits says of the number it was cut off from. -/
def Cut (em : ExtendedMantissa) (v : ℚ) : Prop :=
  match em with
  | ⟨m, false, false⟩ => v = m
  | ⟨m, false, true⟩ => (m : ℚ) < v ∧ v < m + 1 / 2
  | ⟨m, true, false⟩ => v = m + 1 / 2
  | ⟨m, true, true⟩ => (m : ℚ) + 1 / 2 < v ∧ v < m + 1

theorem Cut.shiftRightOne {em : ExtendedMantissa} {v : ℚ} (h : Cut em v) :
    Cut em.shiftRightOne (v / 2) := by
  obtain ⟨m, bit, sticky⟩ := em
  obtain ⟨q, hq⟩ : ∃ q, m = 2 * q ∨ m = 2 * q + 1 := ⟨m / 2, by omega⟩
  rcases hq with rfl | rfl
  · have hhalf : 2 * q / 2 = q := by omega
    have hlast : (2 * q % 2 != 0) = false := by simp
    cases bit <;> cases sticky <;>
      simp only [ExtendedMantissa.shiftRightOne, hhalf, hlast, Cut, Bool.or_false, Bool.or_true,
        Nat.cast_mul, Nat.cast_ofNat] at h ⊢
    · linarith
    all_goals constructor <;> linarith
  · have hhalf : (2 * q + 1) / 2 = q := by omega
    have hlast : ((2 * q + 1) % 2 != 0) = true := by simp
    cases bit <;> cases sticky <;>
      simp only [ExtendedMantissa.shiftRightOne, hhalf, hlast, Cut, Bool.or_false, Bool.or_true,
        Nat.cast_add, Nat.cast_mul, Nat.cast_ofNat, Nat.cast_one] at h ⊢
    · linarith
    all_goals constructor <;> linarith

theorem Cut.shiftRight {em : ExtendedMantissa} {v : ℚ} (h : Cut em v) (n : ℕ) :
    Cut (em >>> n) (v / 2 ^ n) := by
  show Cut (n.repeat ExtendedMantissa.shiftRightOne em) (v / 2 ^ n)
  induction n with
  | zero => simpa [Nat.repeat] using h
  | succ n ih =>
    rw [pow_succ, ← div_div]
    exact ih.shiftRightOne

/-- Rounding by the residual bits leads to the nearest number. -/
theorem Cut.nearest {em : ExtendedMantissa} {v : ℚ} (h : Cut em v) :
    Nearest v em.roundedMantissa := by
  obtain ⟨m, bit, sticky⟩ := em
  cases bit <;> cases sticky <;>
    simp only [Cut, ExtendedMantissa.roundedMantissa, ExtendedMantissa.accuracy,
      Accuracy.roundToNearestEven] at h ⊢
  · rw [h]
    exact nearest_natCast m
  · refine ⟨by linarith, by linarith, ?_⟩
    rintro (h' | h') <;> linarith
  · -- Half way: the last digit decides.
    rcases Nat.mod_two_eq_zero_or_one m with heven | hodd
    · rw [heven, Nat.add_zero, h]
      exact ⟨le_rfl, by linarith, fun _ => heven⟩
    · rw [hodd, h]
      refine ⟨by push_cast; linarith, by push_cast; linarith, fun _ => by omega⟩
  · refine ⟨by push_cast; linarith, by push_cast; linarith, ?_⟩
    push_cast
    rintro (h' | h') <;> linarith

theorem Cut.bounds {em : ExtendedMantissa} {v : ℚ} (h : Cut em v) :
    (em.mantissa : ℚ) ≤ v ∧ v < em.mantissa + 1 := by
  obtain ⟨m, bit, sticky⟩ := em
  cases bit <;> cases sticky <;> simp only [Cut] at h ⊢ <;> constructor <;> linarith

/-! ### Rounding in steps from zero -/

/-- The units of the double that is some steps away from zero. -/
def units (n : ℕ) : ℕ := if n < 2 ^ 52 then n else (2 ^ 52 + n % 2 ^ 52) * 2 ^ (n / 2 ^ 52 - 1)

/-- The units of the number one. -/
def whole : ℕ := 2 ^ 1074

/-- `Rounds w n`: a number of `w` units is rounded to the double `n` steps away from zero. It has
`k` digits too many, and `r` is what is nearest without them. -/
def Rounds (w : ℚ) (n : ℕ) : Prop :=
  ∃ k r : ℕ, w < 2 ^ (k + 53) ∧ (k = 0 ∨ 2 ^ (k + 52) ≤ w) ∧ Nearest (w / 2 ^ k) r ∧
    n = min farthest (k * 2 ^ 52 + r)

theorem cast_whole : (whole : ℚ) = 2 ^ 1074 := by simp only [whole, Nat.cast_pow, Nat.cast_ofNat]

theorem whole_pos : (0 : ℚ) < whole := by
  rw [cast_whole]
  positivity

theorem div_le_natCast {w : ℚ} {k n : ℕ} (h : w ≤ n * 2 ^ k) : w / 2 ^ k ≤ n :=
  (div_le_iff₀ (by positivity)).mpr h

theorem natCast_le_div {w : ℚ} {k n : ℕ} (h : n * 2 ^ k ≤ w) : n ≤ w / 2 ^ k :=
  (le_div_iff₀ (by positivity)).mpr h

/-- The digits that are left number at most 53, and exactly so many if any were too many. -/
theorem Nearest.digits {w : ℚ} {k r : ℕ} (hr : Nearest (w / 2 ^ k) r) (hw : w < 2 ^ (k + 53))
    (hk : k = 0 ∨ 2 ^ (k + 52) ≤ w) : r ≤ 2 ^ 53 ∧ (k = 0 ∨ 2 ^ 52 ≤ r) := by
  refine ⟨hr.le_natCast (div_le_natCast ?_),
    hk.imp_right fun h => hr.natCast_le (natCast_le_div ?_)⟩
  · rw [pow_add, mul_comm] at hw
    push_cast
    exact hw.le
  · rw [pow_add, mul_comm] at h
    push_cast
    exact h

/-- **A greater number is not rounded to a smaller double.** -/
theorem Rounds.mono {w w' : ℚ} {n n' : ℕ} (h : Rounds w n) (h' : Rounds w' n') (hle : w ≤ w') :
    n ≤ n' := by
  obtain ⟨k, r, hw, hk, hr, rfl⟩ := h
  obtain ⟨k', r', hw', hk', hr', rfl⟩ := h'
  have hdigits := hr.digits hw hk
  have hdigits' := hr'.digits hw' hk'
  rcases Nat.lt_trichotomy k k' with hlt | rfl | hlt
  · omega
  · have hrr : r ≤ r' := hr.mono hr' (div_le_div_of_nonneg_right hle (by positivity))
    omega
  · have hpow : (2 : ℚ) ^ (k' + 53) ≤ 2 ^ (k + 52) :=
      pow_le_pow_right₀ (by norm_num) (by omega)
    rcases hk with rfl | hk
    · omega
    · linarith

theorem Rounds.unique {w : ℚ} {n n' : ℕ} (h : Rounds w n) (h' : Rounds w n') : n = n' :=
  Nat.le_antisymm (h.mono h' le_rfl) (h'.mono h le_rfl)

theorem Rounds.le_farthest {w : ℚ} {n : ℕ} (h : Rounds w n) : n ≤ farthest := by
  obtain ⟨k, r, -, -, -, rfl⟩ := h
  exact Nat.min_le_left _ _

/-- The units of a double by its digits. -/
theorem units_eq {k r : ℕ} (hr : r ≤ 2 ^ 53) (hk : k = 0 ∨ 2 ^ 52 ≤ r) :
    units (k * 2 ^ 52 + r) = r * 2 ^ k := by
  unfold units
  by_cases hsmall : k * 2 ^ 52 + r < 2 ^ 52
  · obtain rfl : k = 0 := by omega
    rw [if_pos hsmall, Nat.zero_mul, Nat.zero_add, Nat.pow_zero, Nat.mul_one]
  · rw [if_neg hsmall]
    by_cases hfull : r = 2 ^ 53
    · have hquotient : (k * 2 ^ 52 + r) / 2 ^ 52 - 1 = k + 1 := by omega
      have hrest : (k * 2 ^ 52 + r) % 2 ^ 52 = 0 := by omega
      rw [hquotient, hrest, hfull]
      ring
    · have hquotient : (k * 2 ^ 52 + r) / 2 ^ 52 - 1 = k := by omega
      have hrest : 2 ^ 52 + (k * 2 ^ 52 + r) % 2 ^ 52 = r := by omega
      rw [hquotient, hrest]

/-- The digits of a double, and how many are missing behind them. -/
theorem exists_digits (n : ℕ) :
    ∃ k r : ℕ, n = k * 2 ^ 52 + r ∧ r < 2 ^ 53 ∧ (k = 0 ∨ 2 ^ 52 ≤ r) := by
  by_cases hsmall : n < 2 ^ 52
  · exact ⟨0, n, by omega, by omega, Or.inl rfl⟩
  · exact ⟨n / 2 ^ 52 - 1, 2 ^ 52 + n % 2 ^ 52, by omega, by omega, by omega⟩

/-- A double is rounded to itself, and so is what exceeds it by less than half of its last digit. -/
theorem rounds_units_add {k r : ℕ} (hr : r < 2 ^ 53) (hk : k = 0 ∨ 2 ^ 52 ≤ r)
    (hn : k * 2 ^ 52 + r ≤ farthest) {a : ℚ} (ha : 0 ≤ a) (hsmall : 2 * a < 2 ^ k) :
    Rounds (units (k * 2 ^ 52 + r) + a) (k * 2 ^ 52 + r) := by
  have hpow : (0 : ℚ) < 2 ^ k := by positivity
  have hunits : (units (k * 2 ^ 52 + r) : ℚ) = r * 2 ^ k := by
    rw [units_eq hr.le hk]
    push_cast
    rfl
  have hr' : (r : ℚ) + 1 ≤ 2 ^ 53 := by exact_mod_cast hr
  have hquotient : (units (k * 2 ^ 52 + r) + a) / 2 ^ k = r + a / 2 ^ k := by
    rw [hunits, add_div, mul_div_cancel_right₀ _ hpow.ne']
  have hpart : 0 ≤ a / 2 ^ k ∧ a / 2 ^ k < 1 / 2 := by
    refine ⟨by positivity, ?_⟩
    rw [div_lt_iff₀ hpow]
    linarith
  refine ⟨k, r, ?_, hk.imp_right fun h => ?_, ?_, (Nat.min_eq_right hn).symm⟩
  · rw [hunits, Nat.add_comm, pow_add]
    nlinarith
  · have h : (2 : ℚ) ^ 52 ≤ r := by exact_mod_cast h
    rw [hunits, Nat.add_comm, pow_add]
    nlinarith
  · rw [hquotient]
    refine ⟨by linarith, by linarith, ?_⟩
    rintro (h | h) <;> linarith

/-- Doubles stay as they are. -/
theorem rounds_units {n : ℕ} (hn : n ≤ farthest) : Rounds (units n) n := by
  obtain ⟨k, r, rfl, hr, hk⟩ := exists_digits n
  have h := rounds_units_add hr hk hn (a := 0) le_rfl (by rw [mul_zero]; positivity)
  rwa [add_zero] at h

/-! ### Rounding of a mantissa -/

theorem stepsOf_eq {k r : ℕ} (hr : r < 2 ^ 53) (hk : k = 0 ∨ 2 ^ 52 ≤ r) :
    stepsOf r (k - 1074) = min farthest (k * 2 ^ 52 + r) := by
  have hfar : farthest = 2047 * 2 ^ 52 := rfl
  unfold stepsOf
  by_cases hfull : 2 ^ 52 ≤ r
  · have hlog : r.log2 = 52 := by
      rw [Nat.log2_eq_iff (by omega)]
      omega
    by_cases htop : 972 ≤ (k : ℤ) - 1074
    · rw [if_pos htop]
      omega
    · rw [if_neg htop, if_pos hlog]
      omega
  · have hlog : r.log2 ≠ 52 := by
      have := log2_lt_of_lt (n := r) (k := 52) (by decide) (by omega)
      omega
    rw [if_neg (by omega), if_neg hlog]
    omega

/-- A double of positive sign that is nearest to a number of units. -/
structure Near (w : ℚ) (x : Float) : Prop where
  sign : signOf x.toBits.toNat = .positive
  rounds : Rounds w (steps x)

/-- What is cut off is that many digits. -/
theorem Cut.shiftToTargetExponent {m : ℕ} {e : ℤ} {accuracy : Accuracy} {v : ℚ}
    (h : Cut (.ofMantissaAndAccuracy m accuracy) v) {first : ℤ}
    (hfirst : first = max (m.log2 + 1 + e - 53) (-1074)) :
    Cut (UnpackedFloat.shiftToTargetExponent .binary64 m e accuracy).1
      (v / 2 ^ (first - e).toNat) := by
  subst hfirst
  exact h.shiftRight _

/-- Digits that are one too many by rounding up lose their last one, which is zero. -/
theorem last_digits {r k : ℕ} {first last : ℤ} (hfirst : first = k - 1074) (hr : r ≤ 2 ^ 53)
    (hk : k = 0 ∨ 2 ^ 52 ≤ r)
    (hlast : last = max first (max (r.log2 + 1 + first - 53) (-1074))) :
    ∃ k' r' : ℕ, last = k' - 1074 ∧ r / 2 ^ (last - first).toNat = r' ∧ r' < 2 ^ 53 ∧
      (k' = 0 ∨ 2 ^ 52 ≤ r') ∧ k' * 2 ^ 52 + r' = k * 2 ^ 52 + r := by
  by_cases hfull : r = 2 ^ 53
  · have hlog : r.log2 = 53 := by
      rw [hfull]
      exact Nat.log2_two_pow
    have hone : (last - first).toNat = 1 := by omega
    refine ⟨k + 1, 2 ^ 52, by omega, ?_, by decide, by omega, by omega⟩
    rw [hone, hfull]
  · have hlog := log2_lt_of_lt (n := r) (k := 53) (by decide) (by omega)
    have hnone : (last - first).toNat = 0 := by omega
    refine ⟨k, r, by omega, ?_, by omega, hk, rfl⟩
    rw [hnone, Nat.pow_zero, Nat.div_one]

/-- Digits are put together as they are. -/
theorem near_digits {w : ℚ} {k r : ℕ} (hr : r < 2 ^ 53) (hk : k = 0 ∨ 2 ^ 52 ≤ r)
    (hw : Rounds w (min farthest (k * 2 ^ 52 + r))) :
    Near w (ofParts (if h : r = 0 then .zero .positive
      else .finite .positive r (k - 1074) (Nat.pos_of_ne_zero h))) := by
  split_ifs with hzero
  · have hbits : (ofParts (.zero .positive)).toBits.toNat = signBit .positive + 0 := rfl
    obtain ⟨hsign, hsteps⟩ := steps_of_bits hbits (by decide)
    have hnone : min farthest (k * 2 ^ 52 + r) = 0 := by omega
    exact ⟨hsign, by rwa [hsteps, ← hnone]⟩
  · obtain ⟨hsign, hsteps⟩ :=
      ofParts_finite .positive (e := (k : ℤ) - 1074) (Nat.pos_of_ne_zero hzero)
    exact ⟨hsign, by rwa [hsteps, stepsOf_eq hr hk]⟩

/-- **Rounding leads to the nearest double**: of a mantissa that has all its digits or reaches down
to the last digit there is, or beyond it. -/
theorem near_round_of {m : ℕ} {e : ℤ} {accuracy : Accuracy} {v w : ℚ}
    (hcut : Cut (.ofMantissaAndAccuracy m accuracy) v)
    (hw : v * 2 ^ (e + 1074).toNat = w * 2 ^ (-1074 - e).toNat)
    (hlong : 52 ≤ m.log2 ∨ e ≤ -1074) :
    Near w (ofParts (roundWithAccuracy .binary64 .positive m e accuracy)) := by
  obtain ⟨first, hfirst, hexponent, -⟩ := shiftToTargetExponent_eq m e accuracy
  have hdue : first = max (m.log2 + 1 + e - 53) (-1074) := by omega
  have hnearest := (hcut.shiftToTargetExponent hdue).nearest
  obtain ⟨k, hk⟩ : ∃ k : ℕ, first = k - 1074 := ⟨(first + 1074).toNat, by omega⟩
  obtain ⟨a, ha⟩ : ∃ a, a = (e + 1074).toNat := ⟨_, rfl⟩
  obtain ⟨d, hd⟩ : ∃ d, d = (-1074 - e).toNat := ⟨_, rfl⟩
  rw [← ha, ← hd] at hw
  have hsplit : k + d = a + (first - e).toNat := by omega
  have hquotient : w / 2 ^ k = v / 2 ^ (first - e).toNat := by
    rw [div_eq_div_iff (by positivity) (by positivity)]
    refine mul_right_cancel₀ (b := (2 : ℚ) ^ d) (by positivity) ?_
    calc w * 2 ^ (first - e).toNat * 2 ^ d = w * 2 ^ d * 2 ^ (first - e).toNat := by ring
      _ = v * 2 ^ (a + (first - e).toNat) := by rw [← hw, pow_add, mul_assoc]
      _ = v * 2 ^ k * 2 ^ d := by rw [← hsplit, pow_add, mul_assoc]
  have hbounds := hcut.bounds
  rw [mantissa_ofMantissaAndAccuracy] at hbounds
  have hbelow : w < 2 ^ (k + 53) := by
    have hm : (m : ℚ) + 1 ≤ 2 ^ (m.log2 + 1) := by exact_mod_cast Nat.lt_log2_self
    refine lt_of_mul_lt_mul_right ?_ (by positivity : (0 : ℚ) ≤ 2 ^ d)
    calc w * 2 ^ d < 2 ^ (m.log2 + 1) * 2 ^ a := by
          rw [← hw]
          exact mul_lt_mul_of_pos_right (by linarith) (by positivity)
      _ = 2 ^ (m.log2 + 1 + a) := (pow_add _ _ _).symm
      _ ≤ 2 ^ (k + 53 + d) := pow_le_pow_right₀ (by norm_num) (by omega)
      _ = 2 ^ (k + 53) * 2 ^ d := pow_add _ _ _
  have habove : k = 0 ∨ 2 ^ (k + 52) ≤ w := by
    by_cases hzero : k = 0
    · exact Or.inl hzero
    · have hne : m ≠ 0 := by
        rintro rfl
        rw [Nat.log2_zero] at hlong hdue
        omega
      have hm : (2 : ℚ) ^ m.log2 ≤ m := by exact_mod_cast Nat.log2_self_le hne
      have hdigits : k + 52 + d = m.log2 + a := by omega
      refine Or.inr (le_of_mul_le_mul_right ?_ (by positivity : (0 : ℚ) < 2 ^ d))
      rw [← pow_add, hdigits, pow_add, ← hw]
      exact mul_le_mul_of_nonneg_right (by linarith) (by positivity)
  unfold roundWithAccuracy
  generalize UnpackedFloat.shiftToTargetExponent .binary64 m e accuracy = shifted at *
  obtain ⟨em, e'⟩ := shifted
  dsimp only at hexponent hnearest ⊢
  subst hexponent
  generalize em.roundedMantissa = r at *
  rw [← hquotient] at hnearest
  obtain ⟨hr, hk'⟩ := hnearest.digits hbelow habove
  obtain ⟨last, hlast, hexponent', hmantissa'⟩ := shiftToTargetExponent_eq r e' .exact
  generalize UnpackedFloat.shiftToTargetExponent .binary64 r e' .exact = shifted' at *
  obtain ⟨em', e''⟩ := shifted'
  dsimp only at hexponent' hmantissa' ⊢
  subst hexponent'
  obtain ⟨k', r', hk'', hr', hlt, hdigits, hsame⟩ := last_digits hk hr hk' hlast
  rw [hr'] at hmantissa'
  subst hk''
  simp only [hmantissa']
  exact near_digits hlt hdigits ⟨k, r, hbelow, habove, hnearest, by rw [hsame]⟩

/-- The same of a mantissa that does not reach beyond the last digit there is. -/
theorem near_round {m : ℕ} {e : ℤ} {accuracy : Accuracy} {v : ℚ}
    (hcut : Cut (.ofMantissaAndAccuracy m accuracy) v) (he : -1074 ≤ e)
    (hlong : 52 ≤ m.log2 ∨ e = -1074) :
    Near (v * 2 ^ (e + 1074).toNat)
      (ofParts (roundWithAccuracy .binary64 .positive m e accuracy)) := by
  have hnone : (-1074 - e).toNat = 0 := by omega
  refine near_round_of hcut ?_ (hlong.imp_right le_of_eq)
  rw [hnone, pow_zero, mul_one]

theorem cut_exact (m : ℕ) : Cut (.ofMantissaAndAccuracy m .exact) m := rfl

theorem near_zero : Near 0 (ofParts (.zero .positive)) := by
  have hbits : (ofParts (.zero .positive)).toBits.toNat = signBit .positive + 0 := rfl
  obtain ⟨hsign, hsteps⟩ := steps_of_bits hbits (by decide)
  have hrounds : Rounds ((0 : ℕ) : ℚ) 0 := rounds_units (n := 0) (by decide)
  rw [Nat.cast_zero, ← hsteps] at hrounds
  exact ⟨hsign, hrounds⟩

theorem log2_shiftLeft {m : ℕ} (hm : m ≠ 0) (s : ℕ) : (m <<< s).log2 = m.log2 + s := by
  induction s with
  | zero => rfl
  | succ s ih =>
    have hne : m <<< s ≠ 0 := by
      rw [Nat.shiftLeft_eq]
      positivity
    rw [Nat.shiftLeft_succ, Nat.log2_two_mul hne, ih, Nat.add_assoc]

/-- A number with an exponent is rounded to the nearest double. -/
theorem near_normalize (m : ℕ) {e : ℤ} (he : -1074 ≤ e) :
    Near (m * 2 ^ (e + 1074).toNat) (ofParts (.normalize .binary64 m e .positive)) := by
  by_cases hzero : m = 0
  · subst hzero
    rw [Nat.cast_zero, zero_mul]
    exact near_zero
  · have hparts : UnpackedFloat.normalize .binary64 m e .positive =
        .round .binary64 .positive m e := by
      rw [UnpackedFloat.normalize, Int.compare_eq_gt.mpr (by omega)]
      rfl
    rw [hparts, UnpackedFloat.round, UnpackedFloat.decreaseExponent, targetExponent_eq,
      Float.Model.totalExponent]
    dsimp only
    obtain ⟨shift, hshift⟩ : ∃ shift,
      shift = (e - max ((m.log2 : ℤ) + 1 + e - 53) (-1074)).toNat := ⟨_, rfl⟩
    rw [← hshift]
    have hlog := log2_shiftLeft hzero shift
    have hnear := near_round (cut_exact (m <<< shift)) (e := e - shift) (by omega) (by omega)
    have hexponent : (e + 1074).toNat = shift + (e - shift + 1074).toNat := by omega
    rw [Nat.shiftLeft_eq] at hnear ⊢
    rw [hexponent, pow_add, ← mul_assoc]
    exact_mod_cast hnear

/-! ### Operations on positive doubles -/

theorem ofSteps_digits {s : Sign} {k r : ℕ} (hpos : 0 < r) (hr : r < 2 ^ 53)
    (hk : k = 0 ∨ 2 ^ 52 ≤ r) (hn : k * 2 ^ 52 + r < farthest) :
    ofSteps s (k * 2 ^ 52 + r) = .finite s r (k - 1074) hpos := by
  have hfar : farthest = 2047 * 2 ^ 52 := rfl
  by_cases hsmall : k * 2 ^ 52 + r < 2 ^ 52
  · obtain rfl : k = 0 := by omega
    rw [ofSteps_small (by omega) hsmall]
    congr 1
    omega
  · rw [ofSteps_leading (by omega) (by omega)]
    congr 1 <;> omega

/-- A positive double, finite and not zero: its digits and their place. -/
theorem unpack_digits {x : Float} (hsign : signOf x.toBits.toNat = .positive) (hpos : 0 < steps x)
    (hfinite : steps x < farthest) : ∃ (m k : ℕ) (hm : 0 < m),
      x.toModel.unpack = .finite .positive m (k - 1074) hm ∧ m < 2 ^ 53 ∧
      (k = 0 ∨ 2 ^ 52 ≤ m) ∧ steps x = k * 2 ^ 52 + m ∧ units (steps x) = m * 2 ^ k := by
  obtain ⟨k, m, hsteps, hm, hk⟩ := exists_digits (steps x)
  have hm' : 0 < m := by omega
  refine ⟨m, k, hm', ?_, hm, hk, hsteps, ?_⟩
  · rw [unpack_eq, hsign, hsteps]
    exact ofSteps_digits hm' hm hk (hsteps ▸ hfinite)
  · rw [hsteps]
    exact units_eq hm.le hk

theorem unpack_of_steps_zero {x : Float} (hsign : signOf x.toBits.toNat = .positive)
    (hzero : steps x = 0) : x.toModel.unpack = .zero .positive := by
  rw [unpack_eq, hsign, hzero, ofSteps_zero]

theorem unpack_of_steps_farthest {x : Float} (hsign : signOf x.toBits.toNat = .positive)
    (hinfinite : steps x = farthest) : x.toModel.unpack = .infinity .positive := by
  rw [unpack_eq, hsign, hinfinite]
  exact ofSteps_infinity

theorem toNat_toBits_of_positive {x : Float} (hsign : signOf x.toBits.toNat = .positive) :
    x.toBits.toNat = steps x := by
  unfold signOf at hsign
  split_ifs at hsign with hlt
  exact (Nat.mod_eq_of_lt hlt).symm

/-- Digits that a double has, put together. -/
theorem near_finite {m k : ℕ} (hpos : 0 < m) (hm : m < 2 ^ 53) (hk : k = 0 ∨ 2 ^ 52 ≤ m)
    (hn : k * 2 ^ 52 + m < farthest) :
    Near (units (k * 2 ^ 52 + m)) (ofParts (.finite .positive m (k - 1074) hpos)) := by
  obtain ⟨hsign, hsteps⟩ := ofParts_finite .positive (e := (k : ℤ) - 1074) hpos
  rw [stepsOf_eq hm hk, Nat.min_eq_right hn.le] at hsteps
  refine ⟨hsign, ?_⟩
  rw [hsteps]
  exact rounds_units hn.le

section Operations

variable {x y : Float} (hx : signOf x.toBits.toNat = .positive)
  (hy : signOf y.toBits.toNat = .positive)

include hx hy

/-- **A sum of positive doubles is the nearest double.** -/
theorem near_add (hx' : steps x < farthest) (hy' : steps y < farthest) :
    Near ((units (steps x) : ℚ) + units (steps y)) (x + y) := by
  have hadd : x + y = ofParts (.add .binary64 x.toModel.unpack y.toModel.unpack) := rfl
  rw [hadd]
  by_cases hx0 : steps x = 0
  · rw [unpack_of_steps_zero hx hx0, hx0]
    have hnone : ((units 0 : ℕ) : ℚ) = 0 := by norm_num [units]
    rw [hnone, zero_add]
    by_cases hy0 : steps y = 0
    · rw [unpack_of_steps_zero hy hy0, hy0, hnone]
      exact near_zero
    · obtain ⟨m, k, hpos, hu, hm, hk, hsteps, -⟩ := unpack_digits hy (by omega) hy'
      rw [hu, hsteps]
      exact near_finite hpos hm hk (hsteps ▸ hy')
  · obtain ⟨m, k, hpos, hu, hm, hk, hsteps, hunits⟩ := unpack_digits hx (by omega) hx'
    by_cases hy0 : steps y = 0
    · have hnone : ((units 0 : ℕ) : ℚ) = 0 := by norm_num [units]
      rw [unpack_of_steps_zero hy hy0, hy0, hnone, add_zero, hu, hsteps]
      exact near_finite hpos hm hk (hsteps ▸ hx')
    · obtain ⟨m', k', hpos', hu', -, -, -, hunits'⟩ := unpack_digits hy (by omega) hy'
      rw [hu, hu', hunits, hunits', UnpackedFloat.add]
      -- Both mantissas are brought to the smaller exponent, and nothing is lost.
      obtain ⟨d, d', c, hd, hd', hc⟩ : ∃ d d' c : ℕ, k = c + d ∧ k' = c + d' ∧
          min ((k : ℤ) - 1074) (k' - 1074) = c - 1074 :=
        ⟨k - min k k', k' - min k k', min k k', by omega, by omega, by omega⟩
      have hshift : ((k : ℤ) - 1074 - (c - 1074)).toNat = d := by omega
      have hshift' : ((k' : ℤ) - 1074 - (c - 1074)).toNat = d' := by omega
      have hplace : ((c : ℤ) - 1074 + 1074).toNat = c := by omega
      have hnear := near_normalize (m * 2 ^ d + m' * 2 ^ d') (e := (c : ℤ) - 1074) (by omega)
      simp only [UnpackedFloat.decreaseExponent, Sign.apply, hc, hshift, hshift', Nat.shiftLeft_eq]
      have hsum : ((m * 2 ^ k : ℕ) : ℚ) + (m' * 2 ^ k' : ℕ) =
          (m * 2 ^ d + m' * 2 ^ d' : ℕ) * 2 ^ c := by
        rw [hd, hd']
        push_cast
        ring
      rw [hplace, ← hsum] at hnear
      exact_mod_cast hnear

omit hx hy in
/-- A quotient of natural numbers, cut off with what is known of the rest. -/
theorem cut_quotient (m : ℕ) {n : ℕ} (hn : 0 < n) :
    Cut (.ofMantissaAndAccuracy (m / n) (UnpackedFloat.accuracyOfFraction (m % n) n)) (m / n) := by
  have hpos : (0 : ℚ) < n := by exact_mod_cast hn
  have hlt := Nat.mod_lt m hn
  have hsum : (m : ℚ) = n * (m / n : ℕ) + (m % n : ℕ) := by
    exact_mod_cast (Nat.div_add_mod m n).symm
  have hsplit : (m : ℚ) / n = (m / n : ℕ) + (m % n : ℕ) / n := by
    rw [hsum]
    field_simp
  generalize m / n = q at *
  generalize m % n = r at *
  rw [hsplit]
  unfold UnpackedFloat.accuracyOfFraction
  have hlt' : (r : ℚ) / n < 1 := (div_lt_one hpos).mpr (by exact_mod_cast hlt)
  by_cases hzero : r = 0
  · rw [if_pos hzero, hzero, Nat.cast_zero, zero_div, add_zero]
    exact cut_exact q
  · have hpos' : 0 < (r : ℚ) / n := div_pos (by exact_mod_cast Nat.pos_of_ne_zero hzero) hpos
    rw [if_neg hzero]
    rcases Nat.lt_trichotomy (2 * r) n with hhalf | hhalf | hhalf
    · have : (r : ℚ) / n < 1 / 2 := by
        rw [div_lt_iff₀ hpos]
        have : (2 : ℚ) * r < n := by exact_mod_cast hhalf
        linarith
      rw [Nat.compare_eq_lt.mpr hhalf]
      exact ⟨by linarith, by linarith⟩
    · have : (r : ℚ) / n = 1 / 2 := by
        rw [div_eq_iff hpos.ne']
        have : (2 : ℚ) * r = n := by exact_mod_cast hhalf
        linarith
      rw [Nat.compare_eq_eq.mpr hhalf, this]
      rfl
    · have : 1 / 2 < (r : ℚ) / n := by
        rw [lt_div_iff₀ hpos]
        have : (n : ℚ) < 2 * r := by exact_mod_cast hhalf
        linarith
      rw [Nat.compare_eq_gt.mpr hhalf]
      exact ⟨by linarith, by linarith⟩

/-- **A quotient of positive doubles is the nearest double.** -/
theorem near_div (hx' : steps x < farthest) (hpos : 0 < steps y) (hy' : steps y < farthest) :
    Near ((units (steps x) : ℚ) / units (steps y) * whole) (x / y) := by
  have hdiv : x / y = ofParts (.div .binary64 x.toModel.unpack y.toModel.unpack) := rfl
  obtain ⟨n, k', hn, hv, -, -, -, hunits'⟩ := unpack_digits hy hpos hy'
  rw [hdiv, hv, hunits']
  by_cases hx0 : steps x = 0
  · have hnone : ((units 0 : ℕ) : ℚ) = 0 := by norm_num [units]
    rw [unpack_of_steps_zero hx hx0, hx0, hnone, zero_div, zero_mul]
    exact near_zero
  · obtain ⟨m, k, hm, hu, -, -, -, hunits⟩ := unpack_digits hx (by omega) hx'
    rw [hu, hunits]
    show Near _ (ofParts (roundWithAccuracy .binary64 .positive
      (UnpackedFloat.divCore .binary64 m (k - 1074) n (k' - 1074)).1
      (UnpackedFloat.divCore .binary64 m (k - 1074) n (k' - 1074)).2.1
      (UnpackedFloat.divCore .binary64 m (k - 1074) n (k' - 1074)).2.2))
    rw [UnpackedFloat.divCore, targetExponent_eq, Float.Model.totalExponent,
      Float.Model.totalExponent]
    dsimp only
    obtain ⟨t, ht⟩ : ∃ t, t = min ((k : ℤ) - 1074 - (k' - 1074))
      (max (m.log2 + 1 + ((k : ℤ) - 1074) - (n.log2 + 1 + (k' - 1074)) - 53) (-1074)) := ⟨_, rfl⟩
    obtain ⟨s, hs⟩ : ∃ s, s = ((k : ℤ) - 1074 - (k' - 1074) - t).toNat := ⟨_, rfl⟩
    rw [← ht, ← hs]
    have hlong : 52 ≤ (m <<< s / n).log2 ∨ t ≤ -1074 := by
      by_cases hleast : t ≤ -1074
      · exact Or.inr hleast
      · have hdigits : 2 ^ 52 * n ≤ m <<< s := by
          rw [Nat.shiftLeft_eq]
          calc 2 ^ 52 * n ≤ 2 ^ 52 * 2 ^ (n.log2 + 1) := Nat.mul_le_mul_left _ Nat.lt_log2_self.le
            _ = 2 ^ (n.log2 + 53) := by rw [← Nat.pow_add, Nat.add_comm, Nat.add_assoc]
            _ ≤ 2 ^ (m.log2 + s) := Nat.pow_le_pow_right (by decide) (by omega)
            _ = 2 ^ m.log2 * 2 ^ s := Nat.pow_add _ _ _
            _ ≤ m * 2 ^ s := Nat.mul_le_mul_right _ (Nat.log2_self_le hm.ne')
        have hquotient : 2 ^ 52 ≤ m <<< s / n := (Nat.le_div_iff_mul_le hn).mpr hdigits
        exact Or.inl ((Nat.le_log2 (by omega)).mpr hquotient)
    refine near_round_of (cut_quotient (m <<< s) hn) ?_ hlong
    have hplaces : s + (t + 1074).toNat + k' = k + 1074 + (-1074 - t).toNat := by omega
    have hpow : (2 : ℚ) ^ s * 2 ^ (t + 1074).toNat * 2 ^ k' =
        2 ^ k * whole * 2 ^ (-1074 - t).toNat := by
      rw [← pow_add, ← pow_add, hplaces, pow_add, pow_add, cast_whole]
    have hn0 : (n : ℚ) ≠ 0 := by exact_mod_cast hn.ne'
    rw [Nat.shiftLeft_eq, div_mul_eq_mul_div, div_mul_eq_mul_div, div_mul_eq_mul_div,
      div_eq_div_iff hn0 (by positivity)]
    push_cast
    linear_combination (m * n : ℚ) * hpow

/-- **A product of positive doubles is the nearest double.** -/
theorem near_mul (hx' : steps x < farthest) (hy' : steps y < farthest) :
    Near ((units (steps x) : ℚ) * units (steps y) / whole) (x * y) := by
  have hmul : x * y = ofParts (.mul .binary64 x.toModel.unpack y.toModel.unpack) := rfl
  have hnone : ((units 0 : ℕ) : ℚ) = 0 := by norm_num [units]
  rw [hmul]
  by_cases hx0 : steps x = 0
  · have hproduct : UnpackedFloat.mul .binary64 x.toModel.unpack y.toModel.unpack =
        .zero .positive := by
      rw [unpack_of_steps_zero hx hx0]
      by_cases hy0 : steps y = 0
      · rw [unpack_of_steps_zero hy hy0]
        rfl
      · obtain ⟨n, k', hn, hv, -⟩ := unpack_digits hy (by omega) hy'
        rw [hv]
        rfl
    rw [hproduct, hx0, hnone, zero_mul, zero_div]
    exact near_zero
  obtain ⟨m, k, hm, hu, -, hk, -, hunits⟩ := unpack_digits hx (by omega) hx'
  by_cases hy0 : steps y = 0
  · rw [hu, unpack_of_steps_zero hy hy0, hy0, hnone, mul_zero, zero_div]
    exact near_zero
  obtain ⟨n, k', hn, hv, -, hk', -, hunits'⟩ := unpack_digits hy (by omega) hy'
  rw [hu, hv, hunits, hunits', UnpackedFloat.mul]
  -- Either factor has all its digits, or the product reaches beyond the last digit there is.
  have hlong : 52 ≤ (m * n).log2 ∨ (k : ℤ) - 1074 + (k' - 1074) ≤ -1074 := by
    rw [Nat.le_log2 (Nat.mul_pos hm hn).ne']
    have hleft : m ≤ m * n := Nat.le_mul_of_pos_right m hn
    have hright : n ≤ m * n := Nat.le_mul_of_pos_left n hm
    omega
  refine near_round_of (cut_exact (m * n)) ?_ hlong
  obtain ⟨t, ht⟩ : ∃ t, t = (k : ℤ) - 1074 + (k' - 1074) := ⟨_, rfl⟩
  have hplaces : 1074 + (t + 1074).toNat = k + k' + (-1074 - t).toNat := by omega
  have hpow : (whole : ℚ) * 2 ^ (t + 1074).toNat = 2 ^ k * 2 ^ k' * 2 ^ (-1074 - t).toNat := by
    rw [cast_whole, ← pow_add, ← pow_add, hplaces, pow_add, pow_add]
  rw [← ht, div_mul_eq_mul_div, eq_div_iff whole_pos.ne']
  push_cast
  linear_combination (m * n : ℚ) * hpow

end Operations

/-! ### Natural numbers -/

theorem steps_of_near {w : ℚ} {x : Float} {N : ℕ} (h : Near w x) (hN : N ≤ farthest)
    (hw : (units N : ℚ) = w) : steps x = N :=
  h.rounds.unique (hw ▸ rounds_units hN)

/-- The units of a power of two. -/
theorem units_power {j : ℕ} : units ((1023 + j) * 2 ^ 52) = 2 ^ j * whole := by
  have hsplit : (1023 + j) * 2 ^ 52 = (1022 + j) * 2 ^ 52 + 2 ^ 52 := by omega
  have hplaces : 52 + (1022 + j) = j + 1074 := by omega
  rw [hsplit, units_eq (by decide) (Or.inr le_rfl), ← Nat.pow_add, hplaces, Nat.pow_add, whole]

theorem units_one : units (1023 * 2 ^ 52) = whole := by
  have hunits := units_power (j := 0)
  rwa [Nat.add_zero, Nat.pow_zero, Nat.one_mul] at hunits

/-- Natural numbers of 53 digits are doubles. -/
theorem exists_units_eq {n : ℕ} (hpos : 0 < n) (hn : n < 2 ^ 53) :
    ∃ N, 1023 * 2 ^ 52 ≤ N ∧ N < farthest ∧ units N = n * whole := by
  have hfar : farthest = 2047 * 2 ^ 52 := rfl
  have hlog := log2_lt_of_lt (by decide) hn
  have hlow : 2 ^ 52 ≤ n * 2 ^ (52 - n.log2) :=
    calc 2 ^ 52 = 2 ^ n.log2 * 2 ^ (52 - n.log2) := by
          rw [← Nat.pow_add, Nat.add_sub_cancel' (by omega)]
      _ ≤ n * 2 ^ (52 - n.log2) := Nat.mul_le_mul_right _ (Nat.log2_self_le hpos.ne')
  have hhigh : n * 2 ^ (52 - n.log2) < 2 ^ 53 :=
    calc n * 2 ^ (52 - n.log2) < 2 ^ (n.log2 + 1) * 2 ^ (52 - n.log2) :=
          Nat.mul_lt_mul_of_pos_right Nat.lt_log2_self (Nat.two_pow_pos _)
      _ = 2 ^ 53 := by
          rw [← Nat.pow_add]
          congr 1
          omega
  refine ⟨(1022 + n.log2) * 2 ^ 52 + n * 2 ^ (52 - n.log2), by omega, by omega, ?_⟩
  have hplaces : 52 - n.log2 + (1022 + n.log2) = 1074 := by omega
  rw [units_eq hhigh.le (Or.inr hlow), Nat.mul_assoc, ← Nat.pow_add, hplaces, whole]

theorem near_toFloat (n : UInt64) : Near (n.toNat * whole) n.toFloat := by
  have hparts : n.toFloat = ofParts (.normalize .binary64 n.toNat 0 .positive) := rfl
  have hplace : (0 + 1074 : ℤ).toNat = 1074 := by decide
  have hnear := near_normalize n.toNat (e := 0) (by decide)
  rwa [hplace, ← cast_whole, ← hparts] at hnear

/-- **The double of a natural number is the nearest one.** -/
theorem near_ofNat (n : ℕ) : Near (n * whole) (Float.ofNat n) := by
  have hofNat : Float.ofNat n = Float.ofScientific n false 0 := rfl
  rw [hofNat, Float.ofScientific]
  by_cases hsmall : n < 2 ^ 53 ∧ 0 ≤ 22
  · rw [dif_pos hsmall]
    dsimp only
    rw [if_neg (by decide)]
    by_cases hzero : n = 0
    · subst hzero
      have hproduct : (Nat.toUInt64 0).toFloat * Float.exactlyRepresentablePowersOfTen[0] =
          ofParts (.zero .positive) := by decide +kernel
      rw [hproduct, Nat.cast_zero, zero_mul]
      exact near_zero
    · have hword : n.toUInt64.toNat = n := by
        rw [Nat.toUInt64, UInt64.toNat_ofNat']
        omega
      obtain ⟨N, hlow, hhigh, hN⟩ := exists_units_eq (Nat.pos_of_ne_zero hzero) hsmall.1
      have hnear := near_toFloat n.toUInt64
      rw [hword] at hnear
      have hsteps := steps_of_near hnear hhigh.le (by rw [hN]; push_cast; rfl)
      have hone : signOf (Float.exactlyRepresentablePowersOfTen[0]).toBits.toNat = .positive ∧
          steps Float.exactlyRepresentablePowersOfTen[0] = 1023 * 2 ^ 52 := ⟨rfl, by decide +kernel⟩
      have hproduct := near_mul hnear.sign hone.1 (hsteps ▸ hhigh) (hone.2 ▸ by decide)
      rw [hsteps, hone.2, units_one, hN, mul_div_cancel_right₀ _ whole_pos.ne'] at hproduct
      exact_mod_cast hproduct
  · have hpos : n ≠ 0 := by omega
    have hround : UnpackedFloat.ofScientific .binary64 n 0 =
        roundWithAccuracy .binary64 .positive (n <<< 53 * 1) (-53) .exact := by
      have hbits : (2 : ℤ) ^ Format.binary64.exponentBits = 2048 := by decide
      rw [UnpackedFloat.ofScientific, dif_neg hpos, if_neg (by decide), if_neg (by omega),
        if_pos (by decide)]
      rfl
    rw [dif_neg hsmall]
    show Near _ (ofParts (.ofScientific .binary64 n 0))
    rw [hround, Nat.mul_one]
    have hlog := log2_shiftLeft hpos 53
    have hnear := near_round (cut_exact (n <<< 53)) (e := -53) (by decide) (by omega)
    have hsame : ((n <<< 53 : ℕ) : ℚ) * 2 ^ (-53 + 1074 : ℤ).toNat = n * whole := by
      have hplaces : 53 + (-53 + 1074 : ℤ).toNat = 1074 := by decide
      rw [Nat.shiftLeft_eq, Nat.cast_mul, mul_assoc, Nat.cast_pow, Nat.cast_ofNat, ← pow_add,
        hplaces, cast_whole]
    rwa [hsame] at hnear

end LedgerLoad.Double
