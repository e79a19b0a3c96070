import LedgerLoad.Proofs.Double.Whole

/-! # Positive doubles

Among the doubles of positive sign, infinity with them, the order is that of the steps from zero and
of the numbers they stand for (`Positive.le_iff`, `value_mono`). Up to `2 ^ 53` the natural numbers
are doubles themselves (`units_ofNat`). -/

namespace LedgerLoad.Double

open Float.Model (UnpackedFloat)
open Float.Model.UnpackedFloat (Sign)

/-- A double of positive sign that is a number, maybe infinity. -/
structure Positive (x : Float) : Prop where
  sign : signOf x.toBits.toNat = .positive
  steps_le : steps x ≤ farthest

section Positive

variable {x y : Float}

theorem Near.positive {w : ℚ} (h : Near w x) : Positive x := ⟨h.sign, h.rounds.le_farthest⟩

theorem Positive.isNaN (h : Positive x) : x.isNaN = false := isNaN_eq_false h.steps_le

theorem Positive.place (h : Positive x) : Double.place x = steps x := by
  rw [Double.place, h.sign]
  rfl

theorem Positive.zero_le (h : Positive x) : 0 ≤ x := by
  rw [zero_le_iff, h.place]
  exact ⟨h.isNaN, Int.natCast_nonneg _⟩

theorem Positive.le_iff (hx : Positive x) (hy : Positive y) : x ≤ y ↔ steps x ≤ steps y := by
  rw [Double.le_iff, hx.place, hy.place, Int.ofNat_le]
  exact ⟨fun h => h.2.2, fun h => ⟨hx.isNaN, hy.isNaN, h⟩⟩

/-- Two positive doubles as far from zero are the same. -/
theorem Positive.eq_of_steps (hx : Positive x) (hy : Positive y) (h : steps x = steps y) :
    x = y := by
  have hbits : x.toBits = y.toBits :=
    UInt64.toNat_inj.mp (by
      rw [toNat_toBits_of_positive hx.sign, toNat_toBits_of_positive hy.sign, h])
  obtain ⟨bits, _⟩ := x
  obtain ⟨bits', _⟩ := y
  obtain rfl : bits = bits' := hbits
  rfl

/-- What is above zero is positive, and not zero. -/
theorem positive_of_pos (h : 0 < x) : Positive x ∧ 0 < steps x := by
  obtain ⟨-, hnumber, hplace⟩ := lt_iff.mp h
  have hzero : place 0 = 0 := by decide +kernel
  rw [hzero, place] at hplace
  cases hsign : signOf x.toBits.toNat with
  | negative =>
    rw [hsign] at hplace
    have hneg : Sign.negative.apply (steps x) = -(steps x : ℤ) := rfl
    omega
  | positive =>
    rw [hsign] at hplace
    have hsame : Sign.positive.apply (steps x) = (steps x : ℤ) := rfl
    exact ⟨⟨hsign, steps_le hnumber⟩, by omega⟩

/-- Infinity stays infinite, whatever is added. -/
theorem add_infinity (hx : Positive x) (hy : Positive y)
    (htop : steps x = farthest ∨ steps y = farthest) :
    Positive (x + y) ∧ steps (x + y) = farthest := by
  have hadd : x + y = ofParts (.add .binary64 x.toModel.unpack y.toModel.unpack) := rfl
  have hsum : UnpackedFloat.add .binary64 x.toModel.unpack y.toModel.unpack =
      .infinity .positive := by
    have hinfinite : ofSteps .positive farthest = .infinity .positive := ofSteps_infinity
    rw [unpack_eq, unpack_eq, hx.sign, hy.sign]
    rcases htop with htop | htop
    · rw [htop, hinfinite]
      rcases ofSteps_cases .positive hy.steps_le with ⟨-, h⟩ | ⟨m, e, hm, h, -⟩ | ⟨-, h⟩ <;>
        rw [h] <;> rfl
    · rw [htop, hinfinite]
      rcases ofSteps_cases .positive hx.steps_le with ⟨-, h⟩ | ⟨m, e, hm, h, -⟩ | ⟨-, h⟩ <;>
        rw [h] <;> rfl
  have hbits : (ofParts (.infinity .positive)).toBits.toNat = signBit .positive + farthest := by
    decide +kernel
  obtain ⟨hsign, hsteps⟩ := steps_of_bits hbits le_rfl
  rw [hadd, hsum]
  exact ⟨⟨hsign, hsteps.le⟩, hsteps⟩

theorem Positive.add (hx : Positive x) (hy : Positive y) : Positive (x + y) := by
  by_cases htop : steps x = farthest ∨ steps y = farthest
  · exact (add_infinity hx hy htop).1
  · have hx' := hx.steps_le
    have hy' := hy.steps_le
    exact (near_add hx.sign hy.sign (by omega) (by omega)).positive

theorem units_lt {m n : ℕ} (h : m < n) (hn : n ≤ farthest) : units m < units n := by
  by_contra hle
  have hmono := (rounds_units hn).mono (rounds_units (h.le.trans hn))
    (by exact_mod_cast Nat.not_lt.mp hle)
  omega

theorem units_mono {m n : ℕ} (h : m ≤ n) (hn : n ≤ farthest) : units m ≤ units n := by
  rcases h.eq_or_lt with rfl | hlt
  · exact le_rfl
  · exact (units_lt hlt hn).le

/-- Infinity stays infinite, whatever part of it is taken. -/
theorem mul_infinity (hx : Positive x) (hpos : 0 < steps x) (hy : Positive y)
    (htop : steps y = farthest) : Positive (x * y) ∧ steps (x * y) = farthest := by
  have hmul : x * y = ofParts (.mul .binary64 x.toModel.unpack y.toModel.unpack) := rfl
  have hinfinite : ofSteps .positive farthest = .infinity .positive := ofSteps_infinity
  have hproduct : UnpackedFloat.mul .binary64 x.toModel.unpack y.toModel.unpack =
      .infinity .positive := by
    rw [unpack_eq, unpack_eq, hx.sign, hy.sign, htop, hinfinite]
    rcases ofSteps_cases .positive hx.steps_le with ⟨hzero, -⟩ | ⟨m, e, hm, h, -⟩ | ⟨-, h⟩
    · omega
    · rw [h]
      rfl
    · rw [h]
      rfl
  have hbits : (ofParts (.infinity .positive)).toBits.toNat = signBit .positive + farthest := by
    decide +kernel
  obtain ⟨hsign, hsteps⟩ := steps_of_bits hbits le_rfl
  rw [hmul, hproduct]
  exact ⟨⟨hsign, hsteps.le⟩, hsteps⟩

theorem value_mono (h : steps x ≤ steps y) (hy : steps y ≤ farthest) : value x ≤ value y :=
  div_le_div_of_nonneg_right (Nat.cast_le.mpr (units_mono h hy)) whole_pos.le

end Positive

/-! ### Natural numbers -/

theorem steps_ofNat_mono {m n : ℕ} (h : m ≤ n) : steps (.ofNat m) ≤ steps (.ofNat n) :=
  (near_ofNat m).rounds.mono (near_ofNat n).rounds
    (mul_le_mul_of_nonneg_right (Nat.cast_le.mpr h) whole_pos.le)

theorem steps_ofNat_full : steps (.ofNat (2 ^ 53)) = 1076 * 2 ^ 52 := by decide +kernel

/-- Up to `2 ^ 53` the natural numbers are doubles. -/
theorem units_ofNat {n : ℕ} (hn : n ≤ 2 ^ 53) : units (steps (.ofNat n)) = n * whole := by
  have hnear := near_ofNat n
  by_cases hfull : n = 2 ^ 53
  · have hunits (k j : ℕ) (h : k = j + 1) : units (k * 2 ^ 52 + 2 ^ 52) = 2 ^ 53 * 2 ^ j := by
      rw [units_eq (by decide) (Or.inr le_rfl), h]
      ring
    rw [hfull, steps_ofNat_full, whole, ← hunits 1075 1074 rfl]
  · by_cases hzero : n = 0
    · subst hzero
      have hsteps : steps (.ofNat 0) = 0 := by decide +kernel
      rw [hsteps, Nat.zero_mul]
      rfl
    · obtain ⟨N, -, hN, hunits⟩ := exists_units_eq (Nat.pos_of_ne_zero hzero) (by omega)
      rw [steps_of_near hnear hN.le (by rw [hunits]; push_cast; rfl), hunits]

theorem value_one : value 1 = 1 := by
  have hsteps : steps 1 = 1023 * 2 ^ 52 := by decide +kernel
  rw [value, hsteps, units_one, div_self whole_pos.ne']

theorem value_ofNat {n : ℕ} (hn : n ≤ 2 ^ 53) : value (.ofNat n) = n := by
  rw [value, units_ofNat hn, Nat.cast_mul, mul_div_cancel_right₀ _ whole_pos.ne']

end LedgerLoad.Double
