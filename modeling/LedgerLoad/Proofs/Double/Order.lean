import LedgerLoad.Timing
import Mathlib

/-! # The order of doubles

A double is a sign and a number of steps away from zero: its bits without the sign. Taken apart it
is what `ofSteps` says (`unpack_bits`), and its `place` on the line of all doubles decides every
comparison: `lt_iff`, `le_iff` and `beq_iff`, where what is no number compares with nothing. -/

namespace LedgerLoad.Double

open Float.Model (UnpackedFloat Format)
open Float.Model.UnpackedFloat (Sign)

/-! ### Doubles taken apart -/

/-- The double a number of steps away from zero, taken apart: first the doubles below all powers of
two, then those with a leading one, then infinity, and beyond it no number. -/
def ofSteps (s : Sign) (n : Nat) : UnpackedFloat :=
  if h : n = 0 then .zero s
  else if n < 2 ^ 52 then .finite s n (-1074) (Nat.pos_of_ne_zero h)
  else if n < 2047 * 2 ^ 52 then
    .finite s (2 ^ 52 + n % 2 ^ 52) (n / 2 ^ 52 - 1075) (by omega)
  else if n = 2047 * 2 ^ 52 then .infinity s
  else .notANumber

/-- The sign that the bits of a double say. -/
def signOf (bits : Nat) : Sign := if bits < 2 ^ 63 then .positive else .negative

theorem unpackMantissa_toNat (b : BitVec Format.binary64.numBits) :
    (UnpackedFloat.unpackMantissa b).toNat = b.toNat % 2 ^ 52 := by
  simp [UnpackedFloat.unpackMantissa]

theorem unpackExponent_toNat (b : BitVec Format.binary64.numBits) :
    (UnpackedFloat.unpackExponent b).toNat = b.toNat / 2 ^ 52 % 2048 := by
  simp [UnpackedFloat.unpackExponent, Nat.shiftRight_eq_div_pow]

theorem ofBitVec_unpackSign (b : BitVec Format.binary64.numBits) :
    Sign.ofBitVec (UnpackedFloat.unpackSign b) = signOf b.toNat := by
  have hb : b.toNat < 2 ^ 64 := b.isLt
  have hbit : (UnpackedFloat.unpackSign b).toNat = b.toNat / 2 ^ 63 := by
    simp [UnpackedFloat.unpackSign, Nat.shiftRight_eq_div_pow]
    omega
  rw [Sign.ofBitVec, signOf]
  by_cases h : b.toNat < 2 ^ 63
  · have hzero : UnpackedFloat.unpackSign b = 0#1 := by
      apply BitVec.eq_of_toNat_eq
      rw [hbit, BitVec.toNat_ofNat]
      omega
    rw [if_pos h, if_pos hzero]
  · rw [if_neg h, if_neg]
    intro hzero
    rw [hzero, BitVec.toNat_ofNat] at hbit
    omega

theorem toNat_leading (b : BitVec Format.binary64.numBits) :
    (1#1 ++ UnpackedFloat.unpackMantissa b).toNat = 2 ^ 52 + b.toNat % 2 ^ 52 := by
  have hm := unpackMantissa_toNat b
  have hlt : b.toNat % 2 ^ 52 < 2 ^ 52 := Nat.mod_lt _ (by decide)
  have hone : (1#1).toNat <<< Format.binary64.mantissaBitsWithoutImplicit = 2 ^ 52 * 1 := by decide
  rw [BitVec.toNat_append, hm, hone, ← Nat.two_pow_add_eq_or_of_lt hlt]

section Classes

variable {s : Sign} {n : Nat}

theorem ofSteps_zero : ofSteps s 0 = .zero s := rfl

theorem ofSteps_small (h : 0 < n) (hn : n < 2 ^ 52) : ofSteps s n = .finite s n (-1074) h := by
  rw [ofSteps, dif_neg (by omega), if_pos hn]

theorem ofSteps_leading (h : 2 ^ 52 ≤ n) (hn : n < 2047 * 2 ^ 52) :
    ofSteps s n = .finite s (2 ^ 52 + n % 2 ^ 52) (n / 2 ^ 52 - 1075) (by omega) := by
  rw [ofSteps, dif_neg (by omega), if_neg (by omega), if_pos hn]

theorem ofSteps_infinity : ofSteps s (2047 * 2 ^ 52) = .infinity s := by
  rw [ofSteps, dif_neg (by decide), if_neg (by decide), if_neg (by decide), if_pos rfl]

theorem ofSteps_beyond (h : 2047 * 2 ^ 52 < n) : ofSteps s n = .notANumber := by
  rw [ofSteps, dif_neg (by omega), if_neg (by omega), if_neg (by omega), if_neg (by omega)]

end Classes

/-- **The bits of a double**, taken apart, are its sign and its steps from zero. -/
theorem unpack_bits (b : BitVec Format.binary64.numBits) :
    UnpackedFloat.unpack Format.binary64 b = ofSteps (signOf b.toNat) (b.toNat % 2 ^ 63) := by
  have hlt : b.toNat < 2 ^ 64 := b.isLt
  have hm := unpackMantissa_toNat b
  have he := unpackExponent_toNat b
  have hleading := toNat_leading b
  have hmax : UnpackedFloat.unpackExponent b = -1#_ ↔
      b.toNat / 2 ^ 52 % 2048 = 2047 := by
    rw [← BitVec.toNat_inj, he]
    rfl
  have hmin : UnpackedFloat.unpackExponent b = 0#_ ↔
      b.toNat / 2 ^ 52 % 2048 = 0 := by
    rw [← BitVec.toNat_inj, he]
    rfl
  have hnone : UnpackedFloat.unpackMantissa b =
      0#_ ↔ b.toNat % 2 ^ 52 = 0 := by
    rw [← BitVec.toNat_inj, hm]
    rfl
  have hbias : (Format.binary64.exponentBias : Int) +
      (Format.binary64.mantissaBitsWithoutImplicit : Int) = 1075 := by decide
  unfold UnpackedFloat.unpack
  simp only [ofBitVec_unpackSign, hmax, hmin, hnone, hm, he, hleading, hbias]
  generalize signOf b.toNat = s
  generalize b.toNat = n at *
  by_cases htop : n / 2 ^ 52 % 2048 = 2047
  · have hsteps : n % 2 ^ 63 = 2047 * 2 ^ 52 + n % 2 ^ 52 := by omega
    rw [if_pos htop]
    by_cases hfraction : n % 2 ^ 52 = 0
    · rw [if_pos hfraction, hsteps, hfraction, Nat.add_zero, ofSteps_infinity]
    · rw [if_neg hfraction, ofSteps_beyond (by omega)]
  · rw [if_neg htop]
    by_cases hbottom : n / 2 ^ 52 % 2048 = 0
    · have hsteps : n % 2 ^ 63 = n % 2 ^ 52 := by omega
      rw [if_pos hbottom, hsteps]
      by_cases hfraction : n % 2 ^ 52 = 0
      · rw [dif_pos hfraction, hfraction, ofSteps_zero]
      · rw [dif_neg hfraction, ofSteps_small (by omega) (Nat.mod_lt _ (by decide))]
        congr 1
        omega
    · rw [if_neg hbottom, ofSteps_leading (by omega) (by omega)]
      congr 1 <;> omega

/-! ### Places -/

/-- How many doubles lie between a double and zero, itself counted. -/
def steps (x : Float) : Nat := x.toBits.toNat % 2 ^ 63

/-- The place of a double on the line of all doubles, with both zeros at zero. -/
def place (x : Float) : Int := (signOf x.toBits.toNat).apply (steps x)

/-- The steps from zero to infinity. -/
def farthest : Nat := 2047 * 2 ^ 52

theorem unpack_eq (x : Float) :
    x.toModel.unpack = ofSteps (signOf x.toBits.toNat) (steps x) := unpack_bits _

theorem isNaN_ofSteps (s : Sign) (n : Nat) : (ofSteps s n).isNaN = decide (farthest < n) := by
  unfold ofSteps farthest
  split_ifs <;> simp only [UnpackedFloat.isNaN] <;> symm <;> simp <;> omega

theorem isNaN_iff {x : Float} : x.isNaN = true ↔ farthest < steps x := by
  have h : x.isNaN = (x.toModel.unpack).isNaN := rfl
  rw [h, unpack_eq, isNaN_ofSteps, decide_eq_true_eq]

theorem isInf_iff {x : Float} : x.isInf = true ↔ steps x = farthest := by
  have h : x.isInf = (x.toModel.unpack).isInf := rfl
  rw [h, unpack_eq]
  unfold ofSteps farthest
  split_ifs <;> simp only [UnpackedFloat.isInf] <;> simp <;> omega

/-- Numbers whose order is that of two parts compare as their parts do, the first part first. -/
theorem compare_lex {e e' : Int} {a a' : Nat} {i j : Int}
    (hlt : i < j ↔ e < e' ∨ e = e' ∧ a < a') (hgt : j < i ↔ e' < e ∨ e = e' ∧ a' < a) :
    (compare e e').then (compare a a') = compare i j := by
  rcases Int.lt_trichotomy i j with h | rfl | h
  · rw [Int.compare_eq_lt.mpr h]
    rcases hlt.mp h with he | ⟨rfl, ha⟩
    · rw [Int.compare_eq_lt.mpr he]
      rfl
    · rw [Int.compare_eq_eq.mpr rfl, Nat.compare_eq_lt.mpr ha]
      rfl
  · have he : e = e' := by omega
    have ha : a = a' := by omega
    rw [Int.compare_eq_eq.mpr he, Nat.compare_eq_eq.mpr ha, Int.compare_eq_eq.mpr rfl]
    rfl
  · rw [Int.compare_eq_gt.mpr h]
    rcases hgt.mp h with he | ⟨rfl, ha⟩
    · rw [Int.compare_eq_gt.mpr he]
      rfl
    · rw [Int.compare_eq_eq.mpr rfl, Nat.compare_eq_gt.mpr ha]
      rfl

/-- What a double is that so many steps from zero. -/
theorem ofSteps_cases (s : Sign) {n : Nat} (hn : n ≤ farthest) :
    n = 0 ∧ ofSteps s n = .zero s ∨
    (∃ m e hm, ofSteps s n = .finite s m e hm ∧ 0 < n ∧ n < farthest ∧
      ((n < 2 ^ 52 ∧ m = n ∧ e = -1074) ∨
        (2 ^ 52 ≤ n ∧ m = 2 ^ 52 + n % 2 ^ 52 ∧ e = (n / 2 ^ 52 : Nat) - 1075))) ∨
    n = farthest ∧ ofSteps s n = .infinity s := by
  have hfar : farthest = 2047 * 2 ^ 52 := rfl
  by_cases hzero : n = 0
  · subst hzero
    exact Or.inl ⟨rfl, rfl⟩
  · by_cases hsmall : n < 2 ^ 52
    · exact Or.inr (Or.inl ⟨_, _, _, ofSteps_small (by omega) hsmall, by omega, by omega,
        Or.inl ⟨hsmall, rfl, rfl⟩⟩)
    · by_cases htop : n < farthest
      · exact Or.inr (Or.inl ⟨_, _, _, ofSteps_leading (by omega) htop, by omega, htop,
          Or.inr ⟨by omega, rfl, rfl⟩⟩)
      · obtain rfl : n = farthest := by omega
        exact Or.inr (Or.inr ⟨rfl, ofSteps_infinity⟩)

/-- Two doubles compare as their places do. -/
theorem compare_ofSteps (s t : Sign) {n m : Nat} (hn : n ≤ farthest) (hm : m ≤ farthest) :
    (ofSteps s n).compare (ofSteps t m) = some (compare (s.apply n) (t.apply m)) := by
  have hfar : farthest = 2047 * 2 ^ 52 := rfl
  rcases ofSteps_cases s hn with ⟨rfl, hx⟩ | ⟨a, e, ha, hx, hpos, hlt, hparts⟩ | ⟨rfl, hx⟩ <;>
  rcases ofSteps_cases t hm with ⟨rfl, hy⟩ | ⟨b, f, hb, hy, hpos', hlt', hparts'⟩ | ⟨rfl, hy⟩ <;>
  rw [hx, hy]
  case inr.inl.inr.inl =>
    -- Both are finite: of the same sign, the exponents decide first.
    have hup : (n : Int) < m ↔ e < f ∨ e = f ∧ a < b := by omega
    have hdown : (m : Int) < n ↔ f < e ∨ e = f ∧ b < a := by omega
    cases s <;> cases t <;> simp only [UnpackedFloat.compare, Sign.apply]
    case positive.positive => rw [compare_lex hup hdown]
    case negative.negative =>
      have hneg : compare (-(n : Int)) (-(m : Int)) = compare (m : Int) n := by
        simp only [Int.compare_eq_ite_lt, Int.neg_lt_neg_iff]
      rw [compare_lex hup hdown, Int.compare_swap, hneg]
    case negative.positive => exact congrArg some (Int.compare_eq_lt.mpr (by omega)).symm
    case positive.negative => exact congrArg some (Int.compare_eq_gt.mpr (by omega)).symm
  all_goals
    cases s <;> cases t <;> simp only [UnpackedFloat.compare, Sign.apply]
    all_goals first
      | exact congrArg some (Int.compare_eq_lt.mpr (by omega)).symm
      | exact congrArg some (Int.compare_eq_gt.mpr (by omega)).symm
      | exact congrArg some (Int.compare_eq_eq.mpr (by omega)).symm

/-! ### The order of doubles -/

theorem steps_le {x : Float} (h : x.isNaN = false) : steps x ≤ farthest := by
  by_contra hlt
  rw [isNaN_iff.mpr (by omega)] at h
  cases h

theorem compare_eq {x y : Float} (hx : x.isNaN = false) (hy : y.isNaN = false) :
    x.toModel.unpack.compare y.toModel.unpack = some (compare (place x) (place y)) := by
  rw [unpack_eq, unpack_eq]
  exact compare_ofSteps _ _ (steps_le hx) (steps_le hy)

/-- What is no number compares with nothing. -/
theorem compare_eq_none {x y : Float} (h : x.isNaN = true ∨ y.isNaN = true) :
    x.toModel.unpack.compare y.toModel.unpack = none := by
  have hnumber {z : Float} (hz : z.isNaN = true) : z.toModel.unpack = .notANumber := by
    rw [unpack_eq, ofSteps_beyond (isNaN_iff.mp hz)]
  rcases h with h | h
  · rw [hnumber h]
    rfl
  · rw [hnumber h]
    cases x.toModel.unpack <;> rfl

/-- A test of how two doubles compare, which fails where they do not, tells two numbers. -/
theorem compare_iff {x y : Float} {t : Option Ordering → Prop} {related : Prop}
    (hnone : ¬ t none) (hsome : t (some (compare (place x) (place y))) ↔ related) :
    t (x.toModel.unpack.compare y.toModel.unpack) ↔
      x.isNaN = false ∧ y.isNaN = false ∧ related := by
  cases hx : x.isNaN with
  | true =>
    rw [compare_eq_none (Or.inl hx)]
    exact ⟨fun h => absurd h hnone, fun h => Bool.noConfusion h.1⟩
  | false =>
    cases hy : y.isNaN with
    | true =>
      rw [compare_eq_none (Or.inr hy)]
      exact ⟨fun h => absurd h hnone, fun h => Bool.noConfusion h.2.1⟩
    | false =>
      rw [compare_eq hx hy, hsome]
      exact ⟨fun h => ⟨rfl, rfl, h⟩, fun h => h.2.2⟩

theorem lt_iff {x y : Float} :
    x < y ↔ x.isNaN = false ∧ y.isNaN = false ∧ place x < place y := by
  have hlt : x < y ↔ (x.toModel.unpack.compare y.toModel.unpack == some .lt) = true :=
    decide_eq_true_iff
  rw [hlt, beq_iff_eq]
  refine compare_iff (t := fun o => o = some .lt) (by simp) ?_
  rw [Option.some.injEq, Int.compare_eq_lt]

theorem le_iff {x y : Float} :
    x ≤ y ↔ x.isNaN = false ∧ y.isNaN = false ∧ place x ≤ place y := by
  have hle : x ≤ y ↔ (x.toModel.unpack.compare y.toModel.unpack).any (·.isLE) = true :=
    decide_eq_true_iff
  rw [hle]
  refine compare_iff (t := fun o => o.any (·.isLE) = true) (by simp) ?_
  rw [Option.any_some, Int.isLE_compare]

theorem beq_iff {x y : Float} :
    (x == y) = true ↔ x.isNaN = false ∧ y.isNaN = false ∧ place x = place y := by
  have hbeq : (x == y) = (x.toModel.unpack.compare y.toModel.unpack == some .eq) := rfl
  rw [hbeq, beq_iff_eq]
  refine compare_iff (t := fun o => o = some .eq) (by simp) ?_
  rw [Option.some.injEq, Int.compare_eq_eq]

theorem le_refl {x : Float} (h : x.isNaN = false) : x ≤ x := le_iff.mpr ⟨h, h, Int.le_refl _⟩

theorem le_trans {x y z : Float} (hxy : x ≤ y) (hyz : y ≤ z) : x ≤ z := by
  obtain ⟨hx, -, hle⟩ := le_iff.mp hxy
  obtain ⟨-, hz, hle'⟩ := le_iff.mp hyz
  exact le_iff.mpr ⟨hx, hz, Int.le_trans hle hle'⟩

theorem le_of_not_lt {x y : Float} (hx : x.isNaN = false) (hy : y.isNaN = false) (h : ¬ y < x) :
    x ≤ y := by
  rw [lt_iff] at h
  rw [le_iff]
  refine ⟨hx, hy, ?_⟩
  by_contra hplace
  exact h ⟨hy, hx, by omega⟩

theorem le_of_lt {x y : Float} (h : x < y) : x ≤ y := by
  obtain ⟨hx, hy, hlt⟩ := lt_iff.mp h
  exact le_iff.mpr ⟨hx, hy, Int.le_of_lt hlt⟩

theorem isNaN_of_le {x y : Float} (h : x ≤ y) : y.isNaN = false := (le_iff.mp h).2.1

end LedgerLoad.Double
