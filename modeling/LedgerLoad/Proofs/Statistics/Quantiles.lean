import LedgerLoad.Proofs.Double.Positive
import LedgerLoad.Proofs.Statistics.Histogram
import LedgerLoad.Statistics.Figures

/-! # Quantiles of the latencies

A share of the samples stands for a rank, the product of the share and their number rounded up. The
product is one of doubles; a greater share does not have a smaller rank for that, and the usual
shares do not have a rank beyond all samples. Main statement: `Statistics.quantiles_bracket`, what
is reported for a rank brackets the sample of that rank, and is not less for a greater share. -/

namespace LedgerLoad

open Double

namespace Statistics

variable {share share' : Float} {n : ℕ}

/-! ### Rounding up -/

/-- A double is rounded up to the least natural number that is not below it. -/
theorem ceiling_le_iff {x : Float} (hx : Positive x) (hfinite : steps x < farthest) {k : ℕ} :
    ceiling x ≤ k ↔ value x ≤ k := by
  obtain ⟨m, place, hparts, hunits⟩ := parts_of_positive hx.sign hfinite
  obtain ⟨a, ha⟩ : ∃ a, a = ((place : ℤ) - 1074).toNat := ⟨_, rfl⟩
  obtain ⟨d, hd⟩ : ∃ d, d = (-((place : ℤ) - 1074)).toNat := ⟨_, rfl⟩
  have hscaled : Decimal.scaled m (place - 1074) 0 = (m * 2 ^ a, 2 ^ d) := by
    rw [Decimal.scaled, ← ha, ← hd]
    show (m * 2 ^ a * 1, 2 ^ d * 1) = _
    rw [Nat.mul_one, Nat.mul_one]
  have hpos : (0 : ℚ) < 2 ^ d := by positivity
  have hvalue : value x = (m * 2 ^ a : ℕ) / 2 ^ d := by
    have hplaces : a + 1074 = place + d := by omega
    have hpow : (2 : ℚ) ^ a * whole = 2 ^ place * 2 ^ d := by
      rw [cast_whole, ← pow_add, ← pow_add, hplaces]
    rw [value, hunits, div_eq_div_iff whole_pos.ne' hpos.ne']
    push_cast
    linear_combination -(m : ℚ) * hpow
  have hceiling : ceiling x = (m * 2 ^ a + 2 ^ d - 1) / 2 ^ d := by
    rw [ceiling, hparts]
    dsimp only
    rw [hscaled]
  rw [hceiling, hvalue, div_le_iff₀ hpos, Nat.div_le_iff_le_mul_add_pred (Nat.two_pow_pos d)]
  have hcast : ((m * 2 ^ a : ℕ) : ℚ) ≤ k * 2 ^ d ↔ m * 2 ^ a ≤ k * 2 ^ d := by
    exact_mod_cast Iff.rfl
  have hcomm := Nat.mul_comm k (2 ^ d)
  have htwo := Nat.two_pow_pos d
  rw [hcast]
  omega

theorem ceiling_infinite {x : Float} (hx : Positive x) (htop : steps x = farthest) :
    ceiling x = 0 := by
  rw [ceiling, parts_of_infinite hx.sign htop]

theorem ceiling_mono {x y : Float} (hx : Positive x) (hy : Positive y) (h : steps x ≤ steps y)
    (hfinite : steps y < farthest) : ceiling x ≤ ceiling y :=
  (ceiling_le_iff hx (h.trans_lt hfinite)).mpr
    ((value_mono h hfinite.le).trans ((ceiling_le_iff hy hfinite).mp le_rfl))

/-! ### Shares -/

/-- A double above zero and not above one. -/
structure IsShare (x : Float) : Prop extends Positive x where
  pos : 0 < steps x
  steps_le_one : steps x ≤ steps 1

theorem steps_one : steps 1 = 1023 * 2 ^ 52 := by decide +kernel

theorem isShare_one : IsShare 1 :=
  have hone : (0 : Float) < 1 := by decide +kernel
  ⟨(positive_of_pos hone).1, (positive_of_pos hone).2, le_rfl⟩

theorem IsShare.steps_lt (h : IsShare share) : steps share < farthest :=
  h.steps_le_one.trans_lt (by rw [steps_one]; decide)

theorem IsShare.value_le_one (h : IsShare share) : value share ≤ 1 :=
  (value_mono h.steps_le_one isShare_one.steps_le).trans value_one.le

/-- A share above zero is taken for what it is, or for one. -/
theorem clamp_spec (h : 0 < share) :
    IsShare (clamp share) ∧ steps (clamp share) = min (steps share) (steps 1) := by
  obtain ⟨hpositive, hpos⟩ := positive_of_pos h
  have hplace := hpositive.place
  have hplace_one : place 1 = steps 1 := isShare_one.place
  have hzero : place 0 = 0 := by decide +kernel
  have hnotneg : ¬ share < 0 := fun hneg => by
    have hbelow := (lt_iff.mp hneg).2.2
    omega
  rw [clamp, if_neg hnotneg]
  split_ifs with habove
  · have hbeyond := (lt_iff.mp habove).2.2
    exact ⟨isShare_one, by omega⟩
  · have hle := (hpositive.le_iff isShare_one.toPositive).mp
      (le_of_not_lt hpositive.isNaN isShare_one.isNaN habove)
    exact ⟨⟨hpositive, hpos, hle⟩, by omega⟩

/-! ### Ranks -/

/-- A share of so many values, as long as their number is finite as a double. -/
theorem IsShare.near_mul (h : IsShare share) (hn : steps (.ofNat n) < farthest) :
    Near (value share * value (.ofNat n) * whole) (share * .ofNat n) ∧
      steps (share * .ofNat n) ≤ steps (.ofNat n) := by
  have hnear := near_mul_value h.sign (near_ofNat n).sign h.steps_lt hn
  refine ⟨hnear, hnear.rounds.mono (rounds_units hn.le) ?_⟩
  rw [units_eq_value]
  exact mul_le_mul_of_nonneg_right
    (mul_le_of_le_one_left (value_nonneg _) h.value_le_one) whole_pos.le

theorem IsShare.rank_infinite (h : IsShare share) (hn : steps (.ofNat n) = farthest) :
    rank share n = 1 := by
  obtain ⟨hpositive, htop⟩ := mul_infinity h.toPositive h.pos (near_ofNat n).positive hn
  rw [rank, ceiling_infinite hpositive htop]
  rfl

/-- **A greater share does not stand for a smaller rank.** -/
theorem rank_mono (h : IsShare share) (h' : IsShare share') (hle : steps share ≤ steps share') :
    rank share n ≤ rank share' n := by
  rcases Nat.lt_or_eq_of_le (near_ofNat n).positive.steps_le with hn | hn
  · obtain ⟨hnear, -⟩ := h.near_mul hn
    obtain ⟨hnear', hsteps'⟩ := h'.near_mul hn
    have hproduct : steps (share * .ofNat n) ≤ steps (share' * .ofNat n) :=
      hnear.rounds.mono hnear'.rounds (mul_le_mul_of_nonneg_right
        (mul_le_mul_of_nonneg_right (value_mono hle h'.steps_le) (value_nonneg _)) whole_pos.le)
    have hceiling := ceiling_mono hnear.positive hnear'.positive hproduct (hsteps'.trans_lt hn)
    unfold rank
    omega
  · rw [h.rank_infinite hn, h'.rank_infinite hn]

theorem one_le_rank : 1 ≤ rank share n := Nat.le_max_left _ _

theorem steps_ofNat_lt_farthest (hn : n ≤ 2 ^ 53) : steps (.ofNat n) < farthest := by
  have hfull := steps_ofNat_mono hn
  rw [steps_ofNat_full] at hfull
  exact hfull.trans_lt (by decide)

/-- As far as natural numbers are doubles, no share stands for a rank beyond all values. -/
theorem IsShare.rank_le (h : IsShare share) (hpos : 0 < n) (hn : n ≤ 2 ^ 53) :
    rank share n ≤ n := by
  have hfinite := steps_ofNat_lt_farthest hn
  obtain ⟨hnear, hsteps⟩ := h.near_mul hfinite
  have hceiling : ceiling (share * .ofNat n) ≤ n := by
    rw [ceiling_le_iff hnear.positive (hsteps.trans_lt hfinite), ← value_ofNat hn]
    exact value_mono hsteps hfinite.le
  unfold rank
  omega

/-- A share that is less than one by more than its rounding never does. -/
theorem IsShare.rank_le_of_value (h : IsShare share) (hshare : value share ≤ 999 / 1000)
    (hpos : 0 < n) : rank share n ≤ n := by
  rcases Nat.lt_or_eq_of_le (near_ofNat n).positive.steps_le with hfinite | hinfinite
  · obtain ⟨hnear, hsteps⟩ := h.near_mul hfinite
    have hone : (1 : ℚ) ≤ n := by exact_mod_cast hpos
    have htiny : 1 / (2 * (whole : ℚ)) ≤ 1 / 2 ^ 53 := by
      have hpow : (2 : ℚ) ^ 53 ≤ 2 ^ 1074 := pow_le_pow_right₀ one_le_two (by decide)
      refine one_div_le_one_div_of_le (by positivity) ?_
      rw [cast_whole]
      exact hpow.trans (le_mul_of_one_le_left (by positivity) one_le_two)
    have hcount := (near_ofNat n).value_le (Nat.cast_nonneg n) hfinite
    have hproduct := hnear.value_le (mul_nonneg (value_nonneg _) (value_nonneg _))
      (hsteps.trans_lt hfinite)
    have hmul : value share * value (.ofNat n) ≤ 999 / 1000 * value (.ofNat n) :=
      mul_le_mul_of_nonneg_right hshare (value_nonneg _)
    have hceiling : ceiling (share * .ofNat n) ≤ n := by
      rw [ceiling_le_iff hnear.positive (hsteps.trans_lt hfinite)]
      linarith
    unfold rank
    omega
  · rw [h.rank_infinite hinfinite]
    exact hpos

/-! ### Quantiles -/

/-- A whole number of microseconds in seconds. -/
def seconds (micros : ℕ) : Float := .ofNat micros / 1000000

/-- **More microseconds are not fewer seconds.** -/
theorem seconds_mono {v v' : ℕ} (h : v ≤ v') (hv' : v' < 2 ^ 64) : seconds v ≤ seconds v' := by
  have hmillion : (1000000 : Float) = .ofNat 1000000 := by decide +kernel
  have hsteps : steps (.ofNat 1000000) = 4696837146684686336 := by decide +kernel
  have hword {w : ℕ} (hw : w < 2 ^ 64) :
      Near (value (.ofNat w) / value (.ofNat 1000000) * whole) (seconds w) := by
    rw [seconds, hmillion]
    exact near_div_value (near_ofNat w).sign (near_ofNat 1000000).sign
      ((near_ofNat w).steps_lt (j := 64) (by exact_mod_cast hw.le) (by decide))
      (by rw [hsteps]; decide) (by rw [hsteps]; decide)
  have hnear := hword (h.trans_lt hv')
  have hnear' := hword hv'
  refine (hnear.positive.le_iff hnear'.positive).mpr (hnear.rounds.mono hnear'.rounds ?_)
  exact mul_le_mul_of_nonneg_right (div_le_div_of_nonneg_right
    (value_mono (steps_ofNat_mono h) (near_ofNat v').positive.steps_le) (value_nonneg _))
    whole_pos.le

/-- Every value that is reported is one of 64 bits. -/
theorem atRank_lt (h : Histogram) (r : ℕ) : h.atRank r < 2 ^ 64 := by
  have hgreatest : Histogram.greatest = 2 ^ 64 - 1 := rfl
  unfold Histogram.atRank
  split
  · unfold Histogram.highest
    omega
  · decide

theorem quantile_eq (s : Statistics) (h : 0 < share) : s.quantile share =
    s.figure (seconds (s.histogram.atRank (rank (clamp share) s.latencies.length))) := by
  have hpos := (clamp_spec h).1.pos
  have hzero : (clamp share == 0) = false := by
    rw [Bool.eq_false_iff]
    intro heq
    have hplace := (beq_iff.mp heq).2.2
    have hbottom : place 0 = 0 := by decide +kernel
    rw [(clamp_spec h).1.place, hbottom] at hplace
    omega
  rw [quantile, hzero]
  rfl

/-- The doubles from a half to one are fractions by `2 ^ 53`. -/
theorem value_of_half_le {x : Float} {r : ℕ} (h : steps x = 1021 * 2 ^ 52 + r) (hr : 2 ^ 52 ≤ r)
    (hr' : r ≤ 2 ^ 53) : value x = r / 2 ^ 53 := by
  have hwhole : (whole : ℚ) = 2 ^ 53 * 2 ^ 1021 := by rw [cast_whole, ← pow_add]
  have hunits : ((r * 2 ^ 1021 : ℕ) : ℚ) = r * 2 ^ 1021 := by
    simp only [Nat.cast_mul, Nat.cast_pow, Nat.cast_ofNat]
  rw [value, h, units_eq hr' (Or.inr hr), hunits, hwhole, mul_div_mul_right _ _ (by positivity)]

theorem value_ninety_nine : value 0.99 ≤ 999 / 1000 := by
  have hsteps : steps 0.99 = 1021 * 2 ^ 52 + 8917127262193582 := by decide +kernel
  rw [value_of_half_le hsteps (by decide) (by decide)]
  norm_num

/-- What is reported for the ranks and the shares of the samples. -/
structure Quantiles (s : Statistics) : Prop where
  /-- The sample of a rank is bracketed, -/
  brackets : ∀ r, 1 ≤ r → r ≤ s.latencies.length → ∃ x,
    (s.latencies.map micros).mergeSort[r - 1]? = some x ∧
      Histogram.Brackets x (s.histogram.atRank r)
  /-- and nothing less is reported for a higher rank. -/
  ascending : ∀ r r', 1 ≤ r → r ≤ r' → r' ≤ s.latencies.length →
    s.histogram.atRank r ≤ s.histogram.atRank r'
  /-- A quantile is what is reported for the rank of its share, in seconds. -/
  quantile : ∀ share, 0 < share → s.quantile share =
    s.figure (seconds (s.histogram.atRank (rank (clamp share) s.latencies.length)))
  /-- The rank is the product of the share and the number of samples, rounded up, and at least the
  first. -/
  rounded : ∀ share, 0 < share → s.latencies.length ≤ 2 ^ 53 →
    rank (clamp share) s.latencies.length ≤ s.latencies.length ∧
      ∀ k : ℕ, rank (clamp share) s.latencies.length ≤ k ↔
        1 ≤ k ∧ value (clamp share * .ofNat s.latencies.length) ≤ k
  ordered : ∀ share share', 0 < share → share ≤ share' →
    rank (clamp share') s.latencies.length ≤ s.latencies.length →
    ∀ a b, s.quantile share = some a → s.quantile share' = some b → a ≤ b
  /-- The shares of a report stand for ranks of samples, however many there are. -/
  percentiles : ∀ a b, s.quantile 0.90 = some a → s.quantile 0.99 = some b → a ≤ b

/-- Of two figures that are available, one is not below the other if its value is not. -/
theorem figure_le {s : Statistics} {x y : Float} (h : x ≤ y) :
    ∀ a b, s.figure x = some a → s.figure y = some b → a ≤ b := by
  unfold figure
  intro a b ha hb
  split_ifs at ha hb with havailable
  rw [← Option.some.inj ha, ← Option.some.inj hb]
  exact h

theorem histogram_mono (s : Statistics) {r r' : ℕ} (hr : 1 ≤ r) (hle : r ≤ r')
    (hle' : r' ≤ s.latencies.length) : s.histogram.atRank r ≤ s.histogram.atRank r' :=
  Histogram.atRank_mono hr hle (by rwa [List.length_map])

/-- **A greater share does not have a smaller quantile**, unless its rank is beyond all samples. -/
theorem quantile_mono (s : Statistics) (h : 0 < share) (hle : share ≤ share')
    (hrank : rank (clamp share') s.latencies.length ≤ s.latencies.length) :
    ∀ a b, s.quantile share = some a → s.quantile share' = some b → a ≤ b := by
  obtain ⟨-, hnumber', hplace⟩ := le_iff.mp hle
  have h' : 0 < share' :=
    lt_iff.mpr ⟨(lt_iff.mp h).1, hnumber', (lt_iff.mp h).2.2.trans_le hplace⟩
  obtain ⟨hclamped, hmin⟩ := clamp_spec h
  obtain ⟨hclamped', hmin'⟩ := clamp_spec h'
  have hsteps := ((positive_of_pos h).1.le_iff (positive_of_pos h').1).mp hle
  have hranks := rank_mono hclamped hclamped' (n := s.latencies.length) (by omega)
  rw [quantile_eq s h, quantile_eq s h']
  exact figure_le (seconds_mono (s.histogram_mono one_le_rank hranks hrank) (atRank_lt _ _))

/-- **What is reported for a rank brackets the sample of that rank**, and a greater share of the
samples does not have a smaller quantile. -/
theorem quantiles_bracket (s : Statistics) (hmicros : ∀ v ∈ s.latencies.map micros, v < 2 ^ 63)
    (hsome : s.latencies ≠ []) : s.Quantiles where
  brackets r hr hle := by
    have hcount : r ≤ (s.latencies.map micros).length := by rwa [List.length_map]
    obtain ⟨x, hx, hsample⟩ := Histogram.exists_getElem?_rank hr hcount
    refine ⟨x, hsample, ?_⟩
    rw [histogram, Histogram.atRank_eq hr hsample]
    exact Histogram.bracket_highest (hmicros x hx)
  ascending _ _ := s.histogram_mono
  quantile _ := quantile_eq s
  rounded share h hfull := by
    have hclamped := (clamp_spec h).1
    have hfinite := steps_ofNat_lt_farthest hfull
    obtain ⟨hnear, hsteps⟩ := hclamped.near_mul hfinite
    refine ⟨hclamped.rank_le (List.length_pos_iff.mpr hsome) hfull, fun k => ?_⟩
    rw [rank, Nat.max_le, ceiling_le_iff hnear.positive (hsteps.trans_lt hfinite)]
  ordered _ _ := s.quantile_mono
  percentiles := by
    have hninety : (0 : Float) < 0.90 ∧ (0.90 : Float) ≤ 0.99 := by decide +kernel
    have hclamp : clamp 0.99 = 0.99 := by decide +kernel
    have hshare : (0 : Float) < 0.99 := by decide +kernel
    refine s.quantile_mono hninety.1 hninety.2 ?_
    have hclamped := (clamp_spec hshare).1
    rw [hclamp] at hclamped ⊢
    exact hclamped.rank_le_of_value value_ninety_nine (List.length_pos_iff.mpr hsome)

/-- Two latencies that a histogram keeps apart to the microsecond, and one that it does not. -/
def spread : Statistics := ⟨3, 3, 3, 0, 5, [0.001, 0.002, 2.5003]⟩

theorem quantiles_bracket_spread : (∀ v ∈ spread.latencies.map micros, v < 2 ^ 63) ∧
    spread.latencies.map micros = [1000, 2000, 2500300] ∧ spread.histogram.atRank 3 = 2500607 ∧
    spread.quantile 0.90 = some 2.500607 ∧ spread.Quantiles := by
  have hmicros : ∀ v ∈ spread.latencies.map micros, v < 2 ^ 63 := by decide +kernel
  exact ⟨hmicros, by decide +kernel, by decide +kernel, by decide +kernel,
    quantiles_bracket spread hmicros (by decide +kernel)⟩

end Statistics

end LedgerLoad
