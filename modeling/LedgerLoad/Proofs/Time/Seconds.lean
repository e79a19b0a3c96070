import LedgerLoad.Proofs.Double.Positive
import LedgerLoad.Time.Duration

/-! # Spans in seconds

The seconds of a span are the sum of two doubles, the whole seconds and the share of a second, so
they are rounded three times. None of it ever reverses two spans: a longer span has as many seconds
or more (`Duration.toSeconds_mono`). Among the whole seconds that are doubles themselves the share
stays within its second; beyond them it is too small to change the sum. -/

namespace LedgerLoad

namespace Duration

open Double

variable {a b : Duration}

/-- The share of a second that a span has beyond its whole seconds. -/
def share (d : Duration) : Float := .ofNat d.subsecond / 1e9

theorem near_share (d : Duration) : Near ((d.subsecond : ℚ) / second * whole) d.share := by
  have hbillion : (1e9 : Float) = .ofNat second := by decide +kernel
  have hsteps : steps (.ofNat second) = 4741671816366391296 := by decide +kernel
  have hlt : d.subsecond < second := Nat.mod_lt _ (by decide)
  have hfinite : steps (.ofNat d.subsecond) < farthest :=
    (steps_ofNat_mono hlt.le).trans_lt (by rw [hsteps]; decide)
  have hnear := near_div (near_ofNat d.subsecond).sign (near_ofNat second).sign hfinite
    (by rw [hsteps]; decide) (by rw [hsteps]; decide)
  rw [units_ofNat (hlt.le.trans (by decide)), units_ofNat (by decide), Nat.cast_mul, Nat.cast_mul,
    mul_div_mul_right _ _ whole_pos.ne', ← hbillion] at hnear
  exact hnear

theorem steps_share_mono (h : a.subsecond ≤ b.subsecond) : steps a.share ≤ steps b.share := by
  have hle : (a.subsecond : ℚ) ≤ b.subsecond := Nat.cast_le.mpr h
  refine a.near_share.rounds.mono b.near_share.rounds ?_
  exact mul_le_mul_of_nonneg_right (div_le_div_of_nonneg_right hle (Nat.cast_nonneg _))
    whole_pos.le

/-- A share of a second is less than the second. -/
theorem steps_share_lt (d : Duration) : steps d.share < 1023 * 2 ^ 52 := by
  have hlt : d.subsecond < second := Nat.mod_lt _ (by decide)
  have hgreatest : steps (share ⟨second - 1⟩) < 1023 * 2 ^ 52 := by decide +kernel
  exact (steps_share_mono (Nat.le_pred_of_lt hlt)).trans_lt hgreatest

/-! ### The order of spans -/

/-- The seconds of a span are a positive double. -/
theorem positive_toSeconds (d : Duration) : Positive d.toSeconds :=
  (near_ofNat d.seconds).positive.add d.near_share.positive

/-- Spans are in the order of what is added up to their seconds. -/
theorem toSeconds_le_of_units (hfinite : steps (.ofNat a.seconds) < farthest)
    (hfinite' : steps (.ofNat b.seconds) < farthest)
    (h : units (steps (.ofNat a.seconds)) + units (steps a.share) ≤
      units (steps (.ofNat b.seconds)) + units (steps b.share)) :
    a.toSeconds ≤ b.toSeconds := by
  have hfar : farthest = 2047 * 2 ^ 52 := rfl
  have hshare := a.steps_share_lt
  have hshare' := b.steps_share_lt
  rw [a.positive_toSeconds.le_iff b.positive_toSeconds]
  refine (near_add (near_ofNat a.seconds).sign a.near_share.sign hfinite (by omega)).rounds.mono
    (near_add (near_ofNat b.seconds).sign b.near_share.sign hfinite' (by omega)).rounds ?_
  exact_mod_cast h

/-- From `2 ^ 53` seconds on a share of a second does not count. -/
theorem steps_toSeconds {d : Duration} (hd : 2 ^ 53 ≤ d.seconds)
    (hfinite : steps (.ofNat d.seconds) < farthest) :
    steps d.toSeconds = steps (.ofNat d.seconds) := by
  have hfull : 1076 * 2 ^ 52 ≤ steps (.ofNat d.seconds) := steps_ofNat_full ▸ steps_ofNat_mono hd
  have hshare := d.steps_share_lt
  have hfar : farthest = 2047 * 2 ^ 52 := rfl
  have hnear := near_add (near_ofNat d.seconds).sign d.near_share.sign hfinite (by omega)
  refine hnear.rounds.unique ?_
  obtain ⟨k, r, hsteps, hr, hk⟩ := exists_digits (steps (.ofNat d.seconds))
  rw [hsteps] at hfinite ⊢
  refine rounds_units_add hr hk hfinite.le (Nat.cast_nonneg _) ?_
  -- The last digit counts two seconds at least.
  have hsmall : units (steps d.share) < whole := units_one ▸ units_lt hshare (by decide)
  have hdigit : 2 * whole ≤ 2 ^ k := by
    have hpow (w j : ℕ) (hw : w = 2 ^ j) (h : j + 1 ≤ k) : 2 * w ≤ 2 ^ k := by
      rw [hw, ← Nat.pow_succ']
      exact Nat.pow_le_pow_right (by decide) h
    exact hpow whole 1074 (by rw [whole]) (by omega)
  exact_mod_cast (by omega : 2 * units (steps d.share) < 2 ^ k)

/-- A second that is over has at most the seconds of the next. -/
theorem toSeconds_le_of_seconds_lt (h : a.seconds < b.seconds)
    (hfinite : steps (.ofNat b.seconds) < farthest) : a.toSeconds ≤ b.toSeconds := by
  have hmono := steps_ofNat_mono h.le
  by_cases hexact : a.seconds < 2 ^ 53
  · refine toSeconds_le_of_units (hmono.trans_lt hfinite) hfinite ?_
    have hpart : units (steps a.share) < whole := units_one ▸ units_lt a.steps_share_lt (by decide)
    have hnext := units_mono (steps_ofNat_mono h) hfinite.le
    rw [units_ofNat hexact, Nat.succ_mul] at hnext
    rw [units_ofNat hexact.le]
    omega
  · rw [a.positive_toSeconds.le_iff b.positive_toSeconds, steps_toSeconds (by omega) (by omega),
      steps_toSeconds (by omega) hfinite]
    exact hmono

theorem toSeconds_le_of_seconds_eq (hseconds : a.seconds = b.seconds)
    (hsubsecond : a.subsecond ≤ b.subsecond) (hfinite : steps (.ofNat b.seconds) < farthest) :
    a.toSeconds ≤ b.toSeconds := by
  refine toSeconds_le_of_units (hseconds ▸ hfinite) hfinite ?_
  rw [hseconds]
  exact Nat.add_le_add_left (units_mono (steps_share_mono hsubsecond)
    b.near_share.rounds.le_farthest) _

/-- **A longer span does not have fewer seconds.** -/
theorem toSeconds_mono (h : a ≤ b) : a.toSeconds ≤ b.toSeconds := by
  have hnanos : a.nanos ≤ b.nanos := h
  have hwhole := (near_ofNat b.seconds).positive
  have hseconds : a.seconds ≤ b.seconds := Nat.div_le_div_right hnanos
  by_cases htop : steps (.ofNat b.seconds) = farthest
  · have hsum := (add_infinity hwhole b.near_share.positive (Or.inl htop)).2
    rw [a.positive_toSeconds.le_iff b.positive_toSeconds]
    exact a.positive_toSeconds.steps_le.trans hsum.ge
  · have hfinite := lt_of_le_of_ne hwhole.steps_le htop
    rcases hseconds.lt_or_eq with hlt | heq
    · exact toSeconds_le_of_seconds_lt hlt hfinite
    · refine toSeconds_le_of_seconds_eq heq ?_ hfinite
      unfold seconds second at heq
      unfold subsecond second
      omega

end Duration

end LedgerLoad
