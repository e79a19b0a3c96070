import LedgerLoad.Plan
import LedgerLoad.Proofs.Double.Finite
import LedgerLoad.Proofs.Double.Whole
import LedgerLoad.Proofs.Time.Seconds

/-! # When interactions are due

The number of interactions of a workload and the time at which each is due come of doubles: of a
product that is rounded down to a word, and of a quotient that is rounded to nanoseconds. Later
interactions are not due earlier, so that it is the last one of a workload that may be due too late
(`Workload.due?_mono`); none is if the workload ends two hours before the end of all time
(`Workload.due?_early`), which is what rounding may amount to. -/

namespace LedgerLoad

open Double

/-! ### From seconds to nanoseconds -/

namespace Duration

/-- The nanoseconds of a number of seconds are the nearest ones, if they are a span at all. -/
theorem ofSeconds?_finite {x : Float} (hx : Positive x) (hfinite : steps x < farthest) :
    ∃ n : ℕ, Nearest (value x * second) n ∧
      ofSeconds? x = if n ≤ longest.nanos then some ⟨n⟩ else none := by
  obtain ⟨m, k, hparts, hunits⟩ := parts_of_positive hx.sign hfinite
  obtain ⟨a, ha⟩ : ∃ a, a = ((k : ℤ) - 1074).toNat := ⟨_, rfl⟩
  obtain ⟨d, hd⟩ : ∃ d, d = (-((k : ℤ) - 1074)).toNat := ⟨_, rfl⟩
  have hscaled : Decimal.scaled m (k - 1074) 9 = (m * 2 ^ a * second, 2 ^ d) := by
    rw [Decimal.scaled, ← ha, ← hd]
    show (_, 2 ^ d * 1) = _
    rw [Nat.mul_one]
    rfl
  have hvalue : ((m * 2 ^ a * second : ℕ) : ℚ) / (2 ^ d : ℕ) = value x * second := by
    have hplaces : a + 1074 = k + d := by omega
    have hpow : (2 : ℚ) ^ a * whole = 2 ^ k * 2 ^ d := by
      rw [cast_whole, ← pow_add, ← pow_add, hplaces]
    have hpos : (0 : ℚ) < 2 ^ d := by positivity
    rw [value, hunits, div_mul_eq_mul_div, Nat.cast_pow, Nat.cast_ofNat,
      div_eq_div_iff hpos.ne' whole_pos.ne']
    push_cast
    linear_combination (m * second : ℚ) * hpow
  refine ⟨_, hvalue ▸ nearest_roundHalfEven (m * 2 ^ a * second) (Nat.two_pow_pos d), ?_⟩
  rw [ofSeconds?, hparts]
  dsimp only
  rw [if_neg (by simp), hscaled]

theorem ofSeconds?_infinite {x : Float} (hx : Positive x) (hinfinite : steps x = farthest) :
    ofSeconds? x = none := by
  rw [ofSeconds?, parts_of_infinite hx.sign hinfinite]

/-- More seconds are no shorter a span, and if they are a span, so are fewer. -/
theorem ofSeconds?_mono {x y : Float} (hx : Positive x) (hy : Positive y) (h : steps x ≤ steps y)
    {b : Duration} (hb : ofSeconds? y = some b) : ∃ a, ofSeconds? x = some a ∧ a ≤ b := by
  by_cases hinfinite : steps y = farthest
  · rw [ofSeconds?_infinite hy hinfinite] at hb
    cases hb
  have hfinite : steps y < farthest := lt_of_le_of_ne hy.steps_le hinfinite
  obtain ⟨n, hn, hspan⟩ := ofSeconds?_finite hx (h.trans_lt hfinite)
  obtain ⟨m, hm, hspan'⟩ := ofSeconds?_finite hy hfinite
  rw [hspan'] at hb
  split_ifs at hb with hlong
  obtain rfl := Option.some.inj hb
  have hle : n ≤ m := hn.mono hm (mul_le_mul_of_nonneg_right (value_mono h hfinite.le)
    (Nat.cast_nonneg _))
  exact ⟨⟨n⟩, by rw [hspan, if_pos (hle.trans hlong)], hle⟩

/-- A span is no more seconds than its whole ones and one. -/
theorem steps_toSeconds_le {d : Duration} (hd : d.seconds < 2 ^ 64) :
    steps d.toSeconds ≤ steps (.ofNat (d.seconds + 1)) := by
  have hfar : farthest = 2047 * 2 ^ 52 := rfl
  have hle : d ≤ ofSeconds (d.seconds + 1) := by
    have hsplit := Nat.div_add_mod d.nanos second
    have hlt := Nat.mod_lt d.nanos (by decide : 0 < second)
    show d.nanos ≤ (d.nanos / second + 1) * second
    rw [Nat.add_mul, Nat.one_mul, Nat.mul_comm]
    omega
  have hmono := ((positive_toSeconds d).le_iff (positive_toSeconds _)).mp (toSeconds_mono hle)
  refine hmono.trans (le_of_eq ?_)
  generalize hn : d.seconds + 1 = n
  have hseconds : (ofSeconds n).seconds = n := Nat.mul_div_cancel n (by decide)
  have hsubsecond : (ofSeconds n).subsecond = 0 := Nat.mul_mod_left n second
  have hnone : steps (ofSeconds n).share = 0 := by
    rw [share, hsubsecond]
    decide +kernel
  have hfinite : steps (.ofNat n) < farthest := by
    refine Near.steps_lt (near_ofNat n) (j := 64) ?_ (by decide)
    exact_mod_cast (by omega : n ≤ 2 ^ 64)
  have hnear := near_add (near_ofNat (ofSeconds n).seconds).sign (ofSeconds n).near_share.sign
    (by rw [hseconds]; exact hfinite) (by rw [hnone]; decide)
  rw [hnone, hseconds] at hnear
  show steps (.ofNat (ofSeconds n).seconds + (ofSeconds n).share) = _
  rw [hseconds]
  refine hnear.rounds.unique ?_
  have hzero : units 0 = 0 := rfl
  rw [hzero, Nat.cast_zero, add_zero]
  exact rounds_units hfinite.le

end Duration

/-! ### Workloads -/

/-- A rate that is accepted is a positive double, finite and not zero. -/
theorem Benchmark.positive_of_isRate {rate : Float} (h : isRate rate = true) :
    Positive rate ∧ 0 < steps rate ∧ steps rate < farthest := by
  rw [isRate, Bool.and_eq_true, decide_eq_true_eq] at h
  obtain ⟨hfinite, hpos⟩ := h
  obtain ⟨hpositive, hsteps⟩ := positive_of_pos hpos
  refine ⟨hpositive, hsteps, lt_of_le_of_ne hpositive.steps_le fun hinfinite => ?_⟩
  have hall : rate.isFinite = rate.toModel.unpack.isFinite := rfl
  rw [hall, unpack_of_steps_farthest hpositive.sign hinfinite] at hfinite
  cases hfinite

namespace Workload

variable {w : Workload}

theorem due?_eq (w : Workload) (i : ℕ) :
    w.due? i = (Duration.ofSeconds? (Float.ofNat i / w.rate)).bind w.start.add? := rfl

/-- A quotient of a number and a rate. -/
theorem near_quotient (hrate : Benchmark.isRate w.rate = true) {i : ℕ} (hi : i < 2 ^ 64) :
    Near (value (.ofNat i) / value w.rate * whole) (.ofNat i / w.rate) := by
  obtain ⟨hpositive, hpos, hfinite⟩ := Benchmark.positive_of_isRate hrate
  have hnear := near_ofNat i
  exact near_div_value hnear.sign hpositive.sign
    (hnear.steps_lt (j := 64) (by exact_mod_cast hi.le) (by decide)) hpos hfinite

/-- **Later interactions are not due earlier**, and if one is due at all, so are those before. -/
theorem due?_mono (hrate : Benchmark.isRate w.rate = true) {i j : ℕ} (hij : i ≤ j)
    (hj : j < 2 ^ 64) {b : Duration} (hb : w.due? j = some b) :
    ∃ a, w.due? i = some a ∧ a ≤ b := by
  have hnear := near_quotient hrate (hij.trans_lt hj)
  have hnear' := near_quotient hrate hj
  have hfinite : steps (.ofNat j) ≤ farthest := (near_ofNat j).positive.steps_le
  have hsteps : steps (.ofNat i / w.rate) ≤ steps (.ofNat j / w.rate) := by
    refine hnear.rounds.mono hnear'.rounds (mul_le_mul_of_nonneg_right ?_ whole_pos.le)
    exact div_le_div_of_nonneg_right (value_mono (steps_ofNat_mono hij) hfinite) (value_nonneg _)
  rw [due?_eq, Option.bind_eq_some_iff] at hb
  obtain ⟨later, hlater, hb⟩ := hb
  obtain ⟨sooner, hsooner, hle⟩ :=
    Duration.ofSeconds?_mono hnear.positive hnear'.positive hsteps hlater
  have hle' : sooner.nanos ≤ later.nanos := hle
  rw [Duration.add?] at hb
  split_ifs at hb with hspan
  obtain rfl := Option.some.inj hb
  refine ⟨w.start + sooner, ?_, Nat.add_le_add_left hle' w.start.nanos⟩
  rw [due?_eq, hsooner, Option.bind_some, Duration.add?, if_pos (by omega)]

/-! ### The range of what is due -/

/-- The product of which the number of interactions comes: it is not below any of their numbers. -/
theorem value_le_of_lt_count (hrate : Benchmark.isRate w.rate = true)
    (hduration : steps w.duration.toSeconds < farthest) (hcount : w.count < 2 ^ 64 - 1) {i : ℕ}
    (hi : i < w.count) : steps (w.rate * w.duration.toSeconds) < farthest ∧
      steps (.ofNat i) ≤ steps (w.rate * w.duration.toSeconds) := by
  obtain ⟨hpositive, -, hfinite⟩ := Benchmark.positive_of_isRate hrate
  have hnear := near_mul_value hpositive.sign w.duration.positive_toSeconds.sign hfinite hduration
  have hfinite' : steps (w.rate * w.duration.toSeconds) < farthest := by
    refine lt_of_le_of_ne hnear.positive.steps_le fun hinfinite => ?_
    rw [count, toNat_toUInt64_infinite hnear.sign hinfinite] at hcount
    exact lt_irrefl _ hcount
  rw [count, toNat_toUInt64 hnear.sign hfinite'] at hi
  have hle : i ≤ units (steps (w.rate * w.duration.toSeconds)) / whole :=
    hi.le.trans (Nat.min_le_left _ _)
  have hwhole : 0 < whole := by exact_mod_cast whole_pos
  have hunits := (Nat.le_div_iff_mul_le hwhole).mp hle
  refine ⟨hfinite', (near_ofNat i).rounds.mono (rounds_units hfinite'.le) ?_⟩
  exact_mod_cast hunits

/-- What is rounded three times on the way from a span to a time exceeds it by a share of `2 ^ -51`
at most, and by a second. -/
theorem value_quotient_le (hrate : Benchmark.isRate w.rate = true)
    (hduration : w.duration.seconds < 2 ^ 64) (hcount : w.count < 2 ^ 64 - 1) {i : ℕ}
    (hi : i < w.count) : steps (.ofNat i / w.rate) < farthest ∧
      value (.ofNat i / w.rate) ≤
        (w.duration.seconds + 1) * (1 + 1 / 2 ^ 53) * (1 + 1 / 2 ^ 53) * (1 + 1 / 2 ^ 53) + 2 := by
  obtain ⟨hpositive, hpos, hfinite⟩ := Benchmark.positive_of_isRate hrate
  have hsecond : (w.duration.seconds : ℚ) + 1 ≤ 2 ^ 64 := by exact_mod_cast hduration
  have hnear := near_ofNat (w.duration.seconds + 1)
  push_cast at hnear
  have hlong := Duration.steps_toSeconds_le hduration
  have hlong' := hnear.steps_lt hsecond (by decide)
  -- The smallest double is less than a second, and so is its quotient with any rate.
  have htiny : 1 / (2 * (whole : ℚ)) ≤ 1 / 2 := by
    have hone : (1 : ℚ) ≤ whole := by exact_mod_cast whole_pos
    exact div_le_div_of_nonneg_left (by norm_num) (by norm_num) (by linarith)
  have hleast : 0 < value w.rate ∧ 1 / (2 * (whole : ℚ)) / value w.rate ≤ 1 / 2 := by
    have hunits : 0 < units (steps w.rate) := units_lt hpos hfinite.le
    have hone : (1 : ℚ) ≤ units (steps w.rate) := by exact_mod_cast hunits
    have hrate : 0 < value w.rate := div_pos (by linarith) whole_pos
    refine ⟨hrate, ?_⟩
    rw [div_le_iff₀ hrate, value, div_mul_div_comm, one_mul]
    exact div_le_div_of_nonneg_right hone (mul_pos two_pos whole_pos).le
  have hspan : value w.duration.toSeconds ≤
      (w.duration.seconds + 1) * (1 + 1 / 2 ^ 53) + 1 / 2 :=
    calc value w.duration.toSeconds ≤ value (.ofNat (w.duration.seconds + 1)) :=
          value_mono hlong hlong'.le
      _ ≤ _ := (hnear.value_le (by positivity) hlong').trans (by linarith)
  obtain ⟨hproduct, hbelow⟩ := value_le_of_lt_count hrate (hlong.trans_lt hlong') hcount hi
  have hquotient : value (.ofNat i) / value w.rate ≤
      value w.duration.toSeconds * (1 + 1 / 2 ^ 53) + 1 / 2 := by
    have hmul := (near_mul_value hpositive.sign w.duration.positive_toSeconds.sign hfinite
      (hlong.trans_lt hlong')).value_le (mul_nonneg (value_nonneg _) (value_nonneg _)) hproduct
    have hle := (value_mono hbelow hproduct.le).trans hmul
    calc value (.ofNat i) / value w.rate
        ≤ (value w.rate * value w.duration.toSeconds * (1 + 1 / 2 ^ 53) + 1 / (2 * whole)) /
          value w.rate := div_le_div_of_nonneg_right hle hleast.1.le
      _ = value w.duration.toSeconds * (1 + 1 / 2 ^ 53) + 1 / (2 * whole) / value w.rate := by
          rw [add_div, mul_assoc, mul_div_cancel_left₀ _ hleast.1.ne']
      _ ≤ _ := by linarith [hleast.2]
  have hword : i < 2 ^ 64 := by omega
  have hnear' := near_quotient hrate hword
  have hfinite' : steps (.ofNat i / w.rate) < farthest :=
    hnear'.steps_lt (j := 65) (by linarith) (by decide)
  refine ⟨hfinite', ?_⟩
  have hle := hnear'.value_le (div_nonneg (value_nonneg _) (value_nonneg _)) hfinite'
  linarith

/-- **A workload that ends two hours before the end of all time is due in time.** -/
theorem due?_early (hrate : Benchmark.isRate w.rate = true)
    (hearly : w.start.nanos + w.duration.nanos + 7200 * Duration.second ≤ Duration.longest.nanos)
    (hcount : w.count < 2 ^ 64 - 1) {i : ℕ} (hi : i < w.count) : (w.due? i).isSome := by
  have hlongest : Duration.longest.nanos = 2 ^ 64 * Duration.second - 1 := rfl
  have hpos : 0 < Duration.second := by decide
  have hwhole : w.duration.seconds * Duration.second ≤ w.duration.nanos := Nat.div_mul_le_self _ _
  have hduration : w.duration.seconds < 2 ^ 64 :=
    Nat.lt_of_mul_lt_mul_right (a := Duration.second) (by omega)
  obtain ⟨hfinite, hvalue⟩ := value_quotient_le hrate hduration hcount hi
  obtain ⟨n, hn, hspan⟩ :=
    Duration.ofSeconds?_finite (near_quotient hrate (by omega)).positive hfinite
  have hnanos : n ≤ (w.duration.seconds + 7200) * Duration.second := by
    refine hn.le_natCast ?_
    have hsecond : (w.duration.seconds : ℚ) + 1 ≤ 2 ^ 64 := by exact_mod_cast hduration
    push_cast
    refine mul_le_mul_of_nonneg_right ?_ (Nat.cast_nonneg _)
    linarith
  rw [Nat.add_mul] at hnanos
  rw [due?_eq, hspan, if_pos (by omega), Option.bind_some, Duration.add?]
  simp only
  rw [if_pos (by omega)]
  rfl

end Workload

end LedgerLoad
