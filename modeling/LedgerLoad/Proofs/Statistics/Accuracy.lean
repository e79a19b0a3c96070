import LedgerLoad.Proofs.Timing.Recorded

/-! # What the figures are worth

A timing is made in two ways, of three times at once or event by event, and nothing keeps the second
way from times below zero. All the same no commit that is made comes without its submission, or
before it, or with an abort (`Timing.Made.sound`). So the samples of a run are the spans from
submission to commit of what committed, and the latest time is the latest of all that are set, unless
these are all below zero: then it is zero, where the running maximum begins
(`Statistics.accurate_ofTimings`). -/

namespace LedgerLoad

namespace Timing

variable {t t' : Timing} {event : Event} {time : Float}

/-- What can be made of times that are numbers. -/
inductive Made : Timing → Prop
  | unreached : Made .unreached
  | ofTimes {submit commit abort : Option Float} {t : Timing}
      (h : Timing.ofTimes submit commit abort = .ok t) : Made t
  | record {event : Event} {time : Float} {t t' : Timing} (ht : Made t)
      (htime : time.isNaN = false) (h : t.record event time = .ok t') : Made t'

/-- What the figures rely on: times are numbers, and a commit is the only outcome and not before its
submission. -/
structure Sound (t : Timing) : Prop where
  isNaN : ∀ x ∈ t.times, x.isNaN = false
  committed : ∀ c, t.commit = some c → t.abort = none ∧ ∃ s, t.submit = some s ∧ s ≤ c

theorem Sound.record (h : t.Sound) (htime : time.isNaN = false)
    (hrecord : t.record event time = .ok t') : t'.Sound := by
  refine ⟨fun x hx => ?_, fun c hc => ?_⟩
  · rcases mem_times_record hrecord hx with hx | rfl
    · exact h.isNaN x hx
    · exact htime
  · cases event with
    | submit =>
      unfold Timing.record at hrecord
      split_ifs at hrecord with hset
      obtain rfl := Except.ok.inj hrecord
      obtain ⟨-, s, hs, -⟩ := h.committed c hc
      rw [hs] at hset
      exact absurd rfl hset
    | commit =>
      obtain ⟨s, hsubmission, rfl⟩ := Except.map_eq_ok hrecord
      obtain rfl := submission_eq_ok hsubmission
      obtain rfl := Option.some.inj hc
      exact ⟨rfl, s, rfl, (later_spec htime (h.isNaN s (mem_times.mpr (Or.inl rfl)))).2⟩
    | abort =>
      obtain ⟨s, hsubmission, rfl⟩ := Except.map_eq_ok hrecord
      obtain rfl := submission_eq_ok hsubmission
      cases hc

/-- **Whatever is made is sound**, its times below zero or not. -/
theorem Made.sound (h : t.Made) : t.Sound := by
  induction h with
  | unreached => exact ⟨nofun, nofun⟩
  | ofTimes hmade =>
    obtain ⟨rfl, hvalid⟩ := ofTimes_eq_ok.mp hmade
    refine ⟨fun x hx => isNaN_of_isTime (hvalid.isTime x hx), fun c hc => ?_⟩
    refine ⟨hvalid.oneOutcome.resolve_left (by rw [hc]; nofun), ?_⟩
    cases hs : Timing.submit _ with
    | none =>
      rw [(hvalid.submitted hs).1] at hc
      cases hc
    | some s =>
      refine ⟨s, rfl, (not_lt_iff_le ?_ ?_).mp (hvalid.ordered s c hs hc)⟩
      · exact hvalid.isTime s (mem_times.mpr (Or.inl hs))
      · exact hvalid.isTime c (mem_times.mpr (Or.inr (Or.inl hc)))
  | record _ htime hrecord ih => exact ih.record htime hrecord

/-- From submission to commit. -/
def wait? (t : Timing) : Option Float := t.submit.bind fun s => t.commit.map fun c => c - s

/-- **A commit is a sample**: what it took, whatever else is tested. -/
theorem Sound.latency_eq (h : t.Sound) :
    t.latency = t.wait? ∧ t.latency.isSome = t.commit.isSome := by
  obtain ⟨submit, commit, abort⟩ := t
  cases commit with
  | none => cases submit <;> cases abort <;> exact ⟨rfl, rfl⟩
  | some c =>
    obtain ⟨rfl, s, rfl, hle⟩ : abort = none ∧ ∃ s, submit = some s ∧ s ≤ c := h.committed c rfl
    have hsample : latency ⟨some s, some c, none⟩ = some (c - s) := if_pos hle
    rw [hsample]
    exact ⟨rfl, rfl⟩

/-! ### The latest time -/

theorem foldl_later_mem (xs : List Float) (a : Float) :
    xs.foldl later a = a ∨ xs.foldl later a ∈ xs := by
  induction xs generalizing a with
  | nil => exact Or.inl rfl
  | cons x xs ih =>
    rw [List.foldl_cons]
    rcases ih (later a x) with h | h
    · rw [h]
      rcases later_eq_or a x with heq | heq
      · exact Or.inl heq
      · rw [heq]
        exact Or.inr List.mem_cons_self
    · exact Or.inr (List.mem_cons_of_mem x h)

theorem lastTime_mem {last : Float} (h : t.lastTime = some last) : last ∈ t.times := by
  unfold lastTime at h
  cases htimes : t.times with
  | nil =>
    rw [htimes] at h
    cases h
  | cons x xs =>
    rw [htimes] at h
    obtain rfl := Option.some.inj h
    rcases foldl_later_mem xs x with heq | hmem
    · rw [heq]
      exact List.mem_cons_self
    · exact List.mem_cons_of_mem x hmem

end Timing

/-! ### Figures -/

namespace Statistics

/-- The latest of the times that are set, and zero. -/
structure Latest (last : Float) (timings : List Timing) : Prop where
  nonneg : 0 ≤ last
  upper : ∀ t ∈ timings, ∀ x ∈ t.times, x ≤ last
  attained : last = 0 ∨ ∃ t ∈ timings, last ∈ t.times
  /-- Some time that is set is as late, unless these are all below zero. -/
  reached : (∃ t ∈ timings, ∃ x ∈ t.times, last ≤ x) ↔ ∃ t ∈ timings, ∃ x ∈ t.times, 0 ≤ x

/-- What the figures of timings say about them. -/
structure Accurate (s : Statistics) (timings : List Timing) : Prop where
  /-- The samples are the spans from submission to commit, one of each commit, -/
  samples : s.latencies.Perm (timings.filterMap Timing.wait?)
  committed : s.latencies.length = s.committed
  /-- in ascending order, where the span between two infinite times comes first. -/
  ascending : s.latencies.Pairwise fun x y => x.isNaN = true ∨ x ≤ y
  /-- There is a sample in the middle. -/
  middle : s.isAvailable = true →
    ∃ x, s.latencies[s.latencies.length / 2]? = some x ∧ s.median = some x
  latest : Latest s.lastTime timings
  available : s.isAvailable = true ↔ 0 < s.lastTime ∧ s.latencies ≠ []
  figures : ∀ f, f ∈ [s.load, s.throughput, s.mean, s.median] ∨ (∃ share, f = s.quantile share) →
    f.isSome = s.isAvailable

theorem latest_ofTimings {timings : List Timing} (h : ∀ t ∈ timings, t.Sound) :
    Latest (ofTimings timings).lastTime timings := by
  have hnumbers : ∀ y ∈ timings.filterMap Timing.lastTime, y.isNaN = false := by
    intro y hy
    obtain ⟨t, ht, hlast⟩ := List.mem_filterMap.mp hy
    exact (h t ht).isNaN y (Timing.lastTime_mem hlast)
  obtain ⟨hzero, hrest⟩ := Timing.le_foldl_later hnumbers (a := 0) (by decide +kernel)
  have hupper : ∀ t ∈ timings, ∀ x ∈ t.times, x ≤ (ofTimings timings).lastTime := by
    intro t ht x hx
    obtain ⟨last, hlast, hle⟩ := Timing.le_lastTime (h t ht).isNaN hx
    exact Double.le_trans hle (hrest last (List.mem_filterMap.mpr ⟨t, ht, hlast⟩))
  have hattained : (ofTimings timings).lastTime = 0 ∨
      ∃ t ∈ timings, (ofTimings timings).lastTime ∈ t.times := by
    refine (Timing.foldl_later_mem _ 0).imp_right fun hmem => ?_
    obtain ⟨t, ht, hlast⟩ := List.mem_filterMap.mp hmem
    exact ⟨t, ht, Timing.lastTime_mem hlast⟩
  refine ⟨hzero, hupper, hattained, ?_, ?_⟩
  · rintro ⟨t, ht, x, hx, hle⟩
    exact ⟨t, ht, x, hx, Double.le_trans hzero hle⟩
  · rintro ⟨t, ht, x, hx, hle⟩
    rcases hattained with heq | ⟨t', ht', hlast⟩
    · exact ⟨t, ht, x, hx, heq ▸ hle⟩
    · exact ⟨t', ht', _, hlast, hupper t' ht' _ hlast⟩

/-- In the order of keys, what is no number comes first. -/
theorem isNaN_or_le_of_orderKey {x y : Float} (h : orderKey x ≤ orderKey y) :
    x.isNaN = true ∨ x ≤ y := by
  cases hx : x.isNaN with
  | true => exact Or.inl rfl
  | false =>
    refine Or.inr (le_of_orderKey hx ?_ h)
    by_contra hy
    have hlt : x.toBits.toNat < 2 ^ 64 := x.toBits.toNat_lt
    have hnumber : Double.steps x ≤ Double.farthest := Double.steps_le hx
    have hfar : Double.farthest = 2047 * 2 ^ 52 := rfl
    unfold Double.steps at hnumber
    unfold orderKey at h
    rw [hx, Bool.eq_true_of_not_eq_false hy] at h
    simp only [Bool.false_eq_true, if_false, if_true] at h
    split_ifs at h <;> omega

/-- The middle of samples is one of them. -/
theorem exists_middle {s : Statistics} (h : s.isAvailable = true) :
    ∃ x, s.latencies[s.latencies.length / 2]? = some x ∧ s.median = some x := by
  have hpos : 0 < s.latencies.length := by
    rw [isAvailable, Bool.and_eq_true, Bool.not_eq_true', List.isEmpty_eq_false_iff] at h
    exact List.length_pos_iff.mpr h.2
  have hmiddle := List.getElem?_eq_getElem (Nat.div_lt_self hpos one_lt_two)
  exact ⟨_, hmiddle, by rw [median, if_pos h, hmiddle]⟩

theorem isSome_figure (s : Statistics) (x : Float) : (s.figure x).isSome = s.isAvailable := by
  unfold figure
  cases s.isAvailable <;> rfl

/-- **The figures of timings that were made are accurate.** -/
theorem accurate_ofTimings {timings : List Timing} (h : ∀ t ∈ timings, t.Made) :
    (ofTimings timings).Accurate timings where
  samples := by
    have hspans : timings.filterMap Timing.latency = timings.filterMap Timing.wait? :=
      List.filterMap_congr fun t ht => (h t ht).sound.latency_eq.1
    exact hspans ▸ List.mergeSort_perm _ _
  committed := by
    show (sorted (timings.filterMap Timing.latency)).length =
      timings.countP fun t => t.commit.isSome
    rw [sorted, List.length_mergeSort, List.length_filterMap_eq_countP]
    exact List.countP_congr fun t ht => by rw [(h t ht).sound.latency_eq.2]
  ascending := (pairwise_orderKey_sorted _).imp isNaN_or_le_of_orderKey
  middle := exists_middle
  latest := latest_ofTimings fun t ht => (h t ht).sound
  available := by
    rw [isAvailable, Bool.and_eq_true, decide_eq_true_eq, Bool.not_eq_true',
      List.isEmpty_eq_false_iff]
  figures f hf := by
    have hmedian : (ofTimings timings).median.isSome = (ofTimings timings).isAvailable := by
      cases havailable : (ofTimings timings).isAvailable with
      | true =>
        obtain ⟨x, -, hx⟩ := exists_middle havailable
        rw [hx]
        rfl
      | false =>
        rw [median, havailable]
        rfl
    rcases hf with hf | ⟨share, rfl⟩
    · simp only [List.mem_cons, List.not_mem_nil, or_false] at hf
      rcases hf with rfl | rfl | rfl | rfl
      · exact isSome_figure _ _
      · exact isSome_figure _ _
      · exact isSome_figure _ _
      · exact hmedian
    · exact isSome_figure _ _

end Statistics

end LedgerLoad
