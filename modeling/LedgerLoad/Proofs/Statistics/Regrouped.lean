import LedgerLoad.Proofs.Double.Alike
import LedgerLoad.Proofs.Statistics.Accuracy

/-! # Figures and the shape of the tree

The figures of a run are found in one pass over the tree of its results, with a running maximum and
a sort at the end. Two trees with the same timings, in whatever order and however grouped, have the
same figures for that (`Statistics.agrees_of_regroups`), up to the sign of a zero where the trees
differ in one. Main statement: `Statistics.regrouped`, which adds that the figures are accurate. -/

namespace LedgerLoad

open Double

/-! ### The same times -/

namespace Timing

variable {t t' : Timing}

theorem map_onLine_of_beq {o o' : Option Float} (h : (o == o') = true) :
    o.map onLine = o'.map onLine := by
  cases o with
  | none => rw [none_beq.mp h]
  | some x =>
    obtain ⟨y, rfl, hxy⟩ := some_beq.mp h
    exact congrArg some (alike_iff_onLine.mp (Or.inr hxy))

theorem isSome_of_beq {o o' : Option Float} (h : (o == o') = true) : o.isSome = o'.isSome := by
  have hsome := congrArg Option.isSome (map_onLine_of_beq h)
  rwa [Option.isSome_map, Option.isSome_map] at hsome

/-- Of two times, the later is the one that is further on the line. -/
theorem onLine_later (a b : Float) : onLine (later a b) = max (onLine a) (onLine b) := by
  unfold later
  cases hb : b.isNaN with
  | true => rw [if_pos rfl, onLine_of_isNaN hb, max_bot_right]
  | false =>
    rw [if_neg Bool.false_ne_true]
    split_ifs with hlt
    · exact (max_eq_left (lt_iff_onLine.mp hlt).2.le).symm
    · refine (max_eq_right (not_lt.mp fun hless => hlt (lt_iff_onLine.mpr ⟨?_, hless⟩))).symm
      rw [onLine_of_number hb]
      exact WithBot.bot_lt_coe _

theorem onLine_foldl_later (xs : List Float) (a : Float) :
    onLine (xs.foldl later a) = (xs.map onLine).foldl max (onLine a) := by
  induction xs generalizing a with
  | nil => rfl
  | cons x xs ih => rw [List.foldl_cons, ih, onLine_later, List.map_cons, List.foldl_cons]

theorem map_onLine_lastTime (t : Timing) :
    t.lastTime.map onLine = (t.times.map onLine).max? := by
  unfold lastTime
  cases t.times with
  | nil => rfl
  | cons x xs => exact congrArg some (onLine_foldl_later xs x)

theorem map_onLine_times (t : Timing) : t.times.map onLine =
    [t.submit.map onLine, t.commit.map onLine, t.abort.map onLine].filterMap id := by
  obtain ⟨submit, commit, abort⟩ := t
  cases submit <;> cases commit <;> cases abort <;> rfl

/-- Equal times have one latest time. -/
theorem lastTime_of_beq (h : (t == t') = true) :
    t.lastTime.map onLine = t'.lastTime.map onLine := by
  obtain ⟨hsubmit, hcommit, habort⟩ := beq_iff.mp h
  rw [map_onLine_lastTime, map_onLine_lastTime, map_onLine_times, map_onLine_times,
    map_onLine_of_beq hsubmit, map_onLine_of_beq hcommit, map_onLine_of_beq habort]

/-- Equal times make one sample, or none. -/
theorem latency_of_beq (h : (t == t') = true) : t.latency.map onLine = t'.latency.map onLine := by
  obtain ⟨hsubmit, hcommit, habort⟩ := beq_iff.mp h
  obtain ⟨submit, commit, abort⟩ := t
  obtain ⟨submit', commit', abort'⟩ := t'
  match submit, commit, abort with
  | none, _, _ =>
    obtain rfl := none_beq.mp hsubmit
    rfl
  | some s, none, _ =>
    obtain ⟨s', rfl, -⟩ := some_beq.mp hsubmit
    obtain rfl := none_beq.mp hcommit
    rfl
  | some s, some c, some a =>
    obtain ⟨s', rfl, -⟩ := some_beq.mp hsubmit
    obtain ⟨c', rfl, -⟩ := some_beq.mp hcommit
    obtain ⟨a', rfl, -⟩ := some_beq.mp habort
    rfl
  | some s, some c, none =>
    obtain ⟨s', rfl, hs⟩ := some_beq.mp hsubmit
    obtain ⟨c', rfl, hc⟩ := some_beq.mp hcommit
    obtain rfl := none_beq.mp habort
    have hs' : Alike s s' := Or.inr hs
    have hc' : Alike c c' := Or.inr hc
    have hle : s ≤ c ↔ s' ≤ c' := by
      rw [le_iff_onLine, le_iff_onLine, alike_iff_onLine.mp hs', alike_iff_onLine.mp hc']
    show (if s ≤ c then some (c - s) else none).map onLine =
      (if s' ≤ c' then some (c' - s') else none).map onLine
    by_cases hordered : s ≤ c
    · rw [if_pos hordered, if_pos (hle.mp hordered)]
      exact congrArg some (alike_iff_onLine.mp (hc'.sub hs'))
    · rw [if_neg hordered, if_neg (mt hle.mpr hordered)]

end Timing

/-! ### The same timings -/

theorem map_eq_map_iff_forall₂ {α β : Type} {f : α → β} {xs ys : List α} :
    xs.map f = ys.map f ↔ List.Forall₂ (fun x y => f x = f y) xs ys := by
  rw [← List.forall₂_eq_eq_eq, List.forall₂_map_left_iff, List.forall₂_map_right_iff]

/-- Two trees have the same timings, each as often, in whatever order and however grouped; times are
the same if they are equal numbers. -/
def CampaignResult.Regroups (r r' : CampaignResult) : Prop :=
  ∃ timings, r.interactions.Perm timings ∧
    List.Forall₂ (fun t t' => (t == t') = true) timings r'.interactions

namespace CampaignResult.Regroups

variable {r r' : CampaignResult} {α : Type}

/-- What a timing says beyond the sign of a zero, the trees say in another order. -/
theorem perm_map (h : r.Regroups r') {f : Timing → α}
    (hf : ∀ t t' : Timing, (t == t') = true → f t = f t') :
    (r.interactions.map f).Perm (r'.interactions.map f) := by
  obtain ⟨timings, hperm, hequal⟩ := h
  have hmap : timings.map f = r'.interactions.map f := map_eq_map_iff_forall₂.mpr (hequal.imp hf)
  exact hmap ▸ hperm.map f

theorem countP_eq (h : r.Regroups r') {p : Timing → Bool}
    (hp : ∀ t t' : Timing, (t == t') = true → p t = p t') :
    r.interactions.countP p = r'.interactions.countP p := by
  have hcount (timings : List Timing) : timings.countP p = (timings.map p).countP id := by
    rw [List.countP_map]
    rfl
  rw [hcount, hcount]
  exact (h.perm_map hp).countP_eq id

theorem perm_filterMap (h : r.Regroups r') {f : Timing → Option Float}
    (hf : ∀ t t' : Timing, (t == t') = true → (f t).map onLine = (f t').map onLine) :
    ((r.interactions.filterMap f).map onLine).Perm ((r'.interactions.filterMap f).map onLine) := by
  have hplaces (timings : List Timing) : (timings.filterMap f).map onLine =
      (timings.map fun t => (f t).map onLine).filterMap id := by
    rw [List.map_filterMap, List.filterMap_map]
    rfl
  rw [hplaces, hplaces]
  exact (h.perm_map hf).filterMap id

end CampaignResult.Regroups

/-! ### The same samples -/

namespace Statistics

variable {xs ys : List Float}

theorem onLine_le_of_orderKey {x y : Float} (h : orderKey x ≤ orderKey y) :
    onLine x ≤ onLine y := by
  rcases isNaN_or_le_of_orderKey h with hx | hle
  · rw [onLine_of_isNaN hx]
    exact bot_le
  · exact (le_iff_onLine.mp hle).2

/-- Doubles at the same places are so after the sort. -/
theorem map_onLine_sorted (h : (xs.map onLine).Perm (ys.map onLine)) :
    (sorted xs).map onLine = (sorted ys).map onLine := by
  have hsorted (zs : List Float) : ((sorted zs).map onLine).Pairwise (· ≤ ·) :=
    List.pairwise_map.mpr ((pairwise_orderKey_sorted zs).imp onLine_le_of_orderKey)
  have hperm (zs : List Float) : ((sorted zs).map onLine).Perm (zs.map onLine) :=
    (List.mergeSort_perm zs _).map onLine
  exact ((hperm xs).trans (h.trans (hperm ys).symm)).eq_of_pairwise
    (fun _ _ _ _ => le_antisymm) (hsorted xs) (hsorted ys)

theorem orderKey_inj {x y : Float} (h : orderKey x = orderKey y) : x = y := by
  have hxlt : x.toBits.toNat < 2 ^ 64 := x.toBits.toNat_lt
  have hylt : y.toBits.toNat < 2 ^ 64 := y.toBits.toNat_lt
  -- Doubles of one key have one place, and of the two zeros there each has a key of its own.
  have hline : onLine x = onLine y :=
    le_antisymm (onLine_le_of_orderKey h.le) (onLine_le_of_orderKey h.ge)
  rcases alike_iff_onLine.mpr hline with hsame | hbeq
  · exact hsame
  · obtain ⟨hx, hy, -⟩ := Double.beq_iff.mp hbeq
    unfold orderKey at h
    rw [hx, hy] at h
    simp only [Bool.false_eq_true, if_false] at h
    refine Float.toBits_inj.mp (UInt64.toNat_inj.mp ?_)
    split_ifs at h <;> omega

/-- The same doubles are the same after the sort. -/
theorem sorted_of_perm (h : xs.Perm ys) : sorted xs = sorted ys :=
  ((List.mergeSort_perm xs _).trans (h.trans (List.mergeSort_perm ys _).symm)).eq_of_pairwise
    (fun _ _ _ _ hle hge => orderKey_inj (Nat.le_antisymm hle hge))
    (pairwise_orderKey_sorted xs) (pairwise_orderKey_sorted ys)

theorem forall₂_alike (h : xs.map onLine = ys.map onLine) : List.Forall₂ Alike xs ys :=
  (map_eq_map_iff_forall₂.mp h).imp fun _ _ => alike_iff_onLine.mpr

theorem alike_sum (h : List.Forall₂ Alike xs ys) {a b : Float} (hab : Alike a b) :
    Alike (xs.foldl (· + ·) a) (ys.foldl (· + ·) b) := by
  induction h generalizing a b with
  | nil => exact hab
  | cons hxy _ ih => exact ih (hab.add hxy)

theorem micros_of_alike {x y : Float} (h : Alike x y) : micros x = micros y := by
  unfold micros
  rw [(h.mul 1000000).toUInt64]

/-! ### The same figures -/

/-- Figures that are the same: numbers that are equal, and the same places on the line. -/
structure Agrees (s s' : Statistics) : Prop where
  interactions : s.interactions = s'.interactions
  submitted : s.submitted = s'.submitted
  committed : s.committed = s'.committed
  aborted : s.aborted = s'.aborted
  lastTime : Alike s.lastTime s'.lastTime
  samples : List.Forall₂ Alike s.latencies s'.latencies
  available : s.isAvailable = s'.isAvailable
  load : s.load = s'.load
  throughput : s.throughput = s'.throughput
  mean : Option.Rel Alike s.mean s'.mean
  median : Option.Rel Alike s.median s'.median
  quantile : ∀ share, s.quantile share = s'.quantile share

variable {s s' : Statistics}

theorem available_of_alike (hlast : Alike s.lastTime s'.lastTime)
    (hsamples : List.Forall₂ Alike s.latencies s'.latencies) :
    s.isAvailable = s'.isAvailable := by
  have hpos : 0 < s.lastTime ↔ 0 < s'.lastTime := by
    rw [lt_iff_onLine, lt_iff_onLine, alike_iff_onLine.mp hlast]
  have hempty {xs ys : List Float} (h : List.Forall₂ Alike xs ys) : xs.isEmpty = ys.isEmpty := by
    cases h <;> rfl
  rw [isAvailable, isAvailable, decide_eq_decide.mpr hpos, hempty hsamples]

/-- A figure that is computed with the latest time, which is above zero if there are figures. -/
theorem figure_eq (havailable : s.isAvailable = s'.isAvailable)
    (hlast : Alike s.lastTime s'.lastTime) (f : Float → Float) :
    s.figure (f s.lastTime) = s'.figure (f s'.lastTime) := by
  unfold figure
  rw [← havailable]
  split_ifs with h
  · rw [isAvailable, Bool.and_eq_true, decide_eq_true_eq] at h
    rw [hlast.eq_of_pos h.1]
  · rfl

theorem rel_figure (havailable : s.isAvailable = s'.isAvailable) {x y : Float} (h : Alike x y) :
    Option.Rel Alike (s.figure x) (s'.figure y) := by
  unfold figure
  rw [← havailable]
  split_ifs
  · exact .some h
  · exact .none

theorem rel_getElem? (h : List.Forall₂ Alike xs ys) (i : ℕ) :
    Option.Rel Alike xs[i]? ys[i]? := by
  induction h generalizing i with
  | nil => exact .none
  | cons hxy _ ih =>
    cases i with
    | zero => exact .some hxy
    | succ i => exact ih i

/-- Figures follow from the counts, the latest time and the samples. -/
theorem agrees_of_alike (hinteractions : s.interactions = s'.interactions)
    (hsubmitted : s.submitted = s'.submitted) (hcommitted : s.committed = s'.committed)
    (haborted : s.aborted = s'.aborted) (hlast : Alike s.lastTime s'.lastTime)
    (hsamples : List.Forall₂ Alike s.latencies s'.latencies) : s.Agrees s' := by
  have havailable := available_of_alike hlast hsamples
  have hlength : s.latencies.length = s'.latencies.length := hsamples.length_eq
  have hmicros : s.latencies.map micros = s'.latencies.map micros :=
    map_eq_map_iff_forall₂.mpr (hsamples.imp fun _ _ => micros_of_alike)
  refine ⟨hinteractions, hsubmitted, hcommitted, haborted, hlast, hsamples, havailable, ?_, ?_, ?_,
    ?_, fun share => ?_⟩
  · rw [load, load, ← hsubmitted]
    exact figure_eq havailable hlast fun last => Float.ofNat s.submitted / last
  · rw [throughput, throughput, ← hlength]
    exact figure_eq havailable hlast fun last => Float.ofNat s.latencies.length / last
  · rw [mean, mean, ← hlength]
    exact rel_figure havailable ((alike_sum hsamples (.refl _)).div _)
  · rw [median, median, ← havailable, ← hlength]
    split_ifs
    · exact rel_getElem? hsamples _
    · exact .none
  · rw [quantile, quantile, histogram, histogram, ← hmicros, ← hlength]
    unfold figure
    rw [havailable]

variable {r r' : CampaignResult}

/-- **Trees with the same timings have the same figures.** -/
theorem agrees_of_regroups (h : r.Regroups r') : (ofResult r).Agrees (ofResult r') := by
  refine agrees_of_alike ?_ (h.countP_eq fun t t' heq => ?_) (h.countP_eq fun t t' heq => ?_)
    (h.countP_eq fun t t' heq => ?_) (alike_iff_onLine.mpr ?_) (forall₂_alike ?_)
  · obtain ⟨timings, hperm, hequal⟩ := h
    exact hperm.length_eq.trans hequal.length_eq
  · exact Timing.isSome_of_beq (Timing.beq_iff.mp heq).1
  · exact Timing.isSome_of_beq (Timing.beq_iff.mp heq).2.1
  · exact Timing.isSome_of_beq (Timing.beq_iff.mp heq).2.2
  · show onLine ((r.interactions.filterMap Timing.lastTime).foldl Timing.later 0) =
      onLine ((r'.interactions.filterMap Timing.lastTime).foldl Timing.later 0)
    rw [Timing.onLine_foldl_later, Timing.onLine_foldl_later]
    exact (h.perm_filterMap fun _ _ => Timing.lastTime_of_beq).foldl_eq _
  · exact map_onLine_sorted (h.perm_filterMap fun _ _ => Timing.latency_of_beq)

/-- **Figures are accurate, and the shape of the tree does not matter for them.** -/
theorem regrouped (hmade : ∀ t ∈ r.interactions, t.Made) (h : r.Regroups r') :
    (ofResult r).Accurate r.interactions ∧ (ofResult r).Agrees (ofResult r') ∧
      (r.interactions.Perm r'.interactions → (ofResult r).latencies = (ofResult r').latencies ∧
        (ofResult r).mean = (ofResult r').mean ∧ (ofResult r).median = (ofResult r').median) := by
  have hagrees := agrees_of_regroups h
  refine ⟨accurate_ofTimings hmade, hagrees, fun hperm => ?_⟩
  have hsamples : (ofResult r).latencies = (ofResult r').latencies :=
    sorted_of_perm (hperm.filterMap Timing.latency)
  have havailable := hagrees.available
  refine ⟨hsamples, ?_, ?_⟩
  · rw [mean, mean, figure, figure, hsamples, havailable]
  · rw [median, median, hsamples, havailable]

/-- A commit, an abort and a submission, of two secondaries. -/
def grouped : CampaignResult :=
  ⟨[⟨[⟨[⟨some 0, some 1.5, none⟩]⟩, ⟨[⟨some 1, none, some 2⟩]⟩]⟩, ⟨[⟨[⟨some 3, none, none⟩]⟩]⟩]⟩

/-- The same in another order, of one lane, and with a minus zero. -/
def flat : CampaignResult :=
  ⟨[⟨[⟨[⟨some 3, none, none⟩, ⟨some (-0), some 1.5, none⟩, ⟨some 1, none, some 2⟩]⟩]⟩]⟩

theorem regrouped_flat : (∀ t ∈ grouped.interactions, t.Made) ∧ grouped.Regroups flat ∧
    (ofResult grouped).median = some 1.5 ∧ (ofResult grouped).Accurate grouped.interactions ∧
    (ofResult grouped).Agrees (ofResult flat) := by
  have hcommit : Timing.Made ⟨some 0, some 1.5, none⟩ :=
    @Timing.Made.ofTimes (some 0) (some 1.5) none _ rfl
  have hsubmit : Timing.Made ⟨some 1, none, none⟩ :=
    @Timing.Made.record .submit 1 _ _ .unreached (by decide +kernel) rfl
  have habort : Timing.Made ⟨some 1, none, some 2⟩ :=
    @Timing.Made.record .abort 2 _ _ hsubmit (by decide +kernel) rfl
  have hopen : Timing.Made ⟨some 3, none, none⟩ :=
    @Timing.Made.record .submit 3 _ _ .unreached (by decide +kernel) rfl
  have hmade : ∀ t ∈ grouped.interactions, t.Made :=
    List.forall_mem_cons.mpr ⟨hcommit, List.forall_mem_cons.mpr ⟨habort,
      List.forall_mem_singleton.mpr hopen⟩⟩
  have hregroups : grouped.Regroups flat :=
    ⟨_, (List.perm_append_comm : ([_, _] ++ [_]).Perm ([_] ++ [_, _])),
      .cons (by decide +kernel) (.cons (by decide +kernel) (.cons (by decide +kernel) .nil))⟩
  obtain ⟨haccurate, hagrees, -⟩ := regrouped hmade hregroups
  exact ⟨hmade, hregroups, by decide +kernel, haccurate, hagrees⟩

/-- A submission five seconds before the start. -/
def early : CampaignResult := ⟨[⟨[⟨[⟨some (-5), none, none⟩]⟩]⟩]⟩

/-- Zero is the latest time of it, though no time that is set is as late. -/
theorem lastTime_early : (∀ t ∈ early.interactions, t.Made) ∧ (ofResult early).lastTime = 0 ∧
    (∃ t ∈ early.interactions, t.times ≠ []) ∧
    ∀ t ∈ early.interactions, ∀ x ∈ t.times, x < (ofResult early).lastTime := by
  have hsubmit : Timing.Made ⟨some (-5), none, none⟩ :=
    @Timing.Made.record .submit (-5) _ _ .unreached (by decide +kernel) rfl
  refine ⟨List.forall_mem_singleton.mpr hsubmit, by decide +kernel,
    ⟨_, List.mem_singleton_self _, nofun⟩, ?_⟩
  intro t ht x hx
  obtain rfl := List.mem_singleton.mp ht
  obtain rfl := List.mem_singleton.mp hx
  decide +kernel

end Statistics

end LedgerLoad
