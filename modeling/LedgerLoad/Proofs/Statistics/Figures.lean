import LedgerLoad.Proofs.Results.Reading
import LedgerLoad.Statistics.Figures

/-! # The figures of well-formed results

Counters, the latest time and the samples of a run are found by different tests. On well-formed
timings they agree (`Statistics.consistent_ofTimings`), and well-formed is all that can be read as a
result (`CampaignResult.consistent_of_documents`). -/

namespace LedgerLoad

/-! ### The later of two times -/

namespace Timing

theorem later_spec {a b : Float} (ha : a.isNaN = false) (hb : b.isNaN = false) :
    a ≤ later a b ∧ b ≤ later a b := by
  unfold later
  rw [if_neg (by rw [hb]; decide)]
  split_ifs with hlt
  · exact ⟨Double.le_refl ha, Double.le_of_lt hlt⟩
  · exact ⟨Double.le_of_not_lt ha hb hlt, Double.le_refl hb⟩

/-- None of the times exceeds the latest. -/
theorem le_foldl_later {xs : List Float} (hxs : ∀ x ∈ xs, x.isNaN = false) {a : Float}
    (ha : a.isNaN = false) : a ≤ xs.foldl later a ∧ ∀ x ∈ xs, x ≤ xs.foldl later a := by
  induction xs generalizing a with
  | nil => exact ⟨Double.le_refl ha, fun x hx => absurd hx List.not_mem_nil⟩
  | cons y ys ih =>
    obtain ⟨hleft, hright⟩ := later_spec ha (hxs y List.mem_cons_self)
    obtain ⟨hfirst, hrest⟩ :=
      ih (fun x hx => hxs x (List.mem_cons_of_mem y hx)) (Double.isNaN_of_le hleft)
    rw [List.foldl_cons]
    refine ⟨Double.le_trans hleft hfirst, fun x hx => ?_⟩
    rcases List.mem_cons.mp hx with rfl | hx
    · exact Double.le_trans hright hfirst
    · exact hrest x hx

/-- No time of a timing exceeds its last time, if all are numbers. -/
theorem le_lastTime {t : Timing} (h : ∀ x ∈ t.times, x.isNaN = false) {x : Float}
    (hx : x ∈ t.times) : ∃ last, t.lastTime = some last ∧ x ≤ last := by
  unfold lastTime
  cases htimes : t.times with
  | nil =>
    rw [htimes] at hx
    cases hx
  | cons y ys =>
    rw [htimes] at h hx
    obtain ⟨hfirst, hrest⟩ := le_foldl_later (fun z hz => h z (List.mem_cons_of_mem y hz))
      (h y List.mem_cons_self)
    refine ⟨_, rfl, ?_⟩
    rcases List.mem_cons.mp hx with rfl | hx
    · exact hfirst
    · exact hrest x hx

namespace WellFormed

variable {t : Timing}

theorem isNaN (h : t.WellFormed) {x : Float} (hx : x ∈ t.times) : x.isNaN = false :=
  Double.isNaN_of_le (h.nonneg x hx)

theorem le_lastTime (h : t.WellFormed) {x : Float} (hx : x ∈ t.times) :
    ∃ last, t.lastTime = some last ∧ x ≤ last := Timing.le_lastTime (fun _ => h.isNaN) hx

theorem isNaN_lastTime (h : t.WellFormed) {last : Float} (hlast : t.lastTime = some last) :
    last.isNaN = false := by
  cases htimes : t.times with
  | nil =>
    rw [lastTime, htimes] at hlast
    cases hlast
  | cons y ys =>
    obtain ⟨last', hlast', hle⟩ := h.le_lastTime (htimes ▸ List.mem_cons_self : y ∈ t.times)
    rw [hlast] at hlast'
    obtain rfl := Option.some.inj hlast'
    exact Double.isNaN_of_le hle

/-- There is a latency exactly if there is a commit, and it is not below zero. -/
theorem latency_spec (h : t.WellFormed) :
    t.latency.isSome = t.commit.isSome ∧ ∀ x, t.latency = some x → 0 ≤ x := by
  obtain ⟨submit, commit, abort⟩ := t
  unfold latency
  match submit, commit, abort with
  | some s, some c, none =>
    have hle : s ≤ c := h.ordered s c rfl rfl
    have hs : (0 : Float) ≤ s := h.nonneg s (mem_times.mpr (Or.inl rfl))
    have hc : c.isInf = false := h.finite c (mem_times.mpr (Or.inr (Or.inl rfl)))
    dsimp only
    rw [if_pos hle]
    refine ⟨rfl, fun x hx => ?_⟩
    obtain rfl := Option.some.inj hx
    exact Double.zero_le_sub hs hle hc
  | some s, some c, some a => exact absurd ⟨rfl, rfl⟩ h.oneOutcome
  | none, some c, abort => cases h.submitted (Or.inl rfl)
  | submit, none, abort => exact ⟨by cases submit <;> cases abort <;> rfl, by
      cases submit <;> cases abort <;> exact nofun⟩

end WellFormed

end Timing

/-! ### Figures -/

namespace Statistics

/-- What the figures of timings owe each other. -/
structure Consistent (s : Statistics) (timings : List Timing) : Prop where
  samples : s.latencies.length = s.committed
  outcomes : s.committed + s.aborted ≤ s.submitted
  submissions : s.submitted ≤ s.interactions
  lastTime : ∀ t ∈ timings, ∀ x ∈ t.times, x ≤ s.lastTime
  nonneg : ∀ x ∈ s.latencies, 0 ≤ x
  ascending : s.latencies.Pairwise (· ≤ ·)

/-- Counts of kinds that exclude each other add up to at most the count of a kind they are both of. -/
theorem countP_add_countP_le {α : Type} {p q r : α → Bool} {xs : List α}
    (hp : ∀ x ∈ xs, p x = true → r x = true) (hq : ∀ x ∈ xs, q x = true → r x = true)
    (hpq : ∀ x ∈ xs, ¬ (p x = true ∧ q x = true)) : xs.countP p + xs.countP q ≤ xs.countP r := by
  induction xs with
  | nil => simp
  | cons x xs ih =>
    have hrest := ih (fun y hy => hp y (List.mem_cons_of_mem x hy))
      (fun y hy => hq y (List.mem_cons_of_mem x hy)) fun y hy => hpq y (List.mem_cons_of_mem x hy)
    have hpx := hp x List.mem_cons_self
    have hqx := hq x List.mem_cons_self
    have hpqx := hpq x List.mem_cons_self
    simp only [List.countP_cons]
    cases hcp : p x <;> cases hcq : q x <;> cases hcr : r x <;> simp_all <;> omega

/-- The order of keys is the order of numbers. -/
theorem le_of_orderKey {x y : Float} (hx : x.isNaN = false) (hy : y.isNaN = false)
    (h : orderKey x ≤ orderKey y) : x ≤ y := by
  have hxlt : x.toBits.toNat < 2 ^ 64 := x.toBits.toNat_lt
  have hylt : y.toBits.toNat < 2 ^ 64 := y.toBits.toNat_lt
  rw [Double.le_iff]
  refine ⟨hx, hy, ?_⟩
  unfold orderKey at h
  rw [hx, hy] at h
  unfold Double.place Double.steps Double.signOf
  simp only [Bool.false_eq_true, if_false] at h
  split_ifs at h ⊢ <;> simp only [Float.Model.UnpackedFloat.Sign.apply] <;> omega

theorem pairwise_orderKey_sorted (xs : List Float) :
    (sorted xs).Pairwise fun a b => orderKey a ≤ orderKey b := by
  have hsorted : (sorted xs).Pairwise fun a b => decide (orderKey a ≤ orderKey b) = true :=
    List.pairwise_mergeSort
      (fun a b c hab hbc => by simp only [decide_eq_true_eq] at *; omega)
      (fun a b => by simp only [Bool.or_eq_true, decide_eq_true_eq]; omega) xs
  exact hsorted.imp fun hab => of_decide_eq_true hab

theorem pairwise_sorted {xs : List Float} (h : ∀ x ∈ xs, x.isNaN = false) :
    (sorted xs).Pairwise (· ≤ ·) := by
  have hnumber (x : Float) (hx : x ∈ sorted xs) : x.isNaN = false := h x (List.mem_mergeSort.mp hx)
  exact (pairwise_orderKey_sorted xs).imp_of_mem fun ha hb hab =>
    le_of_orderKey (hnumber _ ha) (hnumber _ hb) hab

/-- **The figures of well-formed timings are consistent**, in whatever order they come. -/
theorem consistent_ofTimings {timings : List Timing} (h : ∀ t ∈ timings, t.WellFormed) :
    (ofTimings timings).Consistent timings where
  samples := by
    show (sorted (timings.filterMap Timing.latency)).length = timings.countP fun t => t.commit.isSome
    rw [sorted, List.length_mergeSort, List.length_filterMap_eq_countP]
    exact List.countP_congr fun t ht => by rw [(h t ht).latency_spec.1]
  outcomes := countP_add_countP_le (fun t ht hcommit => (h t ht).submitted (Or.inl hcommit))
    (fun t ht habort => (h t ht).submitted (Or.inr habort)) fun t ht => (h t ht).oneOutcome
  submissions := List.countP_le_length
  lastTime t ht x hx := by
    obtain ⟨last, hlast, hle⟩ := (h t ht).le_lastTime hx
    have hnumbers : ∀ y ∈ timings.filterMap Timing.lastTime, y.isNaN = false := by
      intro y hy
      obtain ⟨u, hu, hlast⟩ := List.mem_filterMap.mp hy
      exact (h u hu).isNaN_lastTime hlast
    have hmem : last ∈ timings.filterMap Timing.lastTime := List.mem_filterMap.mpr ⟨t, ht, hlast⟩
    exact Double.le_trans hle ((Timing.le_foldl_later hnumbers (by decide +kernel)).2 last hmem)
  nonneg x hx := by
    obtain ⟨t, ht, hlatency⟩ := List.mem_filterMap.mp (List.mem_mergeSort.mp hx)
    exact (h t ht).latency_spec.2 x hlatency
  ascending := by
    refine pairwise_sorted fun x hx => ?_
    obtain ⟨t, ht, hlatency⟩ := List.mem_filterMap.mp hx
    exact Double.isNaN_of_le ((h t ht).latency_spec.2 x hlatency)

end Statistics

/-- **Nobody can spoil the figures**: whatever documents the parts of a result were read from, its
timings are well formed and its figures consistent. -/
theorem CampaignResult.consistent_of_documents {r : CampaignResult}
    (h : ∀ s ∈ r.secondaries, ∃ d, SecondaryResult.ofDocument d = .ok s) :
    (∀ t ∈ r.interactions, t.WellFormed) ∧
      (Statistics.ofResult r).Consistent r.interactions := by
  have hall (t : Timing) (ht : t ∈ r.interactions) : t.WellFormed := by
    obtain ⟨s, hs, ht⟩ := List.mem_flatMap.mp ht
    obtain ⟨d, hd⟩ := h s hs
    exact SecondaryResult.forall_ofDocument hd t ht
  exact ⟨hall, Statistics.consistent_ofTimings hall⟩

/-- A result as no secondary writes it: with fields nobody asked for, records as lists, integers for
times, a minus zero and fields in another order. -/
def SecondaryResult.strangeText : String :=
  "\x7b\"more\":[],\"clients\":[\x7b\"interactions\":[[-0, 0.5, -1]," ++
    "\x7b\"abort_time\":2,\"commit_time\":-1.0,\"submit_time\":1e0,\"x\":null\x7d]\x7d,[[]]]\x7d"

theorem CampaignResult.consistent_of_strange : ∃ s,
    SecondaryResult.ofDocument (.ofText SecondaryResult.strangeText) = .ok s ∧
    (∀ t ∈ CampaignResult.interactions ⟨[s, s]⟩, t.WellFormed) ∧
    (Statistics.ofResult ⟨[s, s]⟩).Consistent (CampaignResult.interactions ⟨[s, s]⟩) := by
  have hread : (SecondaryResult.ofDocument (.ofText SecondaryResult.strangeText)).toOption.isSome =
      true := by decide +kernel
  cases hs : SecondaryResult.ofDocument (.ofText SecondaryResult.strangeText) with
  | error fault =>
    rw [hs] at hread
    cases hread
  | ok s =>
    refine ⟨s, rfl, consistent_of_documents fun s' hs' =>
      ⟨.ofText SecondaryResult.strangeText, ?_⟩⟩
    have heq : s' = s := by simpa using hs'
    rw [heq]
    exact hs

end LedgerLoad
