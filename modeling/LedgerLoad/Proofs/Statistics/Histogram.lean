import Mathlib.Data.List.Sort
import Mathlib.Tactic.SplitIfs
import LedgerLoad.Statistics.Histogram

/-! # Ranks in a histogram

A class of a histogram holds the values that share all but their last binary digits. The histogram
of some values spells out, class by class, the lowest value of the class of each of them in
ascending order (`Histogram.spelled_ofList`), so for a rank it reports the class of the value that
has the rank among the values themselves.

* `Histogram.bracket_highest`: the highest value of a class exceeds no value of the class by a
  thousandth, and below 2048 not at all.
* `Histogram.atRank_eq`: what is reported for a rank is the highest value of the class of the value
  of that rank.
* `Histogram.atRank_mono`: nothing less is reported for a higher rank. -/

namespace LedgerLoad.Histogram

/-! ### Classes -/

section Classes

variable {b value x y : Nat}

/-- The width of a class by the first binary digit of its values. -/
theorem widthBits_spec (value : Nat) : value < 2 ^ (11 + widthBits value) ∧
    (widthBits value = 0 ∨ 2 ^ (10 + widthBits value) ≤ value) := by
  unfold widthBits
  split_ifs with hsmall
  · exact ⟨hsmall, Or.inl rfl⟩
  · have hpos : value ≠ 0 := by omega
    have hlog : 11 ≤ value.log2 := (Nat.le_log2 hpos).mpr (by omega)
    have hlast : 11 + (value.log2 + 1 - 11) = value.log2 + 1 := by omega
    have hfirst : 10 + (value.log2 + 1 - 11) = value.log2 := by omega
    rw [hlast, hfirst]
    exact ⟨Nat.lt_log2_self, Or.inr (Nat.log2_self_le hpos)⟩

/-- No other width fits. -/
theorem widthBits_eq (hlt : value < 2 ^ (11 + b)) (hle : b = 0 ∨ 2 ^ (10 + b) ≤ value) :
    widthBits value = b := by
  obtain ⟨hlt', hle'⟩ := widthBits_spec value
  have hpow {m n : Nat} (h : 2 ^ m < 2 ^ n) : m < n := (Nat.pow_lt_pow_iff_right (by decide)).mp h
  rcases hle with rfl | hle <;> rcases hle' with h | hle'
  · exact h
  · have := hpow (Nat.lt_of_le_of_lt hle' hlt)
    omega
  · have := hpow (Nat.lt_of_le_of_lt hle hlt')
    omega
  · have := hpow (Nat.lt_of_le_of_lt hle' hlt)
    have := hpow (Nat.lt_of_le_of_lt hle hlt')
    omega

theorem lowest_le (value : Nat) : lowest value ≤ value := Nat.div_mul_le_self _ _

theorem lt_lowest_add (value : Nat) : value < lowest value + 2 ^ widthBits value := by
  have hpos : 0 < 2 ^ widthBits value := Nat.two_pow_pos _
  have hmod := Nat.mod_lt value hpos
  have hsplit := Nat.div_add_mod' value (2 ^ widthBits value)
  unfold lowest
  omega

/-- A class begins where its first binary digit does, or above. -/
theorem power_le_lowest (h : widthBits value ≠ 0) : 2 ^ (10 + widthBits value) ≤ lowest value := by
  have hle := (widthBits_spec value).2.resolve_left h
  have hpos : 0 < 2 ^ widthBits value := Nat.two_pow_pos _
  rw [Nat.pow_add] at hle ⊢
  exact Nat.mul_le_mul_right _ ((Nat.le_div_iff_mul_le hpos).mpr hle)

/-- The lowest value of a class is one of its values. -/
theorem widthBits_lowest (value : Nat) : widthBits (lowest value) = widthBits value := by
  refine widthBits_eq (Nat.lt_of_le_of_lt (lowest_le value) (widthBits_spec value).1) ?_
  by_cases h : widthBits value = 0
  · exact Or.inl h
  · exact Or.inr (power_le_lowest h)

theorem lowest_lowest (value : Nat) : lowest (lowest value) = lowest value := by
  calc lowest (lowest value)
      = lowest value / 2 ^ widthBits value * 2 ^ widthBits value := by
        rw [← widthBits_lowest value]
        rfl
    _ = lowest value := by rw [lowest, Nat.mul_div_cancel _ (Nat.two_pow_pos _)]

theorem highest_lowest (value : Nat) : highest (lowest value) = highest value := by
  unfold highest
  rw [lowest_lowest, widthBits_lowest]

theorem widthBits_mono (h : x ≤ y) : widthBits x ≤ widthBits y := by
  by_contra hlt
  have hle := (widthBits_spec x).2.resolve_left (by omega)
  have hpow : 2 ^ (11 + widthBits y) ≤ 2 ^ (10 + widthBits x) :=
    Nat.pow_le_pow_right (by decide) (by omega)
  have := (widthBits_spec y).1
  omega

/-- Classes are in the order of their values. -/
theorem lowest_mono (h : x ≤ y) : lowest x ≤ lowest y := by
  rcases Nat.lt_or_eq_of_le (widthBits_mono h) with hlt | heq
  · have hpow : 2 ^ (11 + widthBits x) ≤ 2 ^ (10 + widthBits y) :=
      Nat.pow_le_pow_right (by decide) (by omega)
    have := (widthBits_spec x).1
    have := lowest_le x
    have hwide : widthBits y ≠ 0 := by omega
    have := power_le_lowest hwide
    omega
  · unfold lowest
    rw [heq]
    exact Nat.mul_le_mul_right _ (Nat.div_le_div_right h)

theorem highest_mono (h : x ≤ y) : highest x ≤ highest y := by
  have hlow := lowest_mono h
  have hwidth : 2 ^ widthBits x ≤ 2 ^ widthBits y :=
    Nat.pow_le_pow_right (by decide) (widthBits_mono h)
  unfold highest
  omega

/-- How far a value that is reported for a sample may be from it. -/
structure Brackets (sample reported : Nat) : Prop where
  le : sample ≤ reported
  near : reported = sample ∨ 1000 * (reported - sample) < sample
  exact : sample < 2048 → reported = sample

/-- **The highest value of a class brackets its values.** -/
theorem bracket_highest (h : value < 2 ^ 63) : Brackets value (highest value) := by
  have hgreatest : greatest = 2 ^ 64 - 1 := rfl
  have hlow := lowest_le value
  have hhigh := lt_lowest_add value
  have hwidth : 0 < 2 ^ widthBits value := Nat.two_pow_pos _
  have hle : value ≤ highest value := by
    unfold highest
    omega
  by_cases hnarrow : widthBits value = 0
  · have hsame : highest value = value := by
      unfold highest
      rw [hnarrow, Nat.pow_zero] at hhigh ⊢
      omega
    exact ⟨hle, Or.inl hsame, fun _ => hsame⟩
  · -- The width of the class is less than a thousandth of its lowest value.
    have hfirst := power_le_lowest hnarrow
    rw [Nat.pow_add] at hfirst
    have hwide : 2048 ≤ value := by
      by_contra hsmall
      exact hnarrow (if_pos (by omega))
    refine ⟨hle, Or.inr ?_, fun hsmall => absurd hsmall (by omega)⟩
    unfold highest
    omega

end Classes

/-! ### Values spelled out -/

/-- The lowest values of classes, each as often as it was counted. -/
def spelled (classes : List (Nat × Nat)) : List Nat :=
  classes.flatMap fun e => List.replicate e.2 e.1

/-- A rank is reached in the class that stands in its place. -/
theorem reach_eq {rank counted : Nat} (h : counted < rank) (classes : List (Nat × Nat)) :
    reach rank counted classes = (spelled classes)[rank - counted - 1]? := by
  induction classes generalizing counted with
  | nil => rfl
  | cons e classes ih =>
    obtain ⟨low, n⟩ := e
    have hspelled : spelled ((low, n) :: classes) = List.replicate n low ++ spelled classes := rfl
    unfold reach
    rw [hspelled]
    split_ifs with hhere
    · rw [List.getElem?_append_left (by rw [List.length_replicate]; omega), List.getElem?_replicate,
        if_pos (by omega)]
    · rw [ih (by omega), List.getElem?_append_right (by rw [List.length_replicate]; omega),
        List.length_replicate]
      congr 1
      omega

theorem perm_spelled_countClass (low : Nat) (classes : List (Nat × Nat)) :
    (spelled (countClass low classes)).Perm (low :: spelled classes) := by
  induction classes with
  | nil => exact .refl _
  | cons e classes ih =>
    obtain ⟨l, n⟩ := e
    have hspelled (m : Nat) (rest : List (Nat × Nat)) :
        spelled ((l, m) :: rest) = List.replicate m l ++ spelled rest := rfl
    unfold countClass
    split_ifs with hbelow habove
    · exact .refl _
    · rw [hspelled, hspelled]
      exact (ih.append_left _).trans List.perm_middle
    · obtain rfl : low = l := by omega
      rw [hspelled, hspelled, List.replicate_succ]
      exact .refl _

/-- Classes in ascending order. -/
def Ascending (classes : List (Nat × Nat)) : Prop := classes.Pairwise fun d e => d.1 < e.1

theorem mem_countClass {low : Nat} {classes : List (Nat × Nat)} {e : Nat × Nat}
    (h : e ∈ countClass low classes) : e.1 = low ∨ ∃ d ∈ classes, e.1 = d.1 := by
  induction classes with
  | nil => exact Or.inl (congrArg Prod.fst (List.mem_singleton.mp h))
  | cons d classes ih =>
    obtain ⟨l, n⟩ := d
    unfold countClass at h
    split_ifs at h with hbelow habove
    · rcases List.mem_cons.mp h with rfl | h
      · exact Or.inl rfl
      · exact Or.inr ⟨e, h, rfl⟩
    · rcases List.mem_cons.mp h with rfl | h
      · exact Or.inr ⟨_, List.mem_cons_self, rfl⟩
      · exact (ih h).imp_right fun ⟨d, hd, heq⟩ => ⟨d, List.mem_cons_of_mem _ hd, heq⟩
    · rcases List.mem_cons.mp h with rfl | h
      · exact Or.inr ⟨_, List.mem_cons_self, rfl⟩
      · exact Or.inr ⟨e, List.mem_cons_of_mem _ h, rfl⟩

theorem Ascending.countClass {classes : List (Nat × Nat)} (h : Ascending classes) (low : Nat) :
    Ascending (countClass low classes) := by
  induction classes with
  | nil => exact List.pairwise_singleton _ _
  | cons e classes ih =>
    obtain ⟨l, n⟩ := e
    obtain ⟨hfirst, hrest⟩ := List.pairwise_cons.mp h
    unfold Histogram.countClass
    split_ifs with hbelow habove
    · refine List.pairwise_cons.mpr ⟨fun e he => ?_, h⟩
      rcases List.mem_cons.mp he with rfl | he
      · exact hbelow
      · exact Nat.lt_trans hbelow (hfirst e he)
    · refine List.pairwise_cons.mpr ⟨fun e he => ?_, ih hrest⟩
      rcases mem_countClass he with heq | ⟨d, hd, heq⟩
      · exact heq ▸ habove
      · exact heq ▸ hfirst d hd
    · exact List.pairwise_cons.mpr ⟨hfirst, hrest⟩

theorem Ascending.spelled {classes : List (Nat × Nat)} (h : Ascending classes) :
    (spelled classes).Pairwise (· ≤ ·) := by
  refine List.pairwise_flatMap.mpr ⟨fun e _ => ?_, h.imp fun hlt x hx y hy => ?_⟩
  · exact List.pairwise_replicate.mpr (Or.inr (Nat.le_refl _))
  · rw [List.eq_of_mem_replicate hx, List.eq_of_mem_replicate hy]
    exact Nat.le_of_lt hlt

/-- What the counting of values keeps. -/
theorem foldl_record (values : List Nat) (h : Histogram) (hasc : Ascending h.classes) :
    Ascending (values.foldl record h).classes ∧
      (spelled (values.foldl record h).classes).Perm
        (values.map lowest ++ spelled h.classes) := by
  induction values generalizing h with
  | nil => exact ⟨hasc, .refl _⟩
  | cons v values ih =>
    obtain ⟨hascending, hperm⟩ := ih (h.record v) (hasc.countClass (lowest v))
    refine ⟨hascending, hperm.trans ?_⟩
    exact ((perm_spelled_countClass (lowest v) h.classes).append_left _).trans List.perm_middle

/-! ### Ranks -/

section Ranks

variable {values : List Nat} {rank rank' x : Nat}

/-- **The histogram of some values** spells out the classes of the values in their order. -/
theorem spelled_ofList (values : List Nat) :
    spelled (ofList values).classes = values.mergeSort.map lowest := by
  obtain ⟨hascending, hperm⟩ := foldl_record values empty .nil
  have hsorted : (values.mergeSort.map lowest).Pairwise (· ≤ ·) :=
    List.pairwise_map.mpr ((List.pairwise_mergeSort' (· ≤ ·) values).imp lowest_mono)
  refine List.Perm.eq_of_pairwise (fun a b _ _ => Nat.le_antisymm) hascending.spelled hsorted ?_
  have hempty : spelled empty.classes = [] := rfl
  rw [hempty, List.append_nil] at hperm
  exact hperm.trans ((List.mergeSort_perm values _).map lowest).symm

/-- **What is reported for a rank** is the highest value of the class of the value of that rank. -/
theorem atRank_eq (hrank : 1 ≤ rank) (hx : values.mergeSort[rank - 1]? = some x) :
    (ofList values).atRank rank = highest x := by
  have hreach : reach rank 0 (ofList values).classes = some (lowest x) := by
    rw [reach_eq hrank, spelled_ofList, List.getElem?_map, Nat.sub_zero, hx]
    rfl
  rw [atRank, hreach]
  exact highest_lowest x

theorem exists_getElem?_rank (hrank : 1 ≤ rank) (hle : rank ≤ values.length) :
    ∃ x ∈ values, values.mergeSort[rank - 1]? = some x := by
  have hlt : rank - 1 < values.mergeSort.length := by
    rw [List.length_mergeSort]
    omega
  exact ⟨_, List.mem_mergeSort.mp (List.getElem_mem hlt), List.getElem?_eq_getElem hlt⟩

/-- **Nothing less is reported for a higher rank.** -/
theorem atRank_mono (hrank : 1 ≤ rank) (hle : rank ≤ rank') (hle' : rank' ≤ values.length) :
    (ofList values).atRank rank ≤ (ofList values).atRank rank' := by
  obtain ⟨x, -, hx⟩ := exists_getElem?_rank hrank (Nat.le_trans hle hle')
  obtain ⟨y, -, hy⟩ := exists_getElem?_rank (Nat.le_trans hrank hle) hle'
  rw [atRank_eq hrank hx, atRank_eq (Nat.le_trans hrank hle) hy]
  refine highest_mono ?_
  obtain ⟨hi, rfl⟩ := List.getElem?_eq_some_iff.mp hx
  obtain ⟨hj, rfl⟩ := List.getElem?_eq_some_iff.mp hy
  rcases Nat.lt_or_eq_of_le hle with hlt | rfl
  · have hsorted := List.pairwise_mergeSort' (· ≤ ·) values
    exact List.pairwise_iff_getElem.mp hsorted _ _ hi hj (by omega)
  · exact Nat.le_refl _

end Ranks

end LedgerLoad.Histogram
