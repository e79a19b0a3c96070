import LedgerLoad.Arithmetic
import LedgerLoad.RoundRobin

/-! # How much each taker gets

`length_share`: a taker among `n` gets as many items as `shareLength` says; `sum_shareLength`: all
of them together get everything. Nothing is lost and nothing changes its place in a deal: taken up
again one turn after another, the items come in the order in which they were (`gather_deal`). -/

namespace LedgerLoad.RoundRobin

variable {α : Type}

theorem lt_length_share {n : Nat} (hn : 0 < n) (i k : Nat) (xs : List α) :
    k < (share n i xs).length ↔ i + k * n < xs.length := by
  have h := getElem?_share hn i k xs
  constructor
  · intro hk
    rw [List.getElem?_eq_getElem hk] at h
    exact (List.getElem?_eq_some_iff.mp h.symm).1
  · intro hk
    rw [List.getElem?_eq_getElem hk] at h
    exact (List.getElem?_eq_some_iff.mp h).1

theorem lt_shareLength {length n i : Nat} (hi : i < n) (k : Nat) :
    k < shareLength length n i ↔ i + k * n < length := by
  have hlength := Nat.div_add_mod length n
  have hmod := Nat.mod_lt length (Nat.zero_lt_of_lt hi)
  rw [shareLength, if_neg (Nat.not_le.mpr hi)]
  rw [Nat.mul_comm] at hlength
  rcases Nat.lt_trichotomy k (length / n) with h | rfl | h
  · have hmul : (k + 1) * n ≤ length / n * n := Nat.mul_le_mul_right n h
    rw [Nat.succ_mul] at hmul
    constructor <;> intro <;> omega
  · split <;> constructor <;> intro <;> omega
  · have hmul : (length / n + 1) * n ≤ k * n := Nat.mul_le_mul_right n h
    rw [Nat.succ_mul] at hmul
    split <;> constructor <;> intro <;> omega

/-- A taker gets as many items as were announced. -/
theorem length_share {n i : Nat} (hi : i < n) (xs : List α) :
    (share n i xs).length = shareLength xs.length n i := by
  have h (k : Nat) : k < (share n i xs).length ↔ k < shareLength xs.length n i := by
    rw [lt_length_share (Nat.zero_lt_of_lt hi), lt_shareLength hi]
  have hle := h (shareLength xs.length n i)
  have hge := h (share n i xs).length
  omega

/-- All takers together get as many items as there are. -/
theorem sum_shareLength {n : Nat} (hn : 0 < n) (length : Nat) :
    ((List.range n).map (shareLength length n)).sum = length := by
  have hmap : (List.range n).map (shareLength length n) =
      (List.range n).map fun i => length / n + if i < length % n then 1 else 0 :=
    List.map_congr_left fun i hi => by
      rw [shareLength, if_neg (Nat.not_le.mpr (List.mem_range.mp hi))]
  -- The first `m` takers get as many whole turns each, and what the last turn gives to them.
  have hsum (m q k : Nat) : ((List.range m).map fun i => q + if i < k then 1 else 0).sum =
      m * q + min m k := by
    induction m with
    | zero => simp
    | succ m ih =>
      rw [List.range_succ, List.map_append, List.sum_append, ih, List.map_singleton,
        List.sum_singleton, Nat.succ_mul]
      split <;> omega
  rw [hmap, hsum, Nat.min_eq_right (Nat.le_of_lt (Nat.mod_lt length hn))]
  exact Nat.div_add_mod length n

/-- Nobody gets two items more than somebody else. -/
theorem shareLength_le {length n i j : Nat} (hi : i < n) (hj : j < n) :
    shareLength length n i ≤ shareLength length n j + 1 := by
  unfold shareLength
  rw [if_neg (Nat.not_le.mpr hi), if_neg (Nat.not_le.mpr hj)]
  split <;> split <;> omega

theorem length_le_of_mem_deal {n : Nat} {xs ys zs : List α} (hys : ys ∈ deal n xs)
    (hzs : zs ∈ deal n xs) : ys.length ≤ zs.length + 1 := by
  obtain ⟨i, hi, rfl⟩ := List.mem_map.mp hys
  obtain ⟨j, hj, rfl⟩ := List.mem_map.mp hzs
  have hi := List.mem_range.mp hi
  have hj := List.mem_range.mp hj
  rw [length_share hi, length_share hj]
  exact shareLength_le hi hj

/-! ### What a taker gets is in its order -/

theorem everyNth_sublist (n skip : Nat) (xs : List α) : (everyNth n skip xs).Sublist xs := by
  induction xs generalizing skip with
  | nil => exact .slnil
  | cons x xs ih =>
    cases skip with
    | zero => exact (ih (n - 1)).cons_cons x
    | succ skip => exact (ih skip).cons x

theorem share_sublist (n i : Nat) (xs : List α) : (share n i xs).Sublist xs :=
  everyNth_sublist n i xs

theorem everyNth_map {β : Type} (f : α → β) (n skip : Nat) (xs : List α) :
    everyNth n skip (xs.map f) = (everyNth n skip xs).map f := by
  induction xs generalizing skip with
  | nil => simp [everyNth]
  | cons x xs ih =>
    cases skip with
    | zero => simp [everyNth, ih]
    | succ skip => simp [everyNth, ih]

theorem share_map {β : Type} (f : α → β) (n i : Nat) (xs : List α) :
    share n i (xs.map f) = (share n i xs).map f := everyNth_map f n i xs

/-! ### Taking a deal up again -/

theorem filterMap_range_getElem? (n : Nat) (xs : List α) :
    (List.range n).filterMap (fun i => xs[i]?) = xs.take n := by
  induction n with
  | zero => simp
  | succ n ih =>
    rw [List.range_succ, List.filterMap_append, ih, List.take_add_one]
    cases hn : xs[n]? with
    | none => simp [hn]
    | some x => simp [hn]

/-- The first turn of a deal are the first items. -/
theorem heads_deal {n : Nat} (hn : 0 < n) (xs : List α) :
    (deal n xs).filterMap List.head? = xs.take n := by
  have hhead (i : Nat) : (share n i xs).head? = xs[i]? := by
    rw [List.head?_eq_getElem?, getElem?_share hn, Nat.zero_mul, Nat.add_zero]
  have hheads : List.head? ∘ (fun i => share n i xs) = fun i => xs[i]? := funext hhead
  rw [deal, List.filterMap_map, hheads, filterMap_range_getElem?]

/-- What is left after the first turn is the deal of what is left. -/
theorem tails_deal {n : Nat} (hn : 0 < n) (xs : List α) :
    (deal n xs).map List.tail = deal n (xs.drop n) := by
  rw [deal, deal, List.map_map]
  refine List.map_congr_left fun i _ => List.ext_getElem? fun k => ?_
  have hturn : i + (k + 1) * n = n + (i + k * n) := by
    rw [Nat.succ_mul]
    omega
  rw [Function.comp_apply, List.getElem?_tail, getElem?_share hn, getElem?_share hn,
    List.getElem?_drop, hturn]

/-- **Taken up again turn by turn, a deal gives back the list**, in its order. -/
theorem gather_deal {n : Nat} (hn : 0 < n) {xs : List α} {turns : Nat}
    (hturns : ∀ ys ∈ deal n xs, ys.length ≤ turns) : gather (deal n xs) turns = xs := by
  induction turns generalizing xs with
  | zero =>
    have hfirst : share n 0 xs ∈ deal n xs := List.mem_map_of_mem (List.mem_range.mpr hn)
    have hnone : (share n 0 xs)[0]? = none :=
      List.getElem?_eq_none_iff.mpr (hturns _ hfirst)
    rw [getElem?_share hn, Nat.zero_mul, List.getElem?_eq_none_iff] at hnone
    exact (List.eq_nil_of_length_eq_zero (Nat.le_zero.mp hnone)).symm
  | succ turns ih =>
    have hrest : ∀ ys ∈ deal n (xs.drop n), ys.length ≤ turns := by
      intro ys hys
      rw [← tails_deal hn] at hys
      obtain ⟨zs, hzs, rfl⟩ := List.mem_map.mp hys
      have hle := hturns zs hzs
      rw [List.length_tail]
      omega
    rw [gather, heads_deal hn, tails_deal hn, ih hrest, List.take_append_drop]

end LedgerLoad.RoundRobin
