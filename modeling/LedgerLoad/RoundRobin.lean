/-! # Dealing round-robin

A list is dealt to `n` takers one item each in turn, and again until nothing is left. The same deal
gives secondaries their shards and lanes their portions. Main statement: `getElem?_share`, which
item a taker gets when. -/

namespace LedgerLoad.RoundRobin

variable {α : Type}

/-- Every `n`-th item of a list, after `skip` items are passed over. -/
def everyNth (n : Nat) : (skip : Nat) → List α → List α
  | _, [] => []
  | 0, x :: xs => x :: everyNth n (n - 1) xs
  | skip + 1, _ :: xs => everyNth n skip xs

/-- What the taker numbered `i` of `n` gets. -/
def share (n i : Nat) (xs : List α) : List α := everyNth n i xs

/-- What each taker gets, in order. -/
def deal (n : Nat) (xs : List α) : List (List α) := (List.range n).map fun i => share n i xs

/-- How many of `length` items the taker numbered `i` of `n` gets; nobody beyond `n` gets any. -/
def shareLength (length n i : Nat) : Nat :=
  if n ≤ i then 0 else length / n + if i < length % n then 1 else 0

/-- The items of a deal, one turn after another; `turns` is at least the number of turns. -/
def gather (shares : List (List α)) : (turns : Nat) → List α
  | 0 => []
  | turns + 1 => shares.filterMap List.head? ++ gather (shares.map List.tail) turns

/-! ### What a taker gets -/

theorem getElem?_everyNth {n : Nat} (hn : 0 < n) (skip k : Nat) (xs : List α) :
    (everyNth n skip xs)[k]? = xs[skip + k * n]? := by
  induction xs generalizing skip k with
  | nil => simp [everyNth]
  | cons x xs ih =>
    cases skip with
    | zero =>
      cases k with
      | zero => simp [everyNth]
      | succ k =>
        have : 0 + (k + 1) * n = (n - 1 + k * n) + 1 := by
          rw [Nat.succ_mul]
          omega
        rw [everyNth, List.getElem?_cons_succ, ih, this, List.getElem?_cons_succ]
    | succ skip =>
      have : skip + 1 + k * n = (skip + k * n) + 1 := by omega
      rw [everyNth, ih, this, List.getElem?_cons_succ]

/-- The `k`-th item of a taker is the one `k` whole turns behind its first. -/
theorem getElem?_share {n : Nat} (hn : 0 < n) (i k : Nat) (xs : List α) :
    (share n i xs)[k]? = xs[i + k * n]? := getElem?_everyNth hn i k xs

theorem length_deal (n : Nat) (xs : List α) : (deal n xs).length = n := by simp [deal]

end LedgerLoad.RoundRobin
