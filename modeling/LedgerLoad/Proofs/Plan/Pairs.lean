import LedgerLoad.Proofs.Plan.Outcome
import Mathlib.Data.Finset.Prod
import Mathlib.Probability.Distributions.Uniform

/-! # The choice of two accounts

The accounts of a transfer are chosen by two draws, the first below the number `n` of accounts and
the second below `n - 1`; the second passes over the first (`Plan.pairOf`).

* `bijOn_pairOf`: the draws and the ordered pairs of different places below `n` are in one-to-one
  correspondence; `drawsOf` goes back.
* `uniform_pairOf`: so independent draws, each uniform, give a uniform pair.
* `drawPair_eq_ok`: planning draws in this way, and finds an account in both places.

That draws are uniform is what a source is trusted for. Of `Random.Source.below` it can be expected
only as long as one of 4096 draws in a row counts: past them the next one is taken as it is, where
the generator draws on (`Random.Source.draw_of_counts`).

Main statement: `Plan.pairs_fair` (`Plan.FairPairs`). -/

namespace LedgerLoad.Plan

/-! ### Draws and places -/

/-- The draws for a pair of `n` accounts. -/
def draws (n : ℕ) : Finset (ℕ × ℕ) := Finset.range n ×ˢ Finset.range (n - 1)

/-- The ordered pairs of different places among `n`. -/
def places (n : ℕ) : Finset (ℕ × ℕ) := (Finset.range n).offDiag

/-- The draws that stand for a pair of places: behind the first place, the second draw is one
less. -/
def drawsOf (sender receiver : ℕ) : ℕ × ℕ :=
  (sender, if sender < receiver then receiver - 1 else receiver)

theorem mem_draws {n : ℕ} {d : ℕ × ℕ} : d ∈ draws n ↔ d.1 < n ∧ d.2 < n - 1 := by
  rw [draws, Finset.mem_product, Finset.mem_range, Finset.mem_range]

theorem mem_places {n : ℕ} {p : ℕ × ℕ} : p ∈ places n ↔ p.1 < n ∧ p.2 < n ∧ p.1 ≠ p.2 := by
  rw [places, Finset.mem_offDiag, Finset.mem_range, Finset.mem_range]

theorem drawsOf_pairOf (first second : ℕ) :
    drawsOf (pairOf first second).1 (pairOf first second).2 = (first, second) := by
  simp only [pairOf, drawsOf, Prod.mk.injEq, true_and]
  split_ifs <;> omega

theorem pairOf_drawsOf {sender receiver : ℕ} (hne : sender ≠ receiver) :
    pairOf (drawsOf sender receiver).1 (drawsOf sender receiver).2 = (sender, receiver) := by
  simp only [pairOf, drawsOf, Prod.mk.injEq, true_and]
  split_ifs <;> omega

theorem drawsOf_mem {n : ℕ} {p : ℕ × ℕ} (hp : p ∈ places n) : drawsOf p.1 p.2 ∈ draws n := by
  obtain ⟨hsender, hreceiver, hne⟩ := mem_places.mp hp
  refine mem_draws.mpr ⟨hsender, ?_⟩
  simp only [drawsOf]
  split_ifs <;> omega

/-- **Each ordered pair of different places has its own draws**, and no draws lead elsewhere. -/
theorem bijOn_pairOf (n : ℕ) :
    Set.BijOn (fun d : ℕ × ℕ => pairOf d.1 d.2) (draws n) (places n) := by
  have hinverse : Set.InvOn (fun p : ℕ × ℕ => drawsOf p.1 p.2) (fun d => pairOf d.1 d.2) (draws n)
      (places n) :=
    ⟨fun d _ => drawsOf_pairOf d.1 d.2, fun p hp => pairOf_drawsOf (mem_places.mp hp).2.2⟩
  refine hinverse.bijOn (fun d hd => ?_) fun p hp => drawsOf_mem hp
  obtain ⟨hfirst, hsecond⟩ := mem_draws.mp hd
  exact mem_places.mpr (pairOf_lt hfirst hsecond)

/-! ### Uniform choices -/

section Uniform

variable {α γ : Type} {s : Finset α} {t : Finset γ}

/-- A uniform choice is uniform under other names. -/
theorem uniform_map_of_bijOn {f : α → γ} (hs : s.Nonempty) (ht : t.Nonempty)
    (h : Set.BijOn f s t) : (PMF.uniformOfFinset s hs).map f = PMF.uniformOfFinset t ht := by
  refine PMF.ext fun y => ?_
  rw [PMF.map_apply]
  by_cases hy : y ∈ t
  · -- The only choice that leads to `y` is as likely as `y`: both sets have as many members.
    obtain ⟨x, hx, rfl⟩ := h.surjOn hy
    rw [tsum_eq_single x fun x' hne => ?_, if_pos rfl, PMF.uniformOfFinset_apply_of_mem hs hx,
      PMF.uniformOfFinset_apply_of_mem ht hy, h.finsetCard_eq]
    by_cases hx' : x' ∈ s
    · exact if_neg fun heq => hne (h.injOn hx' hx heq.symm)
    · rw [PMF.uniformOfFinset_apply_of_notMem hs hx', ite_self]
  · rw [PMF.uniformOfFinset_apply_of_notMem ht hy, ENNReal.tsum_eq_zero]
    intro x
    by_cases hx : x ∈ s
    · refine if_neg ?_
      rintro rfl
      exact hy (h.mapsTo hx)
    · rw [PMF.uniformOfFinset_apply_of_notMem hs hx, ite_self]

/-- Two independent uniform choices are a uniform choice of both. -/
theorem uniform_bind_map (hs : s.Nonempty) (ht : t.Nonempty) :
    (PMF.uniformOfFinset s hs).bind (fun x => (PMF.uniformOfFinset t ht).map (Prod.mk x)) =
      PMF.uniformOfFinset (s ×ˢ t) (hs.product ht) := by
  refine PMF.ext fun ⟨x, y⟩ => ?_
  have hsame : (PMF.uniformOfFinset t ht).map (Prod.mk x) (x, y) =
      PMF.uniformOfFinset t ht y := by
    rw [PMF.map_apply, tsum_eq_single y fun y' hne => ?_, if_pos rfl]
    exact if_neg fun heq => hne (Prod.mk.inj heq).2.symm
  -- After another first choice, `(x, y)` cannot be met: one term of the sum is left.
  have hother : ∀ x' ≠ x, (PMF.uniformOfFinset t ht).map (Prod.mk x') (x, y) = 0 := by
    intro x' hne
    rw [PMF.map_apply, ENNReal.tsum_eq_zero]
    exact fun y' => if_neg fun heq => hne (Prod.mk.inj heq).1.symm
  rw [PMF.bind_apply, tsum_eq_single x fun x' hne => by rw [hother x' hne, mul_zero], hsame]
  by_cases hx : x ∈ s
  · by_cases hy : y ∈ t
    · rw [PMF.uniformOfFinset_apply_of_mem hs hx, PMF.uniformOfFinset_apply_of_mem ht hy,
        PMF.uniformOfFinset_apply_of_mem _ (Finset.mk_mem_product hx hy), Finset.card_product,
        Nat.cast_mul, ENNReal.mul_inv (Or.inr (ENNReal.natCast_ne_top _))
          (Or.inl (ENNReal.natCast_ne_top _))]
    · rw [PMF.uniformOfFinset_apply_of_notMem ht hy, mul_zero,
        PMF.uniformOfFinset_apply_of_notMem _ fun h => hy (Finset.mem_product.mp h).2]
  · rw [PMF.uniformOfFinset_apply_of_notMem hs hx, zero_mul,
      PMF.uniformOfFinset_apply_of_notMem _ fun h => hx (Finset.mem_product.mp h).1]

end Uniform

/-- **Independent uniform draws give a uniform pair.** -/
theorem uniform_pairOf {n : ℕ} (hfirst : (Finset.range n).Nonempty)
    (hsecond : (Finset.range (n - 1)).Nonempty) (hplaces : (places n).Nonempty) :
    (PMF.uniformOfFinset (Finset.range n) hfirst).bind (fun first =>
        (PMF.uniformOfFinset (Finset.range (n - 1)) hsecond).map (pairOf first)) =
      PMF.uniformOfFinset (places n) hplaces := by
  have hboth := uniform_map_of_bijOn (hfirst.product hsecond) hplaces (bijOn_pairOf n)
  rw [← hboth, ← uniform_bind_map hfirst hsecond, PMF.map_bind]
  simp only [PMF.map_comp, Function.comp_def]

/-! ### Drawing a pair -/

variable {β : Type}

theorem draw_eq_ok {bound : ℕ} (hbound : 0 < bound) (source : Random.Source) (state : β) :
    ∃ m < bound, ∃ after, draw bound (source, state) = .ok (m, after, state) := by
  have hends : Ends (draw bound) (source, state) (fun m after => m < bound ∧ after.2 = state)
      fun _ => False := ends_draw hbound source state
  rcases hends.cases with ⟨m, after, hdraw, hm, rfl⟩ | ⟨_, _, hnever⟩
  · exact ⟨m, hm, after.1, hdraw⟩
  · exact hnever.elim

theorem getElem?_getD {xs : Array ℕ} {i : ℕ} (h : i < xs.size) :
    xs[i]? = some (xs.getD i 0) := by
  simp [Array.getD, h]

/-- `PairDrawn accounts source state first second sender receiver`: the next two draws from a source
are these, and the accounts in the places that they stand for are these. A draw is one of
`Random.Source.below`, with its limit on draws that do not count. -/
structure PairDrawn (accounts : Array ℕ) (source : Random.Source) (state : β)
    (first second sender receiver : ℕ) : Prop where
  below : (first, second) ∈ draws accounts.size
  drawn : ∃ between after, draw accounts.size (source, state) = .ok (first, between, state) ∧
    draw (accounts.size - 1) (between, state) = .ok (second, after, state) ∧
    drawPair accounts (source, state) = .ok ((sender, receiver), after, state)
  sender : accounts[(pairOf first second).1]? = some sender
  receiver : accounts[(pairOf first second).2]? = some receiver

/-- **A pair is drawn** wherever there are two accounts. -/
theorem drawPair_eq_ok {accounts : Array ℕ} (hsize : 2 ≤ accounts.size) (source : Random.Source)
    (state : β) : ∃ first second sender receiver,
      PairDrawn accounts source state first second sender receiver := by
  obtain ⟨first, hfirst, between, hdraw⟩ := draw_eq_ok (by omega : 0 < accounts.size) source state
  obtain ⟨second, hsecond, after, hdraw'⟩ :=
    draw_eq_ok (by omega : 0 < accounts.size - 1) between state
  obtain ⟨hsender, hreceiver, -⟩ := pairOf_lt hfirst hsecond
  refine ⟨first, second, _, _, mem_draws.mpr ⟨hfirst, hsecond⟩,
    ⟨between, after, hdraw, hdraw', ?_⟩, getElem?_getD hsender, getElem?_getD hreceiver⟩
  unfold drawPair
  rw [bind_of_ok hdraw, bind_of_ok hdraw']
  rfl

/-! ### Main statement -/

/-- What it means that pairs of `n` accounts are chosen fairly. -/
structure FairPairs (n : ℕ) : Prop where
  /-- The two draws lead to two different places that are there, each pair of places is led to, and
  by one pair of draws only. -/
  bijOn : Set.BijOn (fun d : ℕ × ℕ => pairOf d.1 d.2) (draws n) (places n)
  /-- If the draws are independent and uniform, so is the pair among all ordered pairs. -/
  uniform : ∃ hfirst hsecond hplaces,
    (PMF.uniformOfFinset (Finset.range n) hfirst).bind (fun first =>
        (PMF.uniformOfFinset (Finset.range (n - 1)) hsecond).map (pairOf first)) =
      PMF.uniformOfFinset (places n) hplaces
  /-- Planning chooses in this way, from whatever source it draws. -/
  drawn : ∀ {β : Type} (accounts : Array ℕ) (source : Random.Source) (state : β),
    accounts.size = n → ∃ first second sender receiver,
      PairDrawn accounts source state first second sender receiver

/-- **Pairs of accounts are chosen fairly** wherever there are two accounts. -/
theorem pairs_fair {n : ℕ} (hn : 2 ≤ n) : FairPairs n where
  bijOn := bijOn_pairOf n
  uniform := by
    have hfirst : (Finset.range n).Nonempty := Finset.nonempty_range_iff.mpr (by omega)
    have hsecond : (Finset.range (n - 1)).Nonempty := Finset.nonempty_range_iff.mpr (by omega)
    have hplaces : (places n).Nonempty := ⟨(0, 1), mem_places.mpr ⟨by omega, by omega, by decide⟩⟩
    exact ⟨hfirst, hsecond, hplaces, uniform_pairOf hfirst hsecond hplaces⟩
  drawn accounts source state hsize := drawPair_eq_ok (hsize ▸ hn) source state

/-- Of three accounts, with a second draw before the first, equal to it, and at the very end. -/
theorem pairs_fair_three : 2 ≤ 3 ∧ FairPairs 3 ∧ pairOf 2 0 = (2, 0) ∧ pairOf 0 0 = (0, 1) ∧
    pairOf 2 1 = (2, 1) ∧ pairOf 1 1 = (1, 2) :=
  ⟨by decide, pairs_fair (by decide), rfl, rfl, rfl, rfl⟩

end LedgerLoad.Plan
