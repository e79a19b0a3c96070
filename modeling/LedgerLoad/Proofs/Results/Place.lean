import LedgerLoad.Results
import LedgerLoad.Proofs.RoundRobin
import Mathlib.Logic.ExistsUnique

/-! # Places in a result

A schedule is dealt out to secondaries, and the share of each secondary to its lanes. So each place
in a result belongs to the interaction of one number in the schedule (`Place.number`). Main
statements, for a result with as many entries in each lane as are dealt to it:
`Dealt.isSome_timing?`, there is an entry exactly at the places that belong to numbers of the
schedule, `Dealt.existsUnique_place`, each number has exactly one place, and
`Dealt.length_interactions`. -/

namespace LedgerLoad

/-- Where an entry of a result stands. -/
structure Place where
  secondary : Nat
  lane : Nat
  slot : Nat
deriving DecidableEq, Repr

/-- The number in the schedule of the interaction to which a place belongs; `lanes` are the numbers
of lanes of the secondaries. -/
def Place.number (lanes : List Nat) (p : Place) : Nat :=
  (p.slot * lanes.getD p.secondary 1 + p.lane) * lanes.length + p.secondary

/-- The entry at a place. -/
def CampaignResult.timing? (r : CampaignResult) (p : Place) : Option Timing := do
  let secondary ← r.secondaries[p.secondary]?
  let lane ← secondary.lanes[p.lane]?
  lane.interactions[p.slot]?

/-- `r.Dealt lanes length`: there are slots for secondaries with some numbers of lanes, each at
least one, and each lane has as many entries as it is dealt of a schedule of some length. -/
structure CampaignResult.Dealt (r : CampaignResult) (lanes : List Nat) (length : Nat) : Prop where
  size : r.secondaries.length = lanes.length
  pos : ∀ m ∈ lanes, 0 < m
  width : ∀ {k m : Nat} {secondary : SecondaryResult}, lanes[k]? = some m →
    r.secondaries[k]? = some secondary → secondary.lanes.length = m
  depth : ∀ {k m l : Nat} {secondary : SecondaryResult} {lane : LaneResult}, lanes[k]? = some m →
    r.secondaries[k]? = some secondary → secondary.lanes[l]? = some lane →
    lane.interactions.length =
      RoundRobin.shareLength (RoundRobin.shareLength length lanes.length k) m l

namespace CampaignResult

variable {r : CampaignResult} {lanes : List Nat} {length : Nat}

theorem timing?_eq_some {p : Place} {t : Timing} : r.timing? p = some t ↔ ∃ secondary lane,
    r.secondaries[p.secondary]? = some secondary ∧ secondary.lanes[p.lane]? = some lane ∧
      lane.interactions[p.slot]? = some t := by
  simp only [timing?, Option.bind_eq_bind, Option.bind_eq_some_iff]
  constructor
  · rintro ⟨secondary, hsecondary, lane, hlane, ht⟩
    exact ⟨secondary, lane, hsecondary, hlane, ht⟩
  · rintro ⟨secondary, lane, hsecondary, hlane, ht⟩
    exact ⟨secondary, hsecondary, lane, hlane, ht⟩

namespace Dealt

/-- There is an entry at a place exactly if there is such a lane and the place belongs to a number
of the schedule. -/
theorem isSome_timing? (h : r.Dealt lanes length) {p : Place} : (r.timing? p).isSome ↔
    (∃ m, lanes[p.secondary]? = some m ∧ p.lane < m) ∧ p.number lanes < length := by
  -- Both deals are told by `lt_shareLength`, once the numbers are known to be in range.
  have hnumber {m : Nat} (hm : lanes[p.secondary]? = some m) (hlane : p.lane < m) :
      p.slot < RoundRobin.shareLength (RoundRobin.shareLength length lanes.length p.secondary) m
        p.lane ↔ p.number lanes < length := by
    have hsecondary := (List.getElem?_eq_some_iff.mp hm).1
    rw [RoundRobin.lt_shareLength hlane, RoundRobin.lt_shareLength hsecondary, Place.number,
      List.getD_eq_getElem?_getD, hm, Option.getD_some, Nat.add_comm p.secondary,
      Nat.add_comm p.lane]
  constructor
  · intro hentry
    obtain ⟨t, ht⟩ := Option.isSome_iff_exists.mp hentry
    obtain ⟨secondary, lane, hsecondary, hlane, ht⟩ := timing?_eq_some.mp ht
    have hslot := (List.getElem?_eq_some_iff.mp ht).1
    have hlt : p.secondary < lanes.length := by
      rw [← h.size]
      exact (List.getElem?_eq_some_iff.mp hsecondary).1
    have hm := List.getElem?_eq_getElem hlt
    have hlt' : p.lane < lanes[p.secondary] := by
      rw [← h.width hm hsecondary]
      exact (List.getElem?_eq_some_iff.mp hlane).1
    rw [h.depth hm hsecondary hlane] at hslot
    exact ⟨⟨_, hm, hlt'⟩, (hnumber hm hlt').mp hslot⟩
  · rintro ⟨⟨m, hm, hlane⟩, hlt⟩
    have hsecondary : p.secondary < r.secondaries.length := by
      rw [h.size]
      exact (List.getElem?_eq_some_iff.mp hm).1
    have hsecondary := List.getElem?_eq_getElem hsecondary
    have hlane' : p.lane < r.secondaries[p.secondary].lanes.length := by
      rw [h.width hm hsecondary]
      exact hlane
    have hlane' := List.getElem?_eq_getElem hlane'
    have hslot := (hnumber hm hlane).mpr hlt
    rw [← h.depth hm hsecondary hlane'] at hslot
    exact Option.isSome_iff_exists.mpr
      ⟨_, timing?_eq_some.mpr ⟨_, _, hsecondary, hlane', List.getElem?_eq_getElem hslot⟩⟩

/-- The place of a number: the quotients and remainders of both deals. -/
theorem eq_of_number {p : Place} {m : Nat} (hm : lanes[p.secondary]? = some m)
    (hlane : p.lane < m) :
    p.secondary = p.number lanes % lanes.length ∧
      p.lane = p.number lanes / lanes.length % m ∧ p.slot = p.number lanes / lanes.length / m := by
  have hsecondary := (List.getElem?_eq_some_iff.mp hm).1
  have hnumber : p.number lanes = p.secondary + lanes.length * (p.lane + m * p.slot) := by
    rw [Place.number, List.getD_eq_getElem?_getD, hm, Option.getD_some, Nat.add_comm _ p.secondary,
      Nat.mul_comm _ lanes.length, Nat.mul_comm p.slot, Nat.add_comm p.lane]
  have hquotient : p.number lanes / lanes.length = p.lane + m * p.slot := by
    rw [hnumber, Nat.add_mul_div_left _ _ (by omega), Nat.div_eq_of_lt hsecondary, Nat.zero_add]
  rw [hquotient, hnumber, Nat.add_mul_mod_self_left, Nat.mod_eq_of_lt hsecondary,
    Nat.add_mul_mod_self_left, Nat.mod_eq_of_lt hlane, Nat.add_mul_div_left _ _ (by omega),
    Nat.div_eq_of_lt hlane, Nat.zero_add]
  exact ⟨rfl, rfl, rfl⟩

/-- **Each number of the schedule has exactly one place.** -/
theorem existsUnique_place (h : r.Dealt lanes length) (hlanes : lanes ≠ []) {g : Nat}
    (hg : g < length) : ∃! p : Place, (r.timing? p).isSome ∧ p.number lanes = g := by
  have hsecondary : g % lanes.length < lanes.length :=
    Nat.mod_lt g (List.length_pos_iff.mpr hlanes)
  obtain ⟨m, hm⟩ : ∃ m, lanes[g % lanes.length]? = some m :=
    ⟨_, List.getElem?_eq_getElem hsecondary⟩
  have hlane : g / lanes.length % m < m :=
    Nat.mod_lt _ (h.pos m (List.mem_of_getElem? hm))
  have hnumber : Place.number lanes ⟨g % lanes.length, g / lanes.length % m,
      g / lanes.length / m⟩ = g := by
    rw [Place.number, List.getD_eq_getElem?_getD, hm, Option.getD_some, Nat.mul_comm _ m,
      Nat.div_add_mod, Nat.mul_comm, Nat.div_add_mod]
  refine ⟨_, ⟨h.isSome_timing?.mpr ⟨⟨m, hm, hlane⟩, hnumber.symm ▸ hg⟩, hnumber⟩, ?_⟩
  rintro ⟨secondary, lane, slot⟩ ⟨hentry, rfl⟩
  obtain ⟨⟨m', hm', hlane'⟩, -⟩ := h.isSome_timing?.mp hentry
  obtain ⟨hk, hl, hs⟩ := eq_of_number hm' hlane'
  dsimp only at hk hl hs hm'
  rw [← hk] at hm
  obtain rfl : m' = m := Option.some.inj (hm'.symm.trans hm)
  rw [← hk, ← hl, ← hs]

theorem length_secondary (h : r.Dealt lanes length) {k : Nat} {secondary : SecondaryResult}
    (hsecondary : r.secondaries[k]? = some secondary) :
    secondary.interactions.length = RoundRobin.shareLength length lanes.length k := by
  have hk : k < lanes.length := by
    rw [← h.size]
    exact (List.getElem?_eq_some_iff.mp hsecondary).1
  have hm := List.getElem?_eq_getElem hk
  have hlengths : secondary.lanes.map (fun lane => lane.interactions.length) =
      (List.range lanes[k]).map
        (RoundRobin.shareLength (RoundRobin.shareLength length lanes.length k) lanes[k]) := by
    refine List.ext_getElem (by simp [h.width hm hsecondary]) fun l hl hl' => ?_
    have hlane := List.getElem?_eq_getElem (List.length_map _ ▸ hl)
    simp [h.depth hm hsecondary hlane]
  rw [SecondaryResult.interactions, List.length_flatMap, hlengths,
    RoundRobin.sum_shareLength (h.pos _ (List.getElem_mem hk))]

/-- There are as many entries as the schedule has interactions. -/
theorem length_interactions (h : r.Dealt lanes length) (hlanes : lanes ≠ []) :
    r.interactions.length = length := by
  have hlengths : r.secondaries.map (fun secondary => secondary.interactions.length) =
      (List.range lanes.length).map (RoundRobin.shareLength length lanes.length) := by
    refine List.ext_getElem (by simp [h.size]) fun k hk hk' => ?_
    have hsecondary := List.getElem?_eq_getElem (List.length_map _ ▸ hk)
    simp [h.length_secondary hsecondary]
  rw [CampaignResult.interactions, List.length_flatMap, hlengths,
    RoundRobin.sum_shareLength (List.length_pos_iff.mpr hlanes)]

end Dealt

end CampaignResult

end LedgerLoad
