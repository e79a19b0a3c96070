import LedgerLoad.Proofs.Primary.Run

/-! # Who takes part

The secondaries that take part are some of the numbers below the size of a primary, in ascending
order. Requests change links and nothing else; leaving somebody out changes nothing but who takes
part. Main statements: `active_exclude`, and `responses_eq`, what a phase brings in which exactly
those are asked who take part. -/

namespace LedgerLoad.Primary

variable {κ : Type} {execute : Executor κ} {p : Primary κ} {id : Nat}

/-- Whether there is a secondary of this number that still takes part. -/
def takesPart (p : Primary κ) (id : Nat) : Bool := p.seats[id]?.any Seat.active

theorem active_eq (p : Primary κ) : p.active = (List.range p.size).filter p.takesPart := by
  have hsome : ∀ e ∈ p.seats.zipIdx, (if e.1.active then some e.2 else none) =
      (Option.guard p.takesPart ∘ Prod.snd) e := by
    rintro ⟨seat, id⟩ he
    have hseat := List.mk_mem_zipIdx_iff_getElem?.mp he
    simp [Option.guard, takesPart, hseat]
  have hactive : p.active = p.seats.zipIdx.filterMap (Option.guard p.takesPart ∘ Prod.snd) :=
    List.filterMap_congr hsome
  rw [hactive, ← List.filterMap_map, List.zipIdx_map_snd, ← List.range_eq_range',
    List.filterMap_eq_filter, size]

theorem takesPart_iff : p.takesPart id = true ↔
    ∃ seat, p.seats[id]? = some seat ∧ seat.active = true := by
  rw [takesPart, Option.any_eq_true]

theorem mem_active : id ∈ p.active ↔ ∃ seat, p.seats[id]? = some seat ∧ seat.active = true := by
  rw [active_eq, List.mem_filter, takesPart_iff, List.mem_range, and_iff_right_iff_imp]
  rintro ⟨seat, hseat, -⟩
  exact (List.getElem?_eq_some_iff.mp hseat).1

theorem nodup_active (p : Primary κ) : p.active.Nodup := by
  rw [active_eq]
  exact List.nodup_range.filter _

/-! ### Links to all secondaries -/

theorem size_ofLinks (links : List κ) : (ofLinks links).size = links.length := by
  simp [ofLinks, size]

theorem seat_ofLinks (links : List κ) (id : Nat) :
    (ofLinks links).seats[id]? = links[id]?.map fun link => ⟨link, true⟩ := by
  simp [ofLinks]

theorem everyone_ofLinks (links : List κ) : (ofLinks links).Everyone := by
  intro seat hseat
  obtain ⟨link, -, rfl⟩ := List.mem_map.mp hseat
  rfl

theorem active_ofLinks (links : List κ) : (ofLinks links).active = List.range links.length := by
  rw [active_everyone (everyone_ofLinks links), size_ofLinks]

/-! ### Leaving somebody out -/

theorem seat_exclude (ids : List Nat) (p : Primary κ) (id : Nat) :
    (p.exclude ids).seats[id]? =
      p.seats[id]?.map fun seat => if id ∈ ids then { seat with active := false } else seat := by
  simp only [exclude, List.getElem?_map, List.getElem?_zipIdx, Option.map_map]
  cases p.seats[id]? <;> simp

theorem size_exclude (ids : List Nat) (p : Primary κ) : (p.exclude ids).size = p.size := by
  simp [exclude, size]

theorem active_exclude (ids : List Nat) (p : Primary κ) :
    (p.exclude ids).active = p.active.filter (· ∉ ids) := by
  rw [active_eq, active_eq, size_exclude, List.filter_filter]
  refine List.filter_congr fun id _ => ?_
  rw [takesPart, seat_exclude, takesPart]
  cases p.seats[id]? with
  | none => simp
  | some seat => by_cases h : id ∈ ids <;> simp [h]

/-! ### Requests to those who take part -/

theorem active_fanOut (request : Nat → Option (Request Document)) (p : Primary κ) :
    (p.fanOut execute request).2.active = p.active := by
  rw [active_eq, active_eq, size_fanOut]
  refine List.filter_congr fun id _ => ?_
  rw [takesPart, takesPart, seat_fanOut]
  cases p.seats[id]? with
  | none => rfl
  | some seat => simp [active_askSeat]

/-- If nobody is sent anything, then nothing happens. -/
theorem fanOut_none (p : Primary κ) : p.fanOut execute (fun _ => none) = ([], p) := by
  obtain ⟨seats⟩ := p
  have hfst : seats.zipIdx.map (fun e => e.1) = seats := List.zipIdx_map_fst 0 seats
  simp [fanOut, askSeat, Function.comp_def, hfst]

/-- If exactly those are asked who take part, then their answers come in, in ascending order. -/
theorem responses_eq {request : Nat → Option (Request Document)} {answer : Nat → Response}
    (hasked : ∀ (id : Nat) (seat : Seat κ), p.seats[id]? = some seat → seat.active = true →
      (askSeat execute (request id) seat).1 = some (answer id))
    (hrest : ∀ id ∉ p.active, request id = none) :
    (p.fanOut execute request).1 = p.active.map fun id => (id, answer id) := by
  rw [fanOut, active, List.map_filterMap, List.filterMap_map]
  refine List.filterMap_congr fun e he => ?_
  obtain ⟨seat, id⟩ := e
  have hseat := List.mk_mem_zipIdx_iff_getElem?.mp he
  by_cases hactive : seat.active = true
  · simp [hasked id seat hseat hactive, hactive]
  · have hnone : request id = none := hrest id fun hmem => by
      obtain ⟨seat', hseat', hactive'⟩ := mem_active.mp hmem
      obtain rfl := Option.some.inj (hseat.symm.trans hseat')
      exact hactive hactive'
    simp [hnone, askSeat, hactive]

theorem forAll_of_mem {ids : List Nat} (h : id ∈ ids) (r : Request Document) :
    forAll ids r id = some r := if_pos h

theorem forAll_of_not_mem {ids : List Nat} (h : id ∉ ids) (r : Request Document) :
    forAll ids r id = none := if_neg h

section Work

variable {active : List Nat} {ledger : String} {parameters : RunParameters} {shards : List Shard}

theorem workFor_of_mem (hnodup : active.Nodup) (hlength : shards.length = active.length)
    (hid : id ∈ active) : ∃ work, workFor active ledger parameters shards id =
      some (.workload work) := by
  obtain ⟨k, hk, rfl⟩ := List.mem_iff_getElem.mp hid
  exact ⟨_, workFor_of_getElem? hnodup (List.getElem?_eq_getElem hk)
    (List.getElem?_eq_getElem (hlength ▸ hk))⟩

theorem workFor_of_not_mem (hid : id ∉ active) :
    workFor active ledger parameters shards id = none := by
  have hfind : (active.zip shards).find? (fun e => e.1 == id) = none := by
    rw [List.find?_eq_none]
    rintro ⟨id', shard⟩ hmem
    have hne : id' ≠ id := fun h => hid (h ▸ (List.of_mem_zip hmem).1)
    simpa using hne
  rw [workFor, hfind]
  rfl

end Work

/-! ### Failures -/

theorem mem_failures {phase : Command} {responses : List (Nat × Response)} {f : Failure} :
    f ∈ failures phase responses ↔
      f.phase = phase ∧ (f.secondary, Except.error f.fault) ∈ responses := by
  rw [failures, List.mem_filterMap]
  constructor
  · rintro ⟨⟨id, x⟩, hx, hf⟩
    cases x with
    | ok y => cases hf
    | error fault =>
      obtain rfl := Option.some.inj hf
      exact ⟨rfl, hx⟩
  · rintro ⟨rfl, hf⟩
    exact ⟨_, hf, rfl⟩

/-- Whoever has an error for an answer is among those who failed. -/
theorem mem_secondary_failures {phase : Command} {responses : List (Nat × Response)} :
    id ∈ (failures phase responses).map Failure.secondary ↔
      ∃ fault, (id, Except.error fault) ∈ responses := by
  rw [List.mem_map]
  constructor
  · rintro ⟨f, hf, rfl⟩
    exact ⟨f.fault, (mem_failures.mp hf).2⟩
  · rintro ⟨fault, hfault⟩
    exact ⟨⟨id, phase, fault⟩, mem_failures.mpr ⟨rfl, hfault⟩, rfl⟩

end LedgerLoad.Primary
