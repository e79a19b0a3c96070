import Mathlib.Algebra.BigOperators.Group.Finset.Piecewise
import Mathlib.Algebra.Order.BigOperators.Group.Finset
import LedgerLoad.Proofs.Lane.Independence
import LedgerLoad.Proofs.Mock.Payload
import LedgerLoad.Proofs.Mock.Service

/-! # The trigger that fails

A mock client can be told to fail at one trigger, counted over all lanes. Which interaction that is
depends on the order in which the lanes come to count their triggers, but it is one only: the
triggers of a run are numbered one after another (`Mock.ordinal_triggers`), and a lane that was
spared counts one for each of its interactions, so that there are enough of them. Main statement:
`Mock.fails_once`. -/

namespace LedgerLoad

open Finset (range)

/-- What is seen in all places together is the trace. -/
theorem Trace.sum_length_ofPlace {ε : Type} {n : ℕ} {es : Trace ε} (h : ∀ e ∈ es, e.1 < n) :
    ∑ i ∈ range n, (ofPlace i es).length = es.length := by
  induction es with
  | nil => simp [ofPlace]
  | cons e es ih =>
    obtain ⟨j, a⟩ := e
    obtain ⟨hj, hes⟩ := List.forall_mem_cons.mp h
    have hcons (i : ℕ) : (ofPlace i ((j, a) :: es)).length =
        (ofPlace i es).length + if i = j then 1 else 0 := by
      by_cases hij : i = j
      · subst hij
        rw [ofPlace_cons_self, List.length_cons, if_pos rfl]
      · rw [ofPlace_cons_other (Ne.symm hij), if_neg hij, Nat.add_zero]
    simp only [hcons]
    rw [Finset.sum_add_distrib, ih hes, Finset.sum_ite_eq', if_pos (Finset.mem_range.mpr hj),
      List.length_cons]

/-- The faults of a crew, by the fault of each lane. -/
theorem Crew.faults_eq {σ : Type} {c : Crew σ} {fault : ℕ → Option LaneFault}
    (h : ∀ id o, c.outcomes[id]? = some o → o.fault = fault id) :
    c.faults = (List.range c.outcomes.length).filterMap fun id =>
      (fault id).map fun f => (id, f) := by
  have hnumbers : List.range c.outcomes.length = c.outcomes.zipIdx.map Prod.snd := by
    rw [List.zipIdx_map_snd, List.range_eq_range']
  rw [hnumbers, List.filterMap_map]
  refine List.filterMap_congr fun e he => ?_
  simp only [Function.comp_apply]
  rw [← h e.2 e.1 (List.mem_zipIdx_iff_getElem?.mp he)]

/-- If one lane only has a fault, that is all. -/
theorem Crew.faults_single {σ : Type} {c : Crew σ} {k : ℕ} {fault : LaneFault}
    (hk : k < c.outcomes.length)
    (h : ∀ id o, c.outcomes[id]? = some o → o.fault = if id = k then some fault else none) :
    c.faults = [(k, fault)] := by
  have hsplit : List.range c.outcomes.length =
      List.range k ++ k :: (List.range (c.outcomes.length - (k + 1))).map (k + 1 + ·) := by
    rw [← List.singleton_append, ← List.append_assoc, ← List.range_succ, ← List.range_add]
    congr 1
    omega
  rw [Crew.faults_eq h, hsplit, List.filterMap_append, List.filterMap_cons]
  have hnone (ids : List ℕ) (hids : ∀ id ∈ ids, id ≠ k) : (ids.filterMap fun id =>
      (if id = k then some fault else none).map fun f => (id, f)) = [] :=
    List.filterMap_eq_nil_iff.mpr fun id hid => by rw [if_neg (hids id hid)]; rfl
  rw [hnone, hnone, if_pos rfl]
  · rfl
  · intro id hid
    obtain ⟨j, -, rfl⟩ := List.mem_map.mp hid
    omega
  · intro id hid
    have := List.mem_range.mp hid
    omega

namespace Mock

variable {s : Settings} {slot : ℕ} {rest : Shard} {as : List (Access Ledger)} {ts : List Timing}
  {fault : Option LaneFault} {record : Record Ledger}

/-! ### Triggers of a lane -/

/-- The number of a trigger, counted from one. -/
def ordinal (a : Access Ledger) : ℕ := a.found.triggers + 1

/-- A lane that was spared: it counted a trigger for each interaction, and none of them was the one
that fails. -/
structure Spared (s : Settings) (rest : Shard) (as : List (Access Ledger)) (ts : List Timing)
    (fault : Option LaneFault) : Prop where
  fault : fault = none
  counts : (as.filter Counts).length = rest.length
  others : ∀ a ∈ as.filter Counts, s.failAt ≠ some (ordinal a)
  stored : ts.length = rest.length
  complete : ∀ t ∈ ts, t.isComplete = true

/-- A lane that was hit: its last trigger `a` is the one that fails, after those `earlier`. -/
structure Hit (s : Settings) (slot : ℕ) (rest : Shard) (as : List (Access Ledger))
    (ts : List Timing) (fault : Option LaneFault) (earlier : List (Access Ledger))
    (a : Access Ledger) : Prop where
  fault : fault = some (.adapter (slot + earlier.length) (injected (ordinal a)))
  counts : as.filter Counts = earlier ++ [a]
  others : ∀ b ∈ earlier, s.failAt ≠ some (ordinal b)
  fails : s.failAt = some (ordinal a)
  room : earlier.length < rest.length
  stored : ∃ done, ts = done ++ [.unreached] ∧ done.length = earlier.length ∧
    ∀ t ∈ done, t.isComplete = true

theorem Serves.filter_decides {tx : Transaction} {counted found : Ledger} :
    (counting counted :: deciding s tx found :: as).filter Counts =
      counting counted :: as.filter Counts := by
  rw [List.filter_cons_of_pos (counts_counting counted),
    List.filter_cons_of_neg (by simp)]

/-- **A lane that can decode its payloads** is spared or hit. -/
theorem Serves.spared_or_hit (h : Serves s slot rest as ts fault)
    (hreads : ∀ i ∈ rest, ∃ tx, Transaction.decode i.payload = .ok tx) :
    Spared s rest as ts fault ∨ ∃ earlier a, Hit s slot rest as ts fault earlier a := by
  induction h with
  | done => exact Or.inl ⟨rfl, rfl, nofun, rfl, nofun⟩
  | @undecodable slot i rest fault hdecode =>
    obtain ⟨tx, hread⟩ := hreads i List.mem_cons_self
    rw [hdecode] at hread
    cases hread
  | @fails slot i rest tx counted _ hfail =>
    refine Or.inr ⟨[], counting counted, rfl, ?_, nofun, hfail, Nat.succ_pos _, [], rfl, rfl, nofun⟩
    rw [List.filter_cons_of_pos (counts_counting counted)]
    rfl
  | @decides slot i rest tx counted found timing as ts fault _ hfail hshows _ ih =>
    rcases ih (List.forall_mem_cons.mp hreads).2 with hspared | ⟨earlier, a, hhit⟩
    · refine Or.inl ⟨hspared.fault, ?_, ?_, ?_, ?_⟩
      · rw [Serves.filter_decides, List.length_cons, hspared.counts, List.length_cons]
      · rw [Serves.filter_decides]
        exact List.forall_mem_cons.mpr ⟨hfail, hspared.others⟩
      · rw [List.length_cons, hspared.stored, List.length_cons]
      · exact List.forall_mem_cons.mpr ⟨hshows.isComplete, hspared.complete⟩
    · obtain ⟨done, rfl, hdone, hcomplete⟩ := hhit.stored
      refine Or.inr ⟨counting counted :: earlier, a, ?_, ?_, ?_, hhit.fails,
        Nat.succ_lt_succ hhit.room, timing :: done, rfl, congrArg (· + 1) hdone, ?_⟩
      · rw [hhit.fault, List.length_cons, Nat.succ_add_eq_add_succ]
      · rw [Serves.filter_decides, hhit.counts]
        rfl
      · exact List.forall_mem_cons.mpr ⟨hfail, hhit.others⟩
      · exact List.forall_mem_cons.mpr ⟨hshows.isComplete, hcomplete⟩

/-- What a lane leaves if the first interactions are through and the others were not reached. -/
structure Filled (o : LaneOutcome) (slots done : ℕ) : Prop where
  length : o.result.interactions.length = slots
  complete : ∀ j < done, ∃ t, o.result.interactions[j]? = some t ∧ t.isComplete = true
  behind : ∀ j, done ≤ j → j < slots → o.result.interactions[j]? = some .unreached

theorem Spared.filled (h : Spared s rest as ts fault) :
    Filled ⟨Lane.table ts (rest.length - ts.length), fault⟩ rest.length rest.length := by
  have htable : Lane.table ts (rest.length - ts.length) = ⟨ts⟩ := by
    simp [Lane.table, h.stored]
  rw [htable]
  refine ⟨h.stored, fun j hj => ?_, fun j hj hlt => absurd hlt (Nat.not_lt.mpr hj)⟩
  have hj : j < ts.length := by rwa [h.stored]
  exact ⟨ts[j], List.getElem?_eq_getElem hj, h.complete _ (List.getElem_mem hj)⟩

theorem Hit.filled {earlier : List (Access Ledger)} {a : Access Ledger}
    (h : Hit s slot rest as ts fault earlier a) :
    Filled ⟨Lane.table ts (rest.length - ts.length), fault⟩ rest.length earlier.length := by
  obtain ⟨done, rfl, hdone, hcomplete⟩ := h.stored
  have hroom := h.room
  -- The slot of the trigger that fails is the first of those that hold nothing.
  have htable : Lane.table (done ++ [Timing.unreached])
      (rest.length - (done ++ [Timing.unreached]).length) =
      ⟨done ++ List.replicate (rest.length - done.length) Timing.unreached⟩ := by
    obtain ⟨left, hleft⟩ := Nat.exists_eq_add_of_lt hroom
    have hrest : rest.length - done.length = left + 1 := by omega
    have hrest' : rest.length - (done.length + 1) = left := by omega
    rw [Lane.table, List.length_append, List.length_singleton, hrest, hrest', List.append_assoc]
    rfl
  rw [htable]
  refine ⟨?_, fun j hj => ?_, fun j hj hlt => ?_⟩
  · rw [List.length_append, List.length_replicate]
    omega
  · have hj : j < done.length := by omega
    refine ⟨done[j], ?_, hcomplete _ (List.getElem_mem hj)⟩
    rw [List.getElem?_append_left hj, List.getElem?_eq_getElem hj]
  · rw [List.getElem?_append_right (by omega), List.getElem?_replicate, if_pos (by omega)]

/-! ### Triggers of all lanes -/

variable {shard : Shard} {settings : LaneSettings} {origin : Duration}
  {q : Pool Ledger LaneOutcome}

/-- The triggers of a run in their order, each with its lane. -/
def triggers (record : Record Ledger) : Record Ledger := record.filter fun e => Counts e.2

theorem ofPlace_triggers (k : ℕ) :
    (triggers record).ofPlace k = (record.ofPlace k).filter Counts := by
  induction record with
  | nil => rfl
  | cons e record ih =>
    obtain ⟨i, a⟩ := e
    unfold triggers at ih ⊢
    by_cases hi : i = k
    · subst hi
      cases ha : Counts a with
      | true => simp [Trace.ofPlace_cons_self, ha, ih]
      | false => simp [Trace.ofPlace_cons_self, ha, ih]
    · cases ha : Counts a with
      | true => simp [Trace.ofPlace_cons_other hi, ha, ih]
      | false => simp [Trace.ofPlace_cons_other hi, ha, ih]

/-- **The triggers of a run are numbered** one after another. -/
theorem ordinal_triggers {l l' : Ledger} (h : Record.Follows l record l')
    (hdoes : ∀ e ∈ record, Does s e.2) {n : ℕ} {e : ℕ × Access Ledger}
    (he : (triggers record)[n]? = some e) : ordinal e.2 = l.triggers + n + 1 := by
  induction h generalizing n with
  | nil => simp [triggers] at he
  | @cons i a as s' _ ih =>
    obtain ⟨ha, has⟩ := List.forall_mem_cons.mp hdoes
    obtain ⟨l, rfl⟩ | ⟨tx, l, rfl⟩ := ha
    · rw [triggers, List.filter_cons_of_pos (by simp)] at he
      cases n with
      | zero =>
        obtain rfl := Option.some.inj he
        rfl
      | succ n =>
        have hcounted : (counting l).left.triggers = l.triggers + 1 := rfl
        rw [ih has he, hcounted]
        show l.triggers + 1 + n + 1 = l.triggers + (n + 1) + 1
        omega
    · rw [triggers, List.filter_cons_of_neg (by simp)] at he
      have hdecided : (deciding s tx l).left.triggers = l.triggers := Ledger.triggers_apply tx
      rw [ih has he, hdecided]
      rfl

theorem place_lt (hrun : (crew s shard settings origin).pool.Runs record q) :
    ∀ e ∈ record, e.1 < settings.count := by
  rw [← length_tasks_crew (s := s)]
  exact hrun.place_lt

/-- The number of a trigger in a run is its place among all triggers, counted from one. -/
theorem ordinal_of_runs (hrun : (crew s shard settings origin).pool.Runs record q) {n : ℕ}
    {e : ℕ × Access Ledger} (he : (triggers record)[n]? = some e) : ordinal e.2 = n + 1 := by
  have hnumber := ordinal_triggers hrun.follows (does_of_runs hrun) he
  have hfresh : (crew s shard settings origin).pool.shared.triggers = 0 := rfl
  omega

/-! ### Lanes that have ended -/

/-- The lanes of a run that has ended: each is spared, or hit by a trigger that is the one that
fails. -/
theorem lane_cases (hreads : ∀ i ∈ shard, ∃ tx, Transaction.decode i.payload = .ok tx)
    (hrun : (crew s shard settings origin).pool.Runs record q) (hended : q.ended = true) {id : ℕ}
    (hid : id < settings.count) :
    ∃ ts o, (crewAt s shard settings origin q).outcomes[id]? = some o ∧
      o = ⟨Lane.table ts ((lane s shard settings id).portion.length - ts.length), o.fault⟩ ∧
      (Spared s (lane s shard settings id).portion (record.ofPlace id) ts o.fault ∨
        ∃ earlier a, Hit s 0 (lane s shard settings id).portion (record.ofPlace id) ts o.fault
          earlier a) := by
  have hlast : id < q.tasks.length := by rwa [hrun.length_tasks, length_tasks_crew]
  have htask := List.getElem?_eq_getElem hlast
  obtain ⟨ts, fault, hserves, hdone⟩ := serves_of_runs hrun hid htask
    (List.all_eq_true.mp hended _ (List.getElem_mem hlast))
  have hportion : (lane s shard settings id).portion.length = (lane s shard settings id).length :=
    Lane.length_portion hid
  have hlength : (crewAt s shard settings origin q).lengths[id]? =
      some (lane s shard settings id).length := by
    simp [crewAt, crew, lane, Crew.start, Crew.lanes, hid]
  rw [hdone, ← hportion] at htask
  refine ⟨ts, _, Crew.getElem?_outcomes hlength htask, rfl, hserves.spared_or_hit fun i hi => ?_⟩
  exact hreads i ((RoundRobin.share_sublist _ _ _).subset hi)

theorem length_outcomes (hrun : (crew s shard settings origin).pool.Runs record q) :
    (crewAt s shard settings origin q).outcomes.length = settings.count := by
  have htasks := hrun.length_tasks
  rw [length_tasks_crew] at htasks
  simp [Crew.outcomes, htasks, crewAt, crew, Crew.start, Crew.lanes]

/-! ### Numbers of triggers -/

theorem sum_length_lane (s : Settings) (shard : Shard) (settings : LaneSettings) :
    ∑ id ∈ range settings.count, (lane s shard settings id).length = shard.length := by
  have hcount : 0 < settings.count := Nat.lt_of_lt_of_le Nat.one_pos (Nat.le_max_right _ _)
  exact RoundRobin.sum_shareLength hcount shard.length

/-- The triggers of a run, counted lane by lane. -/
theorem length_triggers (hrun : (crew s shard settings origin).pool.Runs record q) :
    (triggers record).length =
      ∑ id ∈ range settings.count, ((record.ofPlace id).filter Counts).length := by
  have hplace : ∀ e ∈ triggers record, e.1 < settings.count :=
    fun e he => place_lt hrun e (List.mem_of_mem_filter he)
  rw [← Trace.sum_length_ofPlace hplace]
  exact Finset.sum_congr rfl fun id _ => congrArg List.length (ofPlace_triggers id)

/-- There are not more triggers than interactions. -/
theorem length_triggers_le (hreads : ∀ i ∈ shard, ∃ tx, Transaction.decode i.payload = .ok tx)
    (hrun : (crew s shard settings origin).pool.Runs record q) (hended : q.ended = true) :
    (triggers record).length ≤ shard.length := by
  rw [length_triggers hrun, ← sum_length_lane s shard settings]
  refine Finset.sum_le_sum fun id hid => ?_
  have hid := Finset.mem_range.mp hid
  have hportion : (lane s shard settings id).portion.length = (lane s shard settings id).length :=
    Lane.length_portion hid
  obtain ⟨ts, o, -, -, hspared | ⟨earlier, a, hhit⟩⟩ := lane_cases hreads hrun hended hid
  · rw [hspared.counts, hportion]
  · have := hhit.room
    rw [hhit.counts, List.length_append, List.length_singleton]
    omega

/-- A trigger of a lane stands among all triggers in the place that its number says. -/
theorem getElem?_number (hrun : (crew s shard settings origin).pool.Runs record q) {id : ℕ}
    {a : Access Ledger} (ha : a ∈ (record.ofPlace id).filter Counts) :
    (triggers record)[ordinal a - 1]? = some (id, a) ∧ ordinal a ≤ (triggers record).length := by
  rw [← ofPlace_triggers, Trace.mem_ofPlace] at ha
  obtain ⟨n, hn, hat⟩ := List.mem_iff_getElem.mp ha
  have hat' : (triggers record)[n]? = some (id, a) := by rw [List.getElem?_eq_getElem hn, hat]
  have hnumber : ordinal a = n + 1 := ordinal_of_runs hrun hat'
  rw [hnumber]
  exact ⟨hat', hn⟩

theorem Hit.last_mem {earlier : List (Access Ledger)} {a : Access Ledger}
    (h : Hit s slot rest as ts fault earlier a) : a ∈ as.filter Counts := by
  rw [h.counts]
  exact List.mem_append_right earlier List.mem_cons_self

/-- The triggers of a lane that was hit before the one that fails. -/
theorem Hit.earlier_eq {earlier before : List (Access Ledger)} {a : Access Ledger}
    {after : List (Access Ledger)} (h : Hit s slot rest as ts fault earlier a)
    (hsplit : as.filter Counts = before ++ a :: after) : before = earlier := by
  rw [h.counts] at hsplit
  rcases List.eq_nil_or_concat after with rfl | ⟨after, b, rfl⟩
  · exact (List.append_inj_left' hsplit rfl).symm
  · have hsplit : earlier ++ [a] = (before ++ a :: after) ++ [b] := by simpa using hsplit
    have hmem : a ∈ earlier := by
      rw [List.append_inj_left' hsplit rfl]
      exact List.mem_append_right before List.mem_cons_self
    exact absurd h.fails (h.others a hmem)

/-! ### Main statement -/

/-- Which lane a run of a mock client leaves incomplete, once all lanes have ended. -/
structure Failure (s : Settings) (shard : Shard) (settings : LaneSettings) (record : Record Ledger)
    (c : Crew Ledger) : Prop where
  /-- If there are as many interactions, the trigger that fails is counted, by a lane `k`. That lane
  has counted a trigger for each of its earlier interactions, so it has come to the slot `j`. Nobody
  else has a fault. -/
  hit : ∀ m, s.failAt = some m → 1 ≤ m → m ≤ shard.length → ∃ k a j,
    (triggers record)[m - 1]? = some (k, a) ∧ k < settings.count ∧
      j = (Trace.ofPlace k ((triggers record).take (m - 1))).length ∧
      j < (lane s shard settings k).length ∧ c.faults = [(k, .adapter j (injected m))] ∧
      ∀ id < settings.count, ∃ o, c.outcomes[id]? = some o ∧
        Filled o (lane s shard settings id).length
          (if id = k then j else (lane s shard settings id).length)
  /-- If no trigger fails that is counted, nobody has a fault and all slots are complete. -/
  missed : (∀ m, s.failAt = some m → m = 0 ∨ shard.length < m) → c.faults = [] ∧
    ∀ id < settings.count, ∃ o, c.outcomes[id]? = some o ∧
      Filled o (lane s shard settings id).length (lane s shard settings id).length

section Ended

variable (hreads : ∀ i ∈ shard, ∃ tx, Transaction.decode i.payload = .ok tx)
  (hrun : (crew s shard settings origin).pool.Runs record q) (hended : q.ended = true)

include hreads hrun hended

theorem exists_hit {m : ℕ} (hfail : s.failAt = some m) (hpos : 1 ≤ m) (hle : m ≤ shard.length) :
    ∃ k < settings.count, ∃ ts fault earlier a,
      Hit s 0 (lane s shard settings k).portion (record.ofPlace k) ts fault earlier a := by
  by_contra hnone
  have hspared (id : ℕ) (hid : id < settings.count) : ∃ ts fault,
      Spared s (lane s shard settings id).portion (record.ofPlace id) ts fault := by
    obtain ⟨ts, o, -, -, hspared | ⟨earlier, a, hhit⟩⟩ := lane_cases hreads hrun hended hid
    · exact ⟨ts, _, hspared⟩
    · exact absurd ⟨id, hid, ts, _, earlier, a, hhit⟩ hnone
  -- Then there are as many triggers as interactions, and the one that fails is one of them.
  have hlength : (triggers record).length = shard.length := by
    rw [length_triggers hrun, ← sum_length_lane s shard settings]
    refine Finset.sum_congr rfl fun id hid => ?_
    have hid := Finset.mem_range.mp hid
    obtain ⟨ts, fault, h⟩ := hspared id hid
    exact h.counts.trans (Lane.length_portion hid)
  have hm : m - 1 < (triggers record).length := by omega
  obtain ⟨⟨k, a⟩, hat⟩ : ∃ e, (triggers record)[m - 1]? = some e := ⟨_, List.getElem?_eq_getElem hm⟩
  have hmem := List.mem_of_getElem? hat
  obtain ⟨ts, fault, h⟩ := hspared k (place_lt hrun _ (List.mem_of_mem_filter hmem))
  have hnumber : ordinal a = m - 1 + 1 := ordinal_of_runs hrun hat
  refine h.others a ?_ ?_
  · rw [← ofPlace_triggers, Trace.mem_ofPlace]
    exact hmem
  · rw [hfail, hnumber, Nat.sub_add_cancel hpos]

/-- What becomes of each lane if the lane `k` was hit: it is the only one. -/
theorem outcome_of_hit {k : ℕ} {ts : List Timing} {fault : Option LaneFault}
    {earlier : List (Access Ledger)} {a : Access Ledger}
    (hhit : Hit s 0 (lane s shard settings k).portion (record.ofPlace k) ts fault earlier a)
    {id : ℕ} (hid : id < settings.count) :
    ∃ o, (crewAt s shard settings origin q).outcomes[id]? = some o ∧
      (o.fault = if id = k then some (.adapter earlier.length (injected (ordinal a))) else none) ∧
      Filled o (lane s shard settings id).length
        (if id = k then earlier.length else (lane s shard settings id).length) := by
  have hportion : (lane s shard settings id).portion.length = (lane s shard settings id).length :=
    Lane.length_portion hid
  obtain ⟨ts', o, ho, htable, hspared | ⟨earlier', b, hhit'⟩⟩ := lane_cases hreads hrun hended hid
  · have hne : id ≠ k := by
      rintro rfl
      exact hspared.others a hhit.last_mem hhit.fails
    have hfilled := hspared.filled
    rw [← htable, hportion] at hfilled
    rw [if_neg hne, if_neg hne]
    exact ⟨o, ho, hspared.fault, hfilled⟩
  · -- There is one trigger with a number only.
    have hnumber : ordinal b = ordinal a := Option.some.inj (hhit'.fails.symm.trans hhit.fails)
    have hat := (getElem?_number hrun hhit'.last_mem).1
    rw [hnumber, (getElem?_number hrun hhit.last_mem).1] at hat
    obtain ⟨rfl, rfl⟩ := Prod.mk.inj (Option.some.inj hat)
    obtain rfl : earlier' = earlier := hhit.earlier_eq hhit'.counts
    have hfilled := hhit'.filled
    rw [← htable, hportion] at hfilled
    rw [if_pos rfl, if_pos rfl]
    refine ⟨o, ho, ?_, hfilled⟩
    rw [hhit'.fault, Nat.zero_add]

theorem failure_of_runs : Failure s shard settings record (crewAt s shard settings origin q) := by
  have hcount := length_outcomes (q := q) hrun
  have hlt {id : ℕ} {o : LaneOutcome}
      (ho : (crewAt s shard settings origin q).outcomes[id]? = some o) : id < settings.count :=
    hcount ▸ (List.getElem?_eq_some_iff.mp ho).1
  refine ⟨fun m hfail hpos hle => ?_, fun hnone => ?_⟩
  · obtain ⟨k, hk, ts, fault, earlier, a, hhit⟩ := exists_hit hreads hrun hended hfail hpos hle
    obtain rfl : m = ordinal a := Option.some.inj (hfail.symm.trans hhit.fails)
    obtain ⟨hat, hroom⟩ := getElem?_number hrun hhit.last_mem
    have hearlier : Trace.ofPlace k ((triggers record).take (ordinal a - 1)) = earlier := by
      obtain ⟨hlast, hsame⟩ := List.getElem?_eq_some_iff.mp hat
      have hsplit : (record.ofPlace k).filter Counts =
          Trace.ofPlace k ((triggers record).take (ordinal a - 1)) ++
            a :: Trace.ofPlace k ((triggers record).drop (ordinal a - 1 + 1)) := by
        rw [← ofPlace_triggers, ← Trace.ofPlace_cons_self, ← Trace.ofPlace_append, ← hsame,
          List.getElem_cons_drop, List.take_append_drop]
      exact hhit.earlier_eq hsplit
    have houtcome {id : ℕ} (hid : id < settings.count) :=
      outcome_of_hit hreads hrun hended hhit hid
    refine ⟨k, a, earlier.length, hat, hk, congrArg List.length hearlier.symm, ?_, ?_,
      fun id hid => ?_⟩
    · rw [← Lane.length_portion (l := lane s shard settings k) hk]
      exact hhit.room
    · refine Crew.faults_single (hcount ▸ hk) fun id o ho => ?_
      obtain ⟨o', ho', hfault, -⟩ := houtcome (hlt ho)
      obtain rfl := Option.some.inj (ho'.symm.trans ho)
      exact hfault
    · obtain ⟨o, ho, -, hfilled⟩ := houtcome hid
      exact ⟨o, ho, hfilled⟩
  · have houtcome {id : ℕ} (hid : id < settings.count) :
        ∃ o, (crewAt s shard settings origin q).outcomes[id]? = some o ∧ o.fault = none ∧
          Filled o (lane s shard settings id).length (lane s shard settings id).length := by
      obtain ⟨ts, o, ho, htable, hspared | ⟨earlier, a, hhit⟩⟩ := lane_cases hreads hrun hended hid
      · have hfilled := hspared.filled
        rw [← htable, Lane.length_portion (l := lane s shard settings id) hid] at hfilled
        exact ⟨o, ho, hspared.fault, hfilled⟩
      · -- The number of a trigger is neither zero nor beyond the number of interactions.
        have hroom := (getElem?_number hrun hhit.last_mem).2
        have hle := length_triggers_le hreads hrun hended
        have hnumber : ordinal a = a.found.triggers + 1 := rfl
        have := hnone _ hhit.fails
        omega
    have hfault : ∀ id o, (crewAt s shard settings origin q).outcomes[id]? = some o →
        o.fault = (fun _ : ℕ => (none : Option LaneFault)) id := by
      intro id o ho
      obtain ⟨o', ho', hfault, -⟩ := houtcome (hlt ho)
      obtain rfl := Option.some.inj (ho'.symm.trans ho)
      exact hfault
    refine ⟨?_, fun id hid => ?_⟩
    · rw [Crew.faults_eq hfault]
      exact List.filterMap_eq_nil_iff.mpr fun _ _ => rfl
    · obtain ⟨o, ho, -, hfilled⟩ := houtcome hid
      exact ⟨o, ho, hfilled⟩

end Ended

/-- **A failure hits one interaction**: however many lanes there are, and in whatever order they
come to the client, every run can be brought to its end, and then the trigger that fails has stopped
the lane that counted it, in the slot it had come to, and no other lane. -/
theorem fails_once (hreads : ∀ i ∈ shard, ∃ tx, Transaction.decode i.payload = .ok tx)
    (hrun : (crew s shard settings origin).pool.Runs record q) :
    (∃ after r, q.Runs after r ∧ r.ended = true) ∧
      (q.ended = true → Failure s shard settings record (crewAt s shard settings origin q)) :=
  ⟨Pool.exists_runs_ended q, failure_of_runs hreads hrun⟩

/-- The second trigger fails. -/
def faulty : Settings := { Settings.usual with failAt := some 2 }

/-- Three interactions. -/
def queue : Shard :=
  [⟨.ofMillis 1, (Transaction.transfer 0 1 5).encode⟩,
    ⟨.ofMillis 1, (Transaction.custom "swap").encode⟩,
    ⟨.ofMillis 2, (Transaction.transfer 1 0 5).encode⟩]

/-- Of two lanes one is stopped. -/
theorem fails_once_queue : (∀ i ∈ queue, ∃ tx, Transaction.decode i.payload = .ok tx) ∧
    ∃ record q,
      (crew faulty queue (LaneSettings.usual.withLanes 2) ⟨0⟩).pool.Runs record q ∧
        q.ended = true ∧
        ∃ k j, (crewAt faulty queue (LaneSettings.usual.withLanes 2) ⟨0⟩ q).faults =
          [(k, .adapter j (injected 2))] := by
  have hreads : ∀ i ∈ queue, ∃ tx, Transaction.decode i.payload = .ok tx := by
    intro i hi
    simp only [queue, List.mem_cons, List.not_mem_nil, or_false] at hi
    rcases hi with rfl | rfl | rfl
    · exact ⟨_, Transaction.decode_encode (by simp [Transaction.Words])⟩
    · exact ⟨_, Transaction.decode_encode trivial⟩
    · exact ⟨_, Transaction.decode_encode (by simp [Transaction.Words])⟩
  obtain ⟨⟨record, q, hrun, hended⟩, -⟩ := fails_once hreads
    (.refl (p := (crew faulty queue (LaneSettings.usual.withLanes 2) ⟨0⟩).pool))
  obtain ⟨k, a, j, -, -, -, -, hfaults, -⟩ :=
    ((fails_once hreads hrun).2 hended).hit 2 rfl (by decide) (by decide)
  exact ⟨hreads, record, q, hrun, hended, k, j, hfaults⟩

end Mock

end LedgerLoad
