import LedgerLoad.Proofs.Primary.Discipline

/-! # What the fault policy makes of failures

It is laid down which secondary gets through which phase. Then it follows who takes part at which
time and what the run comes to: the survivors of the phases so far go on, unless the policy is to
stop. However links behave, they do so as something lays down (`exists_answers`), so this is no
restriction. Main statements: `Ready.advance`, one phase, and `run_settled`, whole runs under either
policy. -/

namespace LedgerLoad

namespace Primary

variable {κ σ β : Type} {execute : Executor κ}

/-- The secondaries among the first `n` that get through some phases, in ascending order. -/
def survivors (answers : Nat → Command → Response) (n : Nat) (phases : List Command) : List Nat :=
  (List.range n).filter fun id => phases.all fun c => (answers id c).isOk

/-- A link that answers requests as it is laid down, for as long as it has not failed one. -/
def Plays (execute : Executor κ) (answer : Command → Response) : List (Request Document) → κ → Prop
  | [], _ => True
  | r :: rs, link => (execute r link).1 = answer r.command ∧
      ((answer r.command).isOk = true → Plays execute answer rs (execute r link).2)

/-- The work of a secondary: those who are prepared share the schedule, in ascending order. -/
def workAfter (answers : Nat → Command → Response) (n : Nat) (setup : Setup) (campaign : Campaign)
    (schedule : List Interaction) (id : Nat) : Document :=
  workDocument setup campaign schedule (survivors answers n [.prepare]).length
    ((survivors answers n [.prepare]).idxOf id)

/-! ### Survivors -/

section Survivors

variable {answers : Nat → Command → Response} {n : Nat} {phases : List Command} {id : Nat}

theorem mem_survivors : id ∈ survivors answers n phases ↔
    id < n ∧ ∀ c ∈ phases, (answers id c).isOk = true := by
  rw [survivors, List.mem_filter, List.mem_range, List.all_eq_true]

theorem survivors_nil : survivors answers n [] = List.range n := by
  simp [survivors]

theorem survivors_append (c : Command) : survivors answers n (phases ++ [c]) =
    (survivors answers n phases).filter fun id => (answers id c).isOk := by
  rw [survivors, survivors, List.filter_filter]
  refine List.filter_congr fun id _ => ?_
  simp [Bool.and_comm]

theorem survivors_take_succ {i : Nat} {c : Command} (hc : phases[i]? = some c) :
    survivors answers n (phases.take (i + 1)) =
      (survivors answers n (phases.take i)).filter fun id => (answers id c).isOk := by
  rw [List.take_add_one, hc, Option.toList_some, survivors_append]

theorem nodup_survivors : (survivors answers n phases).Nodup := List.nodup_range.filter _

/-- Everybody survives phases that nobody fails. -/
theorem survivors_eq_range (h : ∀ id < n, ∀ c ∈ phases, (answers id c).isOk = true) :
    survivors answers n phases = List.range n := by
  rw [survivors, List.filter_eq_self]
  intro id hid
  rw [List.all_eq_true]
  exact h id (List.mem_range.mp hid)

end Survivors

/-! ### Answers -/

theorem failures_map {c : Command} {answer : Nat → Response} (ids : List Nat) :
    (failures c (ids.map fun id => (id, answer id))).map Failure.secondary =
      ids.filter fun id => !(answer id).isOk := by
  induction ids with
  | nil => rfl
  | cons id ids ih =>
    cases hx : answer id with
    | ok y => simpa [failures, hx, Except.isOk, Except.toBool] using ih
    | error fault => simpa [failures, hx, Except.isOk, Except.toBool] using ih

theorem slot_of_mem (answer : Nat → Response) {ids : List Nat} {id : Nat} (hid : id ∈ ids)
    {x : Option SecondaryResult} (hx : answer id = .ok x) :
    slot (ids.map fun id => (id, answer id)) id = x.getD .empty := by
  refine slot_eq (List.mem_map.mpr ⟨id, hid, by rw [hx]⟩) fun y hy => ?_
  obtain ⟨id', -, heq⟩ := List.mem_map.mp hy
  obtain ⟨rfl, rfl⟩ := Prod.mk.inj heq
  exact hx

/-- A slot stays empty if its secondary was not asked or did not answer well. -/
theorem slot_of_not_ok (answer : Nat → Response) {ids : List Nat} {id : Nat}
    (hid : id ∈ ids → (answer id).isOk = false) :
    slot (ids.map fun id => (id, answer id)) id = .empty := by
  rw [slot]
  cases hfind : (ids.map fun id => (id, answer id)).find? fun e => e.1 == id with
  | none => rfl
  | some e =>
    obtain ⟨id', hid', rfl⟩ := List.mem_map.mp (List.mem_of_find?_eq_some hfind)
    obtain rfl : id' = id := by simpa using List.find?_some hfind
    have hfailed := hid hid'
    cases hx : answer id' with
    | ok x =>
      rw [hx] at hfailed
      cases hfailed
    | error fault => rfl

/-! ### What is laid down -/

/-- The requests to a secondary. -/
def requestsTo (b : Brief σ β) (answers : Nat → Command → Response) (n : Nat)
    (schedule : List Interaction) (id : Nat) : List (Request Document) :=
  requests (workAfter answers n b.setup b.campaign schedule id)

theorem Plays.congr {answer answer' : Command → Response} {rs : List (Request Document)} {link : κ}
    (h : ∀ r ∈ rs, answer r.command = answer' r.command) (hplays : Plays execute answer rs link) :
    Plays execute answer' rs link := by
  induction rs generalizing link with
  | nil => trivial
  | cons r rs ih =>
    obtain ⟨hx, hrest⟩ := hplays
    have hr := h r List.mem_cons_self
    refine ⟨hx.trans hr, fun hok => ?_⟩
    exact ih (fun r' hr' => h r' (List.mem_cons_of_mem r hr')) (hrest (by rwa [hr]))

/-- However a link behaves, it plays some part. -/
theorem exists_plays (execute : Executor κ) {rs : List (Request Document)}
    (hrs : (rs.map Request.command).Nodup) (link : κ) : ∃ answer, Plays execute answer rs link := by
  induction rs generalizing link with
  | nil => exact ⟨fun _ => .ok none, trivial⟩
  | cons r rs ih =>
    obtain ⟨hr, hrs⟩ := List.nodup_cons.mp hrs
    obtain ⟨answer, hanswer⟩ := ih hrs (execute r link).2
    refine ⟨Function.update answer r.command (execute r link).1, by simp, fun _ => ?_⟩
    refine hanswer.congr fun r' hr' => (Function.update_of_ne (fun heq => hr ?_) _ _).symm
    exact heq ▸ List.mem_map_of_mem hr'

theorem nodup_requests (work : Document) : ((requests work).map Request.command).Nodup := by
  show Command.phases.Nodup
  decide

/-- However the links of a run behave, they do so as some answers lay down. -/
theorem exists_answers (execute : Executor κ) (b : Brief σ β) (links : List κ)
    (schedule : List Interaction) : ∃ answers, ∀ (id : Nat) (link : κ), links[id]? = some link →
      Plays execute (answers id) (requestsTo b answers links.length schedule id) link := by
  -- Who is prepared is known beforehand, and that settles who gets which work.
  let first (id : Nat) (_ : Command) : Response :=
    (links[id]?.map fun link => (execute .prepare link).1).getD (.ok none)
  have hplays (id : Nat) : ∃ answer, ∀ link, links[id]? = some link →
      Plays execute answer (requestsTo b first links.length schedule id) link := by
    cases links[id]? with
    | none => exact ⟨fun _ => .ok none, nofun⟩
    | some link =>
      obtain ⟨answer, hanswer⟩ := exists_plays execute (nodup_requests _) link
      exact ⟨answer, fun _ hlink => Option.some.inj hlink ▸ hanswer⟩
  choose answers hanswers using hplays
  have hsame : survivors answers links.length [.prepare] = survivors first links.length [.prepare] := by
    refine List.filter_congr fun id hid => ?_
    obtain ⟨link, hlink⟩ : ∃ link, links[id]? = some link :=
      ⟨_, List.getElem?_eq_getElem (List.mem_range.mp hid)⟩
    have hprepared : (execute .prepare link).1 = answers id .prepare :=
      (hanswers id link hlink).1
    simp [first, hlink, hprepared]
  refine ⟨answers, fun id link hlink => ?_⟩
  rw [requestsTo, workAfter, hsame]
  exact hanswers id link hlink

/-! ### One phase -/

/-- The result of a run that has got through all phases. -/
def resultAfter (answers : Nat → Command → Response) (n : Nat) : CampaignResult :=
  ⟨(List.range n).map (slot ((survivors answers n (Command.phases.take 3)).map
    fun id => (id, answers id .results)))⟩

/-- Where a run is that has got through the first `i` phases. -/
def pointAfter (answers : Nat → Command → Response) (n : Nat) (schedule : List Interaction) :
    (i : Nat) → Point
  | 0 => .prepare
  | 1 => .workload (RoundRobin.deal (survivors answers n [.prepare]).length schedule)
  | 2 => .run
  | 3 => .results
  | _ => .fin (.ok (resultAfter answers n))

/-- A run that has got through the first `i` phases. -/
structure Ready (execute : Executor κ) (b : Brief σ β) (answers : Nat → Command → Response)
    (n : Nat) (schedule : List Interaction) (i : Nat) (s : Standing κ) : Prop where
  point : s.point = pointAfter answers n schedule i
  size : s.primary.size = n
  active : s.primary.active = survivors answers n (Command.phases.take i)
  plays : ∀ (id : Nat) (seat : Seat κ), s.primary.seats[id]? = some seat → seat.active = true →
    Plays execute (answers id) ((requestsTo b answers n schedule id).drop i) seat.link

section Phase

variable {b : Brief σ β} {answers : Nat → Command → Response} {n i : Nat}
  {schedule : List Interaction} {s : Standing κ}

theorem phase_pointAfter {c : Command} (hc : Command.phases[i]? = some c) :
    (pointAfter answers n schedule i).phase? = some c := by
  match i with
  | 0 | 1 | 2 | 3 => exact hc
  | i + 4 => cases hc

theorem command_requestsTo {id : Nat} {c : Command} (hc : Command.phases[i]? = some c) :
    ∃ r, (requestsTo b answers n schedule id)[i]? = some r ∧ r.command = c := by
  match i with
  | 0 | 1 | 2 | 3 =>
    obtain rfl := Option.some.inj hc
    exact ⟨_, rfl, rfl⟩
  | i + 4 => cases hc

/-- Who takes part is sent his next request. -/
theorem Ready.request (hready : Ready execute b answers n schedule i s) (hi : i < 4) {id : Nat}
    (hid : id ∈ s.primary.active) :
    s.request b id = (requestsTo b answers n schedule id)[i]? := by
  rw [Standing.request, hready.point]
  match i, hi with
  | 0, _ | 2, _ | 3, _ => exact forAll_of_mem hid _
  | 1, _ =>
    have hactive : s.primary.active = survivors answers n [.prepare] := hready.active
    rw [hactive] at hid
    have hrank : (survivors answers n [.prepare]).idxOf id <
        (survivors answers n [.prepare]).length := List.idxOf_lt_length_of_mem hid
    show workFor s.primary.active _ _ _ id = _
    rw [hactive]
    refine workFor_of_getElem? nodup_survivors (List.getElem?_idxOf hid) ?_
    simp [RoundRobin.deal, hrank]

/-- The next request of a secondary is answered as it is laid down. -/
theorem Ready.plays_next (hready : Ready execute b answers n schedule i s) {c : Command}
    (hc : Command.phases[i]? = some c) {id : Nat} {seat : Seat κ}
    (hseat : s.primary.seats[id]? = some seat) (hactive : seat.active = true) :
    ∃ r, s.request b id = some r ∧ r.command = c ∧ Plays execute (answers id)
      (r :: (requestsTo b answers n schedule id).drop (i + 1)) seat.link := by
  obtain ⟨hi, -⟩ := List.getElem?_eq_some_iff.mp hc
  have hrequest := hready.request hi (mem_active.mpr ⟨seat, hseat, hactive⟩)
  obtain ⟨r, hr, hcommand⟩ := command_requestsTo hc
  have hplays := hready.plays id seat hseat hactive
  obtain ⟨hlt, hget⟩ := List.getElem?_eq_some_iff.mp hr
  rw [List.drop_eq_getElem_cons hlt, hget] at hplays
  exact ⟨r, hrequest.trans hr, hcommand, hplays⟩

theorem Ready.asked (hready : Ready execute b answers n schedule i s) {c : Command}
    (hc : Command.phases[i]? = some c) : (s.asked execute b).1 =
      (survivors answers n (Command.phases.take i)).map fun id => (id, answers id c) := by
  rw [Standing.asked, ← hready.active]
  refine responses_eq (fun id seat hseat hactive => ?_) fun id hid => ?_
  · obtain ⟨r, hr, rfl, hx, -⟩ := hready.plays_next hc hseat hactive
    rw [hr]
    exact congrArg some hx
  · exact Standing.request_of_not_mem (by rw [hready.point]; exact phase_pointAfter hc) hid

/-- Whoever has got through a phase is ready for the next. -/
theorem Ready.next (hready : Ready execute b answers n schedule i s) {c : Command}
    (hc : Command.phases[i]? = some c)
    (hplanned : ∀ active, 0 < active →
      b.planned active = .workload (RoundRobin.deal active schedule))
    (hsome : survivors answers n (Command.phases.take (i + 1)) ≠ []) {q : Primary κ}
    (hsize : q.size = n)
    (hactive : q.active = survivors answers n (Command.phases.take (i + 1)))
    (hseats : ∀ (id : Nat) (seat : Seat κ), q.seats[id]? = some seat → seat.active = true →
      (s.asked execute b).2.seats[id]? = some seat) :
    Ready execute b answers n schedule (i + 1)
      ⟨s.point.onward b (s.asked execute b).1 (s.asked execute b).2.size q.active.length, q⟩ where
  point := by
    have hseatsize : (s.asked execute b).2.size = n := by
      rw [Standing.asked, size_fanOut, hready.size]
    rw [hready.point, hready.asked hc, hseatsize, hactive]
    rcases i with _ | _ | _ | _ | i
    · exact hplanned _ (List.length_pos_iff.mpr hsome)
    · rfl
    · rfl
    · obtain rfl := Option.some.inj hc
      rfl
    · cases hc
  size := hsize
  active := hactive
  plays id seat hseat hseatactive := by
    have hid : id ∈ survivors answers n (Command.phases.take (i + 1)) :=
      hactive ▸ mem_active.mpr ⟨seat, hseat, hseatactive⟩
    have hasked := hseats id seat hseat hseatactive
    rw [Standing.asked, seat_fanOut, Option.map_eq_some_iff] at hasked
    obtain ⟨before, hbefore, rfl⟩ := hasked
    rw [active_askSeat] at hseatactive
    obtain ⟨r, hr, rfl, -, hrest⟩ := hready.plays_next hc hbefore hseatactive
    rw [hr]
    refine hrest ((mem_survivors.mp hid).2 _ ?_)
    rw [List.take_add_one, hc]
    simp

/-- Whether a run may go on with the survivors of its first phases. -/
def Allows (b : Brief σ β) (answers : Nat → Command → Response) (n i : Nat) : Prop :=
  match b.campaign.policy with
  | .abort => survivors answers n (Command.phases.take i) = List.range n
  | .degrade => survivors answers n (Command.phases.take i) ≠ []

theorem allows_abort (h : b.campaign.policy = .abort) :
    Allows b answers n i ↔ survivors answers n (Command.phases.take i) = List.range n := by
  rw [Allows, h]

theorem allows_degrade (h : b.campaign.policy = .degrade) :
    Allows b answers n i ↔ survivors answers n (Command.phases.take i) ≠ [] := by
  rw [Allows, h]

theorem Allows.ne_nil (h : Allows b answers n i) (hpos : 0 < n) :
    survivors answers n (Command.phases.take i) ≠ [] := by
  unfold Allows at h
  split at h
  · rw [h, ne_eq, List.range_eq_nil]
    omega
  · exact h

theorem Ready.size_asked (hready : Ready execute b answers n schedule i s) :
    (s.asked execute b).2.size = n := by
  rw [Standing.asked, size_fanOut, hready.size]

theorem Ready.active_asked (hready : Ready execute b answers n schedule i s) :
    (s.asked execute b).2.active = survivors answers n (Command.phases.take i) := by
  rw [← hready.active]
  exact active_fanOut _ _

/-- Those who have failed a phase. -/
theorem Ready.failed (hready : Ready execute b answers n schedule i s) {c : Command}
    (hc : Command.phases[i]? = some c) :
    (failures c (s.asked execute b).1).map Failure.secondary =
      (survivors answers n (Command.phases.take i)).filter fun id => !(answers id c).isOk := by
  rw [hready.asked hc]
  exact failures_map _

/-- Those who are left after a phase. -/
theorem Ready.left (hready : Ready execute b answers n schedule i s) {c : Command}
    (hc : Command.phases[i]? = some c) :
    ((s.asked execute b).2.exclude ((failures c (s.asked execute b).1).map
      Failure.secondary)).active = survivors answers n (Command.phases.take (i + 1)) := by
  rw [active_exclude, hready.active_asked, hready.failed hc, survivors_take_succ hc]
  refine List.filter_congr fun id hid => ?_
  simp [hid]

/-- **One phase**: a run goes on with the survivors, as far as the policy allows. -/
theorem Ready.advance (hready : Ready execute b answers n schedule i s) {c : Command}
    (hc : Command.phases[i]? = some c) (hpos : 0 < n)
    (hplanned : ∀ active, 0 < active →
      b.planned active = .workload (RoundRobin.deal active schedule))
    (hallows : Allows b answers n i) :
    Allows b answers n (i + 1) ∧ Ready execute b answers n schedule (i + 1) (advance execute b s) ∨
    ¬ Allows b answers n (i + 1) ∧
      (b.campaign.policy = .abort ∧ (∃ q, advance execute b s = ⟨.fin (.error (.phaseFailed c
        (failures c ((List.range n).map fun id => (id, answers id c))))), q⟩) ∨
      b.campaign.policy = .degrade ∧ ∃ q, q.active = [] ∧
        advance execute b s = ⟨.fin (.error .noSecondaries), q⟩) := by
  have hphase : s.point.phase? = some c := by
    rw [hready.point]
    exact phase_pointAfter hc
  have hleft := hready.left hc
  rw [Primary.advance, turn_of_phase hphase]
  rcases settled_cases b.campaign.policy c (failures c (s.asked execute b).1)
    (fun q => s.point.onward b (s.asked execute b).1 (s.asked execute b).2.size q.active.length)
    (s.asked execute b).2 with
    ⟨hnone, h⟩ | ⟨hsome, hpolicy, h⟩ | ⟨hsome, hpolicy, q, rfl, ⟨hempty, h⟩ | ⟨hrest, h⟩⟩
  · -- Nobody fails.
    have hsame : survivors answers n (Command.phases.take (i + 1)) =
        survivors answers n (Command.phases.take i) := by
      rw [← hleft, hnone, ← hready.active_asked]
      simp [active_exclude]
    refine .inl ⟨by rwa [Allows, hsame], ?_⟩
    rw [h]
    exact hready.next hc hplanned (hsame ▸ hallows.ne_nil hpos) hready.size_asked
      (hready.active_asked.trans hsame.symm) fun _ _ hseat _ => hseat
  · have hall := (allows_abort hpolicy).mp hallows
    refine .inr ⟨fun hstill => hsome ?_, .inl ⟨hpolicy, (s.asked execute b).2, ?_⟩⟩
    · have hstill := (allows_abort hpolicy).mp hstill
      rw [survivors_take_succ hc, ← hall] at hstill
      have hgood := List.filter_eq_self.mp hstill
      rw [← List.map_eq_nil_iff, hready.failed hc, List.filter_eq_nil_iff]
      intro id hid
      simp [hgood id hid]
    · rw [h, hready.asked hc, hall]
  · rw [hleft] at hempty
    exact .inr ⟨fun hstill => (allows_degrade hpolicy).mp hstill hempty,
      .inr ⟨hpolicy, _, hleft.trans hempty, h⟩⟩
  · rw [hleft] at hrest
    refine .inl ⟨(allows_degrade hpolicy).mpr hrest, ?_⟩
    rw [h]
    refine hready.next hc hplanned hrest ((size_exclude _ _).trans hready.size_asked) hleft
      fun id seat hseat hseatactive => ?_
    rw [seat_exclude, Option.map_eq_some_iff] at hseat
    obtain ⟨before, hbefore, rfl⟩ := hseat
    rw [hbefore]
    by_cases hout : id ∈ (failures c (s.asked execute b).1).map Failure.secondary
    · rw [if_pos hout] at hseatactive
      cases hseatactive
    · rw [if_neg hout]

end Phase

/-! ### Whole runs -/

/-- How a run with links to secondaries stands after so many rounds. -/
def Brief.after (execute : Executor κ) (b : Brief σ β) (links : List κ) (rounds : Nat) :
    Standing κ :=
  (Primary.advance execute b)^[rounds] ⟨b.opening, ofLinks links⟩

theorem Brief.after_succ (b : Brief σ β) (links : List κ) (rounds : Nat) :
    b.after execute links (rounds + 1) = Primary.advance execute b (b.after execute links rounds) :=
  Function.iterate_succ_apply' _ _ _

/-- A run in which all goes as it is laid down: there is a plan, and each link plays its part. -/
structure Plotted (execute : Executor κ) (b : Brief σ β) (links : List κ)
    (answers : Nat → Command → Response) (schedule : List Interaction) : Prop where
  pos : 0 < links.length
  opening : b.opening = .prepare
  planned : ∀ active, 0 < active → b.planned active = .workload (RoundRobin.deal active schedule)
  plays : ∀ (id : Nat) (link : κ), links[id]? = some link →
    Plays execute (answers id) (requestsTo b answers links.length schedule id) link

section Run

variable {b : Brief σ β} {links : List κ} {answers : Nat → Command → Response}
  {schedule : List Interaction} {i : Nat}

theorem Allows.of_succ {n : Nat} (h : Allows b answers n (i + 1)) : Allows b answers n i := by
  have hsub {id : Nat} (hid : id ∈ survivors answers n (Command.phases.take (i + 1))) :
      id ∈ survivors answers n (Command.phases.take i) := by
    rw [mem_survivors] at hid ⊢
    refine ⟨hid.1, fun c hc => hid.2 c ?_⟩
    rw [List.take_add_one]
    exact List.mem_append_left _ hc
  unfold Allows at h ⊢
  split at h
  · refine survivors_eq_range fun id hid c hc => ?_
    have hmem := h ▸ List.mem_range.mpr hid
    exact (mem_survivors.mp (hsub hmem)).2 c hc
  · intro hnone
    obtain ⟨id, hid⟩ := List.exists_mem_of_ne_nil _ h
    rw [hnone] at hsub
    cases hsub hid

/-- A run that the policy ends at some time is ended after a phase. -/
theorem exists_last_allowed {n : Nat} (hpos : 0 < n) (h : ¬ Allows b answers n i) :
    ∃ j < i, ∃ c, Command.phases[j]? = some c ∧ Allows b answers n j ∧
      ¬ Allows b answers n (j + 1) := by
  induction i with
  | zero =>
    refine absurd ?_ h
    unfold Allows
    split
    · exact survivors_nil
    · rw [List.take_zero, survivors_nil, ne_eq, List.range_eq_nil]
      omega
  | succ i ih =>
    by_cases hi : Allows b answers n i
    · cases hc : Command.phases[i]? with
      | some c => exact ⟨i, Nat.lt_succ_self i, c, hc, hi, h⟩
      | none =>
        rw [Allows, List.take_add_one, hc, Option.toList_none, List.append_nil] at h
        exact absurd hi h
    · obtain ⟨j, hj, hlast⟩ := ih hi
      exact ⟨j, Nat.lt_succ_of_lt hj, hlast⟩

namespace Plotted

variable (hplotted : Plotted execute b links answers schedule)
include hplotted

theorem ready_start : Ready execute b answers links.length schedule 0 (b.after execute links 0) where
  point := hplotted.opening
  size := size_ofLinks links
  active := (active_ofLinks links).trans survivors_nil.symm
  plays id seat hseat _ := by
    rw [Brief.after, Function.iterate_zero, id_eq, seat_ofLinks, Option.map_eq_some_iff] at hseat
    obtain ⟨link, hlink, rfl⟩ := hseat
    exact hplotted.plays id link hlink

/-- A run goes through its phases for as long as the policy allows. -/
theorem ready (hi : i ≤ 4) (h : Allows b answers links.length i) :
    Ready execute b answers links.length schedule i (b.after execute links i) := by
  induction i with
  | zero => exact hplotted.ready_start
  | succ i ih =>
    have hc : Command.phases[i]? = some Command.phases[i] := List.getElem?_eq_getElem hi
    have hready := ih (Nat.le_of_succ_le hi) h.of_succ
    rw [Brief.after_succ]
    rcases hready.advance hc hplotted.pos hplotted.planned h.of_succ with ⟨-, hnext⟩ | ⟨hnot, -⟩
    · exact hnext
    · exact absurd h hnot

/-- What becomes of a run that the policy ends. -/
theorem stopped (h : ¬ Allows b answers links.length i) :
    ∃ j < i, ∃ c, Command.phases[j]? = some c ∧ Allows b answers links.length j ∧
      ¬ Allows b answers links.length (j + 1) ∧
      (b.campaign.policy = .abort ∧ (∃ q, b.after execute links (j + 1) =
        ⟨.fin (.error (.phaseFailed c (failures c ((List.range links.length).map
          fun id => (id, answers id c))))), q⟩) ∨
      b.campaign.policy = .degrade ∧ ∃ q, q.active = [] ∧
        b.after execute links (j + 1) = ⟨.fin (.error .noSecondaries), q⟩) := by
  obtain ⟨j, hj, c, hc, hallows, hnot⟩ := exists_last_allowed hplotted.pos h
  have hlt : j < 4 := (List.getElem?_eq_some_iff.mp hc).1
  have hready := hplotted.ready (Nat.le_of_lt hlt) hallows
  refine ⟨j, hj, c, hc, hallows, hnot, ?_⟩
  rw [Brief.after_succ]
  rcases hready.advance hc hplotted.pos hplotted.planned hallows with ⟨hnext, -⟩ | ⟨-, hover⟩
  · exact absurd hnext hnot
  · exact hover

/-- What becomes of a run that gets through all phases. -/
theorem complete (h : Allows b answers links.length 4) : ∃ q,
    q.active = survivors answers links.length Command.phases ∧
    b.after execute links 4 = ⟨.fin (.ok (resultAfter answers links.length)), q⟩ := by
  have hready := hplotted.ready (Nat.le_refl 4) h
  have hpoint := hready.point
  have hactive := hready.active
  generalize b.after execute links 4 = s at hpoint hactive
  obtain ⟨point, q⟩ := s
  obtain rfl : point = _ := hpoint
  exact ⟨q, hactive, rfl⟩

theorem run_ok (h : Allows b answers links.length 4) :
    (b.run execute (ofLinks links)).1 = .ok (resultAfter answers links.length) := by
  obtain ⟨q, -, hq⟩ := hplotted.complete h
  rw [fin_eq_run hq]
  rfl

theorem run_error (h : ¬ Allows b answers links.length i) :
    ∃ fault, (b.run execute (ofLinks links)).1 = .error (.fault fault) ∧
      (b.campaign.policy = .degrade → fault = .noSecondaries) := by
  obtain ⟨j, -, c, -, -, -, ⟨hpolicy, q, hq⟩ | ⟨hpolicy, q, -, hq⟩⟩ := hplotted.stopped h
  · refine ⟨_, by rw [fin_eq_run hq]; rfl, fun hdegrade => ?_⟩
    rw [hpolicy] at hdegrade
    cases hdegrade
  · exact ⟨_, by rw [fin_eq_run hq]; rfl, fun _ => rfl⟩

/-- If the policy is to go on, then exactly the survivors take part. -/
theorem active_after (hpolicy : b.campaign.policy = .degrade) (rounds : Nat) :
    (b.after execute links rounds).primary.active =
      survivors answers links.length (Command.phases.take rounds) := by
  have hlater {j : Nat} {outcome : Except RunFault CampaignResult} {q : Primary κ} (hj : j ≤ rounds)
      (hfin : b.after execute links j = ⟨.fin outcome, q⟩) :
      (b.after execute links rounds).primary.active = q.active := by
    obtain ⟨more, rfl⟩ := Nat.exists_eq_add_of_le' hj
    rw [Brief.after, Function.iterate_add_apply]
    rw [Brief.after] at hfin
    rw [hfin, active_iterate_fin]
  by_cases hallows : Allows b answers links.length rounds
  · by_cases hrounds : rounds ≤ 4
    · exact (hplotted.ready hrounds hallows).active
    · have hall : Command.phases.take rounds = Command.phases :=
        List.take_of_length_le (Nat.le_of_not_le hrounds)
      rw [hall]
      rw [allows_degrade hpolicy, hall] at hallows
      obtain ⟨q, hactive, hq⟩ := hplotted.complete ((allows_degrade hpolicy).mpr hallows)
      rw [hlater (Nat.le_of_not_le hrounds) hq, hactive]
  · obtain ⟨j, hj, c, -, -, -, ⟨habort, -⟩ | ⟨-, q, hnone, hq⟩⟩ := hplotted.stopped hallows
    · rw [hpolicy] at habort
      cases habort
    · rw [allows_degrade hpolicy, not_not] at hallows
      rw [hlater hj hq, hnone, hallows]

end Plotted

/-! ### What a run comes to -/

/-- What the policy to stop comes to. -/
structure Aborting (execute : Executor κ) (b : Brief σ β) (links : List κ)
    (answers : Nat → Command → Response) : Prop where
  ok : (∃ result, (b.run execute (ofLinks links)).1 = .ok result) ↔
    ∀ id < links.length, ∀ c ∈ Command.phases, (answers id c).isOk = true
  /-- Otherwise the first phase that somebody fails is reported, with all who fail it, in ascending
  order. -/
  failed : ¬ (∀ id < links.length, ∀ c ∈ Command.phases, (answers id c).isOk = true) →
    ∃ i c found, Command.phases[i]? = some c ∧
      (∀ id < links.length, ∀ c' ∈ Command.phases.take i, (answers id c').isOk = true) ∧
      (∃ id < links.length, (answers id c).isOk = false) ∧
      (b.run execute (ofLinks links)).1 = .error (.fault (.phaseFailed c found)) ∧
      found.map Failure.secondary =
        (List.range links.length).filter (fun id => !(answers id c).isOk) ∧
      ∀ f ∈ found, f.phase = c ∧ answers f.secondary c = .error f.fault

/-- A result that holds what was reported by those who have failed nothing. -/
structure Reported (answers : Nat → Command → Response) (n : Nat) (result : CampaignResult) :
    Prop where
  size : result.secondaries.length = n
  slot : ∀ id < n, (∀ c ∈ Command.phases, (answers id c).isOk = true) →
    ∀ x, answers id .results = .ok x → result.secondaries[id]? = some (x.getD .empty)
  empty : ∀ id < n, ∀ c ∈ Command.phases, (answers id c).isOk = false →
    result.secondaries[id]? = some .empty

/-- What the policy to go on comes to. -/
structure Degrading (execute : Executor κ) (b : Brief σ β) (links : List κ)
    (answers : Nat → Command → Response) : Prop where
  start : (b.after execute links 0).primary.active = List.range links.length
  /-- Each round is a phase, for as long as anybody takes part. -/
  phase : ∀ i c, Command.phases[i]? = some c → (b.after execute links i).primary.active ≠ [] →
    (b.after execute links i).point.phase? = some c
  left : ∀ i c, Command.phases[i]? = some c → (b.after execute links (i + 1)).primary.active =
    (b.after execute links i).primary.active.filter fun id => (answers id c).isOk
  gone : ∀ i c, Command.phases[i]? = some c → ∀ id, (answers id c).isOk = false →
    ∀ j > i, id ∉ (b.after execute links j).primary.active
  none : (b.run execute (ofLinks links)).1 = .error (.fault .noSecondaries) ↔
    ∃ i, (b.after execute links i).primary.active = []
  some : (∀ i, (b.after execute links i).primary.active ≠ []) →
    ∃ result, (b.run execute (ofLinks links)).1 = .ok result ∧
      Reported answers links.length result

theorem reported_resultAfter (n : Nat) : Reported answers n (resultAfter answers n) where
  size := by simp [resultAfter]
  slot id hid hgood x hx := by
    have hmem : id ∈ survivors answers n (Command.phases.take 3) :=
      mem_survivors.mpr ⟨hid, fun c hc => hgood c (List.mem_of_mem_take hc)⟩
    rw [resultAfter, List.getElem?_map, List.getElem?_range hid, Option.map_some,
      slot_of_mem (fun id => answers id .results) hmem hx]
  empty id hid c hc hfailed := by
    have hslot (hmem : id ∈ survivors answers n (Command.phases.take 3)) :
        (answers id .results).isOk = false := by
      have hgood := (mem_survivors.mp hmem).2
      have hlast : Command.phases = Command.phases.take 3 ++ [.results] := rfl
      rw [hlast] at hc
      rcases List.mem_append.mp hc with hc | hc
      · rw [hgood c hc] at hfailed
        cases hfailed
      · rwa [List.mem_singleton.mp hc] at hfailed
    rw [resultAfter, List.getElem?_map, List.getElem?_range hid, Option.map_some,
      slot_of_not_ok (fun id => answers id .results) hslot]

theorem allows_abort_iff (hpolicy : b.campaign.policy = .abort) {n : Nat} :
    Allows b answers n i ↔
      ∀ id < n, ∀ c ∈ Command.phases.take i, (answers id c).isOk = true := by
  rw [allows_abort hpolicy]
  refine ⟨fun hall id hid => ?_, survivors_eq_range⟩
  exact (mem_survivors.mp (hall ▸ List.mem_range.mpr hid)).2

theorem Plotted.aborting (hplotted : Plotted execute b links answers schedule)
    (hpolicy : b.campaign.policy = .abort) : Aborting execute b links answers where
  ok := by
    constructor
    · rintro ⟨result, hresult⟩
      by_cases hallows : Allows b answers links.length 4
      · exact (allows_abort_iff hpolicy).mp hallows
      · obtain ⟨fault, hfault, -⟩ := hplotted.run_error hallows
        rw [hresult] at hfault
        cases hfault
    · intro hgood
      exact ⟨_, hplotted.run_ok ((allows_abort_iff hpolicy).mpr hgood)⟩
  failed hfails := by
    have hnot : ¬ Allows b answers links.length 4 := fun h => hfails ((allows_abort_iff hpolicy).mp h)
    obtain ⟨i, -, c, hc, hallows, hlast, ⟨-, q, hq⟩ | ⟨hdegrade, -⟩⟩ := hplotted.stopped hnot
    · refine ⟨i, c, _, hc, (allows_abort_iff hpolicy).mp hallows, ?_, by rw [fin_eq_run hq]; rfl,
        failures_map _, fun f hf => ?_⟩
      · by_contra hgood
        refine hlast ((allows_abort_iff hpolicy).mpr fun id hid c' hc' => ?_)
        rw [List.take_add_one, hc, Option.toList_some, List.mem_append, List.mem_singleton] at hc'
        rcases hc' with hc' | rfl
        · exact (allows_abort_iff hpolicy).mp hallows id hid c' hc'
        · by_contra hfailed
          exact hgood ⟨id, hid, Bool.eq_false_iff.mpr hfailed⟩
      · obtain ⟨hphase, hmem⟩ := mem_failures.mp hf
        obtain ⟨id, -, heq⟩ := List.mem_map.mp hmem
        obtain ⟨rfl, hfault⟩ := Prod.mk.inj heq
        exact ⟨hphase, hfault⟩
    · rw [hpolicy] at hdegrade
      cases hdegrade

theorem Plotted.degrading (hplotted : Plotted execute b links answers schedule)
    (hpolicy : b.campaign.policy = .degrade) : Degrading execute b links answers where
  start := by rw [hplotted.active_after hpolicy, List.take_zero, survivors_nil]
  phase i c hc hsome := by
    rw [hplotted.active_after hpolicy] at hsome
    have hlt : i < 4 := (List.getElem?_eq_some_iff.mp hc).1
    rw [(hplotted.ready (Nat.le_of_lt hlt) ((allows_degrade hpolicy).mpr hsome)).point]
    exact phase_pointAfter hc
  left i c hc := by
    rw [hplotted.active_after hpolicy, hplotted.active_after hpolicy, survivors_take_succ hc]
  gone i c hc id hfailed j hj hid := by
    rw [hplotted.active_after hpolicy, mem_survivors] at hid
    have hmem : c ∈ Command.phases.take j := by
      rw [List.mem_take_iff_getElem]
      obtain ⟨hlt, hget⟩ := List.getElem?_eq_some_iff.mp hc
      exact ⟨i, by omega, hget⟩
    rw [hid.2 c hmem] at hfailed
    cases hfailed
  none := by
    constructor
    · intro hnone
      by_cases hallows : Allows b answers links.length 4
      · rw [hplotted.run_ok hallows] at hnone
        cases hnone
      · rw [allows_degrade hpolicy, not_not] at hallows
        exact ⟨4, (hplotted.active_after hpolicy 4).trans hallows⟩
    · rintro ⟨i, hi⟩
      rw [hplotted.active_after hpolicy] at hi
      have hnot : ¬ Allows b answers links.length i :=
        fun hallows => (allows_degrade hpolicy).mp hallows hi
      obtain ⟨fault, hfault, hnone⟩ := hplotted.run_error hnot
      rw [hfault, hnone hpolicy]
  some hsome := by
    have hallows : Allows b answers links.length 4 := by
      rw [allows_degrade hpolicy, ← hplotted.active_after hpolicy]
      exact hsome 4
    exact ⟨_, hplotted.run_ok hallows, reported_resultAfter _⟩

end Run

/-- A schedule is dealt to any number of secondaries. -/
theorem Brief.planned_of_schedule {b : Brief σ β} {adapter : Adapter σ β} {builder : Builder β}
    {state : β} {schedule : List Interaction} {after : Random.Source × β}
    (hadapter : b.registry.find? b.setup.ledger = some adapter)
    (hbuilder : adapter.builder b.setup.parameters b.campaign.environment b.setup.endpoints =
      .ok (builder, state))
    (hschedule : Plan.schedule builder b.benchmark (.ofSeed b.campaign.seed, state) =
      .ok (schedule, after)) {n : Nat} (hn : 0 < n) :
    b.planned n = .workload (RoundRobin.deal n schedule) := by
  have hshards : planShards adapter b.setup b.benchmark b.campaign n =
      .ok (RoundRobin.deal n schedule) := by
    rw [planShards, hbuilder]
    show (plan builder state b.benchmark n b.campaign.seed).mapError RunStop.ofPlan = _
    rw [plan_of_schedule hn hschedule]
    rfl
  rw [planned, hadapter]
  dsimp only
  rw [hshards]
  exact if_pos (RoundRobin.length_deal n schedule)

/-- **What the fault policy makes of failures**, whoever fails whichever phase: if there is an
adapter for the ledger, a builder and a schedule, and the links answer as it is laid down, then it
is settled what a run comes to. -/
theorem run_settled {b : Brief σ β} {links : List κ} {answers : Nat → Command → Response}
    {adapter : Adapter σ β} {builder : Builder β} {state : β} {schedule : List Interaction}
    {after : Random.Source × β} (hpos : 0 < links.length)
    (hadapter : b.registry.find? b.setup.ledger = some adapter)
    (hbuilder : adapter.builder b.setup.parameters b.campaign.environment b.setup.endpoints =
      .ok (builder, state))
    (hschedule : Plan.schedule builder b.benchmark (.ofSeed b.campaign.seed, state) =
      .ok (schedule, after))
    (hplays : ∀ (id : Nat) (link : κ), links[id]? = some link →
      Plays execute (answers id) (requestsTo b answers links.length schedule id) link) :
    (b.campaign.policy = .abort → Aborting execute b links answers) ∧
      (b.campaign.policy = .degrade → Degrading execute b links answers) := by
  have hplotted : Plotted execute b links answers schedule :=
    { pos := hpos
      opening := by rw [Brief.opening, hadapter]; rfl
      planned := fun _ hn => Brief.planned_of_schedule hadapter hbuilder hschedule hn
      plays := hplays }
  exact ⟨hplotted.aborting, hplotted.degrading⟩

end Primary

namespace Idle

/-- Secondaries that get through everything or stumble when they are to run. -/
def stumbling : Executor Bool := fun r steady =>
  (if r.command = .run ∧ steady = false then .error .disconnected
    else .ok (if r.command = .results then some ⟨[.unreached 2]⟩ else none), steady)

/-- The first of two secondaries gets through everything, and the second stumbles. -/
def answers (id : Nat) (c : Command) : Response :=
  if c = .run ∧ id = 1 then .error .disconnected
  else .ok (if c = .results then some ⟨[.unreached 2]⟩ else none)

end Idle

namespace Primary

/-- Two secondaries, of which the second is left out after it has stumbled. -/
theorem run_settled_stumbling : (∃ after, Plan.schedule Idle.builder Idle.benchmark
      (.ofSeed 0, ()) = .ok (Idle.schedule, after)) ∧
    (∀ (id : Nat) (link : Bool), [true, false][id]? = some link → Plays Idle.stumbling
      (Idle.answers id) (requestsTo (Idle.brief .degrade) Idle.answers 2 Idle.schedule id) link) ∧
    survivors Idle.answers 2 Command.phases = [0] ∧
    Degrading Idle.stumbling (Idle.brief .degrade) [true, false] Idle.answers := by
  have hplays (id : Nat) (link : Bool) (hlink : [true, false][id]? = some link) :
      Plays Idle.stumbling (Idle.answers id)
        (requestsTo (Idle.brief .degrade) Idle.answers 2 Idle.schedule id) link := by
    match id with
    | 0 =>
      obtain rfl := Option.some.inj hlink
      exact ⟨rfl, fun _ => ⟨rfl, fun _ => ⟨rfl, fun _ => ⟨rfl, fun _ => trivial⟩⟩⟩⟩
    | 1 =>
      obtain rfl := Option.some.inj hlink
      exact ⟨rfl, fun _ => ⟨rfl, fun _ => ⟨rfl, fun h => by cases h⟩⟩⟩
    | id + 2 => cases hlink
  obtain ⟨after, hschedule⟩ := Idle.schedule_eq
  have hadapter : (Idle.brief .degrade).registry.find? (Idle.brief .degrade).setup.ledger =
      some Idle.adapter := rfl
  have hbuilder : Idle.adapter.builder (Idle.brief .degrade).setup.parameters
      (Idle.brief .degrade).campaign.environment (Idle.brief .degrade).setup.endpoints =
      .ok (Idle.builder, ()) := rfl
  refine ⟨⟨after, hschedule⟩, hplays, by decide, ?_⟩
  exact (run_settled (by decide) hadapter hbuilder hschedule hplays).2 rfl

end Primary

end LedgerLoad
