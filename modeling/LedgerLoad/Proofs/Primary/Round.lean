import LedgerLoad.Proofs.Primary.Interleaving

/-! # One round on its own

A phase sends its requests all at once and waits for all answers, so what it returns could depend on
the order in which they come in. It does not. `Exchange` is one event on one link, `Round` any
number of them in any order, and `joined` puts the answers of a history into the places of those who
were asked. Main statements: `Round.fanOut_eq`, whatever the order, a round that is over has brought
what its requests bring one after another; and `phases_unordered`, what that means for each phase,
with those who are left out and those who fail in any places. -/

namespace LedgerLoad.Primary

variable {κ : Type} {execute : Executor κ} {p : Primary κ}
  {request : Nat → Option (Request Document)}

/-! ### Events in any order -/

/-- The beginning of a round: all its requests are there, and none is sent yet. -/
def desks (p : Primary κ) (request : Nat → Option (Request Document)) : List (Desk κ) :=
  p.seats.zipIdx.map fun (seat, id) => ⟨seat, .ofRequest (request id)⟩

/-- One event of a round: a request is on its way, or its answer has come in. Which link goes on is
left open. -/
inductive Exchange (execute : Executor κ) : List (Desk κ) → Event → List (Desk κ) → Prop
  | send {ds : List (Desk κ)} {id : Nat} {desk : Desk κ} {r : Request Document}
      (hdesk : ds[id]? = some desk) (hcall : desk.call = .queued r) :
      Exchange execute ds (.sent id r) (ds.set id { desk with call := .sent r })
  | answer {ds : List (Desk κ)} {id : Nat} {desk : Desk κ} {r : Request Document} {x : Response}
      {link : κ} (hdesk : ds[id]? = some desk) (hcall : desk.call = .sent r)
      (hx : execute r desk.seat.link = (x, link)) :
      Exchange execute ds (.answered id r x)
        (ds.set id ⟨{ desk.seat with link }, .answered r x⟩)

/-- `Round execute start h ds`: what has become of a round after some events. -/
inductive Round (execute : Executor κ) (start : List (Desk κ)) :
    List Event → List (Desk κ) → Prop
  | nil : Round execute start [] start
  | snoc {h : List Event} {e : Event} {ds ds' : List (Desk κ)} (hds : Round execute start h ds)
      (hexchange : Exchange execute ds e ds') : Round execute start (h ++ [e]) ds'

/-- Whether all requests of a round are answered. -/
def Over (ds : List (Desk κ)) : Prop := ∀ desk ∈ ds, desk.call.isDone = true

/-- The requests that a secondary was sent, in order. -/
def sentTo (id : Nat) (h : List Event) : List (Request Document) :=
  h.filterMap fun e =>
    match e with
    | .sent id' r => if id' = id then some r else none
    | .answered _ _ _ => none

/-- The answer of a secondary, if it has come in. -/
def answerOf (id : Nat) (h : List Event) : Option Response :=
  h.findSome? fun e =>
    match e with
    | .sent _ _ => none
    | .answered id' _ x => if id' = id then some x else none

/-- The answers of those who were asked, in their order, whenever they came in. -/
def joined (ids : List Nat) (h : List Event) : List (Nat × Response) :=
  ids.filterMap fun id => (answerOf id h).map fun x => (id, x)

/-! ### What the events tell -/

section Told

variable {h : List Event} {ds ds' : List (Desk κ)} {e : Event} {id id' : Nat} {desk : Desk κ}
  {r : Request Document} {x : Response}

theorem sentTo_sent : sentTo id' (h ++ [.sent id r]) =
    sentTo id' h ++ if id' = id then [r] else [] := by
  by_cases heq : id' = id
  · simp [sentTo, heq]
  · simp [sentTo, heq, Ne.symm heq]

theorem sentTo_answered :
    sentTo id' (h ++ [.answered id r x]) = sentTo id' h := by
  simp [sentTo]

theorem answerOf_sent : answerOf id' (h ++ [.sent id r]) = answerOf id' h := by
  simp [answerOf, List.findSome?_append]

theorem answerOf_answered : answerOf id' (h ++ [.answered id r x]) =
    (answerOf id' h).or (if id' = id then some x else none) := by
  by_cases heq : id' = id
  · simp [answerOf, List.findSome?_append, heq]
  · simp [answerOf, List.findSome?_append, heq, Ne.symm heq]

/-- The request that was on its way to a secondary, if there was one. -/
def Call.sent? : Call → Option (Request Document)
  | sent r | answered r _ => some r
  | idle | queued _ => none

/-- What goes on with a secondary; nothing if there is none of this number. -/
def callOf (ds : List (Desk κ)) (id : Nat) : Call := (ds[id]?.map Desk.call).getD .idle

theorem callOf_eq (h : ds[id]? = some desk) : callOf ds id = desk.call := by
  rw [callOf, h]
  rfl

theorem callOf_set (hdesk : ds[id]? = some desk) (desk' : Desk κ) (id' : Nat) :
    callOf (ds.set id desk') id' = if id' = id then desk'.call else callOf ds id' := by
  have hid : id < ds.length := (List.getElem?_eq_some_iff.mp hdesk).1
  by_cases heq : id' = id
  · subst heq
    rw [if_pos rfl, callOf, List.getElem?_set_self hid]
    rfl
  · rw [if_neg heq, callOf, callOf, List.getElem?_set_ne (Ne.symm heq)]

/-- Each event leaves less to come. -/
theorem Exchange.sum_pending_lt (hexchange : Exchange execute ds e ds') :
    (ds'.map fun desk => desk.call.pending).sum < (ds.map fun desk => desk.call.pending).sum := by
  cases hexchange with
  | send hdesk hcall =>
    refine sum_pending_set_lt hdesk _ ?_
    rw [hcall]
    exact Nat.lt_succ_self 1
  | answer hdesk hcall =>
    refine sum_pending_set_lt hdesk _ ?_
    rw [hcall]
    exact Nat.zero_lt_one

/-- A round that is not over can go on. -/
theorem exists_exchange (execute : Executor κ) (hopen : ¬ Over ds) :
    ∃ e ds', Exchange execute ds e ds' := by
  obtain ⟨id, desk, r, hdesk, hcall | hcall⟩ := exists_open hopen
  · exact ⟨_, _, .send hdesk hcall⟩
  · exact ⟨_, _, .answer hdesk hcall rfl⟩

/-- How far a round has come, and what its history tells of it. -/
structure Underway (execute : Executor κ) (p : Primary κ)
    (request : Nat → Option (Request Document)) (h : List Event) (ds : List (Desk κ)) : Prop where
  size : ds.length = p.size
  desk : ∀ (id : Nat) (seat : Seat κ) (desk : Desk κ), p.seats[id]? = some seat →
    ds[id]? = some desk → Within execute seat (request id) desk
  sent : ∀ id, sentTo id h = (callOf ds id).sent?.toList
  answer : ∀ id, answerOf id h = (callOf ds id).answer?
  count : h.length + (ds.map fun desk => desk.call.pending).sum ≤ 2 * p.size

theorem Underway.start (execute : Executor κ) (p : Primary κ)
    (request : Nat → Option (Request Document)) :
    Underway execute p request [] (p.desks request) := by
  have hsize : (p.desks request).length = p.size := by simp [desks, Primary.size]
  have hcall (id : Nat) : callOf (p.desks request) id = .idle ∨
      ∃ r, callOf (p.desks request) id = .queued r := by
    simp only [callOf, desks, List.getElem?_map, List.getElem?_zipIdx, Option.map_map, Nat.zero_add]
    cases p.seats[id]? with
    | none => exact .inl rfl
    | some seat =>
      cases hrequest : request id with
      | none => exact .inl (by simp [hrequest, Call.ofRequest])
      | some r => exact .inr ⟨r, by simp [hrequest, Call.ofRequest]⟩
  refine ⟨hsize, fun id seat desk hseat hdesk => ?_, fun id => ?_, fun id => ?_, ?_⟩
  · simp only [desks, List.getElem?_map, List.getElem?_zipIdx, Nat.zero_add, hseat,
      Option.map_some] at hdesk
    obtain rfl := Option.some.inj hdesk
    exact .ofRequest seat _
  · rcases hcall id with hcall | ⟨r, hcall⟩ <;> rw [hcall] <;> rfl
  · rcases hcall id with hcall | ⟨r, hcall⟩ <;> rw [hcall] <;> rfl
  · have hle := pending_le (p.desks request)
    rw [hsize] at hle
    simpa using hle

/-- What happens on one link leaves the others as they are. -/
theorem Underway.set {desk' : Desk κ} (hunderway : Underway execute p request h ds)
    (hdesk : ds[id]? = some desk)
    (hwithin : ∀ seat, Within execute seat (request id) desk →
      Within execute seat (request id) desk')
    (hsum : ((ds.set id desk').map fun desk => desk.call.pending).sum <
      (ds.map fun desk => desk.call.pending).sum)
    (hsent : ∀ id', sentTo id' (h ++ [e]) =
      if id' = id then desk'.call.sent?.toList else sentTo id' h)
    (hanswer : ∀ id', answerOf id' (h ++ [e]) =
      if id' = id then desk'.call.answer? else answerOf id' h) :
    Underway execute p request (h ++ [e]) (ds.set id desk') where
  size := by rw [List.length_set, hunderway.size]
  desk id' seat desk'' hseat hdesk'' := by
    rcases desk_set_cases hdesk'' with ⟨rfl, rfl⟩ | ⟨-, hold⟩
    · exact hwithin seat (hunderway.desk id' seat desk hseat hdesk)
    · exact hunderway.desk id' seat desk'' hseat hold
  sent id' := by
    rw [hsent, callOf_set hdesk, hunderway.sent]
    split <;> rfl
  answer id' := by
    rw [hanswer, callOf_set hdesk, hunderway.answer]
    split <;> rfl
  count := by
    have hcount := hunderway.count
    rw [List.length_append, List.length_singleton]
    omega

theorem Underway.exchange (hunderway : Underway execute p request h ds)
    (hexchange : Exchange execute ds e ds') : Underway execute p request (h ++ [e]) ds' := by
  have hsum := hexchange.sum_pending_lt
  cases hexchange with
  | @send id desk r hdesk hcall =>
    have hbefore : callOf ds id = .queued r := (callOf_eq hdesk).trans hcall
    refine hunderway.set hdesk (fun _ hwithin => hwithin.send hcall) hsum (fun id' => ?_)
      fun id' => ?_
    · rw [sentTo_sent]
      by_cases hid : id' = id
      · rw [if_pos hid, if_pos hid, hid, hunderway.sent, hbefore]
        rfl
      · rw [if_neg hid, if_neg hid, List.append_nil]
    · rw [answerOf_sent]
      by_cases hid : id' = id
      · rw [if_pos hid, hid, hunderway.answer, hbefore]
        rfl
      · rw [if_neg hid]
  | @answer id desk r x link hdesk hcall hx =>
    have hbefore : callOf ds id = .sent r := (callOf_eq hdesk).trans hcall
    refine hunderway.set hdesk (fun _ hwithin => hwithin.answer hcall hx) hsum (fun id' => ?_)
      fun id' => ?_
    · rw [sentTo_answered]
      by_cases hid : id' = id
      · rw [if_pos hid, hid, hunderway.sent, hbefore]
        rfl
      · rw [if_neg hid]
    · rw [answerOf_answered]
      by_cases hid : id' = id
      · rw [if_pos hid, if_pos hid, hid, hunderway.answer, hbefore]
        rfl
      · rw [if_neg hid, if_neg hid, Option.or_none]

/-- **Every history of a round keeps to its requests**, whichever link goes on. -/
theorem Round.underway (hround : Round execute (p.desks request) h ds) :
    Underway execute p request h ds := by
  induction hround with
  | nil => exact .start execute p request
  | snoc _ hexchange ih => exact ih.exchange hexchange

/-- Whatever has happened, a round comes to its end. -/
theorem Round.ends {start : List (Desk κ)} (hround : Round execute start h ds) :
    ∃ later last, Round execute start (h ++ later) last ∧ Over last := by
  induction ds using (measure fun ds : List (Desk κ) =>
    (ds.map fun desk => desk.call.pending).sum).wf.induction generalizing h with
  | _ ds ih =>
    by_cases hover : Over ds
    · exact ⟨[], ds, by rwa [List.append_nil], hover⟩
    · obtain ⟨e, ds', hexchange⟩ := exists_exchange execute hover
      obtain ⟨later, last, hlast, hover⟩ :=
        ih ds' hexchange.sum_pending_lt (hround.snoc hexchange)
      rw [List.append_assoc] at hlast
      exact ⟨e :: later, last, hlast, hover⟩

/-! ### A round that is over -/

/-- What has gone on with a secondary when the round is over. -/
theorem Underway.closed (hunderway : Underway execute p request h ds) (hover : Over ds)
    (hrest : ∀ id ∉ p.active, request id = none) (id : Nat) :
    request id = none ∧ callOf ds id = .idle ∨
      ∃ r x, request id = some r ∧ callOf ds id = .answered r x := by
  cases hdesk : ds[id]? with
  | none =>
    have hnone : request id = none := hrest id fun hid => by
      obtain ⟨seat, hseat, -⟩ := mem_active.mp hid
      have hlt : id < p.size := (List.getElem?_eq_some_iff.mp hseat).1
      rw [← hunderway.size] at hlt
      exact absurd (List.getElem?_eq_none_iff.mp hdesk) (Nat.not_le.mpr hlt)
    refine .inl ⟨hnone, ?_⟩
    rw [callOf, hdesk]
    rfl
  | some desk =>
    have hlt : id < p.size := hunderway.size ▸ (List.getElem?_eq_some_iff.mp hdesk).1
    have hwithin := hunderway.desk id _ desk (List.getElem?_eq_getElem hlt) hdesk
    have hdone := hover desk (List.mem_of_getElem? hdesk)
    rw [callOf_eq hdesk]
    generalize request id = asked at hwithin
    cases hwithin with
    | idle => exact .inl ⟨rfl, rfl⟩
    | answered => exact .inr ⟨_, _, rfl, rfl⟩
    | queued | sent => cases hdone

/-- In a round that is over each secondary was sent its request, once, and nothing else. -/
theorem Round.sentTo_eq (hround : Round execute (p.desks request) h ds) (hover : Over ds)
    (hrest : ∀ id ∉ p.active, request id = none) (id : Nat) :
    sentTo id h = (request id).toList := by
  have hunderway := hround.underway
  rw [hunderway.sent]
  rcases hunderway.closed hover hrest id with ⟨hrequest, hcall⟩ | ⟨r, x, hrequest, hcall⟩
  · rw [hrequest, hcall]
    rfl
  · rw [hrequest, hcall]
    rfl

/-- **Whatever the order of its events**, a round that is over has brought what its requests bring
when they are carried out one after another. -/
theorem Round.fanOut_eq (hround : Round execute (p.desks request) h ds) (hover : Over ds)
    (hrest : ∀ id ∉ p.active, request id = none) :
    p.fanOut execute request = (joined p.active h, ⟨ds.map Desk.seat⟩) := by
  have hunderway := hround.underway
  rw [fanOut_of_within hunderway.size hunderway.desk hover]
  refine Prod.ext ?_ rfl
  have hdesks : (ds.zipIdx.filterMap fun e => e.1.call.answer?.map fun x => (e.2, x)) =
      (List.range p.size).filterMap fun id => (answerOf id h).map fun x => (id, x) := by
    rw [← hunderway.size, List.range_eq_range', ← List.zipIdx_map_snd 0 ds, List.filterMap_map]
    refine List.filterMap_congr fun e he => ?_
    have hdesk := List.mk_mem_zipIdx_iff_getElem?.mp he
    rw [Function.comp_apply, hunderway.answer, callOf_eq hdesk]
  have hactive : joined p.active h =
      (List.range p.size).filterMap fun id => (answerOf id h).map fun x => (id, x) := by
    rw [joined, active_eq, List.filterMap_filter]
    refine List.filterMap_congr fun id _ => ?_
    by_cases htakes : p.takesPart id = true
    · rw [if_pos htakes]
    · have hnone : request id = none :=
        hrest id fun hid => htakes (takesPart_iff.mpr (mem_active.mp hid))
      rw [if_neg htakes, hunderway.answer]
      rcases hunderway.closed hover hrest id with ⟨-, hcall⟩ | ⟨r, x, hrequest, -⟩
      · rw [hcall]
        rfl
      · rw [hnone] at hrequest
        cases hrequest
  exact hdesks.trans hactive.symm

end Told

/-! ### Phases -/

/-- What it means that the order of events shows nowhere in what a round returns, which is `value`
of the answers and how the links are left. -/
structure Unordered {α : Type} (execute : Executor κ) (p : Primary κ)
    (request : Nat → Option (Request Document)) (value : List (Nat × Response) → α)
    (returned : α × Primary κ) : Prop where
  /-- Whatever has happened, the round comes to its end. -/
  ends : ∀ h ds, Round execute (p.desks request) h ds →
    ∃ later last, Round execute (p.desks request) (h ++ later) last ∧ Over last
  bounded : ∀ h ds, Round execute (p.desks request) h ds → h.length ≤ 2 * p.size
  /-- Each is sent his request, once, and nobody else's. -/
  sent : ∀ h ds, Round execute (p.desks request) h ds → Over ds →
    ∀ id, sentTo id h = (request id).toList
  /-- Whatever has happened in whatever order, the same is returned. -/
  joins : ∀ h ds, Round execute (p.desks request) h ds → Over ds →
    returned = (value (joined p.active h), ⟨ds.map Desk.seat⟩)

/-- What it means that a list of failures names, in ascending order, exactly those who take part and
whose own links failed their requests, each once and with the fault of his own link. -/
structure Blames (execute : Executor κ) (p : Primary κ)
    (request : Nat → Option (Request Document)) (phase : Command) (found : List Failure) :
    Prop where
  ascending : (found.map Failure.secondary).Pairwise (· < ·)
  mem_iff : ∀ f, f ∈ found ↔ f.phase = phase ∧ ∃ seat r, p.seats[f.secondary]? = some seat ∧
    seat.active = true ∧ request f.secondary = some r ∧ (execute r seat.link).1 = .error f.fault

/-- What a phase comes to that tells of failures only. -/
structure PhaseReport (execute : Executor κ) (p : Primary κ)
    (request : Nat → Option (Request Document)) (phase : Command)
    (returned : List Failure × Primary κ) : Prop where
  unordered : Unordered execute p request (failures phase) returned
  blames : Blames execute p request phase returned.1

/-- What it means that no phase depends on the order in which answers come in. -/
structure PhasesUnordered (execute : Executor κ) (p : Primary κ) : Prop where
  /-- A phase in which all who take part are sent the same. -/
  alike : ∀ r, PhaseReport execute p (forAll p.active r) r.command (p.phase execute r)
  /-- Work is given out, a shard for each who takes part. -/
  work : ∀ ledger parameters shards, shards.length = p.active.length → ∃ returned,
    p.distribute execute ledger parameters shards = (.ok returned.1, returned.2) ∧
      PhaseReport execute p (workFor p.active ledger parameters shards) .workload returned
  /-- The `k`-th shard reaches the `k`-th of those who take part, and nobody else gets any. -/
  shard : ∀ ledger parameters shards, shards.length = p.active.length → ∀ h ds,
    Round execute (p.desks (workFor p.active ledger parameters shards)) h ds → Over ds →
      (∀ (k id : Nat) (shard : Shard), p.active[k]? = some id → shards[k]? = some shard →
        sentTo id h = [.workload (WorkloadMessage.toDocument ⟨ledger, parameters, shard⟩)]) ∧
      ∀ id ∉ p.active, sentTo id h = []
  /-- Without a shard for each, nobody is sent anything. -/
  miscounted : ∀ ledger parameters shards, shards.length ≠ p.active.length →
    p.distribute execute ledger parameters shards =
      (.error ⟨p.active.length, shards.length⟩, p)
  /-- Results are collected, and put into slots by the answers. -/
  results : Unordered execute p (forAll p.active .results)
    (fun responses => (⟨(List.range p.size).map (slot responses)⟩, failures .results responses))
    (p.collect execute)
  blames : Blames execute p (forAll p.active .results) .results (p.collect execute).1.2
  /-- There is a slot for each secondary, and nothing in it but its own result. -/
  slots : (p.collect execute).1.1.secondaries.length = p.size ∧
    ∀ (id : Nat) (seat : Seat κ), p.seats[id]? = some seat →
      (p.collect execute).1.1.secondaries[id]? = some
        (if seat.active then brought (execute .results seat.link).1 else .empty)

theorem unordered_fanOut {α : Type} (value : List (Nat × Response) → α)
    (hrest : ∀ id ∉ p.active, request id = none) :
    Unordered execute p request value
      (value (p.fanOut execute request).1, (p.fanOut execute request).2) where
  ends _ _ hround := hround.ends
  bounded h ds hround := by
    have hcount := hround.underway.count
    omega
  sent _ _ hround hover := hround.sentTo_eq hover hrest
  joins _ _ hround hover := by rw [hround.fanOut_eq hover hrest]

theorem secondary_failures_joined (phase : Command) (ids : List Nat) (h : List Event) :
    ((failures phase (joined ids h)).map Failure.secondary).Sublist ids := by
  induction ids with
  | nil => exact .slnil
  | cons id ids ih =>
    unfold joined at ih ⊢
    rw [List.filterMap_cons]
    cases answerOf id h with
    | none => exact ih.cons id
    | some x =>
      cases x with
      | ok => exact ih.cons id
      | error fault => exact ih.cons_cons id

theorem pairwise_active (p : Primary κ) : p.active.Pairwise (· < ·) := by
  rw [active_eq]
  exact List.pairwise_lt_range.filter _

theorem askSeat_eq_some {asked : Option (Request Document)} {seat : Seat κ} {x : Response} :
    (askSeat execute asked seat).1 = some x ↔
      ∃ r, asked = some r ∧ (execute r seat.link).1 = x := by
  cases asked with
  | none => simp [askSeat]
  | some r => simp [askSeat]

theorem blames_fanOut (phase : Command) (hrest : ∀ id ∉ p.active, request id = none) :
    Blames execute p request phase (failures phase (p.fanOut execute request).1) where
  ascending := by
    have hstart : Round execute (p.desks request) [] (p.desks request) := .nil
    obtain ⟨h, ds, hround, hover⟩ := hstart.ends
    rw [hround.fanOut_eq hover hrest]
    exact p.pairwise_active.sublist (secondary_failures_joined phase p.active _)
  mem_iff f := by
    rw [mem_failures, mem_responses, and_congr_right_iff]
    intro _
    refine exists_congr fun seat => ?_
    rw [askSeat_eq_some]
    constructor
    · rintro ⟨hseat, r, hr, hx⟩
      have hid : f.secondary ∈ p.active := by
        by_contra hid
        rw [hrest _ hid] at hr
        cases hr
      obtain ⟨seat', hseat', hactive⟩ := mem_active.mp hid
      obtain rfl := Option.some.inj (hseat.symm.trans hseat')
      exact ⟨r, hseat, hactive, hr, hx⟩
    · rintro ⟨r, hseat, -, hr, hx⟩
      exact ⟨hseat, r, hr, hx⟩

theorem phaseReport_fanOut (phase : Command) (hrest : ∀ id ∉ p.active, request id = none) :
    PhaseReport execute p request phase
      (failures phase (p.fanOut execute request).1, (p.fanOut execute request).2) :=
  ⟨unordered_fanOut (failures phase) hrest, blames_fanOut phase hrest⟩

/-- What stands in the slot of a secondary once the results are collected. -/
theorem slot_fanOut {id : Nat} {seat : Seat κ} (hseat : p.seats[id]? = some seat) :
    slot (p.fanOut execute (forAll p.active .results)).1 id =
      if seat.active then brought (execute .results seat.link).1 else .empty := by
  have hresponse (x : Response) : (id, x) ∈ (p.fanOut execute (forAll p.active .results)).1 ↔
      seat.active = true ∧ (execute .results seat.link).1 = x := by
    rw [mem_responses]
    constructor
    · rintro ⟨seat', hseat', hx⟩
      obtain rfl := Option.some.inj (hseat.symm.trans hseat')
      obtain ⟨r, hr, hx⟩ := askSeat_eq_some.mp hx
      by_cases hid : id ∈ p.active
      · rw [forAll_of_mem hid] at hr
        obtain rfl := Option.some.inj hr
        obtain ⟨seat', hseat', hactive⟩ := mem_active.mp hid
        obtain rfl := Option.some.inj (hseat.symm.trans hseat')
        exact ⟨hactive, hx⟩
      · rw [forAll_of_not_mem hid] at hr
        cases hr
    · rintro ⟨hactive, hx⟩
      have hid : id ∈ p.active := mem_active.mpr ⟨seat, hseat, hactive⟩
      exact ⟨seat, hseat, askSeat_eq_some.mpr ⟨_, forAll_of_mem hid _, hx⟩⟩
  by_cases hactive : seat.active = true
  · rw [if_pos hactive]
    exact slot_eq_brought ((hresponse _).mpr ⟨hactive, rfl⟩) fun y hy =>
      ((hresponse y).mp hy).2.symm
  · rw [if_neg hactive]
    exact slot_of_not_mem fun x hx => hactive ((hresponse x).mp hx).1

/-- **No phase depends on the order in which answers come in**, whoever takes part and whoever
fails. -/
theorem phases_unordered (execute : Executor κ) (p : Primary κ) : PhasesUnordered execute p where
  alike r := phaseReport_fanOut r.command fun _ hid => forAll_of_not_mem hid r
  work ledger parameters shards hlength :=
    ⟨_, distribute_eq hlength, phaseReport_fanOut .workload fun _ hid => workFor_of_not_mem hid⟩
  shard ledger parameters shards hlength h ds hround hover := by
    have hsent := hround.sentTo_eq hover fun _ hid => workFor_of_not_mem hid
    refine ⟨fun k id shard hid hshard => ?_, fun id hid => ?_⟩
    · rw [hsent, workFor_of_getElem? p.nodup_active hid hshard]
      rfl
    · rw [hsent, workFor_of_not_mem hid]
      rfl
  miscounted ledger parameters shards hlength := by
    unfold distribute
    rw [if_neg hlength]
  results := by
    rw [collect_eq, size_fanOut]
    exact unordered_fanOut (fun responses =>
      (CampaignResult.mk ((List.range p.size).map (slot responses)), failures .results responses))
      fun _ hid => forAll_of_not_mem hid .results
  blames := blames_fanOut .results fun _ hid => forAll_of_not_mem hid .results
  slots := by
    rw [collect_eq, size_fanOut]
    refine ⟨by simp, fun id seat hseat => ?_⟩
    have hlt : id < p.size := (List.getElem?_eq_some_iff.mp hseat).1
    rw [List.getElem?_map, List.getElem?_range hlt, Option.map_some, slot_fanOut hseat]

end LedgerLoad.Primary
