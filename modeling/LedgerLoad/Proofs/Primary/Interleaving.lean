import LedgerLoad.Proofs.Primary.Course

/-! # Answers in any order

The requests of a round are under way all at once: each is sent and answered in its own time, and
the round is over when all are answered. `Step` is one such event on one link, or the turn from one
round to the next, and `History` says which events have come before a scene. Main statements:
`History.amid`, a scene lies within some round of the run, however its answers have come in;
`ended_of_history`, a history that has come to its end has the outcome of the run; and
`wellFounded_step`, every history comes to an end. -/

namespace LedgerLoad.Primary

variable {κ σ β : Type}

/-- What goes on between a primary and one of its secondaries during a round. -/
inductive Call
  | idle
  | queued (r : Request Document)
  | sent (r : Request Document)
  | answered (r : Request Document) (x : Response)

namespace Call

/-- The call for a request, if there is one. -/
def ofRequest : Option (Request Document) → Call
  | none => idle
  | some r => queued r

/-- Whether nothing more happens in this round. -/
def isDone : Call → Bool
  | idle | answered _ _ => true
  | queued _ | sent _ => false

def answer? : Call → Option Response
  | answered _ x => some x
  | _ => none

/-- How many events are still to come. -/
def pending : Call → Nat
  | queued _ => 2
  | sent _ => 1
  | idle | answered _ _ => 0

end Call

/-- The seat of a secondary, and what goes on there. -/
structure Desk (κ : Type) where
  seat : Seat κ
  call : Call

/-- A primary in the middle of a round. -/
structure Scene (κ : Type) where
  point : Point
  desks : List (Desk κ)

/-- The beginning of a round: all its requests are there, and none is sent yet. -/
def Standing.scene (b : Brief σ β) (s : Standing κ) : Scene κ :=
  ⟨s.point, s.primary.seats.zipIdx.map fun (seat, id) => ⟨seat, .ofRequest (s.request b id)⟩⟩

namespace Scene

/-- The answers that have come in, in the order of the seats. -/
def responses (c : Scene κ) : List (Nat × Response) :=
  c.desks.zipIdx.filterMap fun (desk, id) => desk.call.answer?.map fun x => (id, x)

def primary (c : Scene κ) : Primary κ := ⟨c.desks.map Desk.seat⟩

/-- A request is on its way to a secondary. -/
def send (c : Scene κ) (id : Nat) (desk : Desk κ) (r : Request Document) : Scene κ :=
  { c with desks := c.desks.set id { desk with call := .sent r } }

/-- An answer has come in. -/
def answer (c : Scene κ) (id : Nat) (desk : Desk κ) (r : Request Document) (x : Response)
    (link : κ) : Scene κ :=
  { c with desks := c.desks.set id ⟨{ desk.seat with link }, .answered r x⟩ }

end Scene

/-- What happens on a link. -/
inductive Event
  | sent (id : Nat) (r : Request Document)
  | answered (id : Nat) (r : Request Document) (x : Response)

/-- One step of a run. Which link goes on is left open. -/
inductive Step (execute : Executor κ) (b : Brief σ β) : Scene κ → List Event → Scene κ → Prop
  | send {c : Scene κ} {id : Nat} {desk : Desk κ} {r : Request Document}
      (hdesk : c.desks[id]? = some desk) (hcall : desk.call = .queued r) :
      Step execute b c [.sent id r] (c.send id desk r)
  | answer {c : Scene κ} {id : Nat} {desk : Desk κ} {r : Request Document} {x : Response}
      {link : κ} (hdesk : c.desks[id]? = some desk) (hcall : desk.call = .sent r)
      (hx : execute r desk.seat.link = (x, link)) :
      Step execute b c [.answered id r x] (c.answer id desk r x link)
  | turn {c : Scene κ} (hdone : ∀ desk ∈ c.desks, desk.call.isDone = true)
      (hpoint : c.point.stage < 5) :
      Step execute b c [] ((turn b c.point c.responses c.primary).scene b)

/-- `History execute b start h c`: from a scene to another through some events. -/
inductive History (execute : Executor κ) (b : Brief σ β) (start : Scene κ) :
    List Event → Scene κ → Prop
  | nil : History execute b start [] start
  | snoc {h e : List Event} {c c' : Scene κ} (hc : History execute b start h c)
      (hstep : Step execute b c e c') : History execute b start (h ++ e) c'

variable {execute : Executor κ} {b : Brief σ β}

/-! ### Within a round -/

/-- How far one secondary may have come in a round, in which it is sent a request or none. -/
inductive Within (execute : Executor κ) (seat : Seat κ) : Option (Request Document) → Desk κ → Prop
  | idle : Within execute seat none ⟨seat, .idle⟩
  | queued (r : Request Document) : Within execute seat (some r) ⟨seat, .queued r⟩
  | sent (r : Request Document) : Within execute seat (some r) ⟨seat, .sent r⟩
  | answered {r : Request Document} {x : Response} {link : κ}
      (hx : execute r seat.link = (x, link)) :
      Within execute seat (some r) ⟨{ seat with link }, .answered r x⟩

/-- A scene within the round that begins at a standing. -/
structure Amid (execute : Executor κ) (b : Brief σ β) (s : Standing κ) (c : Scene κ) : Prop where
  point : c.point = s.point
  size : c.desks.length = s.primary.size
  desk : ∀ (id : Nat) (seat : Seat κ) (desk : Desk κ), s.primary.seats[id]? = some seat →
    c.desks[id]? = some desk → Within execute seat (s.request b id) desk

theorem Within.ofRequest (seat : Seat κ) (request : Option (Request Document)) :
    Within execute seat request ⟨seat, .ofRequest request⟩ := by
  cases request with
  | none => exact .idle
  | some r => exact .queued r

theorem Within.send {seat : Seat κ} {request : Option (Request Document)} {desk : Desk κ}
    {r : Request Document} (h : Within execute seat request desk) (hcall : desk.call = .queued r) :
    Within execute seat request { desk with call := .sent r } := by
  cases h with
  | idle | sent | answered => cases hcall
  | queued r' =>
    obtain rfl := Call.queued.inj hcall
    exact .sent r'

theorem Within.answer {seat : Seat κ} {request : Option (Request Document)} {desk : Desk κ}
    {r : Request Document} {x : Response} {link : κ} (h : Within execute seat request desk)
    (hcall : desk.call = .sent r) (hx : execute r desk.seat.link = (x, link)) :
    Within execute seat request ⟨{ desk.seat with link }, .answered r x⟩ := by
  cases h with
  | idle | queued | answered => cases hcall
  | sent r' =>
    obtain rfl := Call.sent.inj hcall
    exact .answered hx

/-- A secondary for whom the round is over has been asked. -/
theorem Within.asked {seat : Seat κ} {request : Option (Request Document)} {desk : Desk κ}
    (h : Within execute seat request desk) (hdone : desk.call.isDone = true) :
    askSeat execute request seat = (desk.call.answer?, desk.seat) := by
  cases h with
  | idle => rfl
  | queued | sent => cases hdone
  | answered hx => rw [askSeat, hx]; rfl

/-- Desks that are through with their requests have brought what the requests bring when they are
carried out one after another. -/
theorem fanOut_of_within {p : Primary κ} {request : Nat → Option (Request Document)}
    {desks : List (Desk κ)} (hsize : desks.length = p.size)
    (hdesk : ∀ (id : Nat) (seat : Seat κ) (desk : Desk κ), p.seats[id]? = some seat →
      desks[id]? = some desk → Within execute seat (request id) desk)
    (hdone : ∀ desk ∈ desks, desk.call.isDone = true) :
    p.fanOut execute request =
      (desks.zipIdx.filterMap fun (desk, id) => desk.call.answer?.map fun x => (id, x),
        ⟨desks.map Desk.seat⟩) := by
  have hall : p.seats.zipIdx.map (fun e => (e.2, askSeat execute (request e.2) e.1)) =
      desks.zipIdx.map fun e => (e.2, e.1.call.answer?, e.1.seat) := by
    refine List.ext_getElem? fun id => ?_
    simp only [List.getElem?_map, List.getElem?_zipIdx, Option.map_map, Nat.zero_add]
    cases hcurrent : desks[id]? with
    | none =>
      have hid : p.seats.length ≤ id := by
        rw [← Primary.size, ← hsize]
        exact List.getElem?_eq_none_iff.mp hcurrent
      rw [List.getElem?_eq_none hid]
      rfl
    | some desk =>
      have hid : id < p.seats.length := by
        rw [← Primary.size, ← hsize]
        exact (List.getElem?_eq_some_iff.mp hcurrent).1
      have hseat := List.getElem?_eq_getElem hid
      have hasked := (hdesk id _ desk hseat hcurrent).asked
        (hdone desk (List.mem_of_getElem? hcurrent))
      rw [hseat]
      exact congrArg (fun x => some (id, x)) hasked
  have hseats : desks.zipIdx.map (fun e => e.1.seat) = desks.map Desk.seat := by
    have hcomp : (fun e : Desk κ × Nat => e.1.seat) = Desk.seat ∘ Prod.fst := rfl
    rw [hcomp, ← List.map_map, List.zipIdx_map_fst]
  refine Prod.ext ?_ (congrArg Primary.mk ?_)
  · show (List.filterMap _ (List.map _ _)) = _
    rw [hall, List.filterMap_map]
    rfl
  · show (List.map _ (List.map _ _)) = _
    rw [hall, List.map_map]
    exact hseats

/-- As long as a round is not over, some request has still to be sent or answered. -/
theorem exists_open {desks : List (Desk κ)}
    (h : ¬ ∀ desk ∈ desks, desk.call.isDone = true) :
    ∃ (id : Nat) (desk : Desk κ) (r : Request Document), desks[id]? = some desk ∧
      (desk.call = .queued r ∨ desk.call = .sent r) := by
  push Not at h
  obtain ⟨desk, hmem, hcall⟩ := h
  obtain ⟨id, hdesk⟩ := List.mem_iff_getElem?.mp hmem
  cases hdeskcall : desk.call with
  | idle | answered => exact absurd (by rw [hdeskcall]; rfl) hcall
  | queued r => exact ⟨id, desk, r, hdesk, .inl hdeskcall⟩
  | sent r => exact ⟨id, desk, r, hdesk, .inr hdeskcall⟩

theorem desk_set_cases {desks : List (Desk κ)} {id id' : Nat} {desk desk' : Desk κ}
    (h : (desks.set id desk)[id']? = some desk') :
    id' = id ∧ desk' = desk ∨ id' ≠ id ∧ desks[id']? = some desk' := by
  rw [List.getElem?_set] at h
  split at h
  · rename_i hid
    split at h
    · exact .inl ⟨hid.symm, (Option.some.inj h).symm⟩
    · cases h
  · rename_i hid
    exact .inr ⟨fun h => hid h.symm, h⟩

/-- At the beginning of a round each secondary has its request before it. -/
theorem Standing.scene_desk {s : Standing κ} {id : Nat} {desk : Desk κ}
    (hdesk : (s.scene b).desks[id]? = some desk) : ∃ seat, s.primary.seats[id]? = some seat ∧
      desk = ⟨seat, .ofRequest (s.request b id)⟩ := by
  simp only [scene, List.getElem?_map, List.getElem?_zipIdx, Option.map_map, Nat.zero_add,
    Option.map_eq_some_iff] at hdesk
  obtain ⟨seat, hseat, rfl⟩ := hdesk
  exact ⟨seat, hseat, rfl⟩

theorem length_desks_scene (s : Standing κ) : (s.scene b).desks.length = s.primary.size := by
  simp [Standing.scene, Primary.size]

namespace Amid

variable {s : Standing κ} {c : Scene κ}

theorem seat (h : Amid execute b s c) {id : Nat} {desk : Desk κ} (hdesk : c.desks[id]? = some desk) :
    ∃ seat, s.primary.seats[id]? = some seat ∧ Within execute seat (s.request b id) desk := by
  have hid : id < s.primary.seats.length := by
    rw [← Primary.size, ← h.size]
    exact (List.getElem?_eq_some_iff.mp hdesk).1
  exact ⟨_, List.getElem?_eq_getElem hid, h.desk id _ desk (List.getElem?_eq_getElem hid) hdesk⟩

theorem scene (execute : Executor κ) (b : Brief σ β) (s : Standing κ) :
    Amid execute b s (s.scene b) where
  point := rfl
  size := length_desks_scene s
  desk id seat desk hseat hdesk := by
    obtain ⟨seat', hseat', rfl⟩ := Standing.scene_desk hdesk
    obtain rfl := Option.some.inj (hseat.symm.trans hseat')
    exact .ofRequest seat _

/-- When a round is over, it has brought what its requests bring when they are carried out one
after another. -/
theorem asked (h : Amid execute b s c) (hdone : ∀ desk ∈ c.desks, desk.call.isDone = true) :
    s.asked execute b = (c.responses, c.primary) := fanOut_of_within h.size h.desk hdone

/-- What happens on one link is no concern of the others. -/
theorem set (h : Amid execute b s c) {id : Nat} {desk desk' : Desk κ}
    (hdesk : c.desks[id]? = some desk)
    (hwithin : ∀ seat, Within execute seat (s.request b id) desk →
      Within execute seat (s.request b id) desk') :
    Amid execute b s { c with desks := c.desks.set id desk' } where
  point := h.point
  size := by rw [List.length_set, h.size]
  desk id' seat desk'' hseat hdesk'' := by
    rcases desk_set_cases hdesk'' with ⟨rfl, rfl⟩ | ⟨-, hold⟩
    · exact hwithin seat (h.desk id' seat desk hseat hdesk)
    · exact h.desk id' seat desk'' hseat hold

/-- The next step of a round stays within it, or leads to the next round. -/
theorem step {e : List Event} {c' : Scene κ} (h : Amid execute b s c)
    (hstep : Step execute b c e c') :
    Amid execute b s c' ∨ s.point.stage < 5 ∧ c' = (advance execute b s).scene b := by
  cases hstep with
  | send hdesk hcall => exact .inl (h.set hdesk fun _ hwithin => hwithin.send hcall)
  | answer hdesk hcall hx => exact .inl (h.set hdesk fun _ hwithin => hwithin.answer hcall hx)
  | turn hdone hpoint =>
    rw [h.point] at hpoint
    refine .inr ⟨hpoint, ?_⟩
    rw [advance, h.asked hdone, h.point]

end Amid

/-- Once a run has ended nothing goes on any more. -/
theorem Amid.ended {s : Standing κ} {c : Scene κ} (h : Amid execute b s c)
    {outcome : Except RunStop CampaignResult} (hended : s.point = .ended outcome) :
    s.primary = c.primary := by
  obtain ⟨point, p⟩ := s
  obtain rfl : point = .ended outcome := hended
  have hdone : ∀ desk ∈ c.desks, desk.call.isDone = true := by
    intro desk hmem
    obtain ⟨id, hdesk⟩ := List.mem_iff_getElem?.mp hmem
    obtain ⟨seat, -, hwithin⟩ := h.seat hdesk
    cases hwithin
    rfl
  have hnone : Standing.asked execute b ⟨.ended outcome, p⟩ = ([], p) := fanOut_none p
  exact congrArg Prod.snd (hnone.symm.trans (h.asked hdone))

/-- **Answers come in in any order**: a scene lies within some round of the run. -/
theorem History.amid {s : Standing κ} {h : List Event} {c : Scene κ}
    (hc : History execute b (s.scene b) h c) :
    ∃ n, Amid execute b ((advance execute b)^[n] s) c := by
  induction hc with
  | nil => exact ⟨0, .scene execute b s⟩
  | snoc _ hstep ih =>
    obtain ⟨n, hn⟩ := ih
    rcases hn.step hstep with h | ⟨-, rfl⟩
    · exact ⟨n, h⟩
    · refine ⟨n + 1, ?_⟩
      rw [Function.iterate_succ_apply']
      exact .scene execute b _

/-! ### The end of a run -/

/-- A history that has come to its end has the outcome of the run, and leaves the links as it
does. -/
theorem ended_of_history {p : Primary κ} {h : List Event} {c : Scene κ}
    {outcome : Except RunStop CampaignResult}
    (hc : History execute b (Standing.scene b ⟨b.opening, p⟩) h c)
    (hended : c.point = .ended outcome) : (outcome, c.primary) = b.run execute p := by
  obtain ⟨n, hn⟩ := hc.amid
  have hpoint := hn.point.symm.trans hended
  have hprimary := hn.ended hpoint
  generalize hs : (advance execute b)^[n] ⟨b.opening, p⟩ = s at hpoint hprimary
  obtain ⟨point, q⟩ := s
  obtain rfl : point = .ended outcome := hpoint
  obtain rfl : q = c.primary := hprimary
  exact ended_eq_run hs

/-- Before its end a run can always go on. -/
theorem exists_step (execute : Executor κ) (b : Brief σ β) {c : Scene κ} (h : c.point.stage < 5) :
    ∃ e c', Step execute b c e c' := by
  by_cases hdone : ∀ desk ∈ c.desks, desk.call.isDone = true
  · exact ⟨_, _, .turn hdone h⟩
  · obtain ⟨id, desk, r, hdesk, hcall | hcall⟩ := exists_open hdone
    · exact ⟨_, _, .send hdesk hcall⟩
    · exact ⟨_, _, .answer hdesk hcall rfl⟩

/-- How many steps a run may still take. -/
def Scene.remaining (c : Scene κ) : Nat :=
  (5 - c.point.stage) * (2 * c.desks.length + 1) + (c.desks.map fun desk => desk.call.pending).sum

theorem sum_pending_set_lt {desks : List (Desk κ)} {id : Nat} {desk : Desk κ}
    (hdesk : desks[id]? = some desk) (desk' : Desk κ)
    (hlt : desk'.call.pending < desk.call.pending) :
    ((desks.set id desk').map fun desk => desk.call.pending).sum <
      (desks.map fun desk => desk.call.pending).sum := by
  induction desks generalizing id with
  | nil => cases hdesk
  | cons first desks ih =>
    cases id with
    | zero =>
      obtain rfl := Option.some.inj hdesk
      simpa using hlt
    | succ id => simpa using ih hdesk

theorem remaining_set_lt {c : Scene κ} {id : Nat} {desk : Desk κ} (hdesk : c.desks[id]? = some desk)
    (desk' : Desk κ) (hlt : desk'.call.pending < desk.call.pending) :
    Scene.remaining { c with desks := c.desks.set id desk' } < c.remaining := by
  have hsum := sum_pending_set_lt hdesk desk' hlt
  simp only [Scene.remaining, List.length_set]
  omega

theorem pending_le (desks : List (Desk κ)) :
    (desks.map fun desk => desk.call.pending).sum ≤ 2 * desks.length := by
  induction desks with
  | nil => simp
  | cons desk desks ih =>
    have hle : desk.call.pending ≤ 2 := by cases desk.call <;> simp [Call.pending]
    simp only [List.map_cons, List.sum_cons, List.length_cons]
    omega

theorem size_primary (c : Scene κ) : c.primary.size = c.desks.length := List.length_map _

/-- Nobody comes or goes between two rounds. -/
theorem length_desks_turn (b : Brief σ β) (c : Scene κ) :
    ((turn b c.point c.responses c.primary).scene b).desks.length = c.desks.length := by
  rw [length_desks_scene, size_turn, size_primary]

theorem remaining_lt_of_step {e : List Event} {c c' : Scene κ} (h : Step execute b c e c') :
    c'.remaining < c.remaining := by
  cases h with
  | send hdesk hcall =>
    refine remaining_set_lt hdesk _ ?_
    rw [hcall]
    exact Nat.lt_succ_self 1
  | answer hdesk hcall hx =>
    refine remaining_set_lt hdesk _ ?_
    rw [hcall]
    exact Nat.zero_lt_one
  | turn hdone hpoint =>
    -- All calls of the new round are still to come, and that is less than a stage counts.
    have hstage := stage_lt_turn b hpoint c.responses c.primary
    have hlength := length_desks_turn b c
    have hpending := pending_le ((turn b c.point c.responses c.primary).scene b).desks
    have hpoint' : ((turn b c.point c.responses c.primary).scene b).point =
        (turn b c.point c.responses c.primary).point := rfl
    rw [hlength] at hpending
    rw [Scene.remaining, Scene.remaining, hlength, hpoint']
    generalize (turn b c.point c.responses c.primary).point.stage = stage at hstage
    have hmul : (5 - stage + 1) * (2 * c.desks.length + 1) ≤
        (5 - c.point.stage) * (2 * c.desks.length + 1) :=
      Nat.mul_le_mul_right _ (by omega)
    rw [Nat.succ_mul] at hmul
    omega

theorem History.length_desks {start c : Scene κ} {h : List Event}
    (hc : History execute b start h c) : c.desks.length = start.desks.length := by
  induction hc with
  | nil => rfl
  | snoc _ hstep ih =>
    rw [← ih]
    cases hstep with
    | send | answer => exact List.length_set
    | turn => exact length_desks_turn b _

/-- Every run comes to an end. -/
theorem wellFounded_step (execute : Executor κ) (b : Brief σ β) :
    WellFounded fun c' c : Scene κ => ∃ e, Step execute b c e c' :=
  Subrelation.wf (fun ⟨_, h⟩ => remaining_lt_of_step h) (measure Scene.remaining).wf

/-- Whatever has happened, a run comes to its end. -/
theorem History.ends {start c : Scene κ} {h : List Event} (hc : History execute b start h c) :
    ∃ later last outcome, History execute b start (h ++ later) last ∧
      last.point = .ended outcome := by
  induction c using (wellFounded_step execute b).induction generalizing h with
  | _ c ih =>
    by_cases hstage : c.point.stage < 5
    · obtain ⟨e, c', hstep⟩ := exists_step execute b hstage
      obtain ⟨later, last, outcome, hlast, hended⟩ := ih c' ⟨e, hstep⟩ (hc.snoc hstep)
      rw [List.append_assoc] at hlast
      exact ⟨e ++ later, last, outcome, hlast, hended⟩
    · cases hpoint : c.point with
      | ended outcome => exact ⟨[], c, outcome, by rwa [List.append_nil], hpoint⟩
      | prepare | workload | run | results | fin =>
        rw [hpoint] at hstage
        simp [Point.stage] at hstage

end LedgerLoad.Primary
