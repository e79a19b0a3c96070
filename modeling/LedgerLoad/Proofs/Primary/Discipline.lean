import LedgerLoad.Proofs.Primary.Breakdown
import LedgerLoad.Proofs.Primary.Interleaving

/-! # Which requests a secondary is sent

In whatever order answers come in, each secondary is sent the requests of the first phases, in their
order, and after them the last request, once, unless the run breaks down in planning: then all have
been sent the first request and are sent nothing more. A phase begins when all answers of the phase
before are in, and whoever fails a request is sent none but the last. Main statements:
`Conduct.turned`, what the next round means for one secondary; `History.exists_orderly`, what holds
of all of them; and `disciplined_of_history`. -/

namespace LedgerLoad

namespace Primary

variable {κ σ β : Type} {execute : Executor κ} {b : Brief σ β}

/-- The commands that a secondary was sent, in order. -/
def commandsTo (id : Nat) (h : List Event) : List Command :=
  h.filterMap fun e =>
    match e with
    | .sent id' r => if id' = id then some r.command else none
    | .answered _ _ _ => none

theorem commandsTo_sent (id : Nat) (h : List Event) (r : Request Document) :
    commandsTo id (h ++ [.sent id r]) = commandsTo id h ++ [r.command] := by
  simp [commandsTo]

theorem commandsTo_other {id id' : Nat} (hne : id' ≠ id) (h : List Event) (r : Request Document) :
    commandsTo id (h ++ [.sent id' r]) = commandsTo id h := by
  simp [commandsTo, hne]

theorem commandsTo_answered (id id' : Nat) (h : List Event) (r : Request Document) (x : Response) :
    commandsTo id (h ++ [.answered id' r x]) = commandsTo id h := by
  simp [commandsTo]

/-- Whether the request of a round is on its way. -/
def Call.begun : Call → Bool
  | sent _ | answered _ _ => true
  | idle | queued _ => false

/-- Between two events of one secondary: after an error it is sent the last request at most. -/
def Stops (id : Nat) (e later : Event) : Prop :=
  ∀ r fault, e = .answered id r (.error fault) → ∀ r', later = .sent id r' → r' = .fin

/-- Which commands a secondary was sent at some time in a round, in which its request has begun its
way or not. -/
structure Issued (s : Standing κ) (id : Nat) (begun : Bool) (commands : List Command) : Prop where
  taking : s.point.stage < 4 → id ∈ s.primary.active →
    commands = Command.phases.take (s.point.stage + if begun then 1 else 0)
  resting : s.point.stage < 4 → id ∉ s.primary.active → ∃ n, commands = Command.phases.take n
  closing : s.point.stage = 4 →
    ∃ n, commands = Command.phases.take n ++ if begun then [.fin] else []
  closed : s.point.stage = 5 → s.point ≠ .ended (.error .crash) →
    ∃ n, commands = Command.phases.take n ++ [.fin]
  /-- Everyone is there to be prepared. -/
  first : s.point = .prepare → id ∈ s.primary.active
  broken : s.point = .ended (.error .crash) → commands = [.prepare]

/-- What has gone on with one secondary until some time in a round. -/
structure Conduct (s : Standing κ) (h : List Event) (id : Nat) (call : Call) : Prop where
  issued : Issued s id call.begun (commandsTo id h)
  /-- Of those who still take part only who has just answered may have failed. -/
  failed : s.point.stage < 4 → id ∈ s.primary.active → ∀ r fault,
    .answered id r (.error fault) ∈ h → call = .answered r (.error fault)
  stops : h.Pairwise (Stops id)

theorem Point.stage_le (point : Point) : point.stage ≤ 5 := by
  cases point <;> simp [stage]

theorem Issued.of_phase {s : Standing κ} {id : Nat} {begun : Bool} {commands : List Command}
    (h : Issued s id begun commands) (hlt : s.point.stage < 4) :
    ∃ n, commands = Command.phases.take n := by
  by_cases hid : id ∈ s.primary.active
  · exact ⟨_, h.taking hlt hid⟩
  · exact h.resting hlt hid

theorem Issued.cases {s : Standing κ} {id : Nat} {begun : Bool} {commands : List Command}
    (h : Issued s id begun commands) : ∃ n, commands = Command.phases.take n ∨
      commands = Command.phases.take n ++ [.fin] := by
  have hle := s.point.stage_le
  rcases Nat.lt_trichotomy s.point.stage 4 with hlt | hfour | hgt
  · obtain ⟨n, hn⟩ := h.of_phase hlt
    exact ⟨n, .inl hn⟩
  · obtain ⟨n, hn⟩ := h.closing hfour
    cases begun with
    | false => exact ⟨n, .inl (by rw [hn]; simp)⟩
    | true => exact ⟨n, .inr hn⟩
  · by_cases hcrash : s.point = .ended (.error .crash)
    · exact ⟨1, .inl (h.broken hcrash)⟩
    · obtain ⟨n, hn⟩ := h.closed (by omega) hcrash
      exact ⟨n, .inr hn⟩

/-! ### Requests of a round -/

theorem Point.phase_of_stage {point : Point} (h : point.stage < 4) :
    ∃ c, point.phase? = some c := by
  cases point with
  | prepare | workload | run | results => exact ⟨_, rfl⟩
  | fin | ended => simp [stage] at h

/-- A request is that of a phase, to somebody who takes part, or the last one. -/
theorem Standing.request_eq_some {s : Standing κ} (hs : s.Sound) {id : Nat} {r : Request Document}
    (h : s.request b id = some r) : r.command.stage = s.point.stage ∧
      (s.point.stage < 4 ∧ id ∈ s.primary.active ∧ r.command ≠ .fin ∨
        s.point.stage = 4 ∧ r = .fin) := by
  cases hc : s.point.phase? with
  | some c =>
    obtain ⟨hcommand, hfin, hstage⟩ := Point.stage_of_phase hc
    have hid : id ∈ s.primary.active := by
      by_contra hid
      rw [request_of_not_mem hc hid] at h
      cases h
    obtain ⟨r', hr', rfl⟩ := request_of_mem (b := b) hs hc hid
    obtain rfl := Option.some.inj (hr'.symm.trans h)
    exact ⟨hcommand, .inl ⟨hstage, hid, hfin⟩⟩
  | none =>
    unfold request at h
    cases hpoint : s.point with
    | prepare | workload | run | results =>
      rw [hpoint] at hc
      cases hc
    | fin outcome =>
      rw [hpoint] at h
      obtain rfl := Option.some.inj h
      exact ⟨rfl, .inr ⟨rfl, rfl⟩⟩
    | ended outcome =>
      rw [hpoint] at h
      cases h

theorem Standing.request_fin {s : Standing κ} (h : s.point.stage = 4) (id : Nat) :
    s.request b id = some .fin := by
  unfold request
  cases hpoint : s.point with
  | fin outcome => rfl
  | prepare | workload | run | results | ended => simp [hpoint, Point.stage] at h

/-- Everyone who takes part is sent something in a phase, and at last everyone at all is. -/
theorem Standing.exists_request {s : Standing κ} (b : Brief σ β) (hs : s.Sound)
    (hpoint : s.point.stage < 5) {id : Nat}
    (hid : s.point.stage = 4 ∨ id ∈ s.primary.active) : ∃ r, s.request b id = some r := by
  by_cases hlt : s.point.stage < 4
  · obtain ⟨c, hc⟩ := Point.phase_of_stage hlt
    obtain ⟨r, hr, -⟩ := request_of_mem (b := b) hs hc (hid.resolve_left (by omega))
    exact ⟨r, hr⟩
  · exact ⟨.fin, request_fin (by omega) id⟩

theorem Within.request_of_queued {seat : Seat κ} {request : Option (Request Document)}
    {desk : Desk κ} {r : Request Document} (h : Within execute seat request desk)
    (hcall : desk.call = .queued r) : request = some r := by
  cases h with
  | idle | sent | answered => cases hcall
  | queued => rw [Call.queued.inj hcall]

/-- In a round that is over every request was on its way. -/
theorem Within.begun {seat : Seat κ} {r : Request Document} {desk : Desk κ}
    (h : Within execute seat (some r) desk) (hdone : desk.call.isDone = true) :
    desk.call.begun = true := by
  cases h with
  | queued => cases hdone
  | sent | answered => rfl

theorem begun_ofRequest (request : Option (Request Document)) :
    (Call.ofRequest request).begun = false := by
  cases request <;> rfl

theorem Scene.mem_responses {c : Scene κ} {id : Nat} {desk : Desk κ} {x : Response}
    (hdesk : c.desks[id]? = some desk) (hx : desk.call.answer? = some x) :
    (id, x) ∈ c.responses := by
  rw [Scene.responses, List.mem_filterMap]
  exact ⟨(desk, id), List.mk_mem_zipIdx_iff_getElem?.mpr hdesk, by simp [hx]⟩

/-! ### One secondary -/

section Issued

variable {s : Standing κ} {id : Nat} {commands : List Command}

theorem Issued.start (b : Brief σ β) {p : Primary κ} (hid : id ∈ p.active) :
    Issued ⟨b.opening, p⟩ id false [] where
  taking hstage _ := by
    unfold Brief.opening at hstage ⊢
    split at hstage
    · rename_i hadapter
      rw [if_pos hadapter]
      rfl
    · exact absurd hstage (Nat.lt_irrefl 4)
  resting _ _ := ⟨0, rfl⟩
  closing _ := ⟨0, rfl⟩
  closed hstage := by
    unfold Brief.opening at hstage
    split at hstage <;> cases hstage
  first _ := hid
  broken hcrash := by
    unfold Brief.opening at hcrash
    split at hcrash <;> cases hcrash

/-- The request of the round begins its way. -/
theorem Issued.sent (h : Issued s id false commands) (hs : s.Sound) {r : Request Document}
    (hr : s.request b id = some r) : Issued s id true (commands ++ [r.command]) := by
  obtain ⟨hcommand, ⟨hlt, hid, hfin⟩ | ⟨hfour, rfl⟩⟩ := Standing.request_eq_some hs hr
  · refine ⟨fun _ _ => ?_, fun _ hid' => absurd hid hid', fun hstage => ?_, fun hstage => ?_,
      h.first, fun hcrash => ?_⟩
    · rw [h.taking hlt hid, ← hcommand]
      exact (Command.take_phases_succ hfin).symm
    · omega
    · omega
    · exact absurd hcrash (Point.ne_ended (by omega) _)
  · refine ⟨fun hstage => ?_, fun hstage => ?_, fun _ => ?_, fun hstage => ?_, h.first,
      fun hcrash => ?_⟩
    · omega
    · omega
    · obtain ⟨n, hn⟩ := h.closing hfour
      exact ⟨n, by rw [hn]; simp [Request.command]⟩
    · omega
    · exact absurd hcrash (Point.ne_ended (by omega) _)

/-- The next round begins; whoever had a request in this one has been sent it. -/
theorem Issued.turned {begun : Bool} (h : Issued s id begun commands)
    {responses : List (Nat × Response)} {p : Primary κ} (hactive : p.active = s.primary.active)
    (hstage : s.point.stage < 5)
    (hbegun : s.point.stage = 4 ∨ id ∈ s.primary.active → begun = true) :
    Issued (turn b s.point responses p) id false commands := by
  by_cases hcrash : (turn b s.point responses p).point = .ended (.error .crash)
  · -- Only a run that was to prepare everyone breaks down.
    have hprepare : s.point = .prepare := by
      by_contra hpoint
      exact turn_ne_crash hpoint (Point.ne_ended hstage _) responses p hcrash
    have hid := h.first hprepare
    have hone := h.taking (by rw [hprepare]; decide) hid
    rw [hprepare, hbegun (.inr hid)] at hone
    have hlast : (turn b s.point responses p).point.stage = 5 := by
      rw [hcrash]
      rfl
    exact ⟨fun _ => by omega, fun _ => by omega, fun _ => by omega,
      fun _ hnot => absurd hcrash hnot, fun hopen => absurd hopen (turn_ne_prepare b _ _ _),
      fun _ => hone⟩
  have hnext := stage_turn_of_ne_crash b hstage hcrash
  refine ⟨fun hlt hid => ?_, fun hlt hid => ?_, fun hfin => ?_, fun hended _ => ?_,
    fun hopen => absurd hopen (turn_ne_prepare b _ _ _), fun hended => absurd hended hcrash⟩
  · obtain ⟨c, hc⟩ : ∃ c, s.point.phase? = some c := Point.phase_of_stage (by omega)
    have hid' : id ∈ s.primary.active := hactive ▸ (mem_active_turn hc hlt hid).1
    have hsucc : (turn b s.point responses p).point.stage = s.point.stage + 1 := by omega
    rw [h.taking (by omega) hid', hbegun (.inr hid'), hsucc]
    rfl
  · exact h.of_phase (by omega)
  · obtain ⟨n, hn⟩ := h.of_phase (by omega)
    exact ⟨n, by rw [hn]; simp⟩
  · have hlast : s.point.stage = 4 := by omega
    obtain ⟨n, hn⟩ := h.closing hlast
    rw [hbegun (.inl hlast)] at hn
    exact ⟨n, hn⟩

end Issued

/-- One more event. -/
theorem pairwise_stops_append {id : Nat} {h : List Event} {e : Event} (hstops : h.Pairwise (Stops id))
    (he : ∀ r fault, .answered id r (.error fault) ∈ h → ∀ r', e = .sent id r' → r' = .fin) :
    (h ++ [e]).Pairwise (Stops id) := by
  refine List.pairwise_append.mpr ⟨hstops, List.pairwise_singleton _ _, ?_⟩
  rintro before hbefore later hlater r fault rfl r' rfl
  exact he r fault hbefore r' (List.mem_singleton.mp hlater).symm

namespace Conduct

variable {s : Standing κ} {h : List Event} {id : Nat} {call : Call}

theorem start (b : Brief σ β) {p : Primary κ} (hid : id ∈ p.active) :
    Conduct ⟨b.opening, p⟩ [] id (.ofRequest (Standing.request b ⟨b.opening, p⟩ id)) where
  issued := by
    rw [begun_ofRequest]
    exact .start b hid
  failed _ _ _ _ hmem := by cases hmem
  stops := .nil

/-- Events of others are of no account. -/
theorem other (hconduct : Conduct s h id call) {e : Event}
    (hsent : ∀ r, e ≠ .sent id r) (hanswered : ∀ r x, e ≠ .answered id r x) :
    Conduct s (h ++ [e]) id call where
  issued := by
    have hcommands : commandsTo id (h ++ [e]) = commandsTo id h := by
      cases e with
      | sent id' r => exact commandsTo_other (fun hid => hsent r (by rw [hid])) h r
      | answered id' r x => exact commandsTo_answered id id' h r x
    rw [hcommands]
    exact hconduct.issued
  failed hstage hid r fault hmem := by
    rcases List.mem_append.mp hmem with hmem | hmem
    · exact hconduct.failed hstage hid r fault hmem
    · exact absurd (List.mem_singleton.mp hmem).symm (hanswered r _)
  stops := pairwise_stops_append hconduct.stops fun _ _ _ r' hr' => absurd hr' (hsent r')

theorem sent (hconduct : Conduct s h id call) (hs : s.Sound) {r : Request Document}
    (hcall : call = .queued r) (hr : s.request b id = some r) :
    Conduct s (h ++ [.sent id r]) id (.sent r) := by
  subst hcall
  -- Nobody who has still something before him in a phase has failed before.
  have hnone (hstage : s.point.stage < 4) (hid : id ∈ s.primary.active) (r' : Request Document)
      (fault : LinkFault) : .answered id r' (.error fault) ∉ h :=
    fun hmem => by cases hconduct.failed hstage hid r' fault hmem
  refine ⟨?_, fun hstage hid r' fault hmem => ?_, ?_⟩
  · rw [commandsTo_sent]
    exact hconduct.issued.sent hs hr
  · rcases List.mem_append.mp hmem with hmem | hmem
    · exact absurd hmem (hnone hstage hid r' fault)
    · cases List.mem_singleton.mp hmem
  · refine pairwise_stops_append hconduct.stops fun r' fault hmem r'' hr'' => ?_
    obtain rfl : r = r'' := (Event.sent.inj hr'').2
    obtain ⟨-, ⟨hstage, hid, -⟩ | ⟨-, hfin⟩⟩ := Standing.request_eq_some hs hr
    · exact absurd hmem (hnone hstage hid r' fault)
    · exact hfin

theorem answered (hconduct : Conduct s h id call) {r : Request Document} (hcall : call = .sent r)
    (x : Response) : Conduct s (h ++ [.answered id r x]) id (.answered r x) := by
  subst hcall
  refine ⟨?_, fun hstage hid r' fault hmem => ?_, ?_⟩
  · rw [commandsTo_answered]
    exact hconduct.issued
  · rcases List.mem_append.mp hmem with hmem | hmem
    · cases hconduct.failed hstage hid r' fault hmem
    · cases List.mem_singleton.mp hmem
      rfl
  · exact pairwise_stops_append hconduct.stops fun _ _ _ _ h => by cases h

/-- A new round begins. -/
theorem turned (hconduct : Conduct s h id call) {responses : List (Nat × Response)}
    {p : Primary κ} (hactive : p.active = s.primary.active) (hstage : s.point.stage < 5)
    (hbegun : s.point.stage = 4 ∨ id ∈ s.primary.active → call.begun = true)
    (hanswered : ∀ r x, call = .answered r x → (id, x) ∈ responses)
    (request : Option (Request Document)) :
    Conduct (turn b s.point responses p) h id (.ofRequest request) where
  issued := by
    rw [begun_ofRequest]
    exact hconduct.issued.turned hactive hstage hbegun
  failed hlt hid r fault hfault := by
    have hnext := stage_turn_of_ne_crash b hstage (Point.ne_ended (Nat.lt_succ_of_lt hlt) _)
    obtain ⟨c, hc⟩ : ∃ c, s.point.phase? = some c := Point.phase_of_stage (by omega)
    obtain ⟨hid', hgood⟩ := mem_active_turn hc hlt hid
    have hcall := hconduct.failed (by omega) (hactive ▸ hid') r fault hfault
    exact absurd (hanswered r _ hcall) (hgood fault)
  stops := hconduct.stops

end Conduct

/-! ### All secondaries -/

/-- Before a request is sent, all requests of earlier phases are answered, whoever had them. -/
def Barrier (h : List Event) : Prop :=
  ∀ before id r, before ++ [.sent id r] <+: h → ∀ id' r', .sent id' r' ∈ h →
    r'.command.stage < r.command.stage → ∃ x, .answered id' r' x ∈ before

/-- A request is sent when no later phase has begun and those before it are answered. -/
theorem Barrier.sent {h : List Event} (hbarrier : Barrier h) {r : Request Document}
    (hreached : ∀ id' r', .sent id' r' ∈ h → r'.command.stage ≤ r.command.stage)
    (hanswered : ∀ id' r', .sent id' r' ∈ h → r'.command.stage < r.command.stage →
      ∃ x, .answered id' r' x ∈ h) (id : Nat) : Barrier (h ++ [.sent id r]) := by
  intro before id' r' hprefix id'' r'' hmem hlt
  rcases List.prefix_concat_iff.mp hprefix with heq | hold
  · obtain ⟨rfl, hsent⟩ := List.append_inj' heq rfl
    obtain ⟨rfl, rfl⟩ := Event.sent.inj (List.cons.inj hsent).1
    rcases List.mem_append.mp hmem with hmem | hmem
    · exact hanswered id'' r'' hmem hlt
    · cases List.mem_singleton.mp hmem
      omega
  · rcases List.mem_append.mp hmem with hmem | hmem
    · exact hbarrier before id' r' hold id'' r'' hmem hlt
    · cases List.mem_singleton.mp hmem
      have hle := hreached id' r' (hold.subset (List.mem_append_right _ (.head _)))
      omega

theorem Barrier.answered {h : List Event} (hbarrier : Barrier h) (id : Nat) (r : Request Document)
    (x : Response) : Barrier (h ++ [.answered id r x]) := by
  intro before id' r' hprefix id'' r'' hmem hlt
  rcases List.prefix_concat_iff.mp hprefix with heq | hold
  · cases (List.cons.inj (List.append_inj' heq rfl).2).1
  · rcases List.mem_append.mp hmem with hmem | hmem
    · exact hbarrier before id' r' hold id'' r'' hmem hlt
    · cases List.mem_singleton.mp hmem

/-- What holds of a scene of a run and of the events that have led to it. -/
structure Orderly (execute : Executor κ) (b : Brief σ β) (s : Standing κ) (h : List Event)
    (c : Scene κ) : Prop extends Amid execute b s c where
  sound : s.Sound
  conduct : ∀ (id : Nat) (desk : Desk κ), c.desks[id]? = some desk → Conduct s h id desk.call
  reached : ∀ id r, .sent id r ∈ h → r.command.stage ≤ s.point.stage
  /-- Only requests of this round are without an answer. -/
  underway : ∀ id r, .sent id r ∈ h → (∃ x, .answered id r x ∈ h) ∨
    r.command.stage = s.point.stage ∧ ∃ desk, c.desks[id]? = some desk ∧ desk.call = .sent r
  barrier : Barrier h

namespace Orderly

variable {s : Standing κ} {h : List Event} {c : Scene κ}

theorem start (execute : Executor κ) (b : Brief σ β) (links : List κ) :
    Orderly execute b ⟨b.opening, ofLinks links⟩ []
      (Standing.scene b ⟨b.opening, ofLinks links⟩) where
  toAmid := .scene execute b _
  sound := b.sound_opening _
  conduct id desk hdesk := by
    obtain ⟨seat, hseat, rfl⟩ := Standing.scene_desk hdesk
    exact .start b (mem_active.mpr
      ⟨seat, hseat, everyone_ofLinks links seat (List.mem_of_getElem? hseat)⟩)
  reached _ _ hmem := by cases hmem
  underway _ _ hmem := by cases hmem
  barrier _ _ _ _ _ _ hmem := by cases hmem

/-- A step on one link keeps what is under way on the others. -/
theorem underway_set (ho : Orderly execute b s h c) {id : Nat} {desk : Desk κ}
    (hdesk : c.desks[id]? = some desk) (desk' : Desk κ) {id' : Nat} {r' : Request Document}
    (hmem : .sent id' r' ∈ h) : (∃ x, .answered id' r' x ∈ h) ∨
      id' = id ∧ desk.call = .sent r' ∨
      r'.command.stage = s.point.stage ∧
        ∃ desk, (c.desks.set id desk')[id']? = some desk ∧ desk.call = .sent r' := by
  rcases ho.underway id' r' hmem with hx | ⟨hstage, desk'', hdesk'', hcall⟩
  · exact .inl hx
  · by_cases hid : id' = id
    · subst hid
      obtain rfl := Option.some.inj (hdesk.symm.trans hdesk'')
      exact .inr (.inl ⟨rfl, hcall⟩)
    · exact .inr (.inr ⟨hstage, desk'', by rw [List.getElem?_set_ne (Ne.symm hid), hdesk''], hcall⟩)

theorem send (ho : Orderly execute b s h c) {id : Nat} {desk : Desk κ} {r : Request Document}
    (hdesk : c.desks[id]? = some desk) (hcall : desk.call = .queued r) :
    Orderly execute b s (h ++ [.sent id r]) (c.send id desk r) := by
  obtain ⟨seat, -, hwithin⟩ := ho.seat hdesk
  have hr := hwithin.request_of_queued hcall
  have hstage := (Standing.request_eq_some ho.sound hr).1
  refine
    { toAmid := ho.set hdesk fun _ hwithin => hwithin.send hcall
      sound := ho.sound
      conduct := ?conduct, reached := ?reached, underway := ?underway, barrier := ?barrier }
  case conduct =>
    intro id' desk' hdesk'
    rcases desk_set_cases hdesk' with ⟨rfl, rfl⟩ | ⟨hne, hold⟩
    · exact (ho.conduct id' desk hdesk).sent ho.sound hcall hr
    · exact (ho.conduct id' desk' hold).other (by rintro r' ⟨⟩; exact hne rfl) nofun
  case reached =>
    intro id' r' hmem
    rcases List.mem_append.mp hmem with hmem | hmem
    · exact ho.reached id' r' hmem
    · cases List.mem_singleton.mp hmem
      exact Nat.le_of_eq hstage
  case underway =>
    intro id' r' hmem
    rcases List.mem_append.mp hmem with hmem | hmem
    · rcases ho.underway_set hdesk { desk with call := .sent r } hmem with
        ⟨x, hx⟩ | ⟨-, hsent⟩ | hopen
      · exact .inl ⟨x, List.mem_append_left _ hx⟩
      · rw [hcall] at hsent
        cases hsent
      · exact .inr hopen
    · cases List.mem_singleton.mp hmem
      have hid := (List.getElem?_eq_some_iff.mp hdesk).1
      exact .inr ⟨hstage, _, List.getElem?_set_self hid, rfl⟩
  case barrier =>
    refine ho.barrier.sent (fun id' r' hmem => ?_) (fun id' r' hmem hlt => ?_) id
    · exact hstage ▸ ho.reached id' r' hmem
    · -- Whatever is not answered belongs to the phase of the new request.
      rcases ho.underway id' r' hmem with hx | ⟨hstage', -⟩
      · exact hx
      · omega

theorem answer (ho : Orderly execute b s h c) {id : Nat} {desk : Desk κ} {r : Request Document}
    {x : Response} {link : κ} (hdesk : c.desks[id]? = some desk) (hcall : desk.call = .sent r)
    (hx : execute r desk.seat.link = (x, link)) :
    Orderly execute b s (h ++ [.answered id r x]) (c.answer id desk r x link) := by
  refine
    { toAmid := ho.set hdesk fun _ hwithin => hwithin.answer hcall hx
      sound := ho.sound
      conduct := ?conduct, reached := ?reached, underway := ?underway
      barrier := ho.barrier.answered id r x }
  case conduct =>
    intro id' desk' hdesk'
    rcases desk_set_cases hdesk' with ⟨rfl, rfl⟩ | ⟨hne, hold⟩
    · exact (ho.conduct id' desk hdesk).answered hcall x
    · exact (ho.conduct id' desk' hold).other nofun (by rintro r' x' ⟨⟩; exact hne rfl)
  case reached =>
    intro id' r' hmem
    rcases List.mem_append.mp hmem with hmem | hmem
    · exact ho.reached id' r' hmem
    · cases List.mem_singleton.mp hmem
  case underway =>
    intro id' r' hmem
    rcases List.mem_append.mp hmem with hmem | hmem
    · rcases ho.underway_set hdesk ⟨{ desk.seat with link }, .answered r x⟩ hmem with
        ⟨y, hy⟩ | ⟨rfl, hsent⟩ | hopen
      · exact .inl ⟨y, List.mem_append_left _ hy⟩
      · obtain rfl := Call.sent.inj (hcall.symm.trans hsent)
        exact .inl ⟨x, List.mem_append_right _ (.head _)⟩
      · exact .inr hopen
    · cases List.mem_singleton.mp hmem

theorem turn (ho : Orderly execute b s h c) (hdone : ∀ desk ∈ c.desks, desk.call.isDone = true)
    (hpoint : c.point.stage < 5) :
    Orderly execute b (advance execute b s) h ((turn b c.point c.responses c.primary).scene b) := by
  have hasked := ho.asked hdone
  have hactive : c.primary.active = s.primary.active := by
    have hfan : (s.asked execute b).2.active = s.primary.active := active_fanOut _ _
    rwa [hasked] at hfan
  have hsize : (Primary.turn b s.point c.responses c.primary).primary.size = s.primary.size := by
    rw [size_turn, size_primary, ho.size]
  have hadvance : advance execute b s = Primary.turn b s.point c.responses c.primary := by
    rw [advance, hasked]
  rw [ho.point] at hpoint ⊢
  have hstage := stage_lt_turn b hpoint c.responses c.primary
  rw [hadvance]
  refine
    { toAmid := .scene execute b _
      sound := ho.sound.turn c.responses c.primary
      conduct := ?conduct, reached := ?reached, underway := ?underway
      barrier := ho.barrier }
  case conduct =>
    intro id desk' hdesk'
    obtain ⟨seat', hseat', rfl⟩ := Standing.scene_desk hdesk'
    have hid : id < c.desks.length := by
      rw [ho.size, ← hsize]
      exact (List.getElem?_eq_some_iff.mp hseat').1
    have hdesk := List.getElem?_eq_getElem hid
    generalize c.desks[id] = desk at hdesk
    have hdeskdone := hdone desk (List.mem_of_getElem? hdesk)
    obtain ⟨seat, -, hwithin⟩ := ho.seat hdesk
    refine (ho.conduct id desk hdesk).turned hactive hpoint (fun hasked => ?_)
      (fun r x hcall => Scene.mem_responses hdesk (by rw [hcall]; rfl)) _
    obtain ⟨r, hr⟩ := Standing.exists_request b ho.sound hpoint hasked
    rw [hr] at hwithin
    exact hwithin.begun hdeskdone
  case reached =>
    intro id r hmem
    have hreached := ho.reached id r hmem
    omega
  case underway =>
    intro id r hmem
    rcases ho.underway id r hmem with hx | ⟨-, desk, hdesk, hcall⟩
    · exact .inl hx
    · have hdone := hdone desk (List.mem_of_getElem? hdesk)
      rw [hcall] at hdone
      cases hdone

end Orderly

theorem History.exists_orderly {links : List κ} {h : List Event} {c : Scene κ}
    (hc : History execute b (Standing.scene b ⟨b.opening, ofLinks links⟩) h c) :
    ∃ s, Orderly execute b s h c := by
  induction hc with
  | nil => exact ⟨_, .start execute b links⟩
  | snoc _ hstep ih =>
    obtain ⟨s, ho⟩ := ih
    cases hstep with
    | send hdesk hcall => exact ⟨s, ho.send hdesk hcall⟩
    | answer hdesk hcall hx => exact ⟨s, ho.answer hdesk hcall hx⟩
    | turn hdone hpoint =>
      rw [List.append_nil]
      exact ⟨_, ho.turn hdone hpoint⟩

/-! ### Whole runs -/

/-- What holds of a run with links to secondaries, when some events have led to a scene. -/
structure Disciplined (execute : Executor κ) (b : Brief σ β) (links : List κ) (h : List Event)
    (c : Scene κ) : Prop where
  /-- Each is sent the requests of the first phases, in their order, and then perhaps the last. -/
  commands : ∀ id < links.length, ∃ n, commandsTo id h = Command.phases.take n ∨
    commandsTo id h = Command.phases.take n ++ [.fin]
  /-- Whoever has failed a request is sent none but the last. -/
  stops : ∀ id < links.length, h.Pairwise (Stops id)
  /-- No request is sent before all requests of earlier phases are answered. -/
  barrier : Barrier h
  /-- At the end everyone was sent the last request, once, unless the run has broken down. -/
  ended : ∀ outcome, c.point = .ended outcome → outcome ≠ .error .crash →
    ∀ id < links.length, ∃ n, commandsTo id h = Command.phases.take n ++ [.fin]
  /-- If it has, everyone was sent the first request and nothing else. -/
  broken : c.point = .ended (.error .crash) → ∀ id < links.length, commandsTo id h = [.prepare]
  /-- The outcome is that of the run. A run breaks down if somebody is left to plan for but the
  schedule cannot be made, and only then. -/
  outcome : ∀ outcome, c.point = .ended outcome →
    (outcome, c.primary) = b.run execute (ofLinks links) ∧
      (outcome = .error .crash ↔ b.Begins execute links ∧ b.Unplannable)
  /-- The schedule of an accepted benchmark can be made if there is room for it, -/
  room : b.benchmark.validate = .ok () → b.benchmark.Fits → ¬ b.Unplannable
  /-- and only then, if the builder can do what it is asked for and does it. -/
  noRoom : b.benchmark.validate = .ok () → ¬ b.benchmark.Fits →
    ∀ (adapter : Adapter σ β) (builder : Builder β) (state : β) (holds : β → List ℕ → List ℕ → Prop)
      (writes : Transaction → Bytes → Prop), b.registry.find? b.setup.ledger = some adapter →
      adapter.builder b.setup.parameters b.campaign.environment b.setup.endpoints =
        .ok (builder, state) →
      builder.Serves holds writes (fun _ => False) → builder.Supports b.benchmark →
      holds state [] [] → b.Unplannable
  /-- Whatever has happened, the end is reached, and no run ends for a wrong number of shards. -/
  ends : ∃ later last outcome,
    History execute b (Standing.scene b ⟨b.opening, ofLinks links⟩) (h ++ later) last ∧
      last.point = .ended outcome ∧ ∀ wrong, outcome ≠ .error (.fault (.shardCount wrong))

/-- **The discipline of a primary**, whatever the secondaries answer and in whatever order. -/
theorem disciplined_of_history {links : List κ} {h : List Event} {c : Scene κ}
    (hc : History execute b (Standing.scene b ⟨b.opening, ofLinks links⟩) h c) :
    Disciplined execute b links h c := by
  obtain ⟨s, ho⟩ := hc.exists_orderly
  have hdesk (id : Nat) (hid : id < links.length) : ∃ desk, c.desks[id]? = some desk := by
    have hlength := hc.length_desks
    rw [length_desks_scene, size_ofLinks] at hlength
    exact ⟨_, List.getElem?_eq_getElem (hlength ▸ hid)⟩
  refine
    { commands := fun id hid => ?commands, stops := fun id hid => ?stops, barrier := ho.barrier
      ended := fun outcome hended hwell id hid => ?ended
      broken := fun hcrash id hid => ?broken, outcome := fun outcome hended => ?outcome
      room := Brief.not_unplannable
      noRoom := fun hvalid hnot _ _ _ _ _ hadapter hbuilder hserves hsupports h =>
        Brief.unplannable_of_willing hadapter hbuilder hserves hsupports h hvalid hnot
      ends := ?ends }
  case commands =>
    obtain ⟨desk, hdesk⟩ := hdesk id hid
    exact (ho.conduct id desk hdesk).issued.cases
  case stops =>
    obtain ⟨desk, hdesk⟩ := hdesk id hid
    exact (ho.conduct id desk hdesk).stops
  case ended =>
    obtain ⟨desk, hdesk⟩ := hdesk id hid
    have hpoint : s.point = .ended outcome := ho.point.symm.trans hended
    refine (ho.conduct id desk hdesk).issued.closed (by rw [hpoint]; rfl) fun hcrash => hwell ?_
    exact Point.ended.inj (hpoint.symm.trans hcrash)
  case broken =>
    obtain ⟨desk, hdesk⟩ := hdesk id hid
    exact (ho.conduct id desk hdesk).issued.broken (ho.point.symm.trans hcrash)
  case outcome =>
    have hrun := ended_of_history hc hended
    refine ⟨hrun, ?_⟩
    rw [← b.run_crash_iff execute links, ← hrun]
  case ends =>
    obtain ⟨later, last, outcome, hlast, hended⟩ := hc.ends
    refine ⟨later, last, outcome, hlast, hended, fun wrong hwrong => ?_⟩
    have hrun := congrArg Prod.fst (ended_of_history hlast hended)
    exact b.run_ne_shardCount (ofLinks links) wrong (hrun.symm.trans hwrong)

end Primary

namespace Idle

/-- A run on a ledger on which nothing happens. -/
def brief (policy : FaultPolicy) : Primary.Brief Unit Unit :=
  ⟨registry, setup, benchmark, { Campaign.usual 2 with policy }⟩

/-- A run of a benchmark that is accepted but cannot be planned. -/
def lateBrief : Primary.Brief Unit Unit := { brief .abort with benchmark := late }

/-- Secondaries that are there, with nothing to tell, or not. -/
def presence : Executor Bool := fun _ there =>
  (if there then .ok none else .error .disconnected, there)

end Idle

namespace Primary

/-- Two secondaries, of which the second is not there. It is found out about first, but the other
one still answers before both are sent the last request. -/
theorem disciplined_of_history_absent : ∃ h c,
    History Idle.presence (Idle.brief .abort)
      (Standing.scene (Idle.brief .abort) ⟨(Idle.brief .abort).opening, ofLinks [true, false]⟩) h c ∧
    c.point = .ended (.error (.fault (.phaseFailed .prepare [⟨1, .prepare, .disconnected⟩]))) ∧
    commandsTo 0 h = [.prepare, .fin] ∧ commandsTo 1 h = [.prepare, .fin] ∧
    Disciplined Idle.presence (Idle.brief .abort) [true, false] h c := by
  have hprepared : History Idle.presence (Idle.brief .abort)
      (Standing.scene (Idle.brief .abort) ⟨(Idle.brief .abort).opening, ofLinks [true, false]⟩)
      [.sent 1 .prepare, .sent 0 .prepare, .answered 1 .prepare (.error .disconnected),
        .answered 0 .prepare (.ok none)] _ :=
    (((History.nil.snoc (.send rfl rfl)).snoc (.send rfl rfl)).snoc (.answer rfl rfl rfl)).snoc
      (.answer rfl rfl rfl)
  have hdecided : History Idle.presence (Idle.brief .abort)
      (Standing.scene (Idle.brief .abort) ⟨(Idle.brief .abort).opening, ofLinks [true, false]⟩)
      [.sent 1 .prepare, .sent 0 .prepare, .answered 1 .prepare (.error .disconnected),
        .answered 0 .prepare (.ok none)]
      ⟨.fin (.error (.phaseFailed .prepare [⟨1, .prepare, .disconnected⟩])),
        [⟨⟨true, true⟩, .queued .fin⟩, ⟨⟨false, true⟩, .queued .fin⟩]⟩ :=
    hprepared.snoc (.turn (by decide) (by decide))
  have hclosed : History Idle.presence (Idle.brief .abort)
      (Standing.scene (Idle.brief .abort) ⟨(Idle.brief .abort).opening, ofLinks [true, false]⟩)
      [.sent 1 .prepare, .sent 0 .prepare, .answered 1 .prepare (.error .disconnected),
        .answered 0 .prepare (.ok none), .sent 0 .fin, .sent 1 .fin,
        .answered 1 .fin (.error .disconnected), .answered 0 .fin (.ok none)] _ :=
    (((hdecided.snoc (.send (by rfl) (by rfl))).snoc (.send (by rfl) (by rfl))).snoc
      (.answer (by rfl) (by rfl) (by rfl))).snoc (.answer (by rfl) (by rfl) (by rfl))
  have hended := hclosed.snoc (.turn (by decide) (by decide))
  exact ⟨_, _, hended, rfl, rfl, rfl, disciplined_of_history hended⟩

/-- **A run without the last request**: the benchmark is accepted and the secondary is there, but
planning breaks down, and the secondary has been sent the first request and nothing else. -/
theorem history_late : Idle.late.validate = .ok () ∧ ∃ h c,
    History Idle.presence Idle.lateBrief
      (Standing.scene Idle.lateBrief ⟨Idle.lateBrief.opening, ofLinks [true]⟩) h c ∧
    c.point = .ended (.error .crash) ∧ commandsTo 0 h = [.prepare] := by
  have hvalid : Idle.late.validate = .ok () := rfl
  have hadapter : Idle.lateBrief.registry.find? Idle.lateBrief.setup.ledger = some Idle.adapter :=
    rfl
  have hplanned : Idle.lateBrief.planned 1 = .ended (.error .crash) :=
    Brief.planned_eq_crash.mpr ⟨Nat.one_pos, Brief.unplannable_of_willing hadapter rfl Idle.serves
      (Idle.supports _) trivial hvalid Idle.not_fits_late⟩
  have hprepared : History Idle.presence Idle.lateBrief
      (Standing.scene Idle.lateBrief ⟨Idle.lateBrief.opening, ofLinks [true]⟩)
      [.sent 0 .prepare, .answered 0 .prepare (.ok none)] _ :=
    (History.nil.snoc (.send rfl rfl)).snoc (.answer rfl rfl rfl)
  have hturn : turn Idle.lateBrief .prepare [(0, .ok none)] (ofLinks [true]) =
      ⟨.ended (.error .crash), ofLinks [true]⟩ := by
    rw [turn_of_phase rfl]
    show Standing.mk (Idle.lateBrief.planned 1) (ofLinks [true]) = _
    rw [hplanned]
  have hended : History Idle.presence Idle.lateBrief
      (Standing.scene Idle.lateBrief ⟨Idle.lateBrief.opening, ofLinks [true]⟩)
      [.sent 0 .prepare, .answered 0 .prepare (.ok none)]
      ((turn Idle.lateBrief .prepare [(0, .ok none)] (ofLinks [true])).scene Idle.lateBrief) :=
    hprepared.snoc (.turn (by decide) (by decide))
  rw [hturn] at hended
  exact ⟨hvalid, _, _, hended, rfl, rfl⟩

end Primary

end LedgerLoad
