import LedgerLoad.Proofs.Results.Length
import LedgerLoad.Proofs.Secondary.Calls
import LedgerLoad.Proofs.Wire.Stream
import Mathlib.Data.List.Forall2

/-! # Sessions, frame by frame

What a session makes of requests that are there already is what the secondary makes of calls one
after another; only the results of a run take time (`Secondary.calls`). `Session.At` says where a
session stands, and `Session.proceed_frames` that it answers frame after frame. Main statement:
`Secondary.serve_stream`, on any octets whatever a secondary writes one whole reply for each frame,
in their order, and ends as the tail says. -/

namespace LedgerLoad

variable {σ β : Type}

namespace Secondary

/-- The moment at which a request is answered: results wait for the lanes. -/
def momentOf (clock : Duration) (stage : Stage σ) : Received → Duration
  | .results =>
    match stage with
    | .running crew => clock.latest crew.finish.pool.clock
    | _ => clock
  | _ => clock

/-- Requests that are there already, as calls: each is answered as soon as it can be. -/
def calls (s : Secondary σ β) (clock : Duration) (stage : Stage σ) : List Received → List Call
  | [] => []
  | r :: rs =>
    ⟨momentOf clock stage r, r⟩ ::
      s.calls (momentOf clock stage r) (s.answer (momentOf clock stage r) stage r).2 rs

/-- The moment at which the last of some requests was answered. -/
def momentAfter (s : Secondary σ β) (clock : Duration) (stage : Stage σ) : List Received → Duration
  | [] => clock
  | r :: rs =>
    s.momentAfter (momentOf clock stage r) (s.answer (momentOf clock stage r) stage r).2 rs

/-- The calls to a secondary that serves a stream of frames. -/
def callsOf (s : Secondary σ β) (frames : List (Request Bytes)) : List Call :=
  s.calls .zero .connected (frames.map Request.arrived)

end Secondary

/-! ### Lanes on their way -/

/-- `Ahead clock stage' stage`: the stages are the same, except that lanes at work may have come
further in the first one, up to a moment, on the way to the same ends. -/
inductive Stage.Ahead (clock : Duration) : Stage σ → Stage σ → Prop
  | still {stage : Stage σ} (h : stage.isRunning = false) : Ahead clock stage stage
  | running {crew crew' : Crew σ} (hclock : crew'.pool.clock = clock)
      (hfinish : crew'.finish = crew.finish) : Ahead clock (.running crew') (.running crew)

/-- How far lanes have come shows in no answer. -/
theorem Stage.Ahead.answer {clock : Duration} {stage' stage : Stage σ}
    (h : Ahead clock stage' stage)
    (s : Secondary σ β) (r : Received) : (s.answer clock stage' r).1 = (s.answer clock stage r).1 ∧
      Ahead clock (s.answer clock stage' r).2 (s.answer clock stage r).2 := by
  cases h with
  | still h =>
    refine ⟨rfl, ?_⟩
    rcases s.answer_cases clock _ r with ⟨fault, hanswer⟩ | ⟨a, next, haccepts⟩
    · rw [hanswer]
      exact .still h
    · rw [haccepts.answer_eq]
      cases haccepts with
      | prepare => exact .still rfl
      | workload => exact .still rfl
      | run => exact .running rfl rfl
      | finish => cases h
      | again => exact .still rfl
      | fin => exact .still h
  | @running crew crew' hclock hfinish =>
    cases r with
    | prepare => exact ⟨rfl, .running hclock hfinish⟩
    | workload work => cases work <;> exact ⟨rfl, .running hclock hfinish⟩
    | run => exact ⟨rfl, .running hclock hfinish⟩
    | results =>
      have hresult : crew'.finish.result = crew.finish.result := by rw [hfinish]
      refine ⟨congrArg Answer.result hresult, ?_⟩
      have hnext : (s.answer clock (.running crew') .results).2 =
          (s.answer clock (.running crew) .results).2 := congrArg Stage.finished hresult
      rw [hnext]
      exact .still rfl
    | fin => exact ⟨rfl, .running hclock hfinish⟩

theorem Crew.finish_waitUntil {crew : Crew σ} {clock : Duration} (h : crew.pool.clock = clock) :
    (crew.waitUntil clock).finish = crew.finish ∧ (crew.waitUntil clock).pool.clock = clock := by
  have hle : (crew.pool.run (some clock)).clock ≤ clock :=
    Pool.clock_run_le (h ▸ Duration.le_refl crew.pool.clock)
  have hge : clock ≤ (crew.pool.run (some clock)).clock := h ▸ Pool.clock_le_run _ crew.pool
  have hclock : (crew.pool.run (some clock)).clock = clock :=
    congrArg Duration.mk (Nat.le_antisymm hle hge)
  have hlatest : (crew.pool.run (some clock)).clock.latest clock =
      (crew.pool.run (some clock)).clock := by
    rw [hclock, Duration.latest, Nat.max_self]
  have hwait : crew.waitUntil clock = crew.run (some clock) := by
    simp only [waitUntil, Pool.waitUntil, hlatest]
    rfl
  rw [hwait]
  exact ⟨finish_run _ crew, hclock⟩

namespace Session

/-- Where an open session stands whose answers are taken. -/
structure At (s : Session σ β) (secondary : Secondary σ β) (clock : Duration) (stage : Stage σ)
    (input output : Bytes) : Prop where
  secondary_eq : s.secondary = secondary
  clock_eq : s.clock = clock
  stage_ahead : s.stage.Ahead clock stage
  input_eq : s.input = input
  output_eq : s.output = output
  reachable_eq : s.reachable = true
  ending_eq : s.ending = none

variable {secondary : Secondary σ β} {clock : Duration} {stage : Stage σ} {output : Bytes}

/-! ### One step -/

theorem proceed_of_ending {limit : Option Duration} {s : Session σ β} (h : s.ending.isSome = true) :
    s.proceed limit = s := by
  rw [proceed, if_pos h]

theorem proceed_incomplete {limit : Option Duration} {s : Session σ β} (hending : s.ending = none)
    (h : Incoming.of s.input = .incomplete) : s.proceed limit = s := by
  rw [proceed, if_neg (by simp [hending])]
  split
  · rfl
  · rename_i heq
    cases heq.symm.trans h
  · rename_i heq
    cases heq.symm.trans h

theorem proceed_broken {limit : Option Duration} {s : Session σ β} {fault : WireFault}
    (hending : s.ending = none) (h : Incoming.of s.input = .broken fault) :
    s.proceed limit = { s with input := [], ending := some (.error fault) } := by
  rw [proceed, if_neg (by simp [hending])]
  split
  · rename_i heq
    cases heq.symm.trans h
  · rename_i heq
    rw [Incoming.broken.inj (heq.symm.trans h)]
  · rename_i heq
    cases heq.symm.trans h

theorem proceed_request {limit : Option Duration} {s : Session σ β} {r : Received} {rest : Bytes}
    (hending : s.ending = none) (h : Incoming.of s.input = .request r rest)
    (hready : (s.await limit r).2 = true) :
    s.proceed limit = ((s.await limit r).1.take r rest).proceed limit := by
  rw [proceed, if_neg (by simp [hending])]
  split
  · rename_i heq
    cases heq.symm.trans h
  · rename_i heq
    cases heq.symm.trans h
  · rename_i heq
    obtain ⟨rfl, rfl⟩ := Incoming.request.inj (heq.symm.trans h)
    simp only [hready, if_true]

/-- Without a limit every request is answered at last. -/
theorem await_none (s : Session σ β) (r : Received) : (s.await none r).2 = true := by
  cases r with
  | results =>
    rw [await]
    split
    · exact Pool.ended_drain _
    · rfl
  | _ => rfl

theorem await_still {s : Session σ β} (h : s.stage.isRunning = false) (limit : Option Duration)
    (r : Received) : s.await limit r = (s, true) := by
  cases r with
  | results =>
    rw [await]
    split
    · rename_i hs
      rw [hs] at h
      cases h
    · rfl
  | _ => rfl

theorem momentOf_still (h : stage.isRunning = false) (r : Received) :
    Secondary.momentOf clock stage r = clock := by
  cases stage <;> cases r <;> first | rfl | cases h

theorem at_await {s : Session σ β} {input : Bytes} (h : s.At secondary clock stage input output)
    (r : Received) :
    (s.await none r).1.At secondary (Secondary.momentOf clock stage r) stage input output := by
  obtain ⟨hsecondary, rfl, hstage, hinput, houtput, hreachable, hending⟩ := h
  cases r with
  | results =>
    generalize hs : s.stage = stage' at hstage
    cases hstage with
    | still hstill =>
      rw [momentOf_still hstill, await_still (hs ▸ hstill)]
      refine ⟨hsecondary, rfl, ?_, hinput, houtput, hreachable, hending⟩
      rw [hs]
      exact .still hstill
    | @running crew crew' hclock hfinish =>
      have hle : s.clock ≤ crew'.finish.pool.clock := hclock ▸ Pool.clock_le_run none crew'.pool
      have hmoment : Secondary.momentOf s.clock (.running crew) .results =
          s.clock.latest (crew'.run none).pool.clock := by
        simp only [Secondary.momentOf, ← hfinish]
        rfl
      rw [hmoment]
      simp only [await, hs]
      refine ⟨hsecondary, rfl, .running ?_ ?_, hinput, houtput, hreachable, hending⟩
      · exact (congrArg Duration.mk (Nat.max_eq_right hle)).symm
      · rw [Crew.finish_run, hfinish]
  | _ => exact ⟨hsecondary, rfl, hstage, hinput, houtput, hreachable, hending⟩

theorem at_take {s : Session σ β} {input : Bytes} (h : s.At secondary clock stage input output)
    {r : Received} (hr : r.command ≠ .fin) (rest : Bytes)
    (hfault : (secondary.answer clock stage r).1.write.fault = none) :
    (s.take r rest).At secondary clock (secondary.answer clock stage r).2 rest
      (output ++ (secondary.answer clock stage r).1.write.octets) := by
  obtain ⟨rfl, rfl, hstage, hinput, rfl, hreachable, hending⟩ := h
  obtain ⟨hanswer, hnext⟩ := hstage.answer s.secondary r
  refine ⟨rfl, rfl, hnext, rfl, ?_, hreachable, ?_⟩
  · simp only [take, hreachable, if_true, hanswer]
  · simp only [take, endingAfter, hreachable, hanswer, hfault, if_neg hr]
    rfl

/-- **A session answers the request at the head** of what has arrived, and goes on behind it. -/
theorem proceed_at {s : Session σ β} {input rest : Bytes} {r : Received}
    (h : s.At secondary clock stage input output) (hof : Incoming.of input = .request r rest)
    (hr : r.command ≠ .fin)
    (hfault : (secondary.answer (Secondary.momentOf clock stage r) stage r).1.write.fault = none) :
    ∃ s' : Session σ β, s.proceed none = s'.proceed none ∧
      s'.At secondary (Secondary.momentOf clock stage r)
        (secondary.answer (Secondary.momentOf clock stage r) stage r).2 rest
        (output ++ (secondary.answer (Secondary.momentOf clock stage r) stage r).1.write.octets) :=
  ⟨_, proceed_request h.ending_eq (h.input_eq.symm ▸ hof) (await_none s r),
    at_take (at_await h r) hr rest hfault⟩

/-- A session whose answer cannot be written whole has written the beginning of it, and ends. -/
theorem proceed_cut {s : Session σ β} {input rest : Bytes} {r : Received} {fault : DocumentFault}
    (h : s.At secondary clock stage input output) (hof : Incoming.of input = .request r rest)
    (hr : r.command ≠ .fin)
    (hfault : (secondary.answer (Secondary.momentOf clock stage r) stage r).1.write.fault =
      some fault) :
    (s.proceed none).output =
        output ++ (secondary.answer (Secondary.momentOf clock stage r) stage r).1.write.octets ∧
      (s.proceed none).ending = some (.error (.document fault)) ∧
      (s.proceed none).input = rest := by
  have hawait := at_await h r
  generalize hwaited : (s.await none r).1 = waited at hawait
  obtain ⟨hanswer, -⟩ := hawait.stage_ahead.answer secondary r
  have hending : (waited.take r rest).ending = some (.error (.document fault)) := by
    simp only [take, endingAfter, hawait.reachable_eq, hawait.secondary_eq, hawait.clock_eq, hanswer,
      hfault, if_neg hr]
    rfl
  have hproceed : s.proceed none = waited.take r rest := by
    rw [proceed_request h.ending_eq (h.input_eq.symm ▸ hof) (await_none s r), hwaited]
    exact proceed_of_ending (by rw [hending]; rfl)
  rw [hproceed]
  refine ⟨?_, hending, rfl⟩
  simp only [take, hawait.reachable_eq, if_true, hawait.output_eq, hawait.secondary_eq,
    hawait.clock_eq, hanswer]

/-! ### Frame after frame -/

theorem command_arrived {r : Request Bytes} (h : r.Admissible) : r.arrived.command ≠ .fin := by
  cases r <;> simp_all [Request.arrived, Request.command, Request.Admissible]

/-- **A session answers frame after frame**, and then stands before what follows them. -/
theorem proceed_frames {s : Session σ β} {frames : List (Request Bytes)} {rest : Bytes}
    (hframes : ∀ r ∈ frames, r.Admissible)
    (h : s.At secondary clock stage (frames.flatMap Request.frame ++ rest) output)
    (hfit : ∀ a ∈ secondary.answers stage
      (secondary.calls clock stage (frames.map Request.arrived)),
      a.write.fault = none) :
    ∃ s' : Session σ β, s.proceed none = s'.proceed none ∧
      s'.At secondary (secondary.momentAfter clock stage (frames.map Request.arrived))
        (secondary.after stage (secondary.calls clock stage (frames.map Request.arrived))) rest
        (output ++ (secondary.answers stage
          (secondary.calls clock stage (frames.map Request.arrived))).flatMap
            fun a => a.write.octets) := by
  induction frames generalizing s clock stage output with
  | nil =>
    refine ⟨s, rfl, ?_⟩
    simp only [List.map_nil, Secondary.calls, Secondary.answers, List.flatMap_nil, List.append_nil]
    exact h
  | cons r frames ih =>
    rw [List.flatMap_cons, List.append_assoc] at h
    have hr := hframes r List.mem_cons_self
    obtain ⟨s₁, hproceed, hat⟩ := proceed_at h (Incoming.of_frame hr _) (command_arrived hr)
      (hfit _ List.mem_cons_self)
    obtain ⟨s₂, hproceed', hat'⟩ := ih (fun x hx => hframes x (List.mem_cons_of_mem _ hx)) hat
      (fun a ha => hfit a (List.mem_cons_of_mem _ ha))
    refine ⟨s₂, hproceed.trans hproceed', ?_⟩
    rw [List.append_assoc] at hat'
    exact hat'

/-! ### The tail -/

theorem await_fin (limit : Option Duration) (s : Session σ β) :
    s.await limit .fin = (s, true) := rfl

/-- How a session ends that stands before a tail when its stream ends. -/
theorem close_tail {s s' : Session σ β} {tail : Tail} (htail : tail.Proper)
    (hproceed : s.proceed none = s'.proceed none)
    (h : s'.At secondary clock stage tail.octets output) :
    s.close.output = output ∧ s.close.ending = some tail.ending := by
  have hof := Incoming.of_tail htail
  rw [← h.input_eq] at hof
  rw [close, hproceed]
  cases tail with
  | nothing =>
    rw [proceed_incomplete h.ending_eq hof]
    simp [h.ending_eq, h.input_eq, h.output_eq, Tail.octets, Tail.ending]
  | fin rest =>
    have hending : (s'.take .fin rest).ending = some (.ok ()) := rfl
    have houtput : (s'.take .fin rest).output = output := by
      have hsilent : (s'.take .fin rest).output =
          if s'.reachable then s'.output ++ [] else s'.output := rfl
      rw [hsilent, h.reachable_eq, if_pos rfl, List.append_nil, h.output_eq]
    have hfinal : s'.proceed none = s'.take .fin rest :=
      (proceed_request h.ending_eq hof (await_none s' _)).trans
        (proceed_of_ending (by rw [await_fin, hending]; rfl))
    rw [hfinal]
    simp only [hending, Option.isSome_some, if_true]
    exact ⟨houtput, rfl⟩
  | unknown octet rest =>
    rw [proceed_broken h.ending_eq hof]
    simp [h.output_eq, Tail.ending]
  | tooLong length rest =>
    rw [proceed_broken h.ending_eq hof]
    simp [h.output_eq, Tail.ending]
  | cut piece =>
    rw [proceed_incomplete h.ending_eq hof]
    simp [h.ending_eq, h.input_eq, h.output_eq, Tail.octets, Tail.ending]

theorem at_start (s : Secondary σ β) (input : Bytes) :
    ((start s).arrive input).At s .zero .connected input [] :=
  ⟨rfl, rfl, .still rfl, rfl, rfl, rfl, rfl⟩

end Session

/-! ### Replies -/

/-- `Whole c octets`: the octets are one whole reply to a command. -/
inductive Reply.Whole (c : Command) : Bytes → Prop
  | done (h : c ≠ .results) : Whole c [Reply.ok.octet]
  | result {r : SecondaryResult} {frame : Bytes} (h : c = .results)
      (hframe : Wire.document r.toDocument = .ok frame) : Whole c (Reply.ok.octet :: frame)
  | refused {reason : String} {frame : Bytes}
      (hframe : Wire.document (.ofText reason) = .ok frame) : Whole c (Reply.err.octet :: frame)

theorem Wire.octetThenDocument_fits {octet : UInt8} {d : Document}
    (h : (octetThenDocument octet d).fault = none) :
    ∃ frame, document d = .ok frame ∧ octetThenDocument octet d = ⟨octet :: frame, none⟩ := by
  unfold octetThenDocument at h ⊢
  split at h
  · rename_i frame hframe
    exact ⟨frame, hframe, rfl⟩
  · cases h

/-- A document of moderate length can be written. -/
theorem Wire.octetThenDocument_of_short {octet : UInt8} {d : Document}
    (h : (d.elements.map fun octets => octets.length + 2).sum ≤ 2 ^ 28) :
    (octetThenDocument octet d).fault = none := by
  obtain ⟨body, hbody⟩ := Document.encode_of_short h
  rw [octetThenDocument, document, hbody]
  rfl

theorem Answer.write_refused (fault : CommandFault) :
    (Answer.refused fault).write = Wire.octetThenDocument Reply.err.octet (.ofText fault.message) :=
  rfl

/-- A result that is too long is written as any document that is too long. -/
theorem Answer.write_result (r : SecondaryResult) :
    (Answer.result r).write = Wire.octetThenDocument Reply.ok.octet r.toDocument := by
  rw [write]
  split
  · rename_i hlong
    rw [← r.jsonLength_toDocument] at hlong ⊢
    rw [Wire.octetThenDocument, Wire.document, Document.encode_of_long hlong]
    rfl
  · rfl

/-- An error reply with a reason of moderate length can be written. -/
theorem Answer.fits_refused {fault : CommandFault}
    (h : (Utf8.encode fault.message).length ≤ 2 ^ 20) :
    (Answer.refused fault).write.fault = none := by
  rw [write_refused]
  refine Wire.octetThenDocument_of_short ?_
  simp only [Document.ofText, List.map_cons, List.map_nil, List.sum_cons, List.sum_nil]
  omega

namespace Secondary

variable {s : Secondary σ β}

/-- What is written for an answer is one whole reply. -/
theorem whole_answer {clock : Duration} {stage : Stage σ} {r : Received} (hr : r.command ≠ .fin)
    (hfit : (s.answer clock stage r).1.write.fault = none) :
    Reply.Whole r.command (s.answer clock stage r).1.write.octets := by
  rcases s.answer_cases clock stage r with ⟨fault, hanswer⟩ | ⟨a, next, haccepts⟩
  · rw [hanswer, Answer.write_refused] at hfit
    obtain ⟨frame, hframe, hwrite⟩ := Wire.octetThenDocument_fits hfit
    rw [hanswer, Answer.write_refused, hwrite]
    exact .refused hframe
  · rw [haccepts.answer_eq] at hfit ⊢
    have hresult {result : SecondaryResult} (h : (Answer.result result).write.fault = none) :
        Reply.Whole .results (Answer.result result).write.octets := by
      rw [Answer.write_result] at h ⊢
      obtain ⟨frame, hframe, hwrite⟩ := Wire.octetThenDocument_fits h
      rw [hwrite]
      exact .result rfl hframe
    cases haccepts with
    | prepare => exact .done (by decide)
    | workload => exact .done (by simp [Request.command])
    | run => exact .done (by decide)
    | finish => exact hresult hfit
    | again => exact hresult hfit
    | fin => exact absurd rfl hr

theorem calls_append (s : Secondary σ β) (clock : Duration) (stage : Stage σ)
    (rs rs' : List Received) :
    s.calls clock stage (rs ++ rs') = s.calls clock stage rs ++
      s.calls (s.momentAfter clock stage rs) (s.after stage (s.calls clock stage rs)) rs' := by
  induction rs generalizing clock stage with
  | nil => rfl
  | cons r rs ih => exact congrArg (_ :: ·) (ih _ _)

theorem answers_append (s : Secondary σ β) (stage : Stage σ) (calls calls' : List Call) :
    s.answers stage (calls ++ calls') =
      s.answers stage calls ++ s.answers (s.after stage calls) calls' := by
  induction calls generalizing stage with
  | nil => rfl
  | cons c calls ih => exact congrArg (_ :: ·) (ih _)

theorem length_answers (s : Secondary σ β) (clock : Duration) (stage : Stage σ)
    (rs : List Received) :
    (s.answers stage (s.calls clock stage rs)).length = rs.length := by
  induction rs generalizing clock stage with
  | nil => rfl
  | cons r rs ih => exact congrArg (· + 1) (ih _ _)

/-- What is written for the frames of a stream, frame by frame. -/
def replies (s : Secondary σ β) (frames : List (Request Bytes)) : List Bytes :=
  (s.answers .connected (s.callsOf frames)).map fun a => a.write.octets

theorem whole_calls {frames : List (Request Bytes)} (hframes : ∀ r ∈ frames, r.Admissible)
    (clock : Duration) (stage : Stage σ)
    (hfit : ∀ a ∈ s.answers stage (s.calls clock stage (frames.map Request.arrived)),
      a.write.fault = none) :
    List.Forall₂ (fun r octets => Reply.Whole r.command octets) frames
      ((s.answers stage (s.calls clock stage (frames.map Request.arrived))).map
        fun a => a.write.octets) := by
  induction frames generalizing clock stage with
  | nil => exact .nil
  | cons r frames ih =>
    have hcommand : r.arrived.command = r.command := by cases r <;> rfl
    refine .cons ?_ (ih (fun x hx => hframes x (List.mem_cons_of_mem _ hx)) _ _
      fun a ha => hfit a (List.mem_cons_of_mem _ ha))
    rw [← hcommand]
    exact whole_answer (Session.command_arrived (hframes r List.mem_cons_self))
      (hfit _ List.mem_cons_self)

theorem whole_replies {frames : List (Request Bytes)} (hframes : ∀ r ∈ frames, r.Admissible)
    (hfit : ∀ a ∈ s.answers .connected (s.callsOf frames), a.write.fault = none) :
    List.Forall₂ (fun r octets => Reply.Whole r.command octets) frames (s.replies frames) :=
  whole_calls hframes .zero .connected hfit

/-- **A secondary writes one reply for each frame**, and ends as the tail says. -/
theorem serve_stream {input : Bytes} {frames : List (Request Bytes)} {tail : Tail}
    (h : Stream input frames tail)
    (hfit : ∀ a ∈ s.answers .connected (s.callsOf frames), a.write.fault = none) :
    (s.serve input).output = (s.replies frames).flatten ∧
      (s.serve input).ending = some tail.ending := by
  obtain ⟨rfl, hframes, htail⟩ := h
  obtain ⟨s', hproceed, hat⟩ := Session.proceed_frames hframes (Session.at_start s _) hfit
  rw [List.nil_append] at hat
  have hreplies : (s.replies frames).flatten =
      (s.answers .connected (s.callsOf frames)).flatMap fun a => a.write.octets := by
    rw [replies, List.flatMap_def]
  rw [hreplies]
  exact Session.close_tail htail hproceed hat

/-! ### Bodies that make no sense -/

/-- The stage after the frames of a stream. -/
def stageAfter (s : Secondary σ β) (frames : List (Request Bytes)) : Stage σ :=
  s.after .connected (s.callsOf frames)

/-- The moment at which the last frame of a stream was answered. -/
def clockAfter (s : Secondary σ β) (frames : List (Request Bytes)) : Duration :=
  s.momentAfter .zero .connected (frames.map Request.arrived)

theorem callsOf_append (s : Secondary σ β) (earlier later : List (Request Bytes)) :
    s.callsOf (earlier ++ later) = s.callsOf earlier ++
      s.calls (s.clockAfter earlier) (s.stageAfter earlier) (later.map Request.arrived) := by
  rw [callsOf, List.map_append, calls_append]
  rfl

theorem answer_undecodable (s : Secondary σ β) (clock : Duration) (stage : Stage σ) {body : Bytes}
    {fault : DocumentFault} (h : Document.decode body = .error fault) :
    s.answer clock stage (Request.workload body).arrived =
      (.refused (.malformed fault), stage) := by
  simp only [Request.arrived, h]
  rfl

/-- A body that makes no sense changes nothing. -/
theorem stageAfter_undecodable (s : Secondary σ β) (earlier : List (Request Bytes)) {body : Bytes}
    {fault : DocumentFault} (h : Document.decode body = .error fault) :
    s.stageAfter (earlier ++ [.workload body]) = s.stageAfter earlier := by
  rw [stageAfter, callsOf_append, after_append]
  show (s.answer _ (s.stageAfter earlier) (Request.workload body).arrived).2 = _
  rw [answer_undecodable s _ _ h]

/-- A body that makes no sense is refused, in its turn. -/
theorem replies_undecodable (s : Secondary σ β) (earlier later : List (Request Bytes))
    {body : Bytes} {fault : DocumentFault} (h : Document.decode body = .error fault) :
    (s.replies (earlier ++ .workload body :: later))[earlier.length]? =
      some (Wire.err (CommandFault.malformed fault).message).octets := by
  have hlength : (s.answers .connected (s.callsOf earlier)).length = earlier.length := by
    rw [callsOf, length_answers, List.length_map]
  rw [replies, callsOf_append, answers_append, List.getElem?_map,
    List.getElem?_append_right (by omega), hlength, Nat.sub_self]
  show some (s.answer _ (s.stageAfter earlier) (Request.workload body).arrived).1.write.octets = _
  rw [answer_undecodable s _ _ h]
  rfl

/-! ### Any octets whatever -/

/-- What comes of the octets that a secondary is sent, which are the given frames and tail. -/
structure Served (s : Secondary σ β) (input : Bytes) (frames : List (Request Bytes)) (tail : Tail) :
    Prop where
  stream : Stream input frames tail
  whole : List.Forall₂ (fun r octets => Reply.Whole r.command octets) frames (s.replies frames)
  output : (s.serve input).output = (s.replies frames).flatten
  ending : (s.serve input).ending = some tail.ending
  ending_ok : (s.serve input).ending = some (.ok ()) ↔ tail = .nothing ∨ ∃ rest, tail = .fin rest
  /-- A body that makes no sense is refused and changes nothing. -/
  undecodable : ∀ earlier body later fault, frames = earlier ++ .workload body :: later →
    Document.decode body = .error fault →
      (s.replies frames)[earlier.length]? =
          some (Wire.err (CommandFault.malformed fault).message).octets ∧
        s.stageAfter (earlier ++ [.workload body]) = s.stageAfter earlier
  /-- What stands behind the last request has no influence. -/
  behind : ∀ rest rest', tail = .fin rest →
    let other := frames.flatMap Request.frame ++ Command.fin.octet :: rest'
    (s.serve other).output = (s.serve input).output ∧
    (s.serve other).ending = (s.serve input).ending

theorem served_of_stream {input : Bytes} {frames : List (Request Bytes)} {tail : Tail}
    (h : Stream input frames tail)
    (hfit : ∀ a ∈ s.answers .connected (s.callsOf frames), a.write.fault = none) :
    s.Served input frames tail where
  stream := h
  whole := whole_replies h.admissible hfit
  output := (serve_stream h hfit).1
  ending := (serve_stream h hfit).2
  ending_ok := by
    rw [(serve_stream h hfit).2]
    cases tail <;> simp [Tail.ending]
  undecodable earlier body later fault hframes hfault := by
    subst hframes
    exact ⟨replies_undecodable s earlier later hfault, stageAfter_undecodable s earlier hfault⟩
  behind rest rest' htail := by
    subst htail
    obtain ⟨houtput, hending⟩ := serve_stream h hfit
    have hother : Stream _ frames (.fin rest') := ⟨rfl, h.admissible, trivial⟩
    obtain ⟨houtput', hending'⟩ := serve_stream hother hfit
    exact ⟨houtput'.trans houtput.symm, hending'.trans hending.symm⟩

/-- **A secondary on any octets whatever**: they are frames and a tail in one way only, each frame
gets one whole reply in its turn, and the session ends as the tail says. -/
theorem serve_input (s : Secondary σ β) (input : Bytes)
    (hfit : ∀ frames tail, Stream input frames tail →
      ∀ a ∈ s.answers .connected (s.callsOf frames), a.write.fault = none) :
    ∃ frames tail, s.Served input frames tail ∧
      ∀ frames' tail', Stream input frames' tail' → frames' = frames ∧ tail' = tail := by
  obtain ⟨frames, tail, h⟩ := Stream.exists_frames input
  exact ⟨frames, tail, served_of_stream h (hfit frames tail h), fun _ _ h' => h'.unique h⟩

/-- A secondary that knows no ledger. -/
def ignorant : Secondary Unit Unit := ⟨.empty, .usual "primary" 7000⟩

/-- It is sent the request to prepare, work whose body makes no sense, and an octet that is no
command. -/
theorem serve_input_unknown :
    (ignorant.serve [0x01, 0x02, 0x01, 0x00, 0x00, 0x00, 0x2a, 0x77]).output =
      Reply.ok.octet :: (Wire.err (CommandFault.malformed .tooShort).message).octets ∧
    (ignorant.serve [0x01, 0x02, 0x01, 0x00, 0x00, 0x00, 0x2a, 0x77]).ending =
      some (.error (.unknownCommand 0x77)) := by
  have hstream : Stream [0x01, 0x02, 0x01, 0x00, 0x00, 0x00, 0x2a, 0x77]
      [.prepare, .workload [0x2a]] (.unknown 0x77 []) :=
    ⟨rfl, by simp [Request.Admissible, Document.limit], rfl⟩
  have hanswers : ignorant.answers .connected
      (ignorant.callsOf [.prepare, .workload [0x2a]]) =
        [.ok, .refused (.malformed .tooShort)] := rfl
  obtain ⟨frames, tail, hserved, hunique⟩ := serve_input ignorant
    [0x01, 0x02, 0x01, 0x00, 0x00, 0x00, 0x2a, 0x77] (by
      intro frames tail h a ha
      obtain ⟨rfl, rfl⟩ := h.unique hstream
      rw [hanswers] at ha
      rcases List.mem_cons.mp ha with rfl | ha
      · rfl
      · rw [List.mem_singleton.mp ha]
        exact Answer.fits_refused (by decide +kernel))
  obtain ⟨rfl, rfl⟩ := hunique _ _ hstream
  refine ⟨?_, hserved.ending⟩
  rw [hserved.output, replies, hanswers]
  simp only [List.map_cons, List.map_nil, List.flatten_cons, List.flatten_nil, List.append_nil]
  rfl

end Secondary

end LedgerLoad
