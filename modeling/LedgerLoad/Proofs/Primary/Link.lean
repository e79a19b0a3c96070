import LedgerLoad.Primary.Secondaries
import LedgerLoad.Proofs.Secondary.Serving

/-! # A link to a secondary that serves it

The two ends of a link stay in step (`Link.InStep`): between two requests nothing that was written
is unread at either end, so that a request meets a secondary in the stage that the requests before
it have led to and nothing else. `Link.execute_inStep` is one exchange, `Link.execute_ok` says what
a good response tells. Main statement: `Link.faithful`, any requests are answered as the secondary
answers calls one after another, and a last request ends its session well. -/

namespace LedgerLoad

variable {σ β : Type}

/-- What the primary makes of an answer that it has read whole. -/
def Answer.response : Answer → Response
  | .silence => .ok none
  | .ok => .ok none
  | .result r =>
    match SecondaryResult.ofDocument r.toDocument with
    | .ok r => .ok (some r)
    | .error fault => .error (.comm (.document fault))
  | .refused fault => .error (.errorReply fault.message)

/-! ### Reading answers -/

namespace Wire

theorem recvReply_err (rest : Bytes) : recvReply (Reply.err.octet :: rest) =
    match recvDocument rest with
    | (.ok d, rest) => (.error (.rejected (reasonOf d)), rest)
    | (.error fault, rest) => (.error fault, rest) := rfl

theorem reasonOf_ofText (s : String) : reasonOf (.ofText s) = s := by
  rw [reasonOf, Document.text_ofText]
  rfl

theorem recvDocument_nil : recvDocument [] = (.error .io, []) := rfl

theorem octetThenDocument_cut {octet : UInt8} {d : Document}
    (h : (octetThenDocument octet d).fault ≠ none) :
    (octetThenDocument octet d).octets = [octet] := by
  unfold octetThenDocument at h ⊢
  split at h
  · exact absurd rfl h
  · rfl

end Wire

namespace Request

variable {δ : Type}

theorem receive_ok {r : Request δ} (hfin : r.command ≠ .fin) (hresults : r.command ≠ .results)
    (rest : Bytes) : r.receive (Reply.ok.octet :: rest) = (.ok none, rest) := by
  cases r with
  | results => exact absurd rfl hresults
  | fin => exact absurd rfl hfin
  | _ => rfl

theorem receive_results {r : Request δ} (h : r.command = .results) (rest : Bytes) :
    r.receive (Reply.ok.octet :: rest) = receiveResult rest := by
  cases r with
  | results => rfl
  | _ => cases h

theorem receive_err {r : Request δ} (hfin : r.command ≠ .fin) (rest : Bytes) :
    r.receive (Reply.err.octet :: rest) = match Wire.recvDocument rest with
      | (.ok d, rest) => (.error (.rejected (Wire.reasonOf d)), rest)
      | (.error fault, rest) => (.error fault, rest) := by
  have h := Wire.recvReply_err rest
  cases r with
  | fin => exact absurd rfl hfin
  | _ =>
    rw [receive, h]
    · rcases Wire.recvDocument rest with ⟨_ | _, _⟩ <;> rfl
    · intro hf
      cases hf

/-- A result that arrives whole is read, if it can be read at all. -/
theorem receiveResult_document {input rest : Bytes} {result : SecondaryResult}
    (h : Wire.recvDocument input = (.ok result.toDocument, rest)) :
    ∃ x, receiveResult input = (x, rest) ∧
      x.mapError LinkFault.ofWire = (Answer.result result).response := by
  unfold receiveResult Answer.response
  rw [h]
  dsimp only
  generalize SecondaryResult.ofDocument result.toDocument = read
  cases read with
  | ok r => exact ⟨.ok (some r), rfl, rfl⟩
  | error fault => exact ⟨.error (.document fault), rfl, rfl⟩

/-- An answer that was written whole is read whole. -/
theorem receive_answer {s : Secondary σ β} {clock : Duration} {stage : Stage σ} {r : Request δ}
    {r' : Received} (hcommand : r'.command = r.command) (hfin : r.command ≠ .fin)
    (hfit : (s.answer clock stage r').1.write.fault = none) :
    ∃ x, r.receive (s.answer clock stage r').1.write.octets = (x, []) ∧
      x.mapError LinkFault.ofWire = (s.answer clock stage r').1.response := by
  rcases s.answer_cases clock stage r' with ⟨fault, hanswer⟩ | ⟨a, next, haccepts⟩
  · rw [hanswer, Answer.write_refused] at hfit
    obtain ⟨frame, hframe, hwrite⟩ := Wire.octetThenDocument_fits hfit
    have hrecv := Wire.recvDocument_document hframe []
    rw [List.append_nil] at hrecv
    rw [hanswer, Answer.write_refused, hwrite]
    rw [receive_err hfin, hrecv]
    refine ⟨_, rfl, ?_⟩
    show Except.error (LinkFault.errorReply (Wire.reasonOf _)) = _
    rw [Wire.reasonOf_ofText]
    rfl
  · rw [haccepts.answer_eq] at hfit ⊢
    dsimp only at hfit ⊢
    have hresult {result : SecondaryResult} (hresults : r.command = .results)
        (h : (Answer.result result).write.fault = none) :
        ∃ x, r.receive (Answer.result result).write.octets = (x, []) ∧
          x.mapError LinkFault.ofWire = (Answer.result result).response := by
      rw [Answer.write_result] at h ⊢
      obtain ⟨frame, hframe, hwrite⟩ := Wire.octetThenDocument_fits h
      have hrecv := Wire.recvDocument_document hframe []
      rw [List.append_nil] at hrecv
      rw [hwrite]
      obtain ⟨x, hreceive, hx⟩ := receiveResult_document hrecv
      exact ⟨x, (receive_results hresults frame).trans hreceive, hx⟩
    have hok (hne : r'.command ≠ .results) : ∃ x, r.receive Answer.ok.write.octets = (x, []) ∧
        x.mapError LinkFault.ofWire = Answer.ok.response :=
      ⟨_, receive_ok hfin (hcommand ▸ hne) [], rfl⟩
    cases haccepts with
    | prepare => exact hok (by decide)
    | workload => exact hok (by simp [command])
    | run => exact hok (by decide)
    | finish => exact hresult hcommand.symm hfit
    | again => exact hresult hcommand.symm hfit
    | fin => exact absurd hcommand.symm hfin

/-- Of an answer that was not written whole nothing good is read. -/
theorem receive_cut {s : Secondary σ β} {clock : Duration} {stage : Stage σ} {r : Request δ}
    {r' : Received} (hcommand : r'.command = r.command) (hfin : r.command ≠ .fin)
    (hcut : (s.answer clock stage r').1.write.fault ≠ none) :
    (r.receive (s.answer clock stage r').1.write.octets).1 = .error .io := by
  rcases s.answer_cases clock stage r' with ⟨fault, hanswer⟩ | ⟨a, next, haccepts⟩
  · rw [hanswer, Answer.write_refused] at hcut ⊢
    rw [Wire.octetThenDocument_cut hcut, receive_err hfin, Wire.recvDocument_nil]
  · rw [haccepts.answer_eq] at hcut ⊢
    have hresult {result : SecondaryResult} (hresults : r.command = .results)
        (h : (Answer.result result).write.fault ≠ none) :
        (r.receive (Answer.result result).write.octets).1 = .error .io := by
      rw [Answer.write_result] at h ⊢
      rw [Wire.octetThenDocument_cut h, receive_results hresults, receiveResult,
        Wire.recvDocument_nil]
    cases haccepts with
    | finish => exact hresult hcommand.symm hcut
    | again => exact hresult hcommand.symm hcut
    | _ => exact absurd rfl hcut

theorem command_received (r : Request Document) : r.received.command = r.command := by
  cases r <;> rfl

end Request

namespace Session

variable {secondary : Secondary σ β} {clock : Duration} {stage : Stage σ}

/-! ### What a served end hears -/

theorem at_catchUp {s : Session σ β} {input output : Bytes}
    (h : s.At secondary clock stage input output) :
    s.catchUp.At secondary clock stage input output := by
  obtain ⟨hsecondary, rfl, hstage, hinput, houtput, hreachable, hending⟩ := h
  generalize hs : s.stage = stage' at hstage
  cases hstage with
  | still hstill =>
    have hcatch : s.catchUp = s := by
      unfold catchUp
      split
      · rename_i hrunning
        rw [← hs, hrunning] at hstill
        cases hstill
      · rfl
    rw [hcatch]
    refine ⟨hsecondary, rfl, ?_, hinput, houtput, hreachable, hending⟩
    rw [hs]
    exact .still hstill
  | @running crew crew' hclock hfinish =>
    obtain ⟨hfinish', hclock'⟩ := Crew.finish_waitUntil hclock
    rw [catchUp, hs]
    exact ⟨hsecondary, rfl, .running hclock' (hfinish'.trans hfinish), hinput, houtput, hreachable,
      hending⟩

/-- The octets of a request that was written whole are a request. -/
theorem of_write {r : Request Document} (hsent : r.write.fault = none) :
    Incoming.of r.write.octets = .request r.received [] := by
  cases r with
  | workload d =>
    obtain ⟨frame, hframe, hwrite⟩ := Wire.octetThenDocument_fits hsent
    obtain ⟨body, hbody, rfl⟩ := Wire.document_eq_ok hframe
    have hwritten : (Request.workload d).write.octets = (Request.workload body).frame ++ [] := by
      rw [List.append_nil]
      exact congrArg Wire.Written.octets hwrite
    have hadmissible : (Request.workload body).Admissible := (Document.encode_eq_ok hbody).2.2
    rw [hwritten, Incoming.of_frame hadmissible, Request.arrived, Document.decode_encode hbody]
    rfl
  | prepare => rfl
  | run => rfl
  | results => rfl
  | fin => rfl

/-- A session hears a request, answers it and waits for the next one. -/
theorem hear_request {s : Session σ β} {r : Request Document} (h : s.At secondary clock stage [] [])
    (hfin : r.command ≠ .fin) (hsent : r.write.fault = none)
    (hfit : (secondary.answer (Secondary.momentOf clock stage r.received) stage
      r.received).1.write.fault = none) :
    ∃ far, peer.hear r.write.octets s =
      ((secondary.answer (Secondary.momentOf clock stage r.received)
        stage r.received).1.write.octets, far) ∧
      far.At secondary (Secondary.momentOf clock stage r.received)
        (secondary.answer (Secondary.momentOf clock stage r.received) stage r.received).2
        [] [] := by
  have harrive : (s.arrive r.write.octets).At secondary clock stage r.write.octets [] :=
    { h with input_eq := by rw [arrive, h.input_eq, List.nil_append] }
  obtain ⟨s', hproceed, hat⟩ := proceed_at harrive (of_write hsent)
    (by rw [Request.command_received]; exact hfin) hfit
  have hstop : s'.proceed none = s' :=
    proceed_incomplete hat.ending_eq (by rw [hat.input_eq]; rfl)
  have hcatch := at_catchUp hat
  rw [List.nil_append] at hcatch
  have hhear : peer.hear r.write.octets s = s'.catchUp.collectOutput := by
    show ((s.arrive r.write.octets).proceed none).catchUp.collectOutput = _
    rw [hproceed, hstop]
  refine ⟨{ s'.catchUp with output := [] }, ?_, { hcatch with output_eq := rfl }⟩
  rw [hhear, collectOutput, hcatch.output_eq]

theorem output_catchUp (s : Session σ β) : s.catchUp.output = s.output := by
  unfold catchUp
  split <;> rfl

theorem ending_catchUp (s : Session σ β) : s.catchUp.ending = s.ending := by
  unfold catchUp
  split <;> rfl

/-- A session whose answer does not fit a frame has only written the beginning of it. -/
theorem hear_cut {s : Session σ β} {r : Request Document} (h : s.At secondary clock stage [] [])
    (hsent : r.write.fault = none)
    (hcut : (secondary.answer (Secondary.momentOf clock stage r.received) stage
      r.received).1.write.fault ≠ none) :
    (peer.hear r.write.octets s).1 = (secondary.answer (Secondary.momentOf clock stage r.received)
      stage r.received).1.write.octets := by
  have harrive : (s.arrive r.write.octets).At secondary clock stage r.write.octets [] :=
    { h with input_eq := by rw [arrive, h.input_eq, List.nil_append] }
  obtain ⟨fault, hfault⟩ := Option.ne_none_iff_exists'.mp hcut
  have hfin : r.received.command ≠ .fin := by
    intro hfin
    cases r with
    | fin => exact hcut rfl
    | _ => cases hfin
  obtain ⟨houtput, -, -⟩ := proceed_cut harrive (of_write hsent) hfin hfault
  show ((s.arrive r.write.octets).proceed none).catchUp.output = _
  rw [output_catchUp, houtput, List.nil_append]

/-- A session that hears the last request has ended well. -/
theorem hear_fin {s : Session σ β} (h : s.At secondary clock stage [] []) :
    ∃ far octets, peer.hear [Command.fin.octet] s = (octets, far) ∧ far.ending = some (.ok ()) := by
  have hof : Incoming.of (s.arrive [Command.fin.octet]).input = .request .fin [] := by
    rw [arrive, h.input_eq]
    rfl
  have hending : ((s.arrive [Command.fin.octet]).take .fin []).ending = some (.ok ()) := rfl
  have hproceed : (s.arrive [Command.fin.octet]).proceed none =
      (s.arrive [Command.fin.octet]).take .fin [] := by
    rw [proceed_request (s := s.arrive [Command.fin.octet]) h.ending_eq hof (await_none _ _),
      await_fin, proceed_of_ending (by rw [hending]; rfl)]
  refine ⟨_, _, rfl, ?_⟩
  show ((s.arrive [Command.fin.octet]).proceed none).catchUp.ending = _
  rw [hproceed, ending_catchUp, hending]

theorem ending_hangUp {s : Session σ β} {ending : Except WireFault Unit}
    (h : s.ending = some ending) :
    s.hangUp.ending = some ending := by
  have hproceed : ({ s with reachable := false } : Session σ β).proceed none =
      { s with reachable := false } := proceed_of_ending (by simp [h])
  rw [hangUp, close, hproceed]
  simp [h]

end Session

namespace Link

variable {secondary : Secondary σ β} {clock : Duration} {stage : Stage σ}

/-! ### One exchange -/

/-- `InStep l secondary clock stage`: the link is open, nothing is unread at either end, and the
secondary at the far end stands in a stage. -/
structure InStep (l : Link (Session σ β)) (secondary : Secondary σ β) (clock : Duration)
    (stage : Stage σ) : Prop where
  far : l.far.At secondary clock stage [] []
  unread : l.unread = []
  closed : l.closed = false

theorem inStep_start (s : Secondary σ β) :
    (start (Session.start s)).InStep s .zero .connected :=
  ⟨⟨rfl, rfl, .still rfl, rfl, rfl, rfl, rfl⟩, rfl, rfl⟩

theorem gone_inStep {l : Link (Session σ β)} (h : l.InStep secondary clock stage) :
    Session.peer.gone l.far = false := by
  show l.far.ending.isSome = false
  rw [h.far.ending_eq]
  rfl

/-- **One exchange**: the response is what the primary makes of the answer, and both ends are in
step again. -/
theorem execute_inStep {l : Link (Session σ β)} {r : Request Document}
    (h : l.InStep secondary clock stage) (hfin : r.command ≠ .fin) (hsent : r.write.fault = none)
    (hfit : (secondary.answer (Secondary.momentOf clock stage r.received) stage
      r.received).1.write.fault = none) :
    (l.execute Session.peer r).1 = (secondary.answer (Secondary.momentOf clock stage r.received)
        stage r.received).1.response ∧
      (l.execute Session.peer r).2.InStep secondary (Secondary.momentOf clock stage r.received)
        (secondary.answer (Secondary.momentOf clock stage r.received) stage r.received).2 := by
  obtain ⟨far, hhear, hfar⟩ := Session.hear_request h.far hfin hsent hfit
  obtain ⟨x, hreceive, hx⟩ := Request.receive_answer (r := r) (Request.command_received r) hfin hfit
  have hexchange : l.exchange Session.peer r =
      (x.mapError LinkFault.ofWire, { l with far, unread := [] }) := by
    simp only [exchange, h.closed, gone_inStep h, Bool.false_eq_true, if_false, hhear, hsent,
      h.unread, List.nil_append, hreceive]
  rw [execute, hexchange]
  simp only [if_neg hfin]
  exact ⟨hx, hfar, rfl, h.closed⟩

/-- A good response tells that the request was sent whole and its answer fitted a frame. -/
theorem execute_ok {l : Link (Session σ β)} {r : Request Document}
    (h : l.InStep secondary clock stage) (hfin : r.command ≠ .fin) {x : Option SecondaryResult}
    (hok : (l.execute Session.peer r).1 = .ok x) : r.write.fault = none ∧
      (secondary.answer (Secondary.momentOf clock stage r.received) stage
        r.received).1.write.fault = none := by
  simp only [execute, exchange, h.closed, gone_inStep h, Bool.false_eq_true, if_false, h.unread,
    List.nil_append] at hok
  have hsent : r.write.fault = none := by
    cases hfault : r.write.fault with
    | none => rfl
    | some fault =>
      rw [hfault] at hok
      cases hok
  refine ⟨hsent, ?_⟩
  by_contra hcut
  have hhear := Session.hear_cut h.far hsent hcut
  have hreceive := Request.receive_cut (r := r) (Request.command_received r) hfin hcut
  rw [hsent] at hok
  simp only [hhear] at hok
  rw [hreceive] at hok
  cases hok

/-! ### Exchange after exchange -/

/-- Carries out requests one after another. -/
def executeAll {π : Type} (peer : Peer π) :
    List (Request Document) → Link π → List Response × Link π
  | [], l => ([], l)
  | r :: rs, l =>
    let (response, l) := l.execute peer r
    let (responses, l) := executeAll peer rs l
    (response :: responses, l)

theorem executeAll_inStep {l : Link (Session σ β)} {requests : List (Request Document)}
    (h : l.InStep secondary clock stage) (hfin : ∀ r ∈ requests, r.command ≠ .fin)
    (hsent : ∀ r ∈ requests, r.write.fault = none)
    (hfit : ∀ a ∈ secondary.answers stage
      (secondary.calls clock stage (requests.map Request.received)), a.write.fault = none) :
    (executeAll Session.peer requests l).1 = (secondary.answers stage
        (secondary.calls clock stage (requests.map Request.received))).map Answer.response ∧
      (executeAll Session.peer requests l).2.InStep secondary
        (secondary.momentAfter clock stage (requests.map Request.received))
        (secondary.after stage (secondary.calls clock stage (requests.map Request.received))) := by
  induction requests generalizing l clock stage with
  | nil => exact ⟨rfl, h⟩
  | cons r requests ih =>
    obtain ⟨hresponse, hstep⟩ := execute_inStep h (hfin r List.mem_cons_self)
      (hsent r List.mem_cons_self) (hfit _ List.mem_cons_self)
    obtain ⟨hresponses, hsteps⟩ := ih hstep (fun x hx => hfin x (List.mem_cons_of_mem _ hx))
      (fun x hx => hsent x (List.mem_cons_of_mem _ hx))
      (fun a ha => hfit a (List.mem_cons_of_mem _ ha))
    refine ⟨?_, hsteps⟩
    rw [executeAll]
    simp only [hresponses, hresponse]
    rfl

/-- The last request ends the session at the far end well. -/
theorem execute_fin {l : Link (Session σ β)} (h : l.InStep secondary clock stage) :
    (l.execute Session.peer .fin).2.far.ending = some (.ok ()) := by
  obtain ⟨far, octets, hhear, hending⟩ := Session.hear_fin h.far
  have hwrite : (Request.fin : Request Document).write = ⟨[Command.fin.octet], none⟩ := rfl
  have hexchange : l.exchange Session.peer .fin =
      (.ok none, { l with far, unread := l.unread ++ octets }) := by
    simp only [exchange, h.closed, gone_inStep h, Bool.false_eq_true, if_false, hwrite, hhear]
    rfl
  rw [execute, hexchange]
  show (close Session.peer { l with far, unread := l.unread ++ octets }).far.ending = _
  rw [close, if_neg (by simp [h.closed])]
  exact Session.ending_hangUp hending

end Link

namespace Secondary

variable {s : Secondary σ β} {stage : Stage σ}

/-! ### What is admitted -/

/-- Whether a request is admitted in a stage: work must be a message for a ledger that is known and
whose adapter makes a client. -/
def Admits (s : Secondary σ β) (stage : Stage σ) : Request Document → Prop
  | .prepare => ∀ crew, stage ≠ .running crew
  | .workload d => (stage = .prepared ∨ ∃ work, stage = .loaded work) ∧
      ∃ message adapter made, WorkloadMessage.ofDocument d = .ok message ∧
        s.registry.find? message.ledger = some adapter ∧
        adapter.client (s.view message.parameters) = .ok made
  | .run => ∃ work, stage = .loaded work
  | .results => (∃ crew, stage = .running crew) ∨ ∃ result, stage = .finished result
  | .fin => True

/-- The moment of a request shows in no answer to it. -/
theorem answer_moment (s : Secondary σ β) (moment moment' : Duration) (stage : Stage σ)
    (r : Received) : (s.answer moment stage r).1 = (s.answer moment' stage r).1 := by
  cases r with
  | run => cases stage <;> rfl
  | _ => rfl

theorem admits_iff (s : Secondary σ β) (moment : Duration) (stage : Stage σ)
    (r : Request Document) :
    s.Admits stage r ↔ (s.answer moment stage r.received).1.isRefused = false := by
  constructor
  · intro h
    suffices haccepts : ∃ a next, s.Accepts moment stage r.received a next by
      obtain ⟨a, next, haccepts⟩ := haccepts
      rw [haccepts.answer_eq]
      exact haccepts.not_refused
    cases r with
    | prepare =>
      refine ⟨_, _, .prepare ?_⟩
      cases stage with
      | running crew => exact absurd rfl (h crew)
      | _ => rfl
    | workload d =>
      obtain ⟨hstage, message, adapter, ⟨client, shared⟩, hmessage, hadapter, hclient⟩ := h
      refine ⟨_, _, .workload ?_
        (workOf_eq_ok.mpr ⟨message, adapter, client, shared, hmessage, hadapter, hclient, rfl⟩)⟩
      rcases hstage with rfl | ⟨work, rfl⟩ <;> rfl
    | run =>
      obtain ⟨work, rfl⟩ := h
      exact ⟨_, _, .run⟩
    | results =>
      rcases h with ⟨crew, rfl⟩ | ⟨result, rfl⟩
      · exact ⟨_, _, .finish⟩
      · exact ⟨_, _, .again⟩
    | fin => exact ⟨_, _, .fin⟩
  · intro h
    rcases s.answer_cases moment stage r.received with ⟨fault, hanswer⟩ | ⟨a, next, haccepts⟩
    · rw [hanswer] at h
      cases h
    clear h
    cases r with
    | prepare =>
      cases haccepts with
      | prepare hstill =>
        intro crew hcrew
        rw [hcrew] at hstill
        cases hstill
    | workload d =>
      cases haccepts with
      | workload htakes hwork =>
        obtain ⟨message, adapter, client, shared, hmessage, hadapter, hclient, -⟩ :=
          workOf_eq_ok.mp hwork
        refine ⟨?_, message, adapter, (client, shared), hmessage, hadapter, hclient⟩
        cases stage with
        | prepared => exact Or.inl rfl
        | loaded work => exact Or.inr ⟨work, rfl⟩
        | _ => cases htakes
    | run =>
      cases haccepts with
      | run => exact ⟨_, rfl⟩
    | results =>
      cases haccepts with
      | finish => exact Or.inl ⟨_, rfl⟩
      | again => exact Or.inr ⟨_, rfl⟩
    | fin => trivial

theorem head_write {moment : Duration} {r : Received} (hfin : r.command ≠ .fin) :
    (s.answer moment stage r).1.write.octets.head? = some Reply.ok.octet ↔
      (s.answer moment stage r).1.isRefused = false := by
  have hhead (octet : UInt8) (d : Document) :
      (Wire.octetThenDocument octet d).octets.head? = some octet := by
    unfold Wire.octetThenDocument
    split <;> rfl
  rcases s.answer_cases moment stage r with ⟨fault, hanswer⟩ | ⟨a, next, haccepts⟩
  · rw [hanswer, Answer.write_refused, hhead]
    simp [Answer.isRefused, Reply.octet]
  · rw [haccepts.answer_eq, haccepts.not_refused]
    simp only [iff_true]
    cases haccepts with
    | finish => rw [Answer.write_result, hhead]
    | again => rw [Answer.write_result, hhead]
    | fin => exact absurd rfl hfin
    | _ => rfl

end Secondary

namespace Link

/-- A link to a secondary on which some requests were carried out. -/
def past (s : Secondary σ β) (requests : List (Request Document)) : Link (Session σ β) :=
  (executeAll Session.peer requests (start (Session.start s))).2

/-- The stage that requests lead a secondary to, which are carried out one after another. -/
def stagePast (s : Secondary σ β) (requests : List (Request Document)) : Stage σ :=
  s.after .connected (s.calls .zero .connected (requests.map Request.received))

/-- What holds of the exchange of a request on a link on which some requests were carried out. -/
structure Faithful (s : Secondary σ β) (earlier : List (Request Document)) (r : Request Document) :
    Prop where
  /-- Nothing that was written before is unread, at either end. -/
  quiet : (past s earlier).unread = [] ∧ (past s earlier).far.input = [] ∧
    (past s earlier).far.output = []
  /-- What is written for the request is one whole reply, a good one exactly if the request is
  admitted. -/
  reply : ∃ octets, (Session.peer.hear r.write.octets (past s earlier).far).1 = octets ∧
    Reply.Whole r.command octets ∧
    (octets.head? = some Reply.ok.octet ↔ s.Admits (stagePast s earlier) r)
  /-- The response is what the primary makes of the answer in the stage that the earlier requests
  have led to. -/
  response : ∀ moment, ((past s earlier).execute Session.peer r).1 =
    (s.answer moment (stagePast s earlier) r.received).1.response
  /-- The reason of a refusal arrives as it was given. -/
  refused : ∀ moment fault,
    (s.answer moment (stagePast s earlier) r.received).1 = .refused fault →
    ((past s earlier).execute Session.peer r).1 = .error (.errorReply fault.message)

theorem faithful_of_inStep {s : Secondary σ β} {earlier : List (Request Document)}
    {r : Request Document} (h : (past s earlier).InStep s clock (stagePast s earlier))
    (hfin : r.command ≠ .fin) (hsent : r.write.fault = none)
    (hfit : (s.answer (Secondary.momentOf clock (stagePast s earlier) r.received)
      (stagePast s earlier) r.received).1.write.fault = none) : Faithful s earlier r := by
  have hcommand := Request.command_received r
  obtain ⟨hresponse, -⟩ := execute_inStep h hfin hsent hfit
  have hany (moment : Duration) : ((past s earlier).execute Session.peer r).1 =
      (s.answer moment (stagePast s earlier) r.received).1.response := by
    rw [hresponse, s.answer_moment _ moment]
  refine ⟨⟨h.unread, h.far.input_eq, h.far.output_eq⟩, ?_, hany, fun moment fault hfault => ?_⟩
  · obtain ⟨far, hhear, -⟩ := Session.hear_request h.far hfin hsent hfit
    refine ⟨_, rfl, ?_, ?_⟩
    · rw [hhear, ← hcommand]
      exact Secondary.whole_answer (hcommand ▸ hfin) hfit
    · rw [hhear, Secondary.head_write (hcommand ▸ hfin), ← Secondary.admits_iff]
  · rw [hany moment, hfault]
    rfl

/-- **A link is faithful** to the secondary at its far end: whatever requests are carried out one
after another, each exchange is faithful, and the last request then ends the session well. -/
theorem faithful (s : Secondary σ β) (requests : List (Request Document))
    (hfin : ∀ r ∈ requests, r.command ≠ .fin) (hsent : ∀ r ∈ requests, r.write.fault = none)
    (hfit : ∀ a ∈ s.answers .connected (s.calls .zero .connected (requests.map Request.received)),
      a.write.fault = none) :
    (∀ earlier r later, requests = earlier ++ r :: later → Faithful s earlier r) ∧
      (past s requests).unread = [] ∧ (past s requests).far.input = [] ∧
      (past s requests).far.output = [] ∧
      ((past s requests).execute Session.peer .fin).2.far.ending = some (.ok ()) := by
  have hlast := (executeAll_inStep (inStep_start s) hfin hsent hfit).2
  refine ⟨fun earlier r later hrequests => ?_, hlast.unread, hlast.far.input_eq,
    hlast.far.output_eq, execute_fin hlast⟩
  subst hrequests
  rw [List.map_append, List.map_cons, s.calls_append, s.answers_append] at hfit
  obtain ⟨-, hstep⟩ := executeAll_inStep (inStep_start s)
    (fun x hx => hfin x (List.mem_append_left _ hx))
    (fun x hx => hsent x (List.mem_append_left _ hx))
    (fun a ha => hfit a (List.mem_append_left _ ha))
  have hr : r ∈ earlier ++ r :: later := List.mem_append_right _ List.mem_cons_self
  exact faithful_of_inStep hstep (hfin r hr) (hsent r hr)
    (hfit _ (List.mem_append_right _ List.mem_cons_self))

/-- A secondary that knows no ledger is prepared, sent work that is no message, and told to run. -/
theorem faithful_ignorant :
    ((past Secondary.ignorant [.prepare, .workload ⟨[]⟩]).execute Session.peer .run).1 =
        .error (.errorReply (CommandFault.notAllowed .run "prepared").message) ∧
      ((past Secondary.ignorant [.prepare, .workload ⟨[]⟩, .run]).execute
        Session.peer .fin).2.far.ending = some (.ok ()) := by
  have hanswers : Secondary.ignorant.answers .connected (Secondary.ignorant.calls .zero .connected
      ([.prepare, .workload ⟨[]⟩, .run].map Request.received)) =
      [.ok, .refused (.malformed (.missingElements 2 0)),
        .refused (.notAllowed .run "prepared")] := rfl
  have hsent : (Request.workload ⟨[]⟩).write.fault = none :=
    Wire.octetThenDocument_of_short (by decide)
  obtain ⟨hfaithful, -, -, -, hending⟩ := faithful Secondary.ignorant
    [.prepare, .workload ⟨[]⟩, .run] (by simp [Request.command])
    (by
      intro r hr
      simp only [List.mem_cons, List.not_mem_nil, or_false] at hr
      rcases hr with rfl | rfl | rfl
      · rfl
      · exact hsent
      · rfl)
    (by
      rw [hanswers]
      intro a ha
      simp only [List.mem_cons, List.not_mem_nil, or_false] at ha
      rcases ha with rfl | rfl | rfl
      · rfl
      · exact Answer.fits_refused (by decide +kernel)
      · exact Answer.fits_refused (by decide +kernel))
  exact ⟨(hfaithful [.prepare, .workload ⟨[]⟩] .run [] rfl).refused .zero _ rfl, hending⟩

end Link

end LedgerLoad
