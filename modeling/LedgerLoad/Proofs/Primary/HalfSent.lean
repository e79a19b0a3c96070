import LedgerLoad.Proofs.Primary.Link
import LedgerLoad.Proofs.Primary.Run
import LedgerLoad.Proofs.Wire.Framing

/-! # Requests that are sent in half

The command for work is on its way before its document is made, and the document may still be
refused for its length. Then the command stands alone on the stream, and what is sent next is taken
for the length of a document (`Link.HalfSent`). Main statement: `Link.after_work`, behind a request for
work what was written is a string of whole frames, and the last request ends the session of the
secondary well, exactly if the document of the work could be made. -/

namespace LedgerLoad

variable {σ β : Type}

/-! ### What is written -/

namespace Request

/-- A request with its document made into a body. -/
def packed : Request Document → Except DocumentFault (Request Bytes)
  | .prepare => .ok .prepare
  | .workload d => d.encode.map .workload
  | .run => .ok .run
  | .results => .ok .results
  | .fin => .ok .fin

/-- A request is written as a frame, or as its command alone. -/
theorem write_eq (r : Request Document) : r.write =
    match r.packed with
    | .ok whole => ⟨whole.frame, none⟩
    | .error fault => ⟨[r.command.octet], some fault⟩ := by
  cases r with
  | workload d =>
    rw [write, Wire.octetThenDocument, Wire.document, packed]
    cases d.encode <;> rfl
  | _ => rfl

theorem fault_eq_none_iff {r : Request Document} :
    r.write.fault = none ↔ ∃ whole, r.packed = .ok whole := by
  rw [write_eq]
  cases r.packed <;> simp

theorem admissible_of_packed {r : Request Document} {whole : Request Bytes}
    (hfin : r.command ≠ .fin) (h : r.packed = .ok whole) : whole.Admissible := by
  cases r with
  | workload d =>
    cases hd : d.encode with
    | ok body =>
      rw [packed, hd] at h
      obtain rfl := Except.ok.inj h
      exact (Document.encode_eq_ok hd).2.2
    | error fault =>
      rw [packed, hd] at h
      cases h
  | fin => exact absurd rfl hfin
  | _ =>
    obtain rfl := Except.ok.inj h
    trivial

/-- What is written for requests one after another. -/
def written (requests : List (Request Document)) : Bytes :=
  requests.flatMap fun r => r.write.octets

/-- `Whole octets`: the octets are frames that a secondary can take, and nothing else. -/
def Whole (octets : Bytes) : Prop :=
  ∃ frames : List (Request Bytes), (∀ r ∈ frames, r.Admissible) ∧ octets = frames.flatMap frame

/-- Requests whose documents can be made are written whole. -/
theorem whole_written {requests : List (Request Document)}
    (hfin : ∀ r ∈ requests, r.command ≠ .fin) (hsent : ∀ r ∈ requests, r.write.fault = none) :
    Whole (written requests) := by
  induction requests with
  | nil => exact ⟨[], by simp, rfl⟩
  | cons r requests ih =>
    obtain ⟨frames, hframes, hwritten⟩ := ih (fun x hx => hfin x (List.mem_cons_of_mem r hx))
      (fun x hx => hsent x (List.mem_cons_of_mem r hx))
    obtain ⟨whole, hwhole⟩ := fault_eq_none_iff.mp (hsent r List.mem_cons_self)
    have hadmissible := admissible_of_packed (hfin r List.mem_cons_self) hwhole
    have hoctets : r.write.octets = whole.frame := by rw [write_eq, hwhole]
    refine ⟨whole :: frames, ?_, ?_⟩
    · intro x hx
      rcases List.mem_cons.mp hx with rfl | hx
      · exact hadmissible
      · exact hframes x hx
    · rw [written, List.flatMap_cons, List.flatMap_cons, hoctets]
      exact congrArg (whole.frame ++ ·) hwritten

theorem written_append (requests : List (Request Document)) (r : Request Document) :
    written (requests ++ [r]) = written requests ++ r.write.octets := by
  rw [written, List.flatMap_append, List.flatMap_singleton]
  rfl

theorem write_made {d : Document} {body : Bytes} (hd : d.encode = .ok body) :
    (workload d).write = ⟨(workload body).frame, none⟩ := by
  rw [write_eq, packed, hd]
  rfl

theorem write_refused {d : Document} {fault : DocumentFault} (hd : d.encode = .error fault) :
    (workload d).write = ⟨[Command.workload.octet], some fault⟩ := by
  rw [write_eq, packed, hd]
  rfl

/-- Work whose document can be made is written whole behind whole frames. -/
theorem whole_append {octets : Bytes} {d : Document} {body : Bytes} (h : Whole octets)
    (hd : d.encode = .ok body) : Whole (octets ++ (workload d).write.octets) := by
  obtain ⟨frames, hframes, rfl⟩ := h
  have hadmissible : (workload body).Admissible := (Document.encode_eq_ok hd).2.2
  refine ⟨frames ++ [.workload body], ?_, ?_⟩
  · intro r hr
    rcases List.mem_append.mp hr with hr | hr
    · exact hframes r hr
    · rw [List.mem_singleton.mp hr]
      exact hadmissible
  · rw [write_made hd, List.flatMap_append, List.flatMap_singleton]

/-- The command for work alone behind whole frames is no whole frame. -/
theorem not_whole_append {octets : Bytes} (h : Whole octets) :
    ¬ Whole (octets ++ [Command.workload.octet]) := by
  rintro ⟨frames', hframes', hoctets'⟩
  obtain ⟨frames, hframes, rfl⟩ := h
  have hcut : (Tail.cut []).Proper := Tail.proper_cut 0 0 0 [0, 0, 0, 0] rfl (by simp)
  have hstream : Stream (frames.flatMap frame ++ [Command.workload.octet]) frames (.cut []) :=
    ⟨rfl, hframes, hcut⟩
  have hstream' : Stream (frames.flatMap frame ++ [Command.workload.octet]) frames' .nothing :=
    ⟨by rw [hoctets', Tail.octets, List.append_nil], hframes', trivial⟩
  cases (hstream.unique hstream').2

end Request

/-! ### A link with half a request on it -/

namespace Link

variable {secondary : Secondary σ β} {clock : Duration} {stage : Stage σ}

/-- A link on which only the command for work was sent: the secondary waits for a length. -/
structure HalfSent (l : Link (Session σ β)) (secondary : Secondary σ β) (clock : Duration)
    (stage : Stage σ) : Prop where
  far : l.far.At secondary clock stage [Command.workload.octet] []
  unread : l.unread = []
  closed : l.closed = false

/-- Octets that are less than a request stay where they are. -/
theorem hear_incomplete {s : Session σ β} {input : Bytes} (octets : Bytes)
    (h : s.At secondary clock stage input [])
    (hof : Incoming.of (input ++ octets) = .incomplete) :
    ∃ far, Session.peer.hear octets s = ([], far) ∧
      far.At secondary clock stage (input ++ octets) [] := by
  have harrive : (s.arrive octets).At secondary clock stage (input ++ octets) [] :=
    { h with input_eq := by rw [Session.arrive, h.input_eq] }
  have hproceed : (s.arrive octets).proceed none = s.arrive octets :=
    Session.proceed_incomplete harrive.ending_eq (by rw [harrive.input_eq, hof])
  have hcatch := Session.at_catchUp harrive
  have hhear : Session.peer.hear octets s = (s.arrive octets).catchUp.collectOutput := by
    show ((s.arrive octets).proceed none).catchUp.collectOutput = _
    rw [hproceed]
  refine ⟨{ (s.arrive octets).catchUp with output := [] }, ?_, { hcatch with output_eq := rfl }⟩
  rw [hhear, Session.collectOutput, hcatch.output_eq]

/-- **Work that is refused is half sent**: the primary reports it, and the secondary was told to
expect a document. -/
theorem execute_refused {l : Link (Session σ β)} {d : Document} {fault : DocumentFault}
    (h : l.InStep secondary clock stage) (hd : d.encode = .error fault) :
    (l.execute Session.peer (.workload d)).1 = .error (.comm (.document fault)) ∧
      (l.execute Session.peer (.workload d)).2.HalfSent secondary clock stage := by
  have hwrite := Request.write_refused hd
  obtain ⟨far, hhear, hfar⟩ := hear_incomplete [Command.workload.octet] h.far rfl
  have hexchange : l.exchange Session.peer (.workload d) =
      (.error (.comm (.document fault)), { l with far, unread := [] }) := by
    simp only [exchange, h.closed, gone_inStep h, Bool.false_eq_true, if_false, hwrite, hhear,
      h.unread, List.nil_append]
  have hexecute : l.execute Session.peer (.workload d) =
      (.error (.comm (.document fault)), { l with far, unread := [] }) := by
    rw [execute, hexchange]
    rfl
  rw [hexecute]
  exact ⟨rfl, hfar, rfl, h.closed⟩

/-- The end of a stream inside a request is broken. -/
theorem ending_hangUp_incomplete {s : Session σ β} {input output : Bytes}
    (h : s.At secondary clock stage input output) (hof : Incoming.of input = .incomplete)
    (hinput : input ≠ []) : s.hangUp.ending = some (.error .io) := by
  have hproceed : ({ s with reachable := false } : Session σ β).proceed none =
      { s with reachable := false } :=
    Session.proceed_incomplete h.ending_eq (by rw [h.input_eq, hof])
  rw [Session.hangUp, Session.close, hproceed]
  simp [h.ending_eq, h.input_eq, hinput]

/-- **The last request behind half a request is not understood**: the primary takes it for sent, and
the session of the secondary breaks. -/
theorem fin_halfSent {l : Link (Session σ β)} (h : l.HalfSent secondary clock stage) :
    (l.execute Session.peer .fin).1 = .ok none ∧
      (l.execute Session.peer .fin).2.far.ending = some (.error .io) := by
  obtain ⟨far, hhear, hfar⟩ := hear_incomplete [Command.fin.octet] h.far rfl
  have hgone : Session.peer.gone l.far = false := by
    show l.far.ending.isSome = false
    rw [h.far.ending_eq]
    rfl
  have hwrite : (Request.fin : Request Document).write = ⟨[Command.fin.octet], none⟩ := rfl
  have hexchange : l.exchange Session.peer .fin = (.ok none, { l with far, unread := [] }) := by
    simp only [exchange, h.closed, hgone, Bool.false_eq_true, if_false, hwrite, hhear, h.unread,
      List.nil_append]
    rfl
  rw [execute, hexchange]
  refine ⟨rfl, ?_⟩
  show (close Session.peer { l with far, unread := [] }).far.ending = _
  rw [close, if_neg (by simp [h.closed])]
  exact ending_hangUp_incomplete hfar rfl (by simp)

/-! ### Work, and then the last request -/

/-- What comes of a request for work behind others, and of the last request behind it. -/
structure AfterWork (s : Secondary σ β) (earlier : List (Request Document)) (d : Document) :
    Prop where
  /-- What was written is whole exactly if the document could be made. -/
  whole_iff : Request.Whole (Request.written (earlier ++ [.workload d])) ↔
    ∃ body, d.encode = .ok body
  /-- So is the ending of the session good. -/
  ending_iff : ((past s (earlier ++ [.workload d])).execute Session.peer .fin).2.far.ending =
    some (.ok ()) ↔ ∃ body, d.encode = .ok body
  /-- Else the document is too long, its command stands alone behind the frames, the primary hears
  why, and the session breaks although the last request counts as sent. -/
  refused : ∀ fault, d.encode = .error fault →
    (∃ length, fault = .tooLarge length ∧ Document.limit < length) ∧
    Request.written (earlier ++ [.workload d]) =
      Request.written earlier ++ [Command.workload.octet] ∧
    ((past s earlier).execute Session.peer (.workload d)).1 = .error (.comm (.document fault)) ∧
    ((past s (earlier ++ [.workload d])).execute Session.peer .fin).1 = .ok none ∧
    ((past s (earlier ++ [.workload d])).execute Session.peer .fin).2.far.ending =
      some (.error .io)

theorem executeAll_append {π : Type} (peer : Peer π) (rs rs' : List (Request Document))
    (l : Link π) : (executeAll peer (rs ++ rs') l).2 =
      (executeAll peer rs' (executeAll peer rs l).2).2 := by
  induction rs generalizing l with
  | nil => rfl
  | cons r rs ih => exact ih _

theorem past_append (s : Secondary σ β) (earlier : List (Request Document))
    (r : Request Document) :
    past s (earlier ++ [r]) = ((past s earlier).execute Session.peer r).2 :=
  executeAll_append Session.peer earlier [r] _

/-- A link on which requests were written whole and answered whole is in step. -/
theorem inStep_past {s : Secondary σ β} {earlier : List (Request Document)}
    (hfin : ∀ r ∈ earlier, r.command ≠ .fin) (hsent : ∀ r ∈ earlier, r.write.fault = none)
    (hfit : ∀ a ∈ s.answers .connected (s.calls .zero .connected (earlier.map Request.received)),
      a.write.fault = none) :
    ∃ clock, (past s earlier).InStep s clock (stagePast s earlier) :=
  ⟨_, (executeAll_inStep (inStep_start s) hfin hsent hfit).2⟩

/-- **Half a request spoils the last one**: behind requests that were written whole and answered
whole, what was written with the next work is whole, and the last request ends the session of the
secondary well, exactly if the document of the work could be made. -/
theorem after_work (s : Secondary σ β) (earlier : List (Request Document)) (d : Document)
    (hfin : ∀ r ∈ earlier, r.command ≠ .fin) (hsent : ∀ r ∈ earlier, r.write.fault = none)
    (hfit : ∀ a ∈ s.answers .connected (s.calls .zero .connected (earlier.map Request.received)),
      a.write.fault = none)
    (hanswer : ∀ body moment, d.encode = .ok body →
      (s.answer moment (stagePast s earlier) (.workload (.ok d))).1.write.fault = none) :
    AfterWork s earlier d := by
  obtain ⟨clock, hstep⟩ := inStep_past hfin hsent hfit
  have hearlier := Request.whole_written hfin hsent
  have happend := Request.written_append earlier (.workload d)
  cases hd : d.encode with
  | ok body =>
    have hmade : ∃ body, d.encode = .ok body := ⟨body, hd⟩
    have hwhole := happend ▸ Request.whole_append hearlier hd
    have hsentWork : (Request.workload d).write.fault = none := by rw [Request.write_made hd]
    obtain ⟨-, hnext⟩ := execute_inStep hstep (by simp [Request.command]) hsentWork
      (hanswer body _ hd)
    have hending := execute_fin hnext
    rw [← past_append] at hending
    refine ⟨⟨fun _ => hmade, fun _ => hwhole⟩, ⟨fun _ => hmade, fun _ => hending⟩, ?_⟩
    intro fault hfault
    rw [hd] at hfault
    cases hfault
  | error fault =>
    have hnone : ¬ ∃ body, d.encode = .ok body := by simp [hd]
    obtain ⟨length, hfault, hlong, -⟩ := Document.encode_eq_error hd
    obtain ⟨hresponse, hhalf⟩ := execute_refused hstep hd
    rw [← past_append] at hhalf
    obtain ⟨hlast, hending⟩ := fin_halfSent hhalf
    rw [Request.write_refused hd] at happend
    constructor
    case whole_iff =>
      rw [happend]
      exact ⟨fun h => absurd h (Request.not_whole_append hearlier), fun h => absurd h hnone⟩
    case ending_iff =>
      rw [hending]
      refine ⟨fun h => ?_, fun h => absurd h hnone⟩
      cases h
    case refused =>
      intro fault' hfault'
      obtain rfl := Except.error.inj (hd.symm.trans hfault')
      exact ⟨⟨length, hfault, hlong⟩, happend, hresponse, hlast, hending⟩

/-- A secondary that knows no ledger is prepared and sent work that is no message: that is refused
in a whole answer, and the last request is understood. -/
theorem after_work_ignorant :
    Request.Whole (Request.written [.prepare, .workload ⟨[]⟩]) ∧
      ((past Secondary.ignorant [.prepare, .workload ⟨[]⟩]).execute
        Session.peer .fin).2.far.ending = some (.ok ()) := by
  have hmade : ∃ body, Document.encode ⟨[]⟩ = .ok body := Document.encode_of_short (by decide)
  have hanswers : Secondary.ignorant.answers .connected
      (Secondary.ignorant.calls .zero .connected ([.prepare].map Request.received)) = [.ok] := rfl
  have hafter := after_work Secondary.ignorant [.prepare] ⟨[]⟩ (by simp [Request.command])
    (by simp [Request.write])
    (by
      rw [hanswers]
      simp [Answer.write])
    (by
      intro _ moment _
      show (Answer.refused (.malformed (.missingElements 2 0))).write.fault = none
      exact Answer.fits_refused (by decide +kernel))
  exact ⟨hafter.whole_iff.mpr hmade, hafter.ending_iff.mpr hmade⟩

end Link

/-! ### Work that is refused in a round of a primary -/

namespace Primary

variable {secondary : Secondary σ β} {clock : Duration} {stage : Stage σ}

/-- **A secondary whose work was refused** is reported with the reason, and breaks on the last
request. -/
theorem finish_refused {p : Primary (Link (Session σ β))} {id : Nat}
    {seat : Seat (Link (Session σ β))} {request : Nat → Option (Request Document)} {d : Document}
    {fault : DocumentFault} (hseat : p.seats[id]? = some seat)
    (hstep : seat.link.InStep secondary clock stage) (hrequest : request id = some (.workload d))
    (hd : d.encode = .error fault) :
    (id, .error (.comm (.document fault))) ∈ (p.fanOut (Link.execute Session.peer) request).1 ∧
      ∃ last, ((p.fanOut (Link.execute Session.peer) request).2.finish
        (Link.execute Session.peer)).seats[id]? = some last ∧
        last.link.far.ending = some (.error .io) := by
  obtain ⟨hresponse, hhalf⟩ := Link.execute_refused hstep hd
  refine ⟨mem_responses.mpr ⟨seat, hseat, ?_⟩, ?_⟩
  · rw [hrequest, askSeat, ← hresponse]
  · rw [finish, seat_fanOut, seat_fanOut, hseat, hrequest]
    exact ⟨_, rfl, (Link.fin_halfSent hhalf).2⟩

/-- A primary with one secondary gives it work that is refused, and sends the last request. -/
theorem finish_only {s : Secondary σ β} {message : WorkloadMessage} {fault : DocumentFault}
    (hd : message.toDocument.encode = .error fault) :
    let p : Primary (Link (Session σ β)) := .ofLinks [.start (.start s)]
    let given := p.distribute (Link.execute Session.peer) message.ledger message.parameters
      [message.shard]
    given.1 = .ok [⟨0, .workload, .comm (.document fault)⟩] ∧
      ((given.2.finish (Link.execute Session.peer)).seats.map fun seat => seat.link.far.ending) =
        [some (.error .io)] := by
  intro p given
  obtain ⟨hresponse, hhalf⟩ := Link.execute_refused (Link.inStep_start s) hd
  constructor
  · show Except.ok (failures .workload [(0, (Link.execute Session.peer
      (.workload message.toDocument) (.start (.start s))).1)]) = _
    rw [hresponse]
    rfl
  · show [((Link.execute Session.peer (.workload message.toDocument)
      (.start (.start s))).2.execute Session.peer .fin).2.far.ending] = _
    rw [(Link.fin_halfSent hhalf).2]

/-- Work with a payload of half the limit cannot be sent. -/
theorem encode_of_payload {message : WorkloadMessage} {i : Interaction} (hi : i ∈ message.shard)
    (hlong : 2 ^ 29 ≤ i.payload.length) :
    ∃ length, message.toDocument.encode = .error (.tooLarge length) ∧ Document.limit < length := by
  have hmem : 2 * i.encode.length + 2 ∈
      message.toDocument.elements.map fun octets => 2 * octets.length + 2 :=
    List.mem_map.mpr ⟨i.encode, List.mem_cons_of_mem _ (List.mem_cons_of_mem _
      (List.mem_map_of_mem hi)), rfl⟩
  have hlength : i.encode.length = 8 + i.payload.length := by
    rw [Interaction.encode, List.length_append, Bytes.length_leOctets]
  have hbeyond : Document.limit < message.toDocument.jsonLength := by
    have h := Json.le_listLength hmem
    have hlimit : Document.limit = 2 ^ 30 := rfl
    rw [Document.jsonLength]
    omega
  exact ⟨_, Document.encode_of_long hbeyond, hbeyond⟩

/-- Work for one secondary, of one payload that is too long. -/
def hugeWork : WorkloadMessage := ⟨"", .usual, [⟨.zero, List.replicate (2 ^ 29) 0⟩]⟩

/-- The request for that work is not written whole, and the secondary does not take the last request
behind it for what it is. -/
theorem finish_hugeWork :
    let p : Primary (Link (Session Unit Unit)) := .ofLinks [.start (.start Secondary.ignorant)]
    let given := p.distribute (Link.execute Session.peer) hugeWork.ledger hugeWork.parameters
      [hugeWork.shard]
    ∃ length, Document.limit < length ∧
      given.1 = .ok [⟨0, .workload, .comm (.document (.tooLarge length))⟩] ∧
      ¬ Request.Whole (Request.written [.workload hugeWork.toDocument]) ∧
      ((given.2.finish (Link.execute Session.peer)).seats.map fun seat => seat.link.far.ending) =
        [some (.error .io)] := by
  intro p given
  have hmem : ⟨.zero, List.replicate (2 ^ 29) 0⟩ ∈ hugeWork.shard := List.mem_cons_self
  obtain ⟨length, hd, hlong⟩ := encode_of_payload hmem (by rw [List.length_replicate])
  have hwritten : Request.written [.workload hugeWork.toDocument] = [Command.workload.octet] := by
    rw [Request.written, List.flatMap_singleton, Request.write_refused hd]
  obtain ⟨hgiven, hending⟩ := @finish_only _ _ Secondary.ignorant hugeWork _ hd
  refine ⟨length, hlong, hgiven, ?_, hending⟩
  rw [hwritten]
  exact Request.not_whole_append ⟨[], by simp, rfl⟩

end Primary

end LedgerLoad
