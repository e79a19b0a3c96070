import LedgerLoad.Adapter.BuiltIn
import LedgerLoad.Proofs.Lane.Walk
import LedgerLoad.Proofs.Secondary.Serving
import LedgerLoad.Proofs.Wire.Framing
import LedgerLoad.Proofs.Workload.RoundTrip

/-! # Requests for results that are answered in half

A secondary that holds a result accepts the request for it before the document of the result is
made, and the document may still be refused for its length. Main statement: `Session.results_told`,
the answer is one whole reply and the session goes on exactly if the document can be made; else the
acceptance stands alone and the session ends. `Secondary.serve_idle` is a run in which this comes of
the number of lanes alone. -/

namespace LedgerLoad

variable {σ β : Type}

/-! ### The answer -/

/-- The result that a secondary holds, when its lanes are at work or have been. -/
def Stage.held? : Stage σ → Option SecondaryResult
  | .running crew => some crew.finish.result
  | .finished result => some result
  | _ => none

theorem Secondary.answer_held {stage : Stage σ} {r : SecondaryResult} (h : stage.held? = some r)
    (s : Secondary σ β) (clock : Duration) :
    s.answer clock stage .results = (.result r, .finished r) := by
  cases stage with
  | running crew =>
    obtain rfl := Option.some.inj h
    rfl
  | finished result =>
    obtain rfl := Option.some.inj h
    rfl
  | _ => cases h

/-- A result is written whole behind its acceptance, or its acceptance is written alone. -/
theorem Answer.write_result_eq (r : SecondaryResult) : (Answer.result r).write =
    match r.toDocument.encode with
    | .ok body => ⟨Reply.ok.octet :: Wire.bodyOctets body, none⟩
    | .error fault => ⟨[Reply.ok.octet], some fault⟩ := by
  rw [write_result, Wire.octetThenDocument, Wire.document]
  cases r.toDocument.encode <;> rfl

/-- The acceptance alone is no whole reply to the request for results. -/
theorem Reply.not_whole_ok : ¬ Reply.Whole .results [Reply.ok.octet] := by
  intro h
  generalize hoctets : [Reply.ok.octet] = octets at h
  cases h with
  | done h => exact h rfl
  | result _ hframe =>
    obtain ⟨body, -, rfl⟩ := Wire.document_eq_ok hframe
    have hlength := congrArg List.length (List.cons.inj hoctets).2
    rw [Wire.length_bodyOctets, List.length_nil] at hlength
    omega
  | refused => cases (List.cons.inj hoctets).1

/-! ### The session -/

namespace Session

variable {s : Secondary σ β} {clock : Duration} {stage : Stage σ} {rest output : Bytes}
  {r : SecondaryResult} {x : Session σ β}

/-- A result whose document can be made is written behind its acceptance; the session goes on. -/
theorem results_whole {body : Bytes} (h : x.At s clock stage (Command.results.octet :: rest) output)
    (hheld : stage.held? = some r) (hbody : r.toDocument.encode = .ok body) :
    ∃ (later : Session σ β) (moment : Duration), x.proceed none = later.proceed none ∧
      later.At s moment (.finished r) rest (output ++ Reply.ok.octet :: Wire.bodyOctets body) := by
  have hof : Incoming.of (Command.results.octet :: rest) = .request .results rest := rfl
  have hanswer := s.answer_held hheld (Secondary.momentOf clock stage .results)
  have hwrite := Answer.write_result_eq r
  rw [hbody] at hwrite
  obtain ⟨later, hproceed, hat⟩ := proceed_at h hof (by decide) (by rw [hanswer, hwrite])
  rw [hanswer, hwrite] at hat
  exact ⟨later, _, hproceed, hat⟩

/-- Else the acceptance is written alone, and the session ends with `rest` unread. -/
theorem results_cut {fault : DocumentFault}
    (h : x.At s clock stage (Command.results.octet :: rest) output) (hheld : stage.held? = some r)
    (hfault : r.toDocument.encode = .error fault) :
    (x.proceed none).output = output ++ [Reply.ok.octet] ∧
      (x.proceed none).ending = some (.error (.document fault)) ∧
      (x.proceed none).input = rest := by
  have hof : Incoming.of (Command.results.octet :: rest) = .request .results rest := rfl
  have hanswer := s.answer_held hheld (Secondary.momentOf clock stage .results)
  have hwrite := Answer.write_result_eq r
  rw [hfault] at hwrite
  obtain ⟨houtput, hending, hinput⟩ := proceed_cut h hof (by decide) (by rw [hanswer, hwrite])
  rw [hanswer, hwrite] at houtput
  exact ⟨houtput, hending, hinput⟩

/-- What comes of the request for the result `r` that a session meets before `rest`. -/
structure ResultsTold (x : Session σ β) (s : Secondary σ β) (rest output : Bytes)
    (r : SecondaryResult) : Prop where
  /-- A document that can be made is written whole, and the session goes on behind the request. -/
  told : ∀ body, r.toDocument.encode = .ok body →
    Reply.Whole .results (Reply.ok.octet :: Wire.bodyOctets body) ∧
    ∃ (later : Session σ β) (moment : Duration), x.proceed none = later.proceed none ∧
      later.At s moment (.finished r) rest (output ++ Reply.ok.octet :: Wire.bodyOctets body)
  /-- Of a document that is too long only the acceptance is written, which is no reply; the session
  ends, and what stands behind the request is not read. -/
  cut : ∀ fault, r.toDocument.encode = .error fault →
    (∃ length, fault = .tooLarge length ∧ Document.limit < length) ∧
    ¬ Reply.Whole .results [Reply.ok.octet] ∧
    (x.proceed none).output = output ++ [Reply.ok.octet] ∧
    (x.proceed none).ending = some (.error (.document fault)) ∧ (x.proceed none).input = rest

/-- **Results are answered whole exactly if their document can be made**, in every session of a
secondary that holds them. -/
theorem results_told (h : x.At s clock stage (Command.results.octet :: rest) output)
    (hheld : stage.held? = some r) : x.ResultsTold s rest output r := by
  constructor
  · intro body hbody
    exact ⟨.result rfl (Wire.document_of_encode hbody), results_whole h hheld hbody⟩
  · intro fault hfault
    obtain ⟨length, htooLarge, hlong, -⟩ := Document.encode_eq_error hfault
    exact ⟨⟨length, htooLarge, hlong⟩, Reply.not_whole_ok, results_cut h hheld hfault⟩

/-- A secondary that has nothing to tell is asked for it, and hears the last request behind. -/
theorem results_told_empty : ∃ body, SecondaryResult.empty.toDocument.encode = .ok body ∧
    Reply.Whole .results (Reply.ok.octet :: Wire.bodyOctets body) ∧
    ∃ (later : Session Unit Unit) (moment : Duration),
      later.At Secondary.ignorant moment (.finished .empty) [Command.fin.octet]
        (Reply.ok.octet :: Wire.bodyOctets body) := by
  obtain ⟨body, hbody⟩ : ∃ body, SecondaryResult.empty.toDocument.encode = .ok body :=
    Document.encode_of_short (by decide +kernel)
  have hat : ({ Session.start Secondary.ignorant with
      stage := .finished .empty, input := [Command.results.octet, Command.fin.octet] } :
        Session Unit Unit).At Secondary.ignorant .zero (.finished .empty)
        [Command.results.octet, Command.fin.octet] [] := ⟨rfl, rfl, .still rfl, rfl, rfl, rfl, rfl⟩
  obtain ⟨hwhole, later, moment, -, hlater⟩ := (results_told hat rfl).told body hbody
  exact ⟨body, hbody, hwhole, later, moment, hlater⟩

end Session

/-! ### Lanes without work -/

/-- Lanes without work leave nothing. -/
theorem Crew.result_idle (client : Client σ) (shared : σ) (settings : LaneSettings)
    (origin : Duration) : (start [] client shared settings origin).finish.result =
      ⟨List.replicate settings.count ⟨[]⟩⟩ := by
  rw [result]
  refine congrArg SecondaryResult.mk (List.eq_replicate_iff.mpr ⟨?_, fun r hr => ?_⟩)
  · rw [List.length_map]
    exact length_outcomes_finish
  · obtain ⟨outcome, houtcome, rfl⟩ := List.mem_map.mp hr
    obtain ⟨id, hid⟩ := List.mem_iff_getElem?.mp houtcome
    have houtcomes : (start [] client shared settings origin).finish.outcomes.length =
      settings.count := length_outcomes_finish
    have hcount : id < settings.count := houtcomes ▸ (List.getElem?_eq_some_iff.mp hid).1
    have hleave : ∃ outcome, (start [] client shared settings origin).finish.outcomes[id]? =
        some outcome ∧ Lane.Leaves ⟨id, [], client, settings⟩ origin outcome := leaves_finish hcount
    obtain ⟨outcome', houtcome', hleaves⟩ := hleave
    obtain rfl := Option.some.inj (hid.symm.trans houtcome')
    have hlength : outcome.result.interactions.length = 0 := by
      rw [hleaves.length hcount]
      simp [Lane.length, RoundRobin.shareLength]
    exact congrArg LaneResult.mk (List.eq_nil_of_length_eq_zero hlength)

theorem SecondaryResult.documentLength_idle {lanes : Nat} (h : 0 < lanes) :
    documentLength ⟨List.replicate lanes ⟨[]⟩⟩ = 40 * lanes + 30 := by
  have hlane : LaneResult.textLength ⟨[]⟩ = 19 := by decide
  have hname : "clients".utf8ByteSize = 7 := by decide
  rw [documentLength, List.map_replicate, hlane, Json.listLength_replicate h, Json.entryLength,
    hname]
  simp only [Json.listLength_cons, List.map_nil, List.sum_nil]
  omega

/-- The results of too many lanes without work make no document. -/
theorem SecondaryResult.encode_idle {lanes : Nat} (h : Document.limit < 40 * lanes + 30) :
    (toDocument ⟨List.replicate lanes ⟨[]⟩⟩).encode = .error (.tooLarge (40 * lanes + 30)) := by
  have hlimit : Document.limit = 2 ^ 30 := rfl
  have hlength : (toDocument ⟨List.replicate lanes ⟨[]⟩⟩).jsonLength = 40 * lanes + 30 := by
    rw [jsonLength_toDocument, documentLength_idle (by omega)]
  rw [Document.encode_of_long (by rw [hlength]; exact h), hlength]

namespace Secondary

variable {s : Secondary σ β} {d : Document} {body : Bytes} {work : Work σ}

/-- A secondary that is prepared, given work it can take, and told to run has its lanes at work. -/
theorem at_work (hbody : d.encode = .ok body) (hwork : s.workOf d = .ok work) (rest : Bytes) :
    ∃ running : Session σ β,
      ((Session.start s).arrive
        ([Request.prepare, .workload body, .run].flatMap Request.frame ++ rest)).proceed none =
          running.proceed none ∧
      running.At s .zero
        (.running (.start work.shard work.client work.shared work.settings .zero)) rest
        (List.replicate 3 Reply.ok.octet) := by
  have hadmissible : ∀ r ∈ [Request.prepare, .workload body, .run], r.Admissible := by
    simp only [List.mem_cons, List.not_mem_nil, or_false]
    rintro r (rfl | rfl | rfl)
    · trivial
    · exact (Document.encode_eq_ok hbody).2.2
    · trivial
  have harrived : [Request.prepare, .workload body, .run].map Request.arrived =
      [.prepare, .workload (.ok d), .run] := by
    simp only [List.map_cons, List.map_nil, Request.arrived, Document.decode_encode hbody]
  have hcalls : s.calls .zero .connected [.prepare, .workload (.ok d), .run] =
      [⟨.zero, .prepare⟩, ⟨.zero, .workload (.ok d)⟩, ⟨.zero, .run⟩] := rfl
  -- Each of the three is accepted.
  have hprepare : s.answer .zero .connected .prepare = (.ok, .prepared) := rfl
  have hload : s.answer .zero .prepared (.workload (.ok d)) = (.ok, .loaded work) :=
    (Accepts.workload rfl hwork).answer_eq
  have hrun : s.answer .zero (.loaded work) .run =
      (.ok, .running (.start work.shard work.client work.shared work.settings .zero)) := rfl
  obtain ⟨running, hproceed, hat⟩ := Session.proceed_frames hadmissible
    (Session.at_start s _) (by
      rw [harrived, hcalls]
      simp only [answers, hprepare, hload, hrun, List.mem_cons, List.not_mem_nil, or_false]
      rintro a (rfl | rfl | rfl) <;> rfl)
  rw [harrived, hcalls] at hat
  simp only [answers, after, hprepare, hload, hrun] at hat
  exact ⟨running, hproceed, hat⟩

/-- **Lanes without work can be too many**: each leaves a piece of text, and from some number of
them on no result is ever written, and the session ends on the request for it. -/
theorem serve_idle (hbody : d.encode = .ok body) (hwork : s.workOf d = .ok work)
    (hidle : work.shard = []) (hlong : Document.limit < 40 * work.settings.count + 30) :
    let input := [Request.prepare, .workload body, .run, .results].flatMap Request.frame
    (s.serve input).output = List.replicate 4 Reply.ok.octet ∧ (s.serve input).ending =
      some (.error (.document (.tooLarge (40 * work.settings.count + 30)))) := by
  intro input
  have hinput : input = [Request.prepare, .workload body, .run].flatMap Request.frame ++
      [Command.results.octet] := by
    simp [input, Request.frame, Request.command]
  obtain ⟨running, hproceed, hat⟩ := at_work hbody hwork [Command.results.octet]
  rw [← hinput] at hproceed
  have hheld : (Stage.running (.start work.shard work.client work.shared work.settings .zero) :
      Stage σ).held? = some ⟨List.replicate work.settings.count ⟨[]⟩⟩ := by
    rw [Stage.held?, hidle, Crew.result_idle]
  obtain ⟨houtput, hending, -⟩ :=
    Session.results_cut hat hheld (SecondaryResult.encode_idle hlong)
  have hserve : s.serve input = running.proceed none := by
    show ((Session.start s).arrive input).close = _
    rw [Session.close, hproceed, hending]
    rfl
  rw [hserve]
  exact ⟨houtput, hending⟩

/-- A secondary with the built-in adapters and more lanes than it can tell of. -/
def crowd : Secondary Mock.Ledger Mock.Created :=
  ⟨builtIn, (SecondarySettings.usual "primary" 7000).withLanes 26843545⟩

/-- It is given no work, and asked for the result. -/
theorem serve_crowd : ∃ body,
    (WorkloadMessage.toDocument ⟨"mock", .usual, []⟩).encode = .ok body ∧
    let input := [Request.prepare, .workload body, .run, .results].flatMap Request.frame
    (crowd.serve input).output = List.replicate 4 Reply.ok.octet ∧
      ¬ Reply.Whole .results [Reply.ok.octet] ∧
      (crowd.serve input).ending = some (.error (.document (.tooLarge 1073741830))) := by
  obtain ⟨body, hbody⟩ : ∃ body,
      (WorkloadMessage.toDocument ⟨"mock", .usual, []⟩).encode = .ok body :=
    Document.encode_of_short (by decide +kernel)
  have hmessage : WorkloadMessage.ofDocument (WorkloadMessage.toDocument ⟨"mock", .usual, []⟩) =
      .ok ⟨"mock", .usual, []⟩ := WorkloadMessage.ofDocument_toDocument_eq (by decide) (by decide)
  obtain ⟨client, shared, hclient⟩ : ∃ client shared,
      Mock.adapter.client (crowd.view .usual) = .ok (client, shared) := ⟨_, _, rfl⟩
  have hwork : crowd.workOf (WorkloadMessage.toDocument ⟨"mock", .usual, []⟩) =
      .ok ⟨client, shared, [], crowd.laneSettings .usual⟩ :=
    workOf_eq_ok.mpr ⟨_, Mock.adapter, client, shared, hmessage, rfl, hclient, rfl⟩
  have hcount : (crowd.laneSettings .usual).count = 26843545 := by decide
  obtain ⟨houtput, hending⟩ := serve_idle (s := crowd) hbody hwork rfl (by
    show Document.limit < 40 * (crowd.laneSettings .usual).count + 30
    rw [hcount]
    decide)
  refine ⟨body, hbody, houtput, Reply.not_whole_ok, ?_⟩
  rw [hending]
  show some (Except.error (WireFault.document
    (.tooLarge (40 * (crowd.laneSettings .usual).count + 30)))) = _
  rw [hcount]

end Secondary

end LedgerLoad
