import LedgerLoad.Proofs.Primary.Link

/-! # What a primary believes

Behind a request stand whatever octets the far end has written, well or ill. `Believes` says for all
of them how the request went: which octets make it a success and what is taken of them, which make it
a refusal and for what reason, and that everything else is a fault of communication. Main statement:
`Link.execute_believes`, for every peer. -/

namespace LedgerLoad

/-! ### Documents that arrive -/

namespace Wire

/-- `Brings input d rest`: the octets begin with the whole frame of a document that can be read, and
`rest` stands behind it. -/
def Brings (input : Bytes) (d : Document) (rest : Bytes) : Prop :=
  ∃ body, body.length ≤ Document.limit ∧ Document.decode body = .ok d ∧
    input = bodyOctets body ++ rest

theorem recvDocument_of_brings {input rest : Bytes} {d : Document} (h : Brings input d rest) :
    recvDocument input = (.ok d, rest) := by
  obtain ⟨body, hlength, hdecode, rfl⟩ := h
  rw [recvDocument_body hlength, hdecode]
  rfl

theorem recvDocument_tooLong {length : Nat} (h : Document.limit < length) (hlt : length < 2 ^ 32)
    (rest : Bytes) : recvDocument (lengthOctets length ++ rest) =
      (.error (.document (.tooLarge length)), rest) := by
  obtain ⟨a, b, c, d, hoctets, hvalue⟩ := lengthOctets_eq length
  rw [Nat.mod_eq_of_lt hlt] at hvalue
  rw [hoctets]
  simp only [List.cons_append, List.nil_append, recvDocument, hvalue, if_pos h]

/-- A document is received if the octets bring one; if not, it is the stream or the document that is
at fault, and never a refusal. -/
theorem recvDocument_cases (input : Bytes) :
    (∃ d rest, Brings input d rest ∧ recvDocument input = (.ok d, rest)) ∨
      ∃ fault rest, recvDocument input = (.error fault, rest) ∧
        LinkFault.ofWire fault = .comm fault := by
  rcases body_cases input with ⟨body, rest, hbody, rfl⟩ | ⟨length, rest, hlimit, hlt, rfl⟩ | hcut
  · have hrecv := recvDocument_body hbody rest
    cases hdecode : Document.decode body with
    | ok d => exact Or.inl ⟨d, rest, ⟨body, hbody, hdecode, rfl⟩, by rw [hrecv, hdecode]; rfl⟩
    | error fault => exact Or.inr ⟨.document fault, rest, by rw [hrecv, hdecode]; rfl, rfl⟩
  · exact Or.inr ⟨_, rest, recvDocument_tooLong hlimit hlt rest, rfl⟩
  · obtain ⟨body, missing, hbody, hmissing, hpiece⟩ := hcut
    exact Or.inr ⟨.io, [], Incoming.recvDocument_cut hbody hmissing hpiece, rfl⟩

/-- The octets bring at most one document. -/
theorem Brings.unique {input rest rest' : Bytes} {d d' : Document} (h : Brings input d rest)
    (h' : Brings input d' rest') : d = d' ∧ rest = rest' := by
  have heq := (recvDocument_of_brings h).symm.trans (recvDocument_of_brings h')
  exact ⟨Except.ok.inj (congrArg Prod.fst heq), congrArg Prod.snd heq⟩

theorem not_brings {input rest' : Bytes} {fault : WireFault}
    (h : recvDocument input = (.error fault, rest')) {d : Document} {rest : Bytes} :
    ¬ Brings input d rest := by
  intro hbrings
  rw [recvDocument_of_brings hbrings] at h
  cases congrArg Prod.fst h

/-- The reason of a refusal is its first element, if that is a text. -/
theorem reasonOf_eq (d : Document) :
    reasonOf d = (d.elements.head?.bind Utf8.decode?).getD "unspecified" := by
  unfold reasonOf Document.text
  cases d.elements with
  | nil => rfl
  | cons octets others =>
    simp only [List.length_cons, Nat.zero_lt_succ, getElem?_pos, List.getElem_cons_zero,
      List.head?_cons, Option.bind_some, Utf8.decode?]
    cases Utf8.decode octets <;> rfl

end Wire

theorem SecondaryResult.ofDocument_eq_ok_iff {d : Document} {result : SecondaryResult} :
    ofDocument d = .ok result ↔
      ∃ first, d.elements.head? = some first ∧ Json.decode ofDatum first = .ok result := by
  unfold ofDocument
  cases d.elements with
  | nil => simp
  | cons octets others =>
    simp only [List.head?_cons, Option.some.injEq, exists_eq_left']
    cases Json.decode ofDatum octets <;> simp

/-! ### Replies -/

namespace Request

variable {δ : Type} {r : Request δ}

theorem receive_nil (hfin : r.command ≠ .fin) : r.receive [] = (.error .io, []) := by
  cases r with
  | fin => exact absurd rfl hfin
  | _ => rfl

theorem receiveResult_of_brings {input rest : Bytes} {d : Document}
    (h : Wire.Brings input d rest) : receiveResult input =
      (((SecondaryResult.ofDocument d).map some).mapError WireFault.document, rest) := by
  rw [receiveResult, Wire.recvDocument_of_brings h]
  dsimp only
  cases SecondaryResult.ofDocument d <;> rfl

theorem receive_unknown (hfin : r.command ≠ .fin) {b : UInt8} (hok : b ≠ 0x99) (herr : b ≠ 0x98)
    (tail : Bytes) : r.receive (b :: tail) = (.error (.unknownReply b), tail) := by
  have hreply : Reply.ofOctet? b = none := by
    simp [Reply.ofOctet?, Reply.octet, Ne.symm hok, Ne.symm herr]
  cases r with
  | fin => exact absurd rfl hfin
  | _ => simp [receive, Wire.recvReply, hreply]

end Request

/-- `Believes command input response rest`: once it has sent a request that is to be answered, a
primary before these octets gives this response and leaves this rest. -/
structure Believes (command : Command) (input : Bytes) (response : Response) (rest : Bytes) :
    Prop where
  /-- A request that brings no result has gone well exactly if the octet for it stands first. -/
  plain : command ≠ .results → ∀ x, response = .ok x ↔ x = none ∧ ∃ tail, input = 0x99 :: tail
  /-- Only that octet is taken then. -/
  taken : command ≠ .results → ∀ tail, input = 0x99 :: tail → rest = tail
  /-- A request for results has gone well exactly if behind that octet stands a whole document, of
  which the first element can be read as a result; that is the result. -/
  result : command = .results → ∀ x, response = .ok x ↔ ∃ tail d behind first result,
    input = 0x99 :: tail ∧ Wire.Brings tail d behind ∧ d.elements.head? = some first ∧
      Json.decode SecondaryResult.ofDatum first = .ok result ∧ x = some result
  /-- Nothing has gone well behind the octet for a refusal. -/
  bad : ∀ tail, input = 0x98 :: tail → ∀ x, response ≠ .ok x
  /-- The secondary has refused exactly if a whole document stands behind the octet for it; the
  reason is its first element, if that is a text. -/
  refused : ∀ reason, response = .error (.errorReply reason) ↔ ∃ tail d behind,
    input = 0x98 :: tail ∧ Wire.Brings tail d behind ∧
      reason = (d.elements.head?.bind Utf8.decode?).getD "unspecified"
  /-- Any other octet is a fault of communication. -/
  unknown : ∀ b tail, input = b :: tail → b ≠ 0x99 → b ≠ 0x98 →
    response = .error (.comm (.unknownReply b))
  /-- So is the end of the stream. -/
  ended : input = [] → response = .error (.comm .io)
  /-- What is neither a success nor a refusal is a fault of communication. -/
  otherwise : ∀ fault, response = .error fault →
    (∃ reason, fault = .errorReply reason) ∨ ∃ cause, fault = .comm cause

namespace Believes

variable {command : Command} {tail : Bytes}

theorem nil : Believes command [] (.error (.comm .io)) [] := by
  constructor <;> simp

theorem of_unknown {b : UInt8} (hok : b ≠ 0x99) (herr : b ≠ 0x98) :
    Believes command (b :: tail) (.error (.comm (.unknownReply b))) tail := by
  constructor <;> simp [hok, herr]

theorem of_ok (h : command ≠ .results) :
    Believes command (0x99 :: tail) (.ok none) tail := by
  refine { plain := fun _ x => ?_, taken := by simp, result := fun hr => absurd hr h,
           bad := by simp, refused := by simp, unknown := by simp, ended := by simp,
           otherwise := by simp }
  constructor
  · intro hx
    exact ⟨(Except.ok.inj hx).symm, tail, rfl⟩
  · rintro ⟨rfl, -⟩
    rfl

/-- Behind the octet for good, a result is read off the document that stands there. -/
theorem of_result {d : Document} {behind : Bytes} (hresults : command = .results)
    (hbrings : Wire.Brings tail d behind) :
    Believes command (0x99 :: tail)
      ((((SecondaryResult.ofDocument d).map some).mapError WireFault.document).mapError
        LinkFault.ofWire) behind := by
  have hread (x : Option SecondaryResult) :
      (((SecondaryResult.ofDocument d).map some).mapError WireFault.document).mapError
        LinkFault.ofWire = .ok x ↔
          ∃ result, SecondaryResult.ofDocument d = .ok result ∧ x = some result := by
    cases SecondaryResult.ofDocument d <;> simp [Except.map, Except.mapError, eq_comm]
  refine { plain := fun h => absurd hresults h, taken := fun h => absurd hresults h,
           result := fun _ x => ?_, bad := by simp, refused := fun reason => ?_,
           unknown := by simp, ended := by simp, otherwise := fun fault h => ?_ }
  · rw [hread]
    constructor
    · rintro ⟨result, hresult, rfl⟩
      obtain ⟨first, hfirst, hdecode⟩ := SecondaryResult.ofDocument_eq_ok_iff.mp hresult
      exact ⟨tail, d, behind, first, result, rfl, hbrings, hfirst, hdecode, rfl⟩
    · rintro ⟨tail', d', behind', first, result, htail, hbrings', hfirst, hdecode, rfl⟩
      obtain rfl := (List.cons.inj htail).2
      obtain ⟨rfl, -⟩ := hbrings.unique hbrings'
      exact ⟨result, SecondaryResult.ofDocument_eq_ok_iff.mpr ⟨first, hfirst, hdecode⟩, rfl⟩
  · cases SecondaryResult.ofDocument d <;>
      simp [Except.map, Except.mapError, LinkFault.ofWire]
  · cases hd : SecondaryResult.ofDocument d with
    | ok result =>
      rw [hd] at h
      cases h
    | error f =>
      rw [hd] at h
      exact Or.inr ⟨_, (Except.error.inj h).symm⟩

/-- Behind the octet for good, no result is read where there is no document. -/
theorem of_noResult {fault : WireFault} {rest : Bytes} (hresults : command = .results)
    (h : Wire.recvDocument tail = (.error fault, rest)) :
    Believes command (0x99 :: tail) (.error (.comm fault)) rest := by
  refine { plain := fun h => absurd hresults h, taken := fun h => absurd hresults h,
           result := fun _ x => ?_, bad := by simp, refused := by simp,
           unknown := by simp, ended := by simp, otherwise := by simp }
  refine ⟨fun h => (by cases h), ?_⟩
  rintro ⟨tail', d, behind, first, result, htail, hbrings, -⟩
  obtain rfl := (List.cons.inj htail).2
  exact absurd hbrings (Wire.not_brings h)

theorem of_refused {d : Document} {behind : Bytes} (hbrings : Wire.Brings tail d behind) :
    Believes command (0x98 :: tail) (.error (.errorReply (Wire.reasonOf d))) behind := by
  refine { plain := by simp, taken := by simp, result := by simp, bad := by simp,
           refused := fun reason => ?_, unknown := by simp, ended := by simp, otherwise := by simp }
  rw [Wire.reasonOf_eq]
  constructor
  · intro h
    exact ⟨tail, d, behind, rfl, hbrings, (LinkFault.errorReply.inj (Except.error.inj h)).symm⟩
  · rintro ⟨tail', d', behind', htail, hbrings', rfl⟩
    obtain rfl := (List.cons.inj htail).2
    obtain ⟨rfl, -⟩ := hbrings.unique hbrings'
    rfl

/-- A refusal without a document is a fault of communication. -/
theorem of_noReason {fault : WireFault} {rest : Bytes}
    (h : Wire.recvDocument tail = (.error fault, rest)) :
    Believes command (0x98 :: tail) (.error (.comm fault)) rest := by
  refine { plain := by simp, taken := by simp, result := by simp, bad := by simp,
           refused := fun reason => ⟨fun h => (by cases h), ?_⟩, unknown := by simp,
           ended := by simp, otherwise := by simp }
  rintro ⟨tail', d, behind, htail, hbrings, -⟩
  obtain rfl := (List.cons.inj htail).2
  exact absurd hbrings (Wire.not_brings h)

end Believes

/-- What a request that is to be answered makes of the octets before it. -/
theorem Request.receive_believes {δ : Type} {r : Request δ} (hfin : r.command ≠ .fin)
    (input : Bytes) : Believes r.command input
      ((r.receive input).1.mapError LinkFault.ofWire) (r.receive input).2 := by
  match input with
  | [] =>
    rw [receive_nil hfin]
    exact Believes.nil
  | b :: tail =>
    by_cases hok : b = 0x99
    · subst hok
      by_cases hresults : r.command = .results
      · rw [show (0x99 : UInt8) = Reply.ok.octet from rfl, receive_results hresults]
        rcases Wire.recvDocument_cases tail with
            ⟨d, behind, hbrings, hrecv⟩ | ⟨fault, rest, hrecv, hfault⟩
        · rw [receiveResult_of_brings hbrings]
          exact Believes.of_result hresults hbrings
        · rw [receiveResult, hrecv]
          show Believes _ _ (.error (LinkFault.ofWire fault)) rest
          rw [hfault]
          exact Believes.of_noResult hresults hrecv
      · rw [show (0x99 : UInt8) = Reply.ok.octet from rfl, receive_ok hfin hresults]
        exact Believes.of_ok hresults
    · by_cases herr : b = 0x98
      · subst herr
        rw [show (0x98 : UInt8) = Reply.err.octet from rfl, receive_err hfin]
        rcases Wire.recvDocument_cases tail with
            ⟨d, behind, hbrings, hrecv⟩ | ⟨fault, rest, hrecv, hfault⟩
        · rw [hrecv]
          exact Believes.of_refused hbrings
        · rw [hrecv]
          show Believes _ _ (.error (LinkFault.ofWire fault)) rest
          rw [hfault]
          exact Believes.of_noReason hrecv
      · rw [receive_unknown hfin hok herr]
        exact Believes.of_unknown hok herr

/-! ### Any peer -/

namespace Link

variable {π : Type}

/-- A request that is sent meets what was unread and what the far end writes upon it. -/
theorem execute_sent (peer : Peer π) {r : Request Document} {l : Link π} (hopen : l.closed = false)
    (hthere : peer.gone l.far = false) (hsent : r.write.fault = none) (hfin : r.command ≠ .fin) :
    l.execute peer r =
      ((r.receive (l.unread ++ (peer.hear r.write.octets l.far).1)).1.mapError LinkFault.ofWire,
        { l with
          far := (peer.hear r.write.octets l.far).2
          unread := (r.receive (l.unread ++ (peer.hear r.write.octets l.far).1)).2 }) := by
  simp [execute, exchange, hopen, hthere, hsent, hfin]

/-- **What a primary believes**: whatever the far end is and whatever it writes, a request that was
sent whole goes as the octets behind it say. -/
theorem execute_believes (peer : Peer π) (r : Request Document) (l : Link π)
    (hopen : l.closed = false) (hthere : peer.gone l.far = false) (hsent : r.write.fault = none)
    (hfin : r.command ≠ .fin) :
    Believes r.command (l.unread ++ (peer.hear r.write.octets l.far).1)
      (l.execute peer r).1 (l.execute peer r).2.unread := by
  rw [execute_sent peer hopen hthere hsent hfin]
  exact Request.receive_believes hfin _

/-- A peer that writes the same octets upon anything that it hears. -/
def chanting (octets : Bytes) : Peer Unit := ⟨fun _ => false, fun _ _ => (octets, ()), id⟩

/-- A refusal of which the document breaks off is no refusal, and a good octet is believed
whatever stands behind it. -/
theorem execute_believes_chanting :
    (∃ cause, ((start ()).execute (chanting [0x98, 0x01]) .prepare).1 = .error (.comm cause)) ∧
      ((start ()).execute (chanting [0x99, 0x98]) .run).1 = .ok none ∧
      ((start ()).execute (chanting [0x99, 0x98]) .run).2.unread = [0x98] := by
  have hbad := execute_believes (chanting [0x98, 0x01]) .prepare (start ()) rfl rfl rfl (by decide)
  have hgood := execute_believes (chanting [0x99, 0x98]) .run (start ()) rfl rfl rfl (by decide)
  refine ⟨?_, (hgood.plain (by decide) none).mpr ⟨rfl, [0x98], rfl⟩,
    hgood.taken (by decide) [0x98] rfl⟩
  cases hresponse : ((start ()).execute (chanting [0x98, 0x01]) .prepare).1 with
  | ok x => exact absurd hresponse (hbad.bad [0x01] rfl x)
  | error fault =>
    rcases hbad.otherwise fault hresponse with ⟨reason, rfl⟩ | ⟨cause, rfl⟩
    · obtain ⟨tail, d, behind, htail, hbrings, -⟩ := (hbad.refused reason).mp hresponse
      obtain rfl := (List.cons.inj htail).2
      exact absurd hbrings (Wire.not_brings rfl)
    · exact ⟨cause, rfl⟩

end Link

end LedgerLoad
