import LedgerLoad.Proofs.Wire.Stream

/-! # Documents on a stream

A body carries a document if it is the document's JSON text in packed form, however it was packed,
and both are within their limits (`Document.CarriedBy`). What `Document.encode` gives is such a
body, and it refuses a document only for its length. Main statement: `Wire.recvDocument_framing`, a
document is received from the frame of any body that carries it and from no part of that frame, and
a frame is taken whole whatever its body says. -/

namespace LedgerLoad

/-! ### Bodies -/

namespace Document

/-- A body that carries a document. -/
structure CarriedBy (d : Document) (body : Bytes) : Prop where
  text : d.json.length ≤ limit
  declared : Lz4.declared body = some d.json.length
  unpacked : Lz4.unpack body = some d.json
  within : body.length ≤ limit

/-- A body is the packed JSON text. -/
theorem carriedBy_of_encode {d : Document} {body : Bytes} (h : d.encode = .ok body) :
    d.CarriedBy body := by
  obtain ⟨hjson, rfl, hbody⟩ := encode_eq_ok h
  have hlimit : limit < 2 ^ 32 := by decide
  exact ⟨hjson, Lz4.declared_pack (by omega), Lz4.unpack_pack (by omega), hbody⟩

/-- What a body carries is read from it. -/
theorem CarriedBy.decode_eq {d : Document} {body : Bytes} (h : d.CarriedBy body) :
    decode body = .ok d := by
  have hjson := h.text
  rw [decode, h.declared]
  simp only
  rw [if_neg (by omega), h.unpacked]
  exact ofJson_json d

/-- A document is refused for its length only: that of its JSON text or that of its body. -/
theorem encode_eq_error {d : Document} {fault : DocumentFault} (h : d.encode = .error fault) :
    ∃ length, fault = .tooLarge length ∧ limit < length ∧
      (length = d.json.length ∨ length = (Lz4.pack d.json).length) := by
  unfold encode at h
  dsimp only at h
  split at h
  · rename_i hjson
    exact ⟨_, (Except.error.inj h).symm, hjson, Or.inl (length_json d).symm⟩
  · split at h
    · rename_i hbody
      exact ⟨_, (Except.error.inj h).symm, hbody, Or.inr rfl⟩
    · cases h

end Document

/-! ### Frames -/

namespace Wire

/-- What holds of a document on its way over a stream. -/
structure Framing (d : Document) : Prop where
  /-- A document of up to a quarter of the limit can be encoded. -/
  fits : (d.elements.map fun octets => octets.length + 2).sum ≤ 2 ^ 28 → ∃ body, d.encode = .ok body
  /-- A document that can be encoded is written as the frame of a body that carries it. -/
  written : ∀ body, d.encode = .ok body →
    d.CarriedBy body ∧ document d = .ok (bodyOctets body)
  /-- It cannot be encoded only if it is too long. -/
  refused : ∀ fault, d.encode = .error fault → ∃ length, fault = .tooLarge length ∧
    Document.limit < length ∧ (length = d.json.length ∨ length = (Lz4.pack d.json).length)
  /-- It is read from every body that carries it, and received from the frame, whatever follows. -/
  received : ∀ body, d.CarriedBy body → body.length ≤ 2 ^ 30 ∧ Document.decode body = .ok d ∧
    ∀ rest, recvDocument (bodyOctets body ++ rest) = (.ok d, rest)
  /-- A stream that ends inside the frame is broken. -/
  cut : ∀ body piece missing, d.CarriedBy body → missing ≠ [] →
    piece ++ missing = bodyOctets body → recvDocument piece = (.error .io, [])
  /-- A frame is taken whole, whether or not its body says anything. -/
  whole : ∀ body rest : Bytes, body.length ≤ 2 ^ 30 →
    (bodyOctets body).length = 4 + body.length ∧
      recvDocument (bodyOctets body ++ rest) =
        ((Document.decode body).mapError WireFault.document, rest)

theorem document_of_encode {d : Document} {body : Bytes} (h : d.encode = .ok body) :
    document d = .ok (bodyOctets body) := by
  rw [document, h]
  rfl

theorem length_bodyOctets (body : Bytes) : (bodyOctets body).length = 4 + body.length := by
  rw [bodyOctets, lengthOctets, List.length_append, Bytes.length_leOctets]

/-- **Documents are framed**: what is written for a document is received as that document, a part
of it is not received at all, and what follows a frame is not touched. -/
theorem recvDocument_framing (d : Document) : Framing d where
  fits h := Document.encode_of_short h
  written body h := ⟨Document.carriedBy_of_encode h, document_of_encode h⟩
  refused fault h := Document.encode_eq_error h
  received body h := by
    refine ⟨h.within, h.decode_eq, fun rest => ?_⟩
    rw [recvDocument_body h.within, h.decode_eq]
    rfl
  cut body piece missing h hmissing hpiece := Incoming.recvDocument_cut h.within hmissing hpiece
  whole body rest h := ⟨length_bodyOctets body, recvDocument_body h rest⟩

/-- A document with an empty element, before an octet that is not its own. -/
theorem recvDocument_framing_empty : ∃ body, Document.encode ⟨[[], [0, 255]]⟩ = .ok body ∧
    recvDocument (bodyOctets body ++ [7]) = (.ok ⟨[[], [0, 255]]⟩, [7]) := by
  have hframing := recvDocument_framing ⟨[[], [0, 255]]⟩
  obtain ⟨body, hbody⟩ := hframing.fits (by decide)
  exact ⟨body, hbody, (hframing.received body (hframing.written body hbody).1).2.2 [7]⟩

end Wire

end LedgerLoad
