import LedgerLoad.Workload.Message
import LedgerLoad.Proofs.Bytes.Utf8

/-! # Work on its way

A message of work that is read from its own document has the interactions that were sent, in their
order, each with its time in whole microseconds (`ofDocument_toDocument`). -/

namespace LedgerLoad.WorkloadMessage

theorem readShard_encode (index : Nat) (shard : Shard) :
    readShard index (shard.map Interaction.encode) = .ok (shard.map Interaction.sent) := by
  induction shard generalizing index with
  | nil => rfl
  | cons i shard ih =>
    rw [List.map_cons, readShard, Interaction.decode_encode]
    simp only [ih]
    rfl

theorem text_toDocument (m : WorkloadMessage) : m.toDocument.text 0 = .ok m.ledger := by
  simp [toDocument, Document.text, Utf8.decode_encode]

theorem require_toDocument (m : WorkloadMessage) : m.toDocument.require 2 = .ok () := by
  simp [toDocument, Document.require]

/-- **Work arrives as it was sent**: for the same ledger, with the same interactions. -/
theorem ofDocument_toDocument {m message : WorkloadMessage}
    (h : ofDocument m.toDocument = .ok message) :
    message.ledger = m.ledger ∧ message.shard = m.shard.map Interaction.sent := by
  have hdrop : m.toDocument.elements.drop 2 = m.shard.map Interaction.encode := rfl
  rw [ofDocument, require_toDocument, text_toDocument, hdrop, readShard_encode] at h
  simp only [bind, Except.bind] at h
  cases hparameters : Json.decode RunParameters.ofDatum (m.toDocument.elements.getD 1 []) with
  | error fault =>
    rw [hparameters] at h
    cases h
  | ok parameters =>
    rw [hparameters] at h
    obtain rfl := Except.ok.inj h
    exact ⟨rfl, rfl⟩

end LedgerLoad.WorkloadMessage
