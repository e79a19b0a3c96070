import LedgerLoad.Bytes
import LedgerLoad.Time.Duration

/-! # Scheduled interactions

An interaction is a payload that only its ledger understands, with the time at which it is due,
counted from the start of the run. On the way to a secondary it is the time in whole microseconds,
eight octets, and then the payload. -/

namespace LedgerLoad

/-- A payload and when it is due. -/
structure Interaction where
  due : Duration
  payload : Bytes
deriving DecidableEq, Repr

/-- The interactions of one secondary, in schedule order. -/
abbrev Shard := List Interaction

/-- An octet string too short to hold a time. -/
structure ShortInteraction where
  length : Nat
deriving DecidableEq, Repr

/-- The words that report a short interaction. -/
def ShortInteraction.message (fault : ShortInteraction) : String :=
  s!"Interaction too short: {fault.length} bytes"

namespace Interaction

/-- The greatest time that can be sent, in microseconds. -/
def greatestTime : Nat := 2 ^ 64 - 1

/-- The octets of an interaction; a time out of reach is sent as the greatest one. -/
def encode (i : Interaction) : Bytes :=
  Bytes.leOctets 8 (min i.due.micros greatestTime) ++ i.payload

/-- Reads an interaction. -/
def decode (octets : Bytes) : Except ShortInteraction Interaction :=
  if octets.length < 8 then .error ⟨octets.length⟩
  else .ok ⟨.ofMicros (Bytes.leValue (octets.take 8)), octets.drop 8⟩

/-- What is left of an interaction that was sent: the time in whole microseconds. -/
def sent (i : Interaction) : Interaction := ⟨.ofMicros (min i.due.micros greatestTime), i.payload⟩

theorem decode_encode (i : Interaction) : decode i.encode = .ok i.sent := by
  have hle : min i.due.micros greatestTime < 256 ^ 8 := by
    have : greatestTime < 256 ^ 8 := by decide
    omega
  unfold decode encode
  rw [if_neg (by simp), List.take_left' (by simp), List.drop_left' (by simp),
    Bytes.leValue_leOctets, Nat.mod_eq_of_lt hle]
  rfl

end Interaction

end LedgerLoad
