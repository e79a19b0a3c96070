import LedgerLoad.Adapter.Transaction
import LedgerLoad.Bytes
import LedgerLoad.Timing
import LedgerLoad.Time.Duration

/-! # Scripts of clients

What a client does with an interaction is a script: it enters events with the timer, sleeps, and
looks at and changes what it shares with the client's other interactions. A script is finite along
every path, so that every interaction comes to an end. -/

namespace LedgerLoad

/-- Why an adapter cannot do what it is asked. -/
inductive AdapterFault
  | unsupported (capability : String)
  | config (reason : String)
  | transport (reason : String)
  | unknownHandle (reason : String)
  | encode (reason : String)
deriving DecidableEq, Repr

/-- The words that report a fault. -/
def AdapterFault.message : AdapterFault → String
  | .unsupported capability => "Capability not supported: " ++ capability
  | .config reason => "Invalid adapter configuration: " ++ reason
  | .transport reason => "Ledger transport failure: " ++ reason
  | .unknownHandle reason => "Unknown handle: " ++ reason
  | .encode reason => "Encoding failed: " ++ reason

/-- Why a payload is no interaction. -/
inductive PayloadFault
  | malformed (reason : String)
  | unknownKind (kind : String)
deriving DecidableEq, Repr

/-- The words that report a fault. -/
def PayloadFault.message : PayloadFault → String
  | .malformed reason => "Malformed payload: " ++ reason
  | .unknownKind kind => "Unrecognized interaction kind: " ++ kind

/-- What a client made of a payload. A client gets back only what it made, but must refuse what it
did not make. -/
inductive Handle
  | number (n : Nat)
  | text (s : String)
  | transaction (tx : Transaction)
deriving DecidableEq, Repr

namespace Handle

/-- The number in a handle that holds one. -/
def number? : Handle → Option Nat
  | .number n => some n
  | _ => none

/-- The text in a handle that holds one. -/
def text? : Handle → Option String
  | .text s => some s
  | _ => none

/-- The transaction in a handle that holds one. -/
def transaction? : Handle → Option Transaction
  | .transaction tx => some tx
  | _ => none

/-- How a handle is shown; its content is nobody's business. -/
def shown (_ : Handle) : String := "InteractionHandle(..)"

end Handle

/-- What a client does with an interaction. The interactions of a client share a `σ`. -/
inductive Script (σ : Type) : Type
  /-- The end: all well. -/
  | done
  /-- The end: the adapter reports a fault. -/
  | fail (fault : AdapterFault)
  /-- The end: the client itself breaks down. -/
  | crash
  /-- Enters an event with the timer, which may find it out of order. -/
  | record (event : Event) (next : Except TimingViolation Unit → Script σ)
  /-- Sleeps for a span of time. -/
  | sleep (span : Duration) (next : Script σ)
  /-- Changes what is shared, in one step, and goes on with what it was before. -/
  | access (change : σ → σ) (next : σ → Script σ)

/-- A client: what it makes of payloads, and what it does with what it made. -/
structure Client (σ : Type) where
  decode : Bytes → Except PayloadFault Handle
  trigger : Handle → Script σ

/-- What a client is asked. -/
inductive Client.Call
  | decode (payload : Bytes)
  | trigger (handle : Handle)
deriving DecidableEq, Repr

end LedgerLoad
