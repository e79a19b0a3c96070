import LedgerLoad.Adapter.Connection
import LedgerLoad.Adapter.Script
import LedgerLoad.Text.Quoted

/-! # The contract of an adapter

An adapter knows one type of ledger. On the primary it gives a builder, which creates accounts and
contracts and writes payloads; on each secondary it gives a client, which carries them out. What
the calls to a builder change is a `β`, and what the interactions of a client share is a `σ`. -/

namespace LedgerLoad

/-- What a builder can do besides the necessary. -/
structure Capabilities where
  resources : Bool
  customInteractions : Bool
deriving DecidableEq, Repr

/-- A call to a builder: an answer and what the builder is afterwards, or a fault. -/
abbrev BuilderCall (β α : Type) := β → Except AdapterFault (α × β)

/-- The side of an adapter that sets up a ledger. -/
structure Builder (β : Type) where
  capabilities : Capabilities
  createAccount : (stake : Nat) → BuilderCall β Nat
  createContract : (name : String) → BuilderCall β Nat
  createResource : (domain : String) → BuilderCall β Nat
  encodeTransfer : (stake sender receiver : Nat) → BuilderCall β Bytes
  encodeInvoke : (sender contract : Nat) → BuilderCall β Bytes
  encodeInteraction : (kind : String) → BuilderCall β Bytes
  /-- The payload for a kind that is the same in all interactions. A builder need not tell; one that
  does lets a plan share the payload. -/
  fixedPayload : (kind : String) → Option Bytes := fun _ => none
  encodeInteraction_of_fixed : ∀ kind payload b, fixedPayload kind = some payload →
    encodeInteraction kind b = .ok (payload, b) := by simp

namespace Builder

variable {β : Type}

/-- The answer of a builder that has no resources. -/
def noResources (_ : String) : BuilderCall β Nat :=
  fun _ => .error (.unsupported "create_resource")

/-- The answer of a builder that has no interactions of its own. -/
def noInteractions (_ : String) : BuilderCall β Bytes :=
  fun _ => .error (.unsupported "encode_interaction")

end Builder

/-- What there is for one type of ledger. -/
structure Adapter (σ β : Type) where
  /-- A builder and how it is at first. -/
  builder : Parameters → Environment → Endpoints → Except AdapterFault (Builder β × β)
  /-- A client and what its interactions share at first. -/
  client : ConnectionView → Except AdapterFault (Client σ × σ)

/-- Adapters by the type of their ledger. -/
abbrev Registry (σ β : Type) := Dictionary (Adapter σ β)

namespace Registry

variable {σ β : Type}

/-- The types of ledger that a registry knows, in ascending order. -/
def types (r : Registry σ β) : List String := r.keys

/-- How a registry is shown: by the types it knows. -/
def shown (r : Registry σ β) : String :=
  let types := r.types.map fun t => "LedgerType(" ++ Text.quoted t ++ ")"
  "AdapterRegistry \x7b ledger_types: [" ++ ", ".intercalate types ++ "] \x7d"

end Registry

end LedgerLoad
