import LedgerLoad.Adapter.Script
import LedgerLoad.Json.Reader
import LedgerLoad.Json.Writer

/-! # Payloads of the mock ledger

A transaction is a JSON table whose entry `kind` says which fields it has. The entry may stand
anywhere in the table, which is therefore read as a whole before its fields are. A transaction may
also be given as a list, with the kind first and then the fields in order. -/

namespace LedgerLoad

namespace Transaction

/-- The table of a transaction. -/
def toDatum : Transaction → Datum
  | .transfer sender receiver amount =>
    .ofEntries [("kind", .text "transfer"), ("from", .ofNat sender), ("to", .ofNat receiver),
      ("stake", .ofNat amount)]
  | .invoke sender contract =>
    .ofEntries [("kind", .text "invoke"), ("from", .ofNat sender), ("contract", .ofNat contract)]
  | .custom name => .ofEntries [("kind", .text "custom"), ("name", .text name)]

/-- The payload of a transaction. -/
def encode (tx : Transaction) : Bytes := Json.encode tx.toDatum

/-- The kinds of transaction. -/
inductive Kind
  | transfer
  | invoke
  | custom
deriving DecidableEq, Repr

/-- Reads a kind from its name. -/
def Kind.ofDatum (d : Datum) : Except DataFault Kind := do
  let name ← d.asText
  if name = "transfer" then return .transfer
  else if name = "invoke" then return .invoke
  else if name = "custom" then return .custom
  else throw (.unknownVariant name)

/-- How deep the values of a transaction may nest inside it. -/
def depth : Nat := 126

/-- Takes in the entries of a table up to its end, and finds the kind among them. -/
def takeIn : Option Kind → Entries → Except DataFault (Option Kind)
  | kind, .closed => .ok kind
  | _, .broken => .error .malformed
  | _, .cons none _ _ => .error .malformed
  | kind, .cons (some key) value tail =>
    if key = "kind" then do
      let kind ← fill key kind (Kind.ofDatum value)
      takeIn kind tail
    else do
      value.absorb depth
      takeIn kind tail

/-- Fields of a transaction that is being read. -/
structure Draft where
  sender : Option Nat
  receiver : Option Nat
  amount : Option Nat
  contract : Option Nat
  name : Option String

/-- Reads one field of a transaction of the given kind; fields of other kinds mean nothing. -/
def Draft.entry (kind : Kind) (t : Draft) (key : String) (value : Datum) :
    Except DataFault Draft :=
  if key = "from" ∧ kind ≠ .custom then
    return { t with sender := ← fill key t.sender value.asWord }
  else if key = "to" ∧ kind = .transfer then
    return { t with receiver := ← fill key t.receiver value.asWord }
  else if key = "stake" ∧ kind = .transfer then
    return { t with amount := ← fill key t.amount value.asWord }
  else if key = "contract" ∧ kind = .invoke then
    return { t with contract := ← fill key t.contract value.asWord }
  else if key = "name" ∧ kind = .custom then
    return { t with name := ← fill key t.name value.asText }
  else return t

/-- Makes a transaction of its fields; of missing ones the first is reported. -/
def Draft.finish (t : Draft) : Kind → Except DataFault Transaction
  | .transfer => do
    return .transfer (← need "from" t.sender) (← need "to" t.receiver) (← need "stake" t.amount)
  | .invoke => do return .invoke (← need "from" t.sender) (← need "contract" t.contract)
  | .custom => do return .custom (← need "name" t.name)

/-- A list of fields must end with the last one. -/
def last (items : Items) : Except DataFault Unit :=
  match items with
  | .closed => .ok ()
  | .broken => .error .malformed
  | .cons _ _ => .error .invalidLength

/-- Reads the fields of a transaction in order. -/
def ofItems (items : Items) : Kind → Except DataFault Transaction
  | .transfer => do
    let (sender, items) ← items.next
    let sender ← sender.asWord
    let (receiver, items) ← items.next
    let receiver ← receiver.asWord
    let (amount, items) ← items.next
    let amount ← amount.asWord
    last items
    return .transfer sender receiver amount
  | .invoke => do
    let (sender, items) ← items.next
    let sender ← sender.asWord
    let (contract, items) ← items.next
    let contract ← contract.asWord
    last items
    return .invoke sender contract
  | .custom => do
    let (name, items) ← items.next
    let name ← name.asText
    last items
    return .custom name

/-- Reads a transaction. -/
def ofDatum : Datum → Except DataFault Transaction
  | .table entries => do
    let kind ← need "kind" (← takeIn none entries)
    let t ← entries.readInto (Draft.entry kind) ⟨none, none, none, none, none⟩
    t.finish kind
  | .list .closed => .error (.missingField "kind")
  | .list .broken => .error .malformed
  | .list (.cons head tail) => do
    let kind ← Kind.ofDatum head
    tail.absorb depth
    ofItems tail kind
  | d => .error d.mismatch

/-- Reads a payload. -/
def decode (payload : Bytes) : Except PayloadFault Transaction :=
  if payload.isEmpty then .error (.malformed "empty payload")
  else match Json.decode ofDatum payload with
    | .ok tx => .ok tx
    | .error fault => .error (.malformed fault.message)

end Transaction

end LedgerLoad
