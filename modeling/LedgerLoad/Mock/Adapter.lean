import LedgerLoad.Adapter.Contract
import LedgerLoad.Mock.Ledger
import LedgerLoad.Text.Integer

/-! # The adapter of the mock ledger

The builder numbers accounts, contracts and resources in the order of their creation and refuses
numbers it did not give out. The client takes the parameters `delay_ms` and `balance` and the
environment entry `fail_at`. -/

namespace LedgerLoad.Mock

/-- The type under which the mock ledger is known. -/
def ledgerType : String := "mock"

/-- What a builder has created. -/
structure Created where
  accounts : Nat
  contracts : List String
  resources : List String
deriving DecidableEq, Repr

namespace Created

/-- Nothing yet. -/
def nothing : Created := ⟨0, [], []⟩

/-- An account that was created. -/
def checkAccount (c : Created) (account : Nat) : Except AdapterFault Nat :=
  if account < c.accounts then .ok account
  else .error (.unknownHandle s!"account {account}")

/-- A contract that was created. -/
def checkContract (c : Created) (contract : Nat) : Except AdapterFault Nat :=
  if contract < c.contracts.length then .ok contract
  else .error (.unknownHandle s!"contract {contract}")

end Created

/-- The builder of the mock ledger. -/
def builder : Builder Created where
  capabilities := { resources := true, customInteractions := true }
  createAccount _ := fun c => .ok (c.accounts, { c with accounts := c.accounts + 1 })
  createContract name := fun c =>
    .ok (c.contracts.length, { c with contracts := c.contracts ++ [name] })
  createResource domain := fun c =>
    .ok (c.resources.length, { c with resources := c.resources ++ [domain] })
  encodeTransfer stake sender receiver := fun c => do
    let sender ← c.checkAccount sender
    let receiver ← c.checkAccount receiver
    return ((Transaction.transfer sender receiver stake).encode, c)
  encodeInvoke sender contract := fun c => do
    let contract ← c.checkContract contract
    let sender ← c.checkAccount sender
    return ((Transaction.invoke sender contract).encode, c)
  encodeInteraction kind := fun c => return ((Transaction.custom kind).encode, c)
  fixedPayload kind := some (Transaction.custom kind).encode
  encodeInteraction_of_fixed kind payload c h := by
    obtain rfl := Option.some.inj h
    rfl

/-- A number among the parameters. -/
def number (key : String) : Option String → Except AdapterFault (Option Nat)
  | none => .ok none
  | some text =>
    match Text.readWord text with
    | .ok n => .ok (some n)
    | .error fault => .error (.config s!"{key}: {fault.message}")

/-- The behaviour that parameters and environment ask for. -/
def settings (view : ConnectionView) : Except AdapterFault Settings := do
  let delay ← number "delay_ms" (view.parameters.find? "delay_ms")
  let balance ← number "balance" (view.parameters.find? "balance")
  let failAt ← number "fail_at" (view.environment.find? "fail_at")
  return {
    delay := (delay.map Duration.ofMillis).getD Settings.usual.delay
    initialBalance := balance.getD Settings.usual.initialBalance
    failAt }

/-- The adapter of the mock ledger. -/
def adapter : Adapter Ledger Created where
  builder _ _ _ := .ok (builder, .nothing)
  client view := (settings view).map fun s => (client s, .fresh)

end LedgerLoad.Mock
