import LedgerLoad.Mock.Payload

/-! # The mock ledger at run time

A mock ledger lives in the client of one secondary. It confirms every transaction after a fixed
delay: a transfer that the sender can pay moves the amount, one that he cannot pay is aborted, and
everything else is committed. An account has the initial balance until it is touched. One trigger,
counted over all lanes, can be made to fail. -/

namespace LedgerLoad.Mock

/-- What the interactions of a mock client share. -/
structure Ledger where
  /-- The balances of touched accounts, latest first. -/
  balances : List (Nat × Nat)
  /-- How many interactions were triggered. -/
  triggers : Nat
deriving DecidableEq, Repr

/-- How a mock ledger behaves. -/
structure Settings where
  delay : Duration
  initialBalance : Nat
  /-- The trigger that fails, counted from one. -/
  failAt : Option Nat
deriving DecidableEq, Repr

namespace Settings

/-- A delay of ten milliseconds, a balance of a million, and no failure. -/
def usual : Settings := ⟨.ofMillis 10, 1000000, none⟩

end Settings

namespace Ledger

/-- A ledger that nobody has touched. -/
def fresh : Ledger := ⟨[], 0⟩

/-- The greatest balance there is. -/
def greatest : Nat := 2 ^ 64 - 1

/-- The balance of an account. -/
def balance (initial : Nat) (l : Ledger) (account : Nat) : Nat :=
  ((l.balances.find? fun e => e.1 == account).map Prod.snd).getD initial

/-- Sets the balance of an account. -/
def setBalance (l : Ledger) (account amount : Nat) : Ledger :=
  { l with balances := (account, amount) :: l.balances.filter fun e => e.1 ≠ account }

/-- The accounts that were touched. -/
def touched (l : Ledger) : List Nat := l.balances.map Prod.fst

/-- Touches an account: from now on its balance is kept. -/
def touch (initial : Nat) (l : Ledger) (account : Nat) : Ledger :=
  l.setBalance account (l.balance initial account)

/-- Whether the ledger will accept a transaction. -/
def accepts (initial : Nat) (l : Ledger) : Transaction → Bool
  | .transfer sender _ amount => amount ≤ l.balance initial sender
  | _ => true

/-- What a transaction does to the ledger. A transfer touches the sender, whether he can pay or not;
if he can, it takes the amount from him first and gives it to the receiver then, up to the greatest
balance. -/
def apply (initial : Nat) (l : Ledger) (tx : Transaction) : Ledger :=
  match tx with
  | .transfer sender receiver amount =>
    let l := l.touch initial sender
    if l.accepts initial tx then
      let l := (l.setBalance sender (l.balance initial sender - amount)).touch initial receiver
      l.setBalance receiver (min (l.balance initial receiver + amount) greatest)
    else l
  | _ => l

/-- Counts a trigger. -/
def countTrigger (l : Ledger) : Ledger := { l with triggers := l.triggers + 1 }

/-! ### Balances after a change -/

section Balances

variable {initial account other amount : Nat} {l : Ledger}

@[simp] theorem balance_setBalance : (l.setBalance account amount).balance initial other =
    if other = account then amount else l.balance initial other := by
  unfold balance setBalance
  by_cases h : other = account
  · simp [h]
  · simp only [if_neg h]
    rw [List.find?_cons_of_neg (by simpa using Ne.symm h), List.find?_filter]
    congr 3
    funext e
    by_cases he : e.1 = other <;> simp [he, h]

@[simp] theorem balance_touch :
    (l.touch initial account).balance initial other = l.balance initial other := by
  unfold touch
  rw [balance_setBalance]
  by_cases h : other = account <;> simp [h]

@[simp] theorem balance_countTrigger :
    l.countTrigger.balance initial account = l.balance initial account := rfl

theorem mem_touched_setBalance :
    other ∈ (l.setBalance account amount).touched ↔ other = account ∨ other ∈ l.touched := by
  unfold touched setBalance
  by_cases h : other = account <;> simp [h]

/-- No decision counts a trigger. -/
theorem triggers_apply (tx : Transaction) : (l.apply initial tx).triggers = l.triggers := by
  cases tx with
  | transfer =>
    unfold apply
    dsimp only
    split <;> rfl
  | invoke | custom => rfl

end Balances

end Ledger

/-- The confirmation of a transaction: after the delay the ledger decides. -/
def confirm (s : Settings) (tx : Transaction) : Script Ledger :=
  .record .submit fun _ =>
    .sleep s.delay <|
      .access (fun l => l.apply s.initialBalance tx) fun l =>
        .record (if l.accepts s.initialBalance tx then .commit else .abort) fun _ => .done

/-- What the mock client does with an interaction. -/
def trigger (s : Settings) (handle : Handle) : Script Ledger :=
  match handle.transaction? with
  | none => .fail (.unknownHandle "not a mock transaction")
  | some tx =>
    .access Ledger.countTrigger fun l =>
      let count := l.triggers + 1
      if s.failAt = some count then .fail (.transport s!"injected failure at trigger {count}")
      else confirm s tx

/-- The client of a mock ledger. -/
def client (s : Settings) : Client Ledger where
  decode payload := (Transaction.decode payload).map Handle.transaction
  trigger := trigger s

end LedgerLoad.Mock
