/-! # Transactions

The three kinds of interaction that a workload can ask for. Accounts and contracts are numbers that
a ledger gave out. -/

namespace LedgerLoad

/-- What one interaction does on the ledger. -/
inductive Transaction
  /-- Moves an amount between accounts. -/
  | transfer (sender receiver amount : Nat)
  /-- Calls a contract. -/
  | invoke (sender contract : Nat)
  /-- Does something that only the ledger knows. -/
  | custom (name : String)
deriving DecidableEq, Repr

end LedgerLoad
