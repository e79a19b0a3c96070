import LedgerLoad.Mock.Adapter

/-! # Built-in adapters -/

namespace LedgerLoad

/-- The adapters that are there without anybody adding one: the mock ledger's. -/
def builtIn : Registry Mock.Ledger Mock.Created := Dictionary.empty.insert Mock.ledgerType Mock.adapter

end LedgerLoad
