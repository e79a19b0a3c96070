import LedgerLoad.Primary.Link
import LedgerLoad.Secondary.Session

/-! # Secondaries at the far end

A secondary that serves its end of a stream, as its primary meets it: it answers all it hears, in
its own time, and is gone when its session has ended. -/

namespace LedgerLoad.Session

variable {σ β : Type}

/-- Takes away what was written. -/
def collectOutput (s : Session σ β) : Bytes × Session σ β := (s.output, { s with output := [] })

/-- Secondaries as peers. -/
def peer : Peer (Session σ β) where
  gone s := s.ending.isSome
  hear octets s := (s.arrive octets).exhaust.collectOutput
  leave := hangUp

end LedgerLoad.Session
