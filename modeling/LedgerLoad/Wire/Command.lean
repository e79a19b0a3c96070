/-! # Commands and replies

The primary sends commands of one octet and, except for the last, waits for a reply of one octet. -/

namespace LedgerLoad

/-- What the primary asks of a secondary. -/
inductive Command
  | prepare
  | workload
  | run
  | results
  | fin
deriving DecidableEq, Repr

namespace Command

/-- All commands. -/
def all : List Command := [.prepare, .workload, .run, .results, .fin]

def name : Command → String
  | .prepare => "prepare"
  | .workload => "workload"
  | .run => "run"
  | .results => "results"
  | .fin => "fin"

def octet : Command → UInt8
  | .prepare => 0x01
  | .workload => 0x02
  | .run => 0x03
  | .results => 0x04
  | .fin => 0x05

/-- The command of an octet. -/
def ofOctet? (b : UInt8) : Option Command := all.find? fun c => c.octet == b

/-- Whether the secondary answers. -/
def expectsReply : Command → Bool
  | .fin => false
  | _ => true

theorem ofOctet?_eq_some_iff {b : UInt8} {c : Command} : ofOctet? b = some c ↔ b = c.octet := by
  constructor
  · intro h
    have := List.find?_some h
    exact (beq_iff_eq.mp this).symm
  · rintro rfl
    cases c <;> rfl

end Command

/-- Whether a command was carried out. -/
inductive Reply
  | ok
  | err
deriving DecidableEq, Repr

namespace Reply

def octet : Reply → UInt8
  | .ok => 0x99
  | .err => 0x98

/-- The reply of an octet. -/
def ofOctet? (b : UInt8) : Option Reply := [Reply.ok, .err].find? fun r => r.octet == b

end Reply

end LedgerLoad
