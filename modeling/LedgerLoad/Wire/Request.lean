import LedgerLoad.Wire.Frame

/-! # Requests

A request is a command with what belongs to it: the command for work is followed by a document. The
primary writes requests, and a secondary takes them off a stream one after another. Main statement:
`Incoming.of_shorter`, a request that was taken leaves less. -/

namespace LedgerLoad

/-- A command with the document that belongs to it, if any. -/
inductive Request (δ : Type)
  | prepare
  | workload (work : δ)
  | run
  | results
  | fin
deriving DecidableEq, Repr

/-- A request as it arrives: its document may make no sense. -/
abbrev Received := Request (Except DocumentFault Document)

namespace Request

/-- The command of a request. -/
def command {δ : Type} : Request δ → Command
  | .prepare => .prepare
  | .workload _ => .workload
  | .run => .run
  | .results => .results
  | .fin => .fin

/-- What is written for a request. The command is on its way before its document is made. -/
def write : Request Document → Wire.Written
  | .workload work => Wire.octetThenDocument Command.workload.octet work
  | r => ⟨[r.command.octet], none⟩

/-- A request as it arrives if nothing goes wrong. -/
def received : Request Document → Received
  | .prepare => .prepare
  | .workload work => .workload (.ok work)
  | .run => .run
  | .results => .results
  | .fin => .fin

end Request

/-- What the octets of a stream begin with. -/
inductive Incoming
  /-- Less than a whole request. -/
  | incomplete
  /-- Something that is no request, behind which nothing can be told apart. -/
  | broken (fault : WireFault)
  /-- A whole request, with the octets behind it. -/
  | request (r : Received) (rest : Bytes)

namespace Incoming

/-- The request for work whose document stands at the head of some octets. A document that makes no
sense is one nonetheless, unless it is too long to be read at all. -/
def work (input : Bytes) : Incoming :=
  match Wire.recvDocument input with
  | (.ok work, rest) => .request (.workload (.ok work)) rest
  | (.error .io, _) => .incomplete
  | (.error (.document (.tooLarge length)), _) => .broken (.document (.tooLarge length))
  | (.error (.document fault), rest) => .request (.workload (.error fault)) rest
  | (.error fault, _) => .broken fault

/-- Takes the first request off a stream. -/
def of (input : Bytes) : Incoming :=
  match Wire.recvCommand input with
  | (.ok none, _) => .incomplete
  | (.ok (some .prepare), rest) => .request .prepare rest
  | (.ok (some .workload), rest) => work rest
  | (.ok (some .run), rest) => .request .run rest
  | (.ok (some .results), rest) => .request .results rest
  | (.ok (some .fin), rest) => .request .fin rest
  | (.error fault, _) => .broken fault

theorem recvDocument_length (input : Bytes) :
    (Wire.recvDocument input).2.length ≤ input.length := by
  unfold Wire.recvDocument
  split
  · dsimp only
    split
    · simp only [List.length_cons]
      omega
    · split
      · simp
      · split <;> simp only [List.length_drop, List.length_cons] <;> omega
  · simp

theorem work_length {input rest : Bytes} {r : Received} (h : work input = .request r rest) :
    rest.length ≤ input.length := by
  have hle := recvDocument_length input
  unfold work at h
  split at h <;> simp_all

/-- A request that was taken leaves less. -/
theorem of_shorter {input rest : Bytes} {r : Received} (h : of input = .request r rest) :
    rest.length < input.length := by
  unfold of at h
  cases input with
  | nil => simp [Wire.recvCommand] at h
  | cons b tail =>
    have hle : rest.length ≤ tail.length := by
      cases hc : Command.ofOctet? b with
      | none => simp [Wire.recvCommand, hc] at h
      | some c =>
        cases c <;> simp only [Wire.recvCommand, hc] at h
        case workload => exact work_length h
        all_goals
          cases h
          exact Nat.le_refl _
    exact Nat.lt_succ_of_le hle

end Incoming

end LedgerLoad
