import LedgerLoad.Results.Text
import LedgerLoad.Wire.Request

/-! # Links

The primary has a link to each secondary, on which it carries out one request at a time: it writes
the request and then reads the answer off what arrives. What stands at the far end is left open; it
is a peer that hears octets and answers with octets. Main statement: `Request.receive` says what
counts as a good answer to each request. -/

namespace LedgerLoad

/-- The far end of a stream, a `π` being how it is at a time. -/
structure Peer (π : Type) where
  /-- Whether it has gone away, so that nothing can be sent to it. -/
  gone : π → Bool
  /-- What it writes once it has heard some octets, and how it is then. -/
  hear : Bytes → π → Bytes × π
  /-- How it is once the near end has closed the stream. -/
  leave : π → π

/-- Why a request failed. -/
inductive LinkFault
  | comm (fault : WireFault)
  /-- The secondary refused, for a reason. -/
  | errorReply (reason : String)
  /-- The link was closed before. -/
  | disconnected
deriving DecidableEq, Repr

namespace LinkFault

/-- The words that report a fault. -/
def message : LinkFault → String
  | .comm fault => "communication error: " ++ fault.message
  | .errorReply reason => "error reply: " ++ reason
  | .disconnected => "disconnected"

/-- What a fault on the stream means for a request. -/
def ofWire : WireFault → LinkFault
  | .rejected reason => .errorReply reason
  | fault => .comm fault

end LinkFault

/-- How a request went; only a request for results brings one. -/
abbrev Response := Except LinkFault (Option SecondaryResult)

namespace Request

/-- Reads the result behind a good reply. -/
def receiveResult (input : Bytes) : Except WireFault (Option SecondaryResult) × Bytes :=
  match Wire.recvDocument input with
  | (.error fault, rest) => (.error fault, rest)
  | (.ok d, rest) =>
    match SecondaryResult.ofDocument d with
    | .ok r => (.ok (some r), rest)
    | .error fault => (.error (.document fault), rest)

/-- Reads the answer to a request off the octets that arrive before the stream ends. -/
def receive {δ : Type} (r : Request δ) (input : Bytes) :
    Except WireFault (Option SecondaryResult) × Bytes :=
  match r with
  | .fin => (.ok none, input)
  | r =>
    match Wire.recvReply input with
    | (.error fault, rest) => (.error fault, rest)
    | (.ok (), rest) => if r.command = .results then receiveResult rest else (.ok none, rest)

end Request

/-- A link to a secondary. -/
structure Link (π : Type) where
  far : π
  /-- What has arrived and was not read. -/
  unread : Bytes
  closed : Bool

namespace Link

variable {π : Type}

/-- A link to a peer on which nothing has happened. -/
def start (far : π) : Link π := ⟨far, [], false⟩

/-- Closes the near end. -/
def close (peer : Peer π) (l : Link π) : Link π :=
  if l.closed then l else { l with far := peer.leave l.far, closed := true }

/-- Writes a request and reads the answer. -/
def exchange (peer : Peer π) (r : Request Document) (l : Link π) : Response × Link π :=
  if l.closed then (.error .disconnected, l)
  else if peer.gone l.far then (.error (.comm .io), l)
  else
    let written := r.write
    let (octets, far) := peer.hear written.octets l.far
    let unread := l.unread ++ octets
    match written.fault with
    | some fault => (.error (.comm (.document fault)), { l with far, unread })
    | none =>
      let (answer, unread) := r.receive unread
      (answer.mapError LinkFault.ofWire, { l with far, unread })

/-- Carries out a request; after the last one the link is closed. -/
def execute (peer : Peer π) (r : Request Document) (l : Link π) : Response × Link π :=
  let (response, l) := l.exchange peer r
  (response, if r.command = .fin then l.close peer else l)

end Link

end LedgerLoad
