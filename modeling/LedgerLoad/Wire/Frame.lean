import LedgerLoad.Document
import LedgerLoad.Wire.Command

/-! # Frames

What goes over a stream: an octet for a command or a reply, and for a document the length of its
body in four octets and the body. A reader is given the octets that will still arrive before the
stream ends, and gives those that it did not take. Main statement: `recvDocument` takes a whole
frame whether or not its body makes sense, so what follows stays in step. -/

namespace LedgerLoad

/-- What goes wrong on a stream. -/
inductive WireFault
  /-- The stream ended, or its other end is gone. -/
  | io
  | document (fault : DocumentFault)
  | unknownCommand (octet : UInt8)
  | unknownReply (octet : UInt8)
  /-- The peer answered with an error, for a reason. -/
  | rejected (reason : String)
deriving DecidableEq, Repr

namespace Wire

/-- An octet in two hexadecimal digits. -/
def twoDigits (b : UInt8) : String := Hex.text [b]

end Wire

/-- The words that report a fault. -/
def WireFault.message : WireFault → String
  | .io => "I/O error"
  | .document fault => "Codec error: " ++ fault.message
  | .unknownCommand octet => "Unknown command byte 0x" ++ Wire.twoDigits octet
  | .unknownReply octet => "Unknown reply byte 0x" ++ Wire.twoDigits octet
  | .rejected reason => "Peer replied with error: " ++ reason

namespace Wire

/-! ### Writing -/

/-- The frame of a document. -/
def document (d : Document) : Except DocumentFault Bytes :=
  d.encode.map fun body => Bytes.leOctets 4 body.length ++ body

/-- What is written on a stream, and the fault that ended the writing, if any. -/
structure Written where
  octets : Bytes
  fault : Option DocumentFault

/-- Writes an octet and then a document; the octet is on its way before the document is made. -/
def octetThenDocument (octet : UInt8) (d : Document) : Written :=
  match document d with
  | .ok frame => ⟨octet :: frame, none⟩
  | .error fault => ⟨[octet], some fault⟩

/-- An error reply with its reason. -/
def err (reason : String) : Written := octetThenDocument Reply.err.octet (.ofText reason)

/-! ### Reading -/

/-- Reads a document: its length, and then as many octets whatever they are. -/
def recvDocument (input : Bytes) : Except WireFault Document × Bytes :=
  match input with
  | a :: b :: c :: d :: rest =>
    let length := Bytes.leValue [a, b, c, d]
    if Document.limit < length then (.error (.document (.tooLarge length)), rest)
    else if rest.length < length then (.error .io, [])
    else
      match Document.decode (rest.take length) with
      | .ok doc => (.ok doc, rest.drop length)
      | .error fault => (.error (.document fault), rest.drop length)
  | _ => (.error .io, [])

/-- Reads a command; there is none at the end of the stream. -/
def recvCommand (input : Bytes) : Except WireFault (Option Command) × Bytes :=
  match input with
  | [] => (.ok none, [])
  | b :: rest =>
    match Command.ofOctet? b with
    | some c => (.ok (some c), rest)
    | none => (.error (.unknownCommand b), rest)

/-- The reason in the document of an error reply. -/
def reasonOf (d : Document) : String := (d.text 0).toOption.getD "unspecified"

/-- Reads a reply; of an error reply also the document with the reason. -/
def recvReply (input : Bytes) : Except WireFault Unit × Bytes :=
  match input with
  | [] => (.error .io, [])
  | b :: rest =>
    match Reply.ofOctet? b with
    | none => (.error (.unknownReply b), rest)
    | some .ok => (.ok (), rest)
    | some .err =>
      match recvDocument rest with
      | (.ok d, rest) => (.error (.rejected (reasonOf d)), rest)
      | (.error fault, rest) => (.error fault, rest)

end Wire

end LedgerLoad
