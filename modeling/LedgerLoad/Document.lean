import LedgerLoad.Bytes.Hex
import LedgerLoad.Bytes.Lz4
import LedgerLoad.Json.Reader
import LedgerLoad.Json.Writer

/-! # Documents

A document is a sequence of octet strings. Its body is a JSON list with each element in hexadecimal
digits, packed. Both the JSON text and the body have a limit; a body that declares more than the
limit is refused before it is unpacked. -/

namespace LedgerLoad

/-- Octet strings that are sent together. -/
structure Document where
  elements : List Bytes
deriving DecidableEq, Repr

/-- Why a document cannot be written or read. -/
inductive DocumentFault
  | tooShort
  | tooLarge (length : Nat)
  | decodedTooLarge (length : Nat)
  | json (fault : DataFault)
  | hex (fault : Hex.Fault)
  | packing
  | missingElements (expected actual : Nat)
  | invalidElement (index : Nat) (reason : String)
deriving DecidableEq, Repr

/-- The words that report a fault. -/
def DocumentFault.message : DocumentFault → String
  | .tooShort => "Document too short"
  | .tooLarge length => s!"Document of {length} bytes exceeds the frame limit"
  | .decodedTooLarge length =>
    s!"Document declares {length} decompressed bytes, above the limit"
  | .json fault => "JSON decode error: " ++ fault.message
  | .hex fault => "Hex decode error: " ++ fault.message
  | .packing => "Decompression error"
  | .missingElements expected actual =>
    s!"Document has {actual} elements, expected at least {expected}"
  | .invalidElement index reason => s!"Invalid element {index}: {reason}"

namespace Document

/-- The longest JSON text of a document, and the longest body. -/
def limit : Nat := 2 ^ 30

/-- The document of one text. -/
def ofText (text : String) : Document := ⟨[Utf8.encode text]⟩

/-- Asks for a number of elements. -/
def require (d : Document) (expected : Nat) : Except DocumentFault Unit :=
  if d.elements.length < expected then .error (.missingElements expected d.elements.length)
  else .ok ()

/-- The text of an element. -/
def text (d : Document) (index : Nat) : Except DocumentFault String :=
  match d.elements[index]? with
  | none => .error (.missingElements (index + 1) d.elements.length)
  | some octets =>
    match Utf8.decode octets with
    | .ok s => .ok s
    | .error fault => .error (.invalidElement index fault.message)

/-- The JSON text of a document. -/
def json (d : Document) : Bytes :=
  Json.encode (.ofItems (d.elements.map fun octets => .text (Hex.text octets)))

/-- The length of the JSON text of a document: two digits for each octet, and the quotes. -/
def jsonLength (d : Document) : Nat :=
  Json.listLength (d.elements.map fun octets => 2 * octets.length + 2)

/-- The body of a document, unless it is too large. -/
def encode (d : Document) : Except DocumentFault Bytes :=
  let length := d.jsonLength
  if limit < length then .error (.tooLarge length)
  else
    let body := Lz4.pack d.json
    if limit < body.length then .error (.tooLarge body.length) else .ok body

/-- Reads elements from their hexadecimal digits, up to the first that has a fault. -/
def readElements : List String → Except DocumentFault (List Bytes)
  | [] => .ok []
  | digits :: rest =>
    match Hex.decode (Utf8.encode digits) with
    | .error fault => .error (.hex fault)
    | .ok octets => (readElements rest).map (octets :: ·)

/-- Reads the JSON text of a document. -/
def ofJson (text : Bytes) : Except DocumentFault Document :=
  match Json.decode (Datum.asList Datum.asText) text with
  | .error fault => .error (.json fault)
  | .ok digits => (readElements digits).map Document.mk

/-- Reads the body of a document. -/
def decode (body : Bytes) : Except DocumentFault Document :=
  match Lz4.declared body with
  | none => .error .tooShort
  | some length =>
    if limit < length then .error (.decodedTooLarge length)
    else match Lz4.unpack body with
      | none => .error .packing
      | some text => ofJson text

end Document

end LedgerLoad
