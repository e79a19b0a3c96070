import LedgerLoad.Arithmetic
import LedgerLoad.Data.Datum
import LedgerLoad.Dictionary

/-! # Reading data as something

What a datum is meant to be decides how it is read. Readers walk from left to right and stop at the
first fault: a text that breaks off, a value of the wrong type, a field too many. That a field is
missing shows at the end of its table only. -/

namespace LedgerLoad

/-- Why a datum is not what it was read as. -/
inductive DataFault
  /-- The text makes no sense from here on. -/
  | malformed
  | invalidType
  | invalidValue
  | invalidLength
  | unknownVariant (name : String)
  | unknownField (name : String)
  | missingField (name : String)
  | duplicateField (name : String)
  /-- The value was read and then refused, for the given reason. -/
  | refused (reason : String)
deriving DecidableEq, Repr

/-- The words that report a fault. -/
def DataFault.message : DataFault → String
  | .malformed => "syntax"
  | .invalidType => "invalid type"
  | .invalidValue => "invalid value"
  | .invalidLength => "invalid length"
  | .unknownVariant name => s!"unknown variant `{name}`"
  | .unknownField name => s!"unknown field `{name}`"
  | .missingField name => s!"missing field `{name}`"
  | .duplicateField name => s!"duplicate field `{name}`"
  | .refused reason => reason

/-! ### Passing over -/

mutual

/-- Passes over a value nobody asks for; only a break in the text stops it. -/
def Datum.skip : Datum → Except DataFault Unit
  | .broken => .error .malformed
  | .list items => items.skip
  | .table entries => entries.skip
  | _ => .ok ()

/-- Passes over the rest of a list. -/
def Items.skip : Items → Except DataFault Unit
  | .closed => .ok ()
  | .broken => .error .malformed
  | .cons head tail => do head.skip; tail.skip

/-- Passes over the rest of a table. -/
def Entries.skip : Entries → Except DataFault Unit
  | .closed => .ok ()
  | .broken => .error .malformed
  | .cons _ value tail => do value.skip; tail.skip

end

mutual

/-- Takes in a whole value to be read later; everything in it must be readable, and lists and
tables nest at most `depth` deep. -/
def Datum.absorb (depth : Nat) : Datum → Except DataFault Unit
  | .broken => .error .malformed
  | .unreadable => .error .malformed
  | .list items => if depth = 0 then .error .malformed else items.absorb (depth - 1)
  | .table entries => if depth = 0 then .error .malformed else entries.absorb (depth - 1)
  | _ => .ok ()

/-- Takes in the rest of a list. -/
def Items.absorb (depth : Nat) : Items → Except DataFault Unit
  | .closed => .ok ()
  | .broken => .error .malformed
  | .cons head tail => do head.absorb depth; tail.absorb depth

/-- Takes in the rest of a table. -/
def Entries.absorb (depth : Nat) : Entries → Except DataFault Unit
  | .closed => .ok ()
  | .broken => .error .malformed
  | .cons none _ _ => .error .malformed
  | .cons (some _) value tail => do value.absorb depth; tail.absorb depth

end

/-! ### Plain values -/

namespace Datum

/-- The fault of a value that is not of the type asked for. -/
def mismatch : Datum → DataFault
  | .broken => .malformed
  | .unreadable => .malformed
  | _ => .invalidType

/-- Reads a text. -/
def asText : Datum → Except DataFault String
  | .text s => .ok s
  | d => .error d.mismatch

/-- Reads a natural number below a limit. -/
def asNat (limit : Nat) : Datum → Except DataFault Nat
  | .int i => if 0 ≤ i ∧ i < limit then .ok i.toNat else .error .invalidValue
  | d => .error d.mismatch

/-- Reads a natural number of 64 bits. -/
def asWord (d : Datum) : Except DataFault Nat := d.asNat (2 ^ 64)

/-- An integer as the nearest double. -/
def floatOfInt (i : Int) : Float :=
  if i < 0 then -Float.ofNat i.natAbs else Float.ofNat i.natAbs

/-- Reads a double; an integer will do. -/
def asFloat : Datum → Except DataFault Float
  | .float x => .ok x
  | .int i => .ok (floatOfInt i)
  | d => .error d.mismatch

end Datum

/-! ### Lists and tables -/

/-- Reads every item to the end of a list. -/
def Items.read {α : Type} (item : Datum → Except DataFault α) : Items → Except DataFault (List α)
  | .closed => .ok []
  | .broken => .error .malformed
  | .cons head tail => do
    let x ← item head
    let xs ← tail.read item
    return x :: xs

/-- Reads a list of things of one kind. -/
def Datum.asList {α : Type} (item : Datum → Except DataFault α) :
    Datum → Except DataFault (List α)
  | .list items => items.read item
  | d => .error d.mismatch

/-- Reads entries one after another into something that grows. -/
def Entries.readInto {σ : Type} (entry : σ → String → Datum → Except DataFault σ) :
    σ → Entries → Except DataFault σ
  | s, .closed => .ok s
  | _, .broken => .error .malformed
  | _, .cons none _ _ => .error .malformed
  | s, .cons (some key) value tail => do
    let s ← entry s key value
    tail.readInto entry s

/-- Reads a table of things of one kind; of a key given twice the later value counts. -/
def Datum.asDictionary {α : Type} (value : Datum → Except DataFault α) :
    Datum → Except DataFault (Dictionary α)
  | .table entries =>
    entries.readInto (fun d key v => (value v).map (d.insert key)) Dictionary.empty
  | d => .error d.mismatch

/-! ### Records

A record is read from a table by its field names or, as a list, by the order of its fields. -/

/-- Fills a field of a record that is being read; a field is given once. -/
def fill {α : Type} (name : String) (slot : Option α) (value : Except DataFault α) :
    Except DataFault (Option α) :=
  if slot.isSome then .error (.duplicateField name) else value.map some

/-- The value of a field that must be given. -/
def need {α : Type} (name : String) : Option α → Except DataFault α
  | some x => .ok x
  | none => .error (.missingField name)

/-- The next item of a record given as a list. -/
def Items.next : Items → Except DataFault (Datum × Items)
  | .cons head tail => .ok (head, tail)
  | .closed => .error .invalidLength
  | .broken => .error .malformed

/-- A record given as a list must end with its last field. -/
def Items.finish : Items → Except DataFault Unit
  | .closed => .ok ()
  | _ => .error .malformed

end LedgerLoad
