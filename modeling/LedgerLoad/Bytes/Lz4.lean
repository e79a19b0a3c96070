import LedgerLoad.Bytes
import Std.Data.HashMap

/-! # LZ4 blocks

A block is a list of sequences, each some literal octets and then a copy of octets that were
already put out, and after the last copy some literals more. `Block.read` and `Block.write` are
the two sides of the format, `Block.expand` says what a block stands for, and `Block.of` finds
copies in an octet string. In front of a block stands the length of what it stands for. -/

namespace LedgerLoad.Lz4

/-- Literals, and a copy of `length` octets that begins `offset` octets before the end. -/
structure Sequence where
  literals : Bytes
  offset : Nat
  length : Nat
deriving DecidableEq, Repr

/-- Sequences, and the literals behind the last copy. -/
structure Block where
  sequences : List Sequence
  last : Bytes
deriving DecidableEq, Repr

/-! ### What a block stands for -/

/-- Puts out `length` octets, each the one `offset` octets before it. -/
def copy (out : Array UInt8) (offset : Nat) : (length : Nat) → Array UInt8
  | 0 => out
  | length + 1 => copy (out.push (out.getD (out.size - offset) 0)) offset length

/-- Puts out octets as they are, up to `limit` octets in all. -/
def emit (limit : Nat) (out : Array UInt8) (literals : Bytes) : Option (Array UInt8) :=
  if out.size + literals.length ≤ limit then some (out ++ literals) else none

/-- Puts out a sequence. A copy must begin in what was put out. -/
def Sequence.expand (limit : Nat) (out : Array UInt8) (s : Sequence) : Option (Array UInt8) := do
  let out ← emit limit out s.literals
  if 0 < s.offset ∧ s.offset ≤ out.size ∧ out.size + s.length ≤ limit then
    some (copy out s.offset s.length)
  else none

/-- Puts out a block behind what was put out. -/
def Block.emit (limit : Nat) (out : Array UInt8) (b : Block) : Option (Array UInt8) := do
  let out ← b.sequences.foldlM (Sequence.expand limit) out
  Lz4.emit limit out b.last

/-- The octets a block stands for, if there are at most `limit` of them. -/
def Block.expand (limit : Nat) (b : Block) : Option Bytes := (b.emit limit #[]).map Array.toList

/-! ### Reading -/

/-- Lengths of fifteen and more go on in further octets, up to the first below 255. -/
def readLength : Bytes → Option (Nat × Bytes)
  | [] => none
  | b :: rest =>
    if b = 255 then (readLength rest).map fun (n, rest) => (255 + n, rest)
    else some (b.toNat, rest)

/-- A length whose first four bits are given. -/
def lengthFrom (nibble : Nat) (text : Bytes) : Option (Nat × Bytes) :=
  if nibble = 15 then (readLength text).map fun (n, rest) => (15 + n, rest)
  else some (nibble, text)

/-- The first `n` octets and the rest, if there are so many. -/
def cut : (n : Nat) → Bytes → Option (Bytes × Bytes)
  | 0, text => some ([], text)
  | _ + 1, [] => none
  | n + 1, b :: text => (cut n text).map fun (head, rest) => (b :: head, rest)

theorem cut_eq (n : Nat) (text : Bytes) :
    cut n text = if n ≤ text.length then some (text.take n, text.drop n) else none := by
  induction text generalizing n with
  | nil => cases n <;> simp [cut]
  | cons b text ih =>
    cases n with
    | zero => simp [cut]
    | succ n =>
      by_cases h : n ≤ text.length <;> simp [cut, ih, h]

/-- Reads sequences until the text ends behind literals; every sequence takes an octet, so as much
fuel as there are octets is enough. -/
def readSequences : (fuel : Nat) → Bytes → Option Block
  | 0, _ => none
  | _ + 1, [] => none
  | fuel + 1, token :: text => do
    let (n, text) ← lengthFrom (token.toNat / 16) text
    let (literals, text) ← cut n text
    match text with
    | [] => some ⟨[], literals⟩
    | [_] => none
    | low :: high :: text => do
      let (length, text) ← lengthFrom (token.toNat % 16) text
      let rest ← readSequences fuel text
      return { rest with
        sequences := ⟨literals, low.toNat + 256 * high.toNat, length + 4⟩ :: rest.sequences }

/-- Reads a block. -/
def Block.read (text : Bytes) : Option Block := readSequences text.length text

/-! ### Writing -/

/-- The octets of a length beyond its first four bits. -/
def lengthTail (n : Nat) : Bytes :=
  if n < 15 then []
  else List.replicate ((n - 15) / 255) 255 ++ [UInt8.ofNat ((n - 15) % 255)]

/-- The octet with the first four bits of both lengths. -/
def token (literals length : Nat) : UInt8 := UInt8.ofNat (16 * min literals 15 + min length 15)

/-- The octets of a sequence; a copy has at least four octets. -/
def Sequence.write (s : Sequence) : Bytes :=
  token s.literals.length (s.length - 4) ::
    (lengthTail s.literals.length ++ s.literals ++ Bytes.leOctets 2 s.offset ++
      lengthTail (s.length - 4))

/-- The octets of a block. -/
def Block.write (b : Block) : Bytes :=
  b.sequences.flatMap Sequence.write ++
    token b.last.length 0 :: (lengthTail b.last.length ++ b.last)

/-! ### Finding copies -/

/-- How many octets from `i` on are those from `j` on, at most `most`. -/
def agreement (input : Array UInt8) (i j : Nat) : (most : Nat) → Nat
  | 0 => 0
  | most + 1 =>
    if input.getD i 0 = input.getD j 0 then agreement input (i + 1) (j + 1) most + 1 else 0

/-- The four octets at a place, as one number. -/
def fourAt (input : Array UInt8) (i : Nat) : Nat :=
  Bytes.leValue [input.getD i 0, input.getD (i + 1) 0, input.getD (i + 2) 0, input.getD (i + 3) 0]

/-- The octets from one place up to another. -/
def slice (input : Array UInt8) (start stop : Nat) : Bytes := (input.extract start stop).toList

/-- Goes through the octets and takes a copy wherever the four octets at a place were seen before
within reach. The last twelve octets begin no copy and the last five are in none. `seen` holds the
latest place of each four octets, and `start` is where the open literals begin. -/
def findCopies (input : Array UInt8) :
    (fuel : Nat) → (seen : Std.HashMap Nat Nat) → (start i : Nat) → Block
  | 0, _, start, _ => ⟨[], slice input start input.size⟩
  | fuel + 1, seen, start, i =>
    if input.size < i + 12 then ⟨[], slice input start input.size⟩
    else
      let key := fourAt input i
      let seen' := seen.insert key i
      match seen[key]? with
      | some j =>
        let length := agreement input i j (input.size - 5 - i)
        if i - j < 65536 ∧ 4 ≤ length then
          let rest := findCopies input fuel seen' (i + length) (i + length)
          { rest with sequences := ⟨slice input start i, i - j, length⟩ :: rest.sequences }
        else findCopies input fuel seen' start (i + 1)
      | none => findCopies input fuel seen' start (i + 1)

/-- The block of an octet string. -/
def Block.of (text : Bytes) : Block := findCopies text.toArray text.length ∅ 0 0

/-! ### Packed octets -/

/-- The block of an octet string behind its length. -/
def pack (text : Bytes) : Bytes := Bytes.leOctets 4 text.length ++ (Block.of text).write

/-- The length that packed octets declare, if they are long enough to declare one. -/
def declared : Bytes → Option Nat
  | a :: b :: c :: d :: _ => some (Bytes.leValue [a, b, c, d])
  | _ => none

/-- Unpacks octets; what comes out may be shorter than declared but not longer. -/
def unpack (packed : Bytes) : Option Bytes := do
  let limit ← declared packed
  let block ← Block.read (packed.drop 4)
  block.expand limit

end LedgerLoad.Lz4
