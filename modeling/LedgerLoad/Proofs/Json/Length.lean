import LedgerLoad.Proofs.Json.Text
import Mathlib.Algebra.Order.BigOperators.Group.List
import Mathlib.Algebra.Order.Group.Nat

/-! # The lengths of JSON texts

`listLength` and `entryLength` tell how long a text will be (`length_ofItems`, `length_ofEntry`); so
a text that would be too long need not be made. -/

namespace LedgerLoad.Json

/-! ### Lists -/

theorem foldl_lengths (lengths : List Nat) (before : Nat) :
    lengths.foldl (fun sum n => sum + n + 1) before = before + (lengths.map (· + 1)).sum := by
  induction lengths generalizing before with
  | nil => rfl
  | cons n lengths ih =>
    rw [List.foldl_cons, ih, List.map_cons, List.sum_cons]
    omega

theorem listLength_cons (n : Nat) (lengths : List Nat) :
    listLength (n :: lengths) = n + 2 + (lengths.map (· + 1)).sum := by
  rw [listLength, foldl_lengths, List.map_cons, List.sum_cons]
  omega

/-- A list is never longer than its brackets and its items, each with a comma. -/
theorem listLength_le (lengths : List Nat) : listLength lengths ≤ 2 + (lengths.map (· + 1)).sum := by
  cases lengths with
  | nil => exact Nat.le_refl 2
  | cons n lengths =>
    rw [listLength_cons, List.map_cons, List.sum_cons]
    omega

theorem le_listLength {n : Nat} {lengths : List Nat} (h : n ∈ lengths) :
    n + 2 ≤ listLength lengths := by
  cases lengths with
  | nil => cases h
  | cons m lengths =>
    rw [listLength_cons]
    rcases List.mem_cons.mp h with rfl | h
    · omega
    · have hle : n + 1 ≤ (lengths.map (· + 1)).sum :=
        List.le_sum_of_mem (List.mem_map_of_mem h)
      omega

theorem listLength_replicate {count : Nat} (h : 0 < count) (n : Nat) :
    listLength (List.replicate count n) = count * (n + 1) + 1 := by
  have hpos : 0 < count * (n + 1) := Nat.mul_pos h (Nat.succ_pos n)
  rw [listLength, foldl_lengths, List.map_replicate, List.sum_replicate_nat]
  omega

/-- Behind the first item each further one has a comma, and at last there is the bracket. -/
theorem length_writeItems (xs : List Datum) :
    (octets (writeItems false (.ofList xs))).length =
      1 + ((xs.map fun x => (encode x).length).map (· + 1)).sum := by
  induction xs with
  | nil => rfl
  | cons x xs ih =>
    have hcomma : (octets [',']).length = 1 := rfl
    simp only [Items.ofList, writeItems, Bool.false_eq_true, if_false, octets_append,
      List.length_append, hcomma, ih, List.map_cons, List.sum_cons, encode_eq_octets]
    omega

/-- **The text of a list is as long as it is said to be.** -/
theorem length_ofItems (xs : List Datum) :
    (encode (.ofItems xs)).length = listLength (xs.map fun x => (encode x).length) := by
  have hopen (cs : List Char) : (octets ('[' :: cs)).length = (octets cs).length + 1 := rfl
  rw [encode_eq_octets, Datum.ofItems, write, hopen]
  cases xs with
  | nil => rfl
  | cons x xs =>
    rw [Items.ofList, writeItems, if_pos rfl, List.nil_append, octets_append, List.length_append,
      length_writeItems, List.map_cons, listLength_cons, encode_eq_octets]
    omega

/-! ### Tables -/

/-- **The text of a table with one entry is as long as it is said to be**, if nothing in the name is
escaped. -/
theorem length_ofEntry {name : String} (d : Datum)
    (hname : (octets (writeText name)).length = name.utf8ByteSize + 2) :
    (encode (.ofEntries [(name, d)])).length = entryLength name (encode d).length := by
  have hopen (cs : List Char) : (octets ('\x7b' :: cs)).length = (octets cs).length + 1 := rfl
  have hcolon (cs : List Char) : (octets (':' :: cs)).length = (octets cs).length + 1 := rfl
  have hclose : (octets ['\x7d']).length = 1 := rfl
  rw [encode_eq_octets, encode_eq_octets, Datum.ofEntries, write, hopen]
  simp only [Entries.ofList, writeEntries, if_true, List.nil_append, Option.getD_some,
    List.append_assoc, octets_append, List.length_append, List.cons_append, hcolon, hclose, hname,
    entryLength]
  omega

end LedgerLoad.Json
