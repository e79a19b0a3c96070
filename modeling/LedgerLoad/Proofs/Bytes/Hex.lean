import LedgerLoad.Bytes.Hex
import LedgerLoad.Proofs.Bytes.Utf8

/-! # Hexadecimal text: reading what was written

Every octet is two digits of lower case (`digits_encode`), which are letters of ASCII, and reading
takes them back to the octet (`decode_encode`, `decode_text`). -/

namespace LedgerLoad.Hex

/-- A digit as it is written. -/
def IsDigit (d : UInt8) : Prop :=
    (0x30 ≤ d.toNat ∧ d.toNat ≤ 0x39) ∨ (0x61 ≤ d.toNat ∧ d.toNat ≤ 0x66)

theorem digit_spec : ∀ n : Fin 16,
    value? (digit (UInt8.ofNat n)) = some (UInt8.ofNat n) ∧
      ((0x30 ≤ (digit (UInt8.ofNat n)).toNat ∧ (digit (UInt8.ofNat n)).toNat ≤ 0x39) ∨
        (0x61 ≤ (digit (UInt8.ofNat n)).toNat ∧ (digit (UInt8.ofNat n)).toNat ≤ 0x66)) := by
  decide

theorem value?_digit {n : UInt8} (h : n.toNat < 16) : value? (digit n) = some n := by
  have := (digit_spec ⟨n.toNat, h⟩).1
  simpa using this

theorem isDigit_digit {n : UInt8} (h : n.toNat < 16) : IsDigit (digit n) := by
  have := (digit_spec ⟨n.toNat, h⟩).2
  simpa [IsDigit] using this

theorem high_lt (b : UInt8) : (b / 16).toNat < 16 := by
  have := b.toNat_lt
  rw [UInt8.toNat_div]
  show b.toNat / 16 < 16
  omega

theorem low_lt (b : UInt8) : (b % 16).toNat < 16 := by
  rw [UInt8.toNat_mod]
  show b.toNat % 16 < 16
  omega

theorem high_low (b : UInt8) : b / 16 * 16 + b % 16 = b := by
  apply UInt8.toNat_inj.mp
  have := b.toNat_lt
  rw [UInt8.toNat_add, UInt8.toNat_mul, UInt8.toNat_div, UInt8.toNat_mod]
  show (b.toNat / 16 * 16 % 256 + b.toNat % 16) % 256 = b.toNat
  omega

theorem length_encode (bs : Bytes) : (encode bs).length = 2 * bs.length := by
  induction bs with
  | nil => rfl
  | cons b bs ih => simp [encode, ih]; omega

theorem digits_encode (bs : Bytes) : ∀ d ∈ encode bs, IsDigit d := by
  induction bs with
  | nil => simp [encode]
  | cons b bs ih =>
    intro d hd
    simp only [encode, List.mem_cons] at hd
    rcases hd with rfl | rfl | hd
    · exact isDigit_digit (high_lt b)
    · exact isDigit_digit (low_lt b)
    · exact ih d hd

theorem decodeAt_encode (index : Nat) (bs : Bytes) : decodeAt index (encode bs) = .ok bs := by
  induction bs generalizing index with
  | nil => rfl
  | cons b bs ih =>
    rw [encode, decodeAt, value?_digit (high_lt b), value?_digit (low_lt b)]
    simp only [ih, Except.map, high_low]

/-- **Octets are read back** from their digits. -/
theorem decode_encode (bs : Bytes) : decode (encode bs) = .ok bs := by
  have h : ¬ (encode bs).length % 2 = 1 := by
    rw [length_encode]
    omega
  rw [decode, if_neg h, decodeAt_encode]

theorem letter_toNat {d : UInt8} (h : IsDigit d) : (Char.ofNat d.toNat).toNat = d.toNat := by
  have hv : Nat.isValidChar d.toNat := Or.inl (by rcases h with h | h <;> omega)
  rw [Char.ofNat, dif_pos hv]
  rfl

/-- The letter of a digit is the digit again. -/
theorem encodeChar_digit {d : UInt8} (h : IsDigit d) :
    String.utf8EncodeChar (Char.ofNat d.toNat) = [d] := by
  have hlt : d.toNat < 0x80 := by rcases h with h | h <;> omega
  have hletter := letter_toNat h
  rw [Utf8.encodeChar_ascii (by omega), hletter, UInt8.ofNat_toNat]

/-- The octets of a text of digits are the digits. -/
theorem encode_text (bs : Bytes) : Utf8.encode (text bs) = encode bs := by
  have h : ∀ ds : Bytes, (∀ d ∈ ds, IsDigit d) →
      (ds.map fun d => Char.ofNat d.toNat).flatMap String.utf8EncodeChar = ds := by
    intro ds hds
    induction ds with
    | nil => rfl
    | cons d ds ih =>
      rw [List.map_cons, List.flatMap_cons, encodeChar_digit (hds d List.mem_cons_self),
        ih fun x hx => hds x (List.mem_cons_of_mem d hx)]
      rfl
  rw [Utf8.encode, text, String.toList_ofList]
  exact h _ (digits_encode bs)

theorem decode_text (bs : Bytes) : decode (Utf8.encode (text bs)) = .ok bs := by
  rw [encode_text, decode_encode]

end LedgerLoad.Hex
