import LedgerLoad.Bytes.Utf8
import LedgerLoad.Proofs.Except
import Mathlib.Tactic.SplitIfs

/-! # UTF-8: reading what was written

The octets of a character are read back as that character, whatever follows them
(`decodeAt_char`): one lemma for each of the four widths says which octets make a character of that
width, and the arithmetic puts the bits together again. So the octets of a text are read back as the
text (`decode_encode`), and conversely octets that are read as a text are those of the text
(`encode_of_decode`). -/

namespace LedgerLoad

namespace Utf8

/-! ### Characters of one to four octets -/

theorem toNat_ofNat {n : Nat} (h : n < 256) : (UInt8.ofNat n).toNat = n := by
  simp; omega

theorem continues_iff (b : UInt8) : continues b = true ↔ 0x80 ≤ b.toNat ∧ b.toNat ≤ 0xBF := by
  simp [continues, UInt8.le_iff_toNat_le]

theorem secondOfThree_of {a b : UInt8} (hb : continues b = true)
    (low : a.toNat = 0xE0 → 0xA0 ≤ b.toNat) (high : a.toNat = 0xED → b.toNat ≤ 0x9F) :
    secondOfThree a b = true := by
  have h := (continues_iff b).mp hb
  unfold secondOfThree
  split_ifs with he hd
  · have := low (by rw [he]; rfl)
    simp [UInt8.le_iff_toNat_le]
    omega
  · have := high (by rw [hd]; rfl)
    simp [UInt8.le_iff_toNat_le]
    omega
  · exact hb

theorem secondOfFour_of {a b : UInt8} (hb : continues b = true)
    (low : a.toNat = 0xF0 → 0x90 ≤ b.toNat) (high : a.toNat = 0xF4 → b.toNat ≤ 0x8F) :
    secondOfFour a b = true := by
  have h := (continues_iff b).mp hb
  unfold secondOfFour
  split_ifs with he hd
  · have := low (by rw [he]; rfl)
    simp [UInt8.le_iff_toNat_le]
    omega
  · have := high (by rw [hd]; rfl)
    simp [UInt8.le_iff_toNat_le]
    omega
  · exact hb

theorem decodeAt_one {index : Nat} {a : UInt8} (rest : Bytes) (ha : a.toNat < 0x80) :
    decodeAt index (a :: rest) = (decodeAt (index + 1) rest).map (Char.ofNat a.toNat :: ·) := by
  rw [decodeAt.eq_def]
  exact if_pos (UInt8.lt_iff_toNat_lt.mpr ha)

theorem decodeAt_two {index : Nat} {a b : UInt8} (rest : Bytes) (ha : 0xC2 ≤ a.toNat)
    (ha' : a.toNat ≤ 0xDF) (hb : continues b = true) :
    decodeAt index (a :: b :: rest) =
      (decodeAt (index + 2) rest).map (Char.ofNat (shiftIn (a.toNat % 32) b) :: ·) := by
  rw [decodeAt.eq_def]
  have h1 : ¬ a < 0x80 := by rw [UInt8.lt_iff_toNat_lt]; simp; omega
  have h2 : (0xC2 ≤ a && a ≤ 0xDF) = true := by simp [UInt8.le_iff_toNat_le, ha, ha']
  simp only [h1, h2, hb, if_true, if_false]

theorem decodeAt_three {index : Nat} {a b c : UInt8} (rest : Bytes) (ha : 0xE0 ≤ a.toNat)
    (ha' : a.toNat ≤ 0xEF) (hb : secondOfThree a b = true) (hc : continues c = true) :
    decodeAt index (a :: b :: c :: rest) =
      (decodeAt (index + 3) rest).map (Char.ofNat (shiftIn (shiftIn (a.toNat % 16) b) c) :: ·) := by
  rw [decodeAt.eq_def]
  have h1 : ¬ a < 0x80 := by rw [UInt8.lt_iff_toNat_lt]; simp; omega
  have h2 : (0xC2 ≤ a && a ≤ 0xDF) = false := by simp [UInt8.le_iff_toNat_le]; omega
  have h3 : (0xE0 ≤ a && a ≤ 0xEF) = true := by simp [UInt8.le_iff_toNat_le, ha, ha']
  simp [h1, h2, h3, hb, hc]

theorem decodeAt_four {index : Nat} {a b c d : UInt8} (rest : Bytes) (ha : 0xF0 ≤ a.toNat)
    (ha' : a.toNat ≤ 0xF4) (hb : secondOfFour a b = true) (hc : continues c = true)
    (hd : continues d = true) :
    decodeAt index (a :: b :: c :: d :: rest) =
      (decodeAt (index + 4) rest).map
        (Char.ofNat (shiftIn (shiftIn (shiftIn (a.toNat % 8) b) c) d) :: ·) := by
  rw [decodeAt.eq_def]
  have h1 : ¬ a < 0x80 := by rw [UInt8.lt_iff_toNat_lt]; simp; omega
  have h2 : (0xC2 ≤ a && a ≤ 0xDF) = false := by simp [UInt8.le_iff_toNat_le]; omega
  have h3 : (0xE0 ≤ a && a ≤ 0xEF) = false := by simp [UInt8.le_iff_toNat_le]; omega
  have h4 : (0xF0 ≤ a && a ≤ 0xF4) = true := by simp [UInt8.le_iff_toNat_le, ha, ha']
  simp [h1, h2, h3, h4, hb, hc, hd]

/-! ### Texts -/

/-- **The octets of a character** are read back as the character. -/
theorem decodeAt_char (index : Nat) (c : Char) (rest : Bytes) :
    decodeAt index (String.utf8EncodeChar c ++ rest) =
      (decodeAt (index + (String.utf8EncodeChar c).length) rest).map (c :: ·) := by
  have hc : Char.ofNat c.val.toNat = c := Char.ofNat_toNat c
  have hv : c.val.toNat < 0xD800 ∨ 0xDFFF < c.val.toNat ∧ c.val.toNat < 0x110000 := c.valid
  unfold String.utf8EncodeChar
  generalize c.val.toNat = v at hc hv ⊢
  have low : ∀ n, continues (UInt8.ofNat (n % 64 + 128)) = true := fun n => by
    rw [continues_iff, toNat_ofNat (by omega)]
    omega
  dsimp only
  split_ifs with h1 h2 h3
  · have ha := toNat_ofNat (n := v) (by omega)
    rw [List.singleton_append, decodeAt_one rest (by omega), ha, hc]
    rfl
  · have ha := toNat_ofNat (n := v / 64 % 32 + 192) (by omega)
    have hb := toNat_ofNat (n := v % 64 + 128) (by omega)
    have hval : shiftIn ((v / 64 % 32 + 192) % 32) (UInt8.ofNat (v % 64 + 128)) = v := by
      unfold shiftIn
      omega
    rw [List.cons_append, List.singleton_append,
      decodeAt_two rest (by omega) (by omega) (low v), ha, hval, hc]
    rfl
  · have ha := toNat_ofNat (n := v / 4096 % 16 + 224) (by omega)
    have hb := toNat_ofNat (n := v / 64 % 64 + 128) (by omega)
    have hd := toNat_ofNat (n := v % 64 + 128) (by omega)
    have hval : shiftIn (shiftIn ((v / 4096 % 16 + 224) % 16) (UInt8.ofNat (v / 64 % 64 + 128)))
        (UInt8.ofNat (v % 64 + 128)) = v := by
      unfold shiftIn
      omega
    have hsecond := secondOfThree_of (a := UInt8.ofNat (v / 4096 % 16 + 224)) (low (v / 64))
      (by omega) (by omega)
    rw [List.cons_append, List.cons_append, List.singleton_append,
      decodeAt_three rest (by omega) (by omega) hsecond (low v), ha, hval, hc]
    rfl
  · have ha := toNat_ofNat (n := v / 262144 % 8 + 240) (by omega)
    have hb := toNat_ofNat (n := v / 4096 % 64 + 128) (by omega)
    have hd := toNat_ofNat (n := v / 64 % 64 + 128) (by omega)
    have he := toNat_ofNat (n := v % 64 + 128) (by omega)
    have hval : shiftIn (shiftIn (shiftIn ((v / 262144 % 8 + 240) % 8)
        (UInt8.ofNat (v / 4096 % 64 + 128))) (UInt8.ofNat (v / 64 % 64 + 128)))
        (UInt8.ofNat (v % 64 + 128)) = v := by
      unfold shiftIn
      omega
    have hsecond := secondOfFour_of (a := UInt8.ofNat (v / 262144 % 8 + 240)) (low (v / 4096))
      (by omega) (by omega)
    rw [List.cons_append, List.cons_append, List.cons_append, List.singleton_append,
      decodeAt_four rest (by omega) (by omega) hsecond (low (v / 64)) (low v), ha, hval, hc]
    rfl

theorem decodeAt_chars (index : Nat) (cs : List Char) :
    decodeAt index (cs.flatMap String.utf8EncodeChar) = .ok cs := by
  induction cs generalizing index with
  | nil => rw [List.flatMap_nil, decodeAt.eq_def]
  | cons c cs ih =>
    rw [List.flatMap_cons, decodeAt_char, ih]
    rfl

/-- **A text is read back** from its octets. -/
theorem decode_encode (s : String) : decode (encode s) = .ok s := by
  rw [decode, encode, decodeAt_chars]
  simp [Except.map]

@[simp] theorem decode?_encode (s : String) : decode? (encode s) = some s := by
  rw [decode?, decode_encode]
  rfl

/-! ### Only what was written is read -/

theorem toNat_char {v : Nat} (h : v < 0xD800 ∨ 0xDFFF < v ∧ v < 0x110000) :
    (Char.ofNat v).val.toNat = v := by
  have hv : v.isValidChar := h
  rw [Char.ofNat, dif_pos hv]
  rfl

theorem ofNat_eq {n : Nat} {b : UInt8} (h : n = b.toNat) : UInt8.ofNat n = b := by
  rw [h]
  exact UInt8.ofNat_toNat

theorem secondOfThree_spec {a b : UInt8} (h : secondOfThree a b = true) :
    (0x80 ≤ b.toNat ∧ b.toNat ≤ 0xBF) ∧ (a.toNat = 0xE0 → 0xA0 ≤ b.toNat) ∧
      (a.toNat = 0xED → b.toNat ≤ 0x9F) := by
  unfold secondOfThree at h
  split_ifs at h with he hd
  · subst he
    simp [UInt8.le_iff_toNat_le] at h ⊢
    omega
  · subst hd
    simp [UInt8.le_iff_toNat_le] at h ⊢
    omega
  · exact ⟨(continues_iff b).mp h, fun heq => absurd (UInt8.toNat_inj.mp heq) he,
      fun heq => absurd (UInt8.toNat_inj.mp heq) hd⟩

theorem secondOfFour_spec {a b : UInt8} (h : secondOfFour a b = true) :
    (0x80 ≤ b.toNat ∧ b.toNat ≤ 0xBF) ∧ (a.toNat = 0xF0 → 0x90 ≤ b.toNat) ∧
      (a.toNat = 0xF4 → b.toNat ≤ 0x8F) := by
  unfold secondOfFour at h
  split_ifs at h with he hd
  · subst he
    simp [UInt8.le_iff_toNat_le] at h ⊢
    omega
  · subst hd
    simp [UInt8.le_iff_toNat_le] at h ⊢
    omega
  · exact ⟨(continues_iff b).mp h, fun heq => absurd (UInt8.toNat_inj.mp heq) he,
      fun heq => absurd (UInt8.toNat_inj.mp heq) hd⟩

theorem encodeChar_one {a : UInt8} (ha : a.toNat < 0x80) :
    String.utf8EncodeChar (Char.ofNat a.toNat) = [a] := by
  have hv := toNat_char (v := a.toNat) (by omega)
  unfold String.utf8EncodeChar
  dsimp only
  rw [hv, if_pos (by omega), ofNat_eq rfl]

theorem encodeChar_two {a b : UInt8} (ha : 0xC2 ≤ a.toNat) (ha' : a.toNat ≤ 0xDF)
    (hb : continues b = true) :
    String.utf8EncodeChar (Char.ofNat (shiftIn (a.toNat % 32) b)) = [a, b] := by
  have hb := (continues_iff b).mp hb
  have hv := toNat_char (v := shiftIn (a.toNat % 32) b) (by unfold shiftIn; omega)
  unfold String.utf8EncodeChar
  dsimp only
  rw [hv]
  unfold shiftIn
  rw [if_neg (by omega), if_pos (by omega), ofNat_eq (b := a) (by omega),
    ofNat_eq (b := b) (by omega)]

theorem encodeChar_three {a b c : UInt8} (ha : 0xE0 ≤ a.toNat) (ha' : a.toNat ≤ 0xEF)
    (hb : secondOfThree a b = true) (hc : continues c = true) :
    String.utf8EncodeChar (Char.ofNat (shiftIn (shiftIn (a.toNat % 16) b) c)) = [a, b, c] := by
  obtain ⟨hb, hlow, hhigh⟩ := secondOfThree_spec hb
  have hc := (continues_iff c).mp hc
  have hv := toNat_char (v := shiftIn (shiftIn (a.toNat % 16) b) c) (by unfold shiftIn; omega)
  unfold String.utf8EncodeChar
  dsimp only
  rw [hv]
  unfold shiftIn
  rw [if_neg (by omega), if_neg (by omega), if_pos (by omega), ofNat_eq (b := a) (by omega),
    ofNat_eq (b := b) (by omega), ofNat_eq (b := c) (by omega)]

theorem encodeChar_four {a b c d : UInt8} (ha : 0xF0 ≤ a.toNat) (ha' : a.toNat ≤ 0xF4)
    (hb : secondOfFour a b = true) (hc : continues c = true) (hd : continues d = true) :
    String.utf8EncodeChar (Char.ofNat (shiftIn (shiftIn (shiftIn (a.toNat % 8) b) c) d)) =
      [a, b, c, d] := by
  obtain ⟨hb, hlow, hhigh⟩ := secondOfFour_spec hb
  have hc := (continues_iff c).mp hc
  have hd := (continues_iff d).mp hd
  have hv := toNat_char (v := shiftIn (shiftIn (shiftIn (a.toNat % 8) b) c) d)
    (by unfold shiftIn; omega)
  unfold String.utf8EncodeChar
  dsimp only
  rw [hv]
  unfold shiftIn
  rw [if_neg (by omega), if_neg (by omega), if_neg (by omega), ofNat_eq (b := a) (by omega),
    ofNat_eq (b := b) (by omega), ofNat_eq (b := c) (by omega), ofNat_eq (b := d) (by omega)]

/-- **Octets that are read** are those of what is read. -/
theorem flatMap_of_decodeAt {index : Nat} {bs : Bytes} {cs : List Char}
    (h : decodeAt index bs = .ok cs) : cs.flatMap String.utf8EncodeChar = bs := by
  fun_induction decodeAt index bs generalizing cs with
  | case1 =>
    cases h
    rfl
  | case2 index a rest ha ih =>
    obtain ⟨tail, htail, rfl⟩ := Except.map_eq_ok h
    rw [List.flatMap_cons, ih htail, encodeChar_one (UInt8.lt_iff_toNat_lt.mp ha)]
    rfl
  | case4 index a _ ha b rest hb ih =>
    obtain ⟨tail, htail, rfl⟩ := Except.map_eq_ok h
    obtain ⟨hlow, hhigh⟩ : 0xC2 ≤ a.toNat ∧ a.toNat ≤ 0xDF := by
      simpa [UInt8.le_iff_toNat_le] using ha
    rw [List.flatMap_cons, ih htail, encodeChar_two hlow hhigh hb]
    rfl
  | case10 index a _ _ ha b c rest hb hc ih =>
    obtain ⟨tail, htail, rfl⟩ := Except.map_eq_ok h
    obtain ⟨hlow, hhigh⟩ : 0xE0 ≤ a.toNat ∧ a.toNat ≤ 0xEF := by
      simpa [UInt8.le_iff_toNat_le] using ha
    rw [List.flatMap_cons, ih htail,
      encodeChar_three hlow hhigh (by simpa using hb) (by simpa using hc)]
    rfl
  | case17 index a _ _ _ ha b c d rest hb hc hd ih =>
    obtain ⟨tail, htail, rfl⟩ := Except.map_eq_ok h
    obtain ⟨hlow, hhigh⟩ : 0xF0 ≤ a.toNat ∧ a.toNat ≤ 0xF4 := by
      simpa [UInt8.le_iff_toNat_le] using ha
    rw [List.flatMap_cons, ih htail, encodeChar_four hlow hhigh (by simpa using hb)
      (by simpa using hc) (by simpa using hd)]
    rfl
  | _ => cases h

/-- **Octets are a text** only if they are the octets of that text. -/
theorem encode_of_decode {bs : Bytes} {s : String} (h : decode bs = .ok s) : encode s = bs := by
  obtain ⟨cs, hcs, rfl⟩ := Except.map_eq_ok h
  rw [encode, String.toList_ofList, flatMap_of_decodeAt hcs]

/-! ### Letters of ASCII -/

theorem encodeChar_ascii {c : Char} (h : c.toNat < 0x80) :
    String.utf8EncodeChar c = [UInt8.ofNat c.toNat] := by
  have : c.val.toNat ≤ 127 := Nat.le_of_lt_succ h
  exact if_pos this

/-- Beyond ASCII no octet of a character looks like one of ASCII. -/
theorem encodeChar_high {c : Char} (h : 0x80 ≤ c.toNat) {b : UInt8}
    (hb : b ∈ String.utf8EncodeChar c) : 0x80 ≤ b.toNat := by
  have h1 : ¬ c.val.toNat ≤ 127 := Nat.not_le.mpr h
  unfold String.utf8EncodeChar at hb
  dsimp only at hb
  rw [if_neg h1] at hb
  split_ifs at hb <;> simp only [List.mem_cons, List.not_mem_nil, or_false] at hb <;>
    rcases hb with rfl | rfl | rfl | rfl <;> rw [toNat_ofNat (by omega)] <;> omega

end Utf8

end LedgerLoad
