import LedgerLoad.Json.Reader
import LedgerLoad.Json.Writer
import LedgerLoad.Proofs.Bytes.Utf8
import Mathlib.Tactic.SplitIfs

/-! # JSON texts: reading what was written

A text between quotes is read letter by letter: every letter, escaped or not, puts its octets before
what is read of the rest (`content_escape`). So the reader finds the text and what stands behind its
closing quote (`textAt_write`). -/

namespace LedgerLoad.Json

/-- The octets of letters. -/
def octets (cs : List Char) : Bytes := cs.flatMap String.utf8EncodeChar

@[simp] theorem octets_nil : octets [] = [] := rfl

@[simp] theorem octets_cons (c : Char) (cs : List Char) :
    octets (c :: cs) = String.utf8EncodeChar c ++ octets cs := rfl

@[simp] theorem octets_append (cs ds : List Char) : octets (cs ++ ds) = octets cs ++ octets ds := by
  simp [octets]

theorem encode_eq_octets (d : Datum) : encode d = octets (write d) := by
  rw [encode, text, Utf8.encode, String.toList_ofList, octets]

/-! ### What a reader does with one letter -/

theorem prepend_append (a b : Bytes) (t : Option (Option Bytes × Bytes)) :
    prepend (a ++ b) t = prepend a (prepend b t) := by
  rcases t with _ | ⟨_ | _, _⟩ <;> simp [prepend]

theorem prepend_nil (t : Option (Option Bytes × Bytes)) : prepend [] t = t := by
  rcases t with _ | ⟨_ | _, _⟩ <;> simp [prepend]

theorem content_plain {b : UInt8} (rest : Bytes) (h : 0x20 ≤ b.toNat) (hquote : b ≠ 0x22)
    (hback : b ≠ 0x5c) : content (b :: rest) = prepend [b] (content rest) := by
  have hlow : ¬ (b < 0x20 || b = 0x5c) = true := by
    simp [UInt8.le_iff_toNat_le, hback]
    omega
  rw [content.eq_def]
  split
  · contradiction
  · simp_all
  · simp_all
  · simp_all
  · rename_i heq
    obtain ⟨rfl, rfl⟩ := List.cons.inj heq
    rw [if_neg hlow]

theorem content_short {e b : UInt8} (rest : Bytes) (h : shortEscape? e = some b) :
    content (0x5c :: e :: rest) = prepend [b] (content rest) := by
  have he : e ≠ 0x75 := by rintro rfl; simp [shortEscape?] at h
  rw [content.eq_def]
  split
  · contradiction
  · simp_all
  · simp_all
  · simp_all
  · rename_i hnot heq
    obtain ⟨rfl, rfl⟩ := List.cons.inj heq
    exact absurd rfl (hnot e rest rfl)

theorem content_number {a b c d : UInt8} {n : Nat} (rest : Bytes) (h : hex4? a b c d = some n)
    (hn : n < 0xd800) : content (0x5c :: 0x75 :: a :: b :: c :: d :: rest) =
      prepend (String.utf8EncodeChar (Char.ofNat n)) (content rest) := by
  have hhigh : isHighSurrogate n = false := by simp [isHighSurrogate]; omega
  have hlow : isLowSurrogate n = false := by simp [isLowSurrogate]; omega
  rw [content.eq_def]
  simp [h, hhigh, hlow]

/-- Octets without quote, backslash and controls are read as they are. -/
theorem content_octets (bs rest : Bytes) (h : ∀ b ∈ bs, 0x20 ≤ b.toNat ∧ b ≠ 0x22 ∧ b ≠ 0x5c) :
    content (bs ++ rest) = prepend bs (content rest) := by
  induction bs with
  | nil => rw [List.nil_append, prepend_nil]
  | cons b bs ih =>
    obtain ⟨hlow, hquote, hback⟩ := h b List.mem_cons_self
    have ih := ih fun x hx => h x (List.mem_cons_of_mem b hx)
    rw [List.cons_append, content_plain _ hlow hquote hback, ih, ← prepend_append]
    rfl

/-! ### Letters -/

theorem ne_of_toNat_ne {a b : UInt8} (h : a.toNat ≠ b.toNat) : a ≠ b := fun he => h (he ▸ rfl)

theorem content_unescaped {c : Char} (rest : Bytes) (hlow : 0x20 ≤ c.toNat) (hquote : c ≠ '"')
    (hback : c ≠ '\\') :
    content (String.utf8EncodeChar c ++ rest) =
      prepend (String.utf8EncodeChar c) (content rest) := by
  refine content_octets _ rest fun b hb => ?_
  rcases Nat.lt_or_ge c.toNat 0x80 with h | h
  · have hq : c.toNat ≠ 0x22 := fun he => hquote (Char.toNat_inj.mp he)
    have hs : c.toNat ≠ 0x5c := fun he => hback (Char.toNat_inj.mp he)
    rw [Utf8.encodeChar_ascii h, List.mem_singleton] at hb
    have hn := Utf8.toNat_ofNat (n := c.toNat) (by omega)
    subst hb
    exact ⟨by omega, ne_of_toNat_ne (by rw [hn]; exact hq), ne_of_toNat_ne (by rw [hn]; exact hs)⟩
  · have := Utf8.encodeChar_high h hb
    refine ⟨by omega, ne_of_toNat_ne ?_, ne_of_toNat_ne ?_⟩
    · show b.toNat ≠ 0x22
      omega
    · show b.toNat ≠ 0x5c
      omega

theorem hex4?_hexDigit : ∀ n : Fin 0x20,
    hex4? 0x30 0x30 (UInt8.ofNat (hexDigit (n / 16)).toNat)
      (UInt8.ofNat (hexDigit (n % 16)).toNat) =
      some n.1 ∧ (hexDigit (n / 16)).toNat < 0x80 ∧ (hexDigit (n % 16)).toNat < 0x80 := by
  decide

/-- **A letter as it is written** is read as its octets. -/
theorem content_escape (c : Char) (rest : Bytes) :
    content (octets (escape c) ++ rest) = prepend (String.utf8EncodeChar c) (content rest) := by
  -- a letter is one of a few, and so is what the reader makes of it
  have of_toNat {d : Char} (h : c.toNat = d.toNat) : c = d := Char.toNat_inj.mp h
  unfold escape
  split_ifs with hquote hback hlow hb hf hn hr ht
  · subst hquote
    exact content_short (b := 0x22) rest rfl
  · subst hback
    exact content_short (b := 0x5c) rest rfl
  · rw [octets_cons, octets_nil, List.append_nil]
    exact content_unescaped rest hlow hquote hback
  · obtain rfl := of_toNat (d := '\x08') hb
    exact content_short (b := 0x08) rest rfl
  · obtain rfl := of_toNat (d := '\x0c') hf
    exact content_short (b := 0x0c) rest rfl
  · subst hn
    exact content_short (b := 0x0a) rest rfl
  · subst hr
    exact content_short (b := 0x0d) rest rfl
  · subst ht
    exact content_short (b := 0x09) rest rfl
  · obtain ⟨hhex, hhigh, hlow'⟩ := hex4?_hexDigit ⟨c.toNat, by omega⟩
    have hfront : octets ['\\', 'u', '0', '0'] = [0x5c, 0x75, 0x30, 0x30] := rfl
    rw [show ['\\', 'u', '0', '0', hexDigit (c.toNat / 16), hexDigit (c.toNat % 16)] =
      ['\\', 'u', '0', '0'] ++ [hexDigit (c.toNat / 16), hexDigit (c.toNat % 16)] from rfl,
      octets_append, hfront, octets_cons, octets_cons, octets_nil, Utf8.encodeChar_ascii hhigh,
      Utf8.encodeChar_ascii hlow']
    have := content_number rest hhex (by show c.toNat < 0xd800; omega)
    rwa [show Char.ofNat c.toNat = c from Char.ofNat_toNat c] at this

theorem content_letters (cs : List Char) (rest : Bytes) :
    content (octets (cs.flatMap escape) ++ 0x22 :: rest) = some (some (octets cs), rest) := by
  induction cs with
  | nil =>
    rw [List.flatMap_nil, octets_nil, List.nil_append, content.eq_def]
    rfl
  | cons c cs ih =>
    rw [List.flatMap_cons, octets_append, List.append_assoc, content_escape, ih]
    rfl

/-- **A text is read back** behind its opening quote, up to the closing one. -/
theorem textAt_write (s : String) (rest : Bytes) :
    textAt (octets (s.toList.flatMap escape ++ ['"']) ++ rest) = some (some s, rest) := by
  have hquote : octets ['"'] = [0x22] := rfl
  rw [octets_append, hquote, List.append_assoc, List.singleton_append, textAt, content_letters]
  show some (Utf8.decode? (Utf8.encode s), rest) = _
  rw [Utf8.decode?_encode]

end LedgerLoad.Json
