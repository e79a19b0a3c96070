import LedgerLoad.Json.Numeral
import LedgerLoad.Proofs.Json.Text

/-! # JSON numbers: taking a numeral off a text

A numeral in letters has an optional minus sign, whole digits without leading zeros, and optionally
decimals and an exponent (`Letters`). `split_letters`: the reader takes exactly these letters off a
text that goes on with something else, and `scalar_letters`: it makes of them what they stand for,
whatever follows. -/

namespace LedgerLoad.Json

/-! ### Digits -/

/-- The number of a digit. -/
def digitOf (c : Char) : Nat := c.toNat - 0x30

theorem isDigit_iff {c : Char} : c.isDigit = true ↔ 0x30 ≤ c.toNat ∧ c.toNat ≤ 0x39 := by
  simp only [Char.isDigit, Bool.and_eq_true, decide_eq_true_eq, ge_iff_le, UInt32.le_iff_toNat_le]
  exact Iff.rfl

theorem encodeChar_digit {c : Char} (h : c.isDigit = true) :
    String.utf8EncodeChar c = [UInt8.ofNat c.toNat] := by
  have := isDigit_iff.mp h
  exact Utf8.encodeChar_ascii (by omega)

theorem digit?_letter {c : Char} (h : c.isDigit = true) :
    digit? (UInt8.ofNat c.toNat) = some (digitOf c) := by
  have := isDigit_iff.mp h
  have hn := Utf8.toNat_ofNat (n := c.toNat) (by omega)
  have hin : (0x30 ≤ UInt8.ofNat c.toNat && UInt8.ofNat c.toNat ≤ 0x39) = true := by
    rw [Bool.and_eq_true, decide_eq_true_eq, decide_eq_true_eq, UInt8.le_iff_toNat_le,
      UInt8.le_iff_toNat_le, hn]
    exact this
  rw [digit?, if_pos hin, hn, digitOf]

/-- No digit goes on. -/
def NoDigit (rest : Bytes) : Prop := ∀ b ∈ rest.head?, digit? b = none

theorem digits_letters {cs : List Char} {rest : Bytes} (hcs : ∀ c ∈ cs, c.isDigit = true)
    (hrest : NoDigit rest) : digits (octets cs ++ rest) = (cs.map digitOf, rest) := by
  induction cs with
  | nil =>
    cases rest with
    | nil => rfl
    | cons b rest => simp [digits, hrest b rfl]
  | cons c cs ih =>
    have hc := hcs c List.mem_cons_self
    have ih := ih fun x hx => hcs x (List.mem_cons_of_mem c hx)
    rw [octets_cons, encodeChar_digit hc, List.append_assoc, List.singleton_append, digits,
      digit?_letter hc]
    simp only [ih, List.map_cons]

/-! ### Numerals in letters -/

/-- A numeral in letters. -/
structure Letters where
  negative : Bool
  whole : List Char
  decimals : Option (List Char)
  exponent : Option (Bool × List Char)

namespace Letters

/-- The decimals with their point. -/
def point : Option (List Char) → List Char
  | none => []
  | some ds => '.' :: ds

/-- The exponent with its sign. -/
def power : Option (Bool × List Char) → List Char
  | none => []
  | some (negative, ds) => 'e' :: (if negative then '-' else '+') :: ds

/-- The letters without the sign. -/
def unsigned (l : Letters) : List Char := l.whole ++ (point l.decimals ++ power l.exponent)

/-- The letters from first to last. -/
def toList (l : Letters) : List Char := (if l.negative then ['-'] else []) ++ l.unsigned

/-- The numeral in numbers. -/
def numeral (l : Letters) : Numeral :=
  { negative := l.negative
    whole := l.whole.map digitOf
    decimals := l.decimals.map fun ds => ds.map digitOf
    exponent := l.exponent.map fun (negative, ds) => (negative, ds.map digitOf) }

/-- Digits, at least one. -/
structure Digits (cs : List Char) : Prop where
  ne_nil : cs ≠ []
  isDigit : ∀ c ∈ cs, c.isDigit = true

/-- Whole digits: a lone zero, or digits that do not begin with one. -/
structure Whole (cs : List Char) : Prop extends Digits cs where
  leading : ∀ c tail, cs ≠ '0' :: c :: tail

/-- The letters make a numeral. -/
structure Sound (l : Letters) : Prop where
  whole : Whole l.whole
  decimals : ∀ ds ∈ l.decimals, Digits ds
  exponent : ∀ e ∈ l.exponent, Digits e.2

end Letters

/-- Octets that do not carry a numeral on. -/
def Ends (rest : Bytes) : Prop :=
  ∀ b ∈ rest.head?, digit? b = none ∧ b ≠ 0x2e ∧ b ≠ 0x65 ∧ b ≠ 0x45

theorem Ends.noDigit {rest : Bytes} (h : Ends rest) : NoDigit rest := fun b hb => (h b hb).1

theorem digitOf_eq_zero {c : Char} (h : c.isDigit = true) (hz : digitOf c = 0) : c = '0' := by
  have := isDigit_iff.mp h
  unfold digitOf at hz
  apply Char.toNat_inj.mp
  show c.toNat = 48
  omega

theorem wholeDigits_letters {cs : List Char} {rest : Bytes} (hcs : Letters.Whole cs)
    (hrest : NoDigit rest) :
    Numeral.wholeDigits (octets cs ++ rest) = some (cs.map digitOf, rest) := by
  rw [Numeral.wholeDigits, digits_letters hcs.isDigit hrest]
  split
  · rename_i h
    exact absurd (List.map_eq_nil_iff.mp (congrArg Prod.fst h)) hcs.ne_nil
  · rename_i x tail _ h
    obtain ⟨c, cs', rfl⟩ := List.exists_cons_of_ne_nil hcs.ne_nil
    obtain ⟨hz, htail⟩ := List.cons.inj (congrArg Prod.fst h)
    obtain ⟨d, ds, rfl⟩ := List.exists_cons_of_ne_nil (l := cs') (by rintro rfl; simp at htail)
    rw [digitOf_eq_zero (hcs.isDigit c List.mem_cons_self) hz] at hcs
    exact absurd rfl (hcs.leading d ds)
  · rfl

theorem decimalDigits_letters {ds : Option (List Char)} {rest : Bytes}
    (hds : ∀ cs ∈ ds, Letters.Digits cs) (hrest : NoDigit rest)
    (hpoint : ∀ b ∈ rest.head?, b ≠ 0x2e) :
    Numeral.decimalDigits (octets (Letters.point ds) ++ rest) =
      some (ds.map fun cs => cs.map digitOf, rest) := by
  cases ds with
  | none =>
    rw [Letters.point, octets_nil, List.nil_append, Numeral.decimalDigits.eq_def]
    split
    · exact absurd rfl (hpoint _ rfl)
    · rfl
  | some cs =>
    obtain ⟨hne, hdig⟩ := hds cs rfl
    have hfront : octets (Letters.point (some cs)) = 0x2e :: octets cs := rfl
    rw [hfront, List.cons_append, Numeral.decimalDigits, digits_letters hdig hrest]
    obtain ⟨c, cs, rfl⟩ := List.exists_cons_of_ne_nil hne
    rfl

theorem exponentDigits_letters {e : Option (Bool × List Char)} {rest : Bytes}
    (he : ∀ x ∈ e, Letters.Digits x.2) (hrest : Ends rest) :
    Numeral.exponentDigits (octets (Letters.power e) ++ rest) =
      some (e.map fun (negative, ds) => (negative, ds.map digitOf), rest) := by
  rcases e with _ | ⟨negative, ds⟩
  · rw [Letters.power, octets_nil, List.nil_append]
    cases rest with
    | nil => rfl
    | cons b rest =>
      obtain ⟨-, -, hlow, hup⟩ := hrest b rfl
      simp [Numeral.exponentDigits, hlow, hup]
  · obtain ⟨hne, hdig⟩ := he _ rfl
    have hds := digits_letters hdig hrest.noDigit
    obtain ⟨c, ds, rfl⟩ := List.exists_cons_of_ne_nil hne
    cases negative
    · have hfront : octets (Letters.power (some (false, c :: ds))) =
          0x65 :: 0x2b :: octets (c :: ds) := rfl
      rw [hfront, List.cons_append, List.cons_append, Numeral.exponentDigits]
      simp [hds, -octets_cons]
    · have hfront : octets (Letters.power (some (true, c :: ds))) =
          0x65 :: 0x2d :: octets (c :: ds) := rfl
      rw [hfront, List.cons_append, List.cons_append, Numeral.exponentDigits]
      simp [hds, -octets_cons]

/-! ### A numeral and what follows -/

theorem ends_power (e : Option (Bool × List Char)) {rest : Bytes} (h : Ends rest) :
    NoDigit (octets (Letters.power e) ++ rest) ∧
      ∀ b ∈ (octets (Letters.power e) ++ rest).head?, b ≠ 0x2e := by
  cases e with
  | none => exact ⟨h.noDigit, fun b hb => (h b hb).2.1⟩
  | some x =>
    have hfront : octets (Letters.power (some x)) =
        0x65 :: octets ((if x.1 then '-' else '+') :: x.2) := rfl
    rw [hfront, List.cons_append]
    refine ⟨fun b hb => ?_, fun b hb => ?_⟩ <;> obtain rfl := Option.some.inj hb
    · rfl
    · decide

theorem noDigit_point (ds : Option (List Char)) {rest : Bytes} (h : NoDigit rest) :
    NoDigit (octets (Letters.point ds) ++ rest) := by
  cases ds with
  | none => exact h
  | some cs =>
    intro b hb
    obtain rfl := Option.some.inj hb
    rfl

/-- **A numeral is taken off a text** that goes on with something else. -/
theorem split_letters {l : Letters} (h : l.Sound) {rest : Bytes} (hrest : Ends rest) :
    Numeral.split (octets l.toList ++ rest) = some (l.numeral, rest) := by
  obtain ⟨hpower, hpoint⟩ := ends_power l.exponent hrest
  have hexp := exponentDigits_letters h.exponent hrest
  have hdec := decimalDigits_letters h.decimals hpower hpoint
  have hwhole := wholeDigits_letters h.whole (noDigit_point l.decimals hpower)
  have hunsigned : octets l.unsigned ++ rest = octets l.whole ++
      (octets (Letters.point l.decimals) ++ (octets (Letters.power l.exponent) ++ rest)) := by
    simp [Letters.unsigned, List.append_assoc]
  have hminus : octets ['-'] = [0x2d] := rfl
  rcases hneg : l.negative with _ | _
  · -- without a sign the text begins with a digit
    obtain ⟨c, cs, hc⟩ := List.exists_cons_of_ne_nil h.whole.ne_nil
    have hdigit := h.whole.isDigit c (by rw [hc]; exact List.mem_cons_self)
    have hne : UInt8.ofNat c.toNat ≠ 0x2d := by
      have := isDigit_iff.mp hdigit
      refine ne_of_toNat_ne ?_
      rw [Utf8.toNat_ofNat (by omega)]
      show c.toNat ≠ 0x2d
      omega
    have hhead : octets l.unsigned ++ rest = UInt8.ofNat c.toNat ::
        (octets cs ++ (octets (Letters.point l.decimals) ++
          (octets (Letters.power l.exponent) ++ rest))) := by
      rw [hunsigned, hc, octets_cons, encodeChar_digit hdigit]
      simp
    rw [Letters.toList, hneg, if_neg (by decide), List.nil_append, Numeral.split.eq_def, hhead]
    simp only
    split
    · rename_i heq
      exact absurd (List.cons.inj heq).1 hne
    · rename_i heq
      rw [← hhead, hunsigned]
      simp [hwhole, hdec, hexp, Letters.numeral, hneg]
  · rw [Letters.toList, hneg, if_pos rfl, octets_append, hminus, List.append_assoc,
      List.singleton_append, hunsigned, Numeral.split.eq_def]
    simp [hwhole, hdec, hexp, Letters.numeral, hneg]

/-- The first octet of a numeral: a minus sign or a digit. -/
theorem head_letters {l : Letters} (h : l.Sound) :
    ∃ b tail, octets l.toList = b :: tail ∧ (b = 0x2d ∨ 0x30 ≤ b.toNat ∧ b.toNat ≤ 0x39) := by
  rcases hneg : l.negative with _ | _
  · obtain ⟨c, cs, hc⟩ := List.exists_cons_of_ne_nil h.whole.ne_nil
    have hdigit := h.whole.isDigit c (by rw [hc]; exact List.mem_cons_self)
    have hrange := isDigit_iff.mp hdigit
    refine ⟨UInt8.ofNat c.toNat, octets (cs ++ (Letters.point l.decimals ++
      Letters.power l.exponent)), ?_, Or.inr ?_⟩
    · simp [Letters.toList, hneg, Letters.unsigned, hc, encodeChar_digit hdigit]
    · rw [Utf8.toNat_ofNat (by omega)]
      exact hrange
  · exact ⟨0x2d, octets l.unsigned, by simp [Letters.toList, hneg]; rfl, Or.inl rfl⟩

/-- **A numeral is read** as what it stands for, whatever follows. -/
theorem scalar_letters {l : Letters} (h : l.Sound) {rest : Bytes} (hrest : Ends rest) :
    scalar (octets l.toList ++ rest) = (l.numeral.datum, some rest) := by
  obtain ⟨b, tail, hb, hfirst⟩ := head_letters h
  have hne : b ≠ 0x22 ∧ b ≠ 0x6e ∧ b ≠ 0x74 ∧ b ≠ 0x66 := by
    rcases hfirst with rfl | ⟨hlow, hhigh⟩
    · decide
    · refine ⟨ne_of_toNat_ne ?_, ne_of_toNat_ne ?_, ne_of_toNat_ne ?_, ne_of_toNat_ne ?_⟩
      · show b.toNat ≠ 0x22
        omega
      · show b.toNat ≠ 0x6e
        omega
      · show b.toNat ≠ 0x74
        omega
      · show b.toNat ≠ 0x66
        omega
  have hsplit := split_letters h hrest
  rw [hb, List.cons_append] at hsplit ⊢
  obtain ⟨hquote, hn, ht, hf⟩ := hne
  simp only [scalar, hquote, hn, ht, hf, if_false, hsplit]

end LedgerLoad.Json
