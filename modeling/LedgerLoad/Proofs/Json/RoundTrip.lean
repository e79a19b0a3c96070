import LedgerLoad.Proofs.Json.Number
import Mathlib.Tactic.Tauto

/-! # JSON: reading what was written

A datum that is whole and whose integers have 64 bits is read back from its text, whatever follows
the text (`value_write`); only a double may come back as another one, or as none if it is not
finite. `Datum.reread` says what comes back, and `decode_encode` what a reader of data then makes of
it. -/

namespace LedgerLoad

/-! ### What comes back -/

mutual

/-- The datum that is read from the text of a datum. -/
def Datum.reread : Datum → Datum
  | .float x => (Json.scalar (Json.octets (Json.write (.float x)))).1
  | .list items => .list items.reread
  | .table entries => .table entries.reread
  | d => d

/-- The items that are read from the text of a list. -/
def Items.reread : Items → Items
  | .cons head tail => .cons head.reread tail.reread
  | items => items

/-- The entries that are read from the text of a table. -/
def Entries.reread : Entries → Entries
  | .cons key value tail => .cons key value.reread tail.reread
  | entries => entries

end

mutual

/-- The datum is whole, and its integers have 64 bits. -/
def Datum.Writable : Datum → Prop
  | .int i => -2 ^ 63 ≤ i ∧ i < 2 ^ 64
  | .list items => items.Writable
  | .table entries => entries.Writable
  | .unreadable => False
  | .broken => False
  | _ => True

/-- All items can be written, and the list is closed. -/
def Items.Writable : Items → Prop
  | .closed => True
  | .broken => False
  | .cons head tail => head.Writable ∧ tail.Writable

/-- All entries can be written, and the table is closed. -/
def Entries.Writable : Entries → Prop
  | .closed => True
  | .broken => False
  | .cons none _ _ => False
  | .cons (some _) value tail => value.Writable ∧ tail.Writable

end

theorem Items.reread_ofList (ds : List Datum) :
    (Items.ofList ds).reread = .ofList (ds.map Datum.reread) := by
  induction ds with
  | nil => rfl
  | cons d ds ih => simp [Items.ofList, Items.reread, ih]

theorem Entries.reread_ofList (es : List (String × Datum)) :
    (Entries.ofList es).reread = .ofList (es.map fun e => (e.1, e.2.reread)) := by
  induction es with
  | nil => rfl
  | cons e es ih => simp [Entries.ofList, Entries.reread, ih]

theorem Items.writable_ofList {ds : List Datum} :
    (Items.ofList ds).Writable ↔ ∀ d ∈ ds, d.Writable := by
  induction ds with
  | nil => simp [Items.ofList, Items.Writable]
  | cons d ds ih => simp [Items.ofList, Items.Writable, ih]

theorem Entries.writable_ofList {es : List (String × Datum)} :
    (Entries.ofList es).Writable ↔ ∀ e ∈ es, e.2.Writable := by
  induction es with
  | nil => simp [Entries.ofList, Entries.Writable]
  | cons e es ih => simp [Entries.ofList, Entries.Writable, ih]

@[simp] theorem Datum.reread_ofItems (ds : List Datum) :
    (Datum.ofItems ds).reread = .ofItems (ds.map Datum.reread) := by
  rw [Datum.ofItems, Datum.reread, Items.reread_ofList, Datum.ofItems]

@[simp] theorem Datum.reread_ofEntries (es : List (String × Datum)) :
    (Datum.ofEntries es).reread = .ofEntries (es.map fun e => (e.1, e.2.reread)) := by
  rw [Datum.ofEntries, Datum.reread, Entries.reread_ofList, Datum.ofEntries]

@[simp] theorem Datum.writable_ofItems {ds : List Datum} :
    (Datum.ofItems ds).Writable ↔ ∀ d ∈ ds, d.Writable := by
  rw [Datum.ofItems, Datum.Writable, Items.writable_ofList]

@[simp] theorem Datum.writable_ofEntries {es : List (String × Datum)} :
    (Datum.ofEntries es).Writable ↔ ∀ e ∈ es, e.2.Writable := by
  rw [Datum.ofEntries, Datum.Writable, Entries.writable_ofList]

@[simp] theorem Datum.reread_text (s : String) : (Datum.text s).reread = .text s := by
  simp [Datum.reread]

@[simp] theorem Datum.writable_text (s : String) : (Datum.text s).Writable := by
  simp [Datum.Writable]

@[simp] theorem Datum.writable_float (x : Float) : (Datum.float x).Writable := by
  simp [Datum.Writable]

namespace Json

/-! ### First octets -/

/-- What the text of a text or a number, or of a word, begins with. -/
def ScalarHead (b : UInt8) : Prop :=
  b = 0x22 ∨ b = 0x6e ∨ b = 0x74 ∨ b = 0x66 ∨ b = 0x2d ∨ 0x30 ≤ b.toNat ∧ b.toNat ≤ 0x39

theorem ScalarHead.spec {b : UInt8} (h : ScalarHead b) :
    (b = 0x20 || b = 0x09 || b = 0x0a || b = 0x0d) = false ∧ b ≠ 0x5b ∧ b ≠ 0x7b ∧ b ≠ 0x5d := by
  rcases h with rfl | rfl | rfl | rfl | rfl | ⟨hlow, hhigh⟩
  iterate 5 decide
  have hne (c : UInt8) (hc : c.toNat < 0x30 ∨ 0x39 < c.toNat) : b ≠ c :=
    ne_of_toNat_ne (by omega)
  refine ⟨?_, hne 0x5b (by decide), hne 0x7b (by decide), hne 0x5d (by decide)⟩
  simp [hne 0x20 (by decide), hne 0x09 (by decide), hne 0x0a (by decide), hne 0x0d (by decide)]

theorem skipBlank_cons {b : UInt8} {tail : Bytes}
    (h : (b = 0x20 || b = 0x09 || b = 0x0a || b = 0x0d) = false) :
    skipBlank (b :: tail) = b :: tail := by
  rw [skipBlank, h]
  simp

theorem value_scalar {b : UInt8} (fuel : Nat) (tail : Bytes) (h : ScalarHead b) :
    value (fuel + 1) (b :: tail) = scalar (b :: tail) := by
  obtain ⟨hblank, hlist, htable, -⟩ := h.spec
  rw [value.eq_def]
  simp only [skipBlank_cons hblank]
  split
  · rename_i heq
    exact absurd (List.cons.inj heq).1 hlist
  · rename_i heq
    exact absurd (List.cons.inj heq).1 htable
  · rfl

/-! ### Words, texts and numbers -/

theorem scalar_null (rest : Bytes) :
    scalar (octets ['n', 'u', 'l', 'l'] ++ rest) = (.null, some rest) := rfl

theorem float_letters (x : Float) :
    write (.float x) = ['n', 'u', 'l', 'l'] ∨
      ∃ l : Letters, l.Sound ∧ write (.float x) = l.toList := by
  rcases h : Decimal.Parts.of x with _ | negative | ⟨negative, mantissa, exponent⟩
  · refine Or.inl ?_
    simp only [write, writeFloat, h]
    rfl
  · refine Or.inl ?_
    simp only [write, writeFloat, h]
    rfl
  · obtain ⟨l, hsound, -, hl⟩ := writeFloat_letters h
    exact Or.inr ⟨l, hsound, by rw [write, hl]⟩

theorem ends_nil : Ends [] := fun _ hb => by cases hb

theorem scalar_float (x : Float) {rest : Bytes} (hrest : Ends rest) :
    scalar (octets (write (.float x)) ++ rest) = ((Datum.float x).reread, some rest) := by
  rw [Datum.reread]
  rcases float_letters x with h | ⟨l, hsound, h⟩
  · rw [h, scalar_null]
    have := scalar_null []
    rw [List.append_nil] at this
    rw [this]
  · rw [h, scalar_letters hsound hrest]
    have := scalar_letters hsound ends_nil
    rw [List.append_nil] at this
    rw [this]

theorem head_float (x : Float) :
    ∃ b tail, octets (write (.float x)) = b :: tail ∧ ScalarHead b := by
  rcases float_letters x with h | ⟨l, hsound, h⟩
  · exact ⟨0x6e, octets ['u', 'l', 'l'], by rw [h]; rfl, by simp [ScalarHead]⟩
  · obtain ⟨b, tail, hb, hfirst⟩ := head_letters hsound
    refine ⟨b, tail, by rw [h, hb], ?_⟩
    simp only [ScalarHead]
    tauto

theorem scalar_int {i : Int} (hlow : -2 ^ 63 ≤ i) (hhigh : i < 2 ^ 64) {rest : Bytes}
    (hrest : Ends rest) : scalar (octets (write (.int i)) ++ rest) = (.int i, some rest) := by
  rw [write, toList_toString, scalar_letters (sound_integer i) hrest, datum_integer hlow hhigh]

theorem head_int (i : Int) : ∃ b tail, octets (write (.int i)) = b :: tail ∧ ScalarHead b := by
  obtain ⟨b, tail, hb, hfirst⟩ := head_letters (sound_integer i)
  refine ⟨b, tail, by rw [write, toList_toString, hb], ?_⟩
  simp only [ScalarHead]
  tauto

theorem octets_writeText (s : String) (rest : Bytes) : octets (writeText s) ++ rest =
    0x22 :: (octets (s.toList.flatMap escape ++ ['"']) ++ rest) := rfl

theorem scalar_text (s : String) (rest : Bytes) :
    scalar (octets (writeText s) ++ rest) = (.text s, some rest) := by
  rw [octets_writeText, scalar, if_pos rfl, textAt_write]

/-! ### Lists and tables -/

/-- What the text of a datum begins with is no white space and closes nothing. -/
theorem head_write {d : Datum} (h : d.Writable) : ∃ b tail, octets (write d) = b :: tail ∧
    (b = 0x20 || b = 0x09 || b = 0x0a || b = 0x0d) = false ∧ b ≠ 0x5d := by
  have of_scalar {b : UInt8} (hb : ScalarHead b) := hb.spec
  cases d with
  | null => exact ⟨0x6e, octets ['u', 'l', 'l'], rfl, by decide, by decide⟩
  | bool b =>
    cases b
    · exact ⟨0x66, octets ['a', 'l', 's', 'e'], rfl, by decide, by decide⟩
    · exact ⟨0x74, octets ['r', 'u', 'e'], rfl, by decide, by decide⟩
  | int i =>
    obtain ⟨b, tail, heq, hb⟩ := head_int i
    exact ⟨b, tail, heq, hb.spec.1, hb.spec.2.2.2⟩
  | float x =>
    obtain ⟨b, tail, heq, hb⟩ := head_float x
    exact ⟨b, tail, heq, hb.spec.1, hb.spec.2.2.2⟩
  | text s => exact ⟨0x22, octets (s.toList.flatMap escape ++ ['"']), rfl, by decide, by decide⟩
  | list items => exact ⟨0x5b, octets (writeItems true items), rfl, by decide, by decide⟩
  | table entries => exact ⟨0x7b, octets (writeEntries true entries), rfl, by decide, by decide⟩
  | unreadable => exact absurd h (by simp [Datum.Writable])
  | broken => exact absurd h (by simp [Datum.Writable])

theorem writeItems_cons (head : Datum) (tail : Items) :
    writeItems true (.cons head tail) = write head ++ writeItems false tail := by
  simp [writeItems]

theorem writeItems_comma (head : Datum) (tail : Items) :
    writeItems false (.cons head tail) = ',' :: writeItems true (.cons head tail) := by
  simp [writeItems]

theorem writeEntries_cons (key : String) (value : Datum) (tail : Entries) :
    writeEntries true (.cons (some key) value tail) =
      writeText key ++ ':' :: (write value ++ writeEntries false tail) := by
  simp [writeEntries]

theorem writeEntries_comma (key : Option String) (value : Datum) (tail : Entries) :
    writeEntries false (.cons key value tail) =
      ',' :: writeEntries true (.cons key value tail) := by
  simp [writeEntries]

theorem octets_writeEntries (key : String) (value : Datum) (tail : Entries) :
    octets (writeEntries true (.cons (some key) value tail)) =
      0x22 :: (octets (key.toList.flatMap escape ++ ['"']) ++
        0x3a :: (octets (write value) ++ octets (writeEntries false tail))) := by
  have hcolon (cs : List Char) : octets (':' :: cs) = 0x3a :: octets cs := rfl
  rw [writeEntries_cons, octets_append, hcolon, octets_append,
    ← List.append_nil (octets (writeText key)), octets_writeText, List.append_nil, List.cons_append]

theorem octets_ascii (c : Char) (cs : List Char) (h : c.toNat < 0x80) :
    octets (c :: cs) = UInt8.ofNat c.toNat :: octets cs := by
  rw [octets_cons, Utf8.encodeChar_ascii h, List.singleton_append]

theorem ends_items (tail : Items) (rest : Bytes) :
    Ends (octets (writeItems false tail) ++ rest) := by
  cases tail <;> intro b hb <;> obtain rfl := Option.some.inj hb <;> decide

theorem ends_entries (tail : Entries) (rest : Bytes) :
    Ends (octets (writeEntries false tail) ++ rest) := by
  cases tail <;> intro b hb <;> obtain rfl := Option.some.inj hb <;> decide

theorem value_list {b : UInt8} {tail : Bytes} (fuel : Nat) (hopen : b ≠ 0x5d)
    (hblank : (b = 0x20 || b = 0x09 || b = 0x0a || b = 0x0d) = false) :
    value (fuel + 1) (0x5b :: b :: tail) =
      (.list (items fuel (b :: tail)).1, (items fuel (b :: tail)).2) := by
  rw [value.eq_def]
  simp only [skipBlank_cons (b := 0x5b) (by decide), skipBlank_cons hblank]
  split
  · rename_i heq
    exact absurd (List.cons.inj heq).1 hopen
  · rfl

theorem value_table (tail : Bytes) (fuel : Nat) :
    value (fuel + 1) (0x7b :: 0x22 :: tail) =
      (.table (entries fuel (0x22 :: tail)).1, (entries fuel (0x22 :: tail)).2) := by
  rw [value.eq_def]
  rfl

theorem items_next {fuel : Nat} {text rest : Bytes} {d : Datum}
    (h : value fuel text = (d, some (0x2c :: rest))) :
    items (fuel + 1) text = (.cons d (items fuel rest).1, (items fuel rest).2) := by
  rw [items, h]
  rfl

theorem items_last {fuel : Nat} {text rest : Bytes} {d : Datum}
    (h : value fuel text = (d, some (0x5d :: rest))) :
    items (fuel + 1) text = (.cons d .closed, some rest) := by
  rw [items, h]
  rfl

theorem entries_next {fuel : Nat} {text middle rest : Bytes} {key : String} {d : Datum}
    (hkey : textAt text = some (some key, 0x3a :: middle))
    (h : value fuel middle = (d, some (0x2c :: rest))) :
    entries (fuel + 1) (0x22 :: text) =
      (.cons (some key) d (entries fuel rest).1, (entries fuel rest).2) := by
  rw [entries, skipBlank_cons (by decide)]
  simp only [hkey, skipBlank_cons (b := 0x3a) (by decide), h]
  rfl

theorem entries_last {fuel : Nat} {text middle rest : Bytes} {key : String} {d : Datum}
    (hkey : textAt text = some (some key, 0x3a :: middle))
    (h : value fuel middle = (d, some (0x7d :: rest))) :
    entries (fuel + 1) (0x22 :: text) = (.cons (some key) d .closed, some rest) := by
  rw [entries, skipBlank_cons (by decide)]
  simp only [hkey, skipBlank_cons (b := 0x3a) (by decide), h]
  rfl

mutual

/-- **A datum is read back** from its text, whatever follows that does not carry a number on. -/
theorem value_write : (d : Datum) → d.Writable → (fuel : Nat) → (octets (write d)).length < fuel →
    (rest : Bytes) → Ends rest → value fuel (octets (write d) ++ rest) = (d.reread, some rest)
  | d, h, 0, hfuel, _, _ => absurd hfuel (Nat.not_lt_zero _)
  | .null, _, fuel + 1, _, rest, _ =>
    (value_scalar fuel (octets ['u', 'l', 'l'] ++ rest)
      (show ScalarHead 0x6e by simp [ScalarHead])).trans (scalar_null rest)
  | .bool true, _, fuel + 1, _, rest, _ =>
    value_scalar fuel (octets ['r', 'u', 'e'] ++ rest)
      (show ScalarHead 0x74 by simp [ScalarHead])
  | .bool false, _, fuel + 1, _, rest, _ =>
    value_scalar fuel (octets ['a', 'l', 's', 'e'] ++ rest)
      (show ScalarHead 0x66 by simp [ScalarHead])
  | .int i, h, fuel + 1, _, rest, hrest => by
    obtain ⟨b, tail, heq, hb⟩ := head_int i
    have := scalar_int h.1 h.2 hrest
    rw [heq, List.cons_append] at this ⊢
    rw [value_scalar fuel _ hb, this]
    simp [Datum.reread]
  | .float x, _, fuel + 1, _, rest, hrest => by
    obtain ⟨b, tail, heq, hb⟩ := head_float x
    have := scalar_float x hrest
    rw [heq, List.cons_append] at this ⊢
    rw [value_scalar fuel _ hb, this]
  | .text s, _, fuel + 1, _, rest, _ => by
    have := scalar_text s rest
    rw [octets_writeText] at this
    rw [write, octets_writeText, value_scalar fuel _ (by simp [ScalarHead]), this]
    simp [Datum.reread]
  | .list .closed, _, fuel + 1, _, rest, _ => by
    simp only [Datum.reread, Items.reread]
    rfl
  | .list (.cons head tail), h, fuel + 1, hfuel, rest, _ => by
    have hfront : octets (write (.list (.cons head tail))) =
        0x5b :: octets (writeItems true (.cons head tail)) := rfl
    rw [hfront, List.length_cons] at hfuel
    have ih := items_write (.cons head tail) (by simp) h fuel (by omega) rest
    obtain ⟨b, cs, hb, hblank, hclose⟩ := head_write (d := head) h.1
    rw [writeItems_cons, octets_append, hb, List.append_assoc, List.cons_append] at ih
    rw [hfront, writeItems_cons, octets_append, hb, List.cons_append, List.append_assoc,
      List.cons_append, value_list fuel hclose hblank, ih]
    rfl
  | .table .closed, _, fuel + 1, _, rest, _ => by
    simp only [Datum.reread, Entries.reread]
    rfl
  | .table (.cons none _ _), h, _ + 1, _, _, _ => h.elim
  | .table (.cons (some key) value tail), h, fuel + 1, hfuel, rest, _ => by
    have hfront : octets (write (.table (.cons (some key) value tail))) =
        0x7b :: octets (writeEntries true (.cons (some key) value tail)) := rfl
    rw [hfront, List.length_cons] at hfuel
    have ih := entries_write (.cons (some key) value tail) (by simp) h fuel (by omega) rest
    rw [writeEntries_cons, octets_append, List.append_assoc, octets_writeText] at ih
    rw [hfront, writeEntries_cons, octets_append, List.cons_append, List.append_assoc,
      octets_writeText, value_table, ih]
    rfl

/-- Items are read back from their text, when there is one at least. -/
theorem items_write : (xs : Items) → xs ≠ .closed → xs.Writable → (fuel : Nat) →
    (octets (writeItems true xs)).length < fuel → (rest : Bytes) →
    items fuel (octets (writeItems true xs) ++ rest) = (xs.reread, some rest)
  | _, _, _, 0, hfuel, _ => absurd hfuel (Nat.not_lt_zero _)
  | .closed, hne, _, _ + 1, _, _ => absurd rfl hne
  | .broken, _, h, _ + 1, _, _ => h.elim
  | .cons _ .broken, _, h, _ + 1, _, _ => h.2.elim
  | .cons head .closed, _, h, fuel + 1, hfuel, rest => by
    rw [writeItems_cons, octets_append, List.length_append] at hfuel
    have hclose : octets (writeItems false .closed) = [0x5d] := rfl
    rw [hclose, List.length_singleton] at hfuel
    have ih := value_write head h.1 fuel (by omega) _ (ends_items .closed rest)
    rw [writeItems_cons, octets_append, List.append_assoc, items_last ih]
    rfl
  | .cons head (.cons second tail), _, h, fuel + 1, hfuel, rest => by
    rw [writeItems_cons, octets_append, List.length_append] at hfuel
    have hcomma : octets (writeItems false (.cons second tail)) =
        0x2c :: octets (writeItems true (.cons second tail)) := by
      rw [writeItems_comma, octets_ascii _ _ (by decide)]
      rfl
    rw [hcomma, List.length_cons] at hfuel
    have ih := value_write head h.1 fuel (by omega) _ (ends_items (.cons second tail) rest)
    have ihTail := items_write (.cons second tail) (by simp) h.2 fuel (by omega) rest
    rw [hcomma, List.cons_append] at ih
    rw [writeItems_cons, octets_append, List.append_assoc, hcomma, List.cons_append, items_next ih,
      ihTail]
    rfl

/-- Entries are read back from their text, when there is one at least. -/
theorem entries_write : (es : Entries) → es ≠ .closed → es.Writable → (fuel : Nat) →
    (octets (writeEntries true es)).length < fuel → (rest : Bytes) →
    entries fuel (octets (writeEntries true es) ++ rest) = (es.reread, some rest)
  | _, _, _, 0, hfuel, _ => absurd hfuel (Nat.not_lt_zero _)
  | .closed, hne, _, _ + 1, _, _ => absurd rfl hne
  | .broken, _, h, _ + 1, _, _ => h.elim
  | .cons none _ _, _, h, _ + 1, _, _ => h.elim
  | .cons (some _) _ .broken, _, h, _ + 1, _, _ => h.2.elim
  | .cons (some key) value .closed, _, h, fuel + 1, hfuel, rest => by
    have hclose : octets (writeEntries false .closed) = [0x7d] := rfl
    rw [octets_writeEntries] at hfuel ⊢
    simp only [List.length_cons, List.length_append] at hfuel
    have ih := value_write value h.1 fuel (by omega) _ (ends_entries .closed rest)
    rw [hclose] at ih ⊢
    simp only [List.cons_append, List.append_assoc, List.nil_append] at ih ⊢
    rw [entries_last (textAt_write key _) ih]
    rfl
  | .cons (some key) value (.cons second v tail), _, h, fuel + 1, hfuel, rest => by
    have hcomma : octets (writeEntries false (.cons second v tail)) =
        0x2c :: octets (writeEntries true (.cons second v tail)) := by
      rw [writeEntries_comma, octets_ascii _ _ (by decide)]
      rfl
    rw [octets_writeEntries] at hfuel ⊢
    rw [hcomma] at hfuel ⊢
    simp only [List.length_cons, List.length_append] at hfuel
    have ih := value_write value h.1 fuel (by omega) _ (ends_entries (.cons second v tail) rest)
    have ihTail := entries_write (.cons second v tail) (by simp) h.2 fuel (by omega) rest
    rw [hcomma] at ih
    simp only [List.cons_append, List.append_assoc] at ih ⊢
    rw [entries_next (textAt_write key _) ih, ihTail]
    rfl

end

/-- Reading the text of a datum. -/
theorem read_encode {d : Datum} (h : d.Writable) : read (encode d) = ⟨d.reread, true⟩ := by
  have hvalue := value_write d h (2 * (encode d).length + 2)
    (by rw [encode_eq_octets]; omega) [] ends_nil
  rw [List.append_nil, ← encode_eq_octets] at hvalue
  rw [read, hvalue]
  rfl

/-- A reader of data finds in the text of a datum what it finds in the datum read back. -/
theorem decode_encode {α : Type} (reader : Datum → Except DataFault α) {d : Datum}
    (h : d.Writable) : decode reader (encode d) = reader d.reread := by
  rw [decode, read_encode h]
  cases hreader : reader d.reread with
  | error e => simp [bind, Except.bind]
  | ok x => simp [bind, Except.bind, pure, Except.pure]

end Json

end LedgerLoad
