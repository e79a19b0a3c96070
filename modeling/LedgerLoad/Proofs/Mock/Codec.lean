import LedgerLoad.Proofs.Config.Words
import LedgerLoad.Proofs.Mock.Payload

/-! # Payloads stand for their transactions

* `exists_text`: a payload is a text that says the kind of its transaction before all else.
* `words_of_decode`: no payload is read as a transaction with a number beyond a word.

Main statement: `Transaction.faithful_iff`, the transactions of which all numbers are words are
those that are read back from their payloads, and no two of them have the same payload
(`Transaction.Faithful`). -/

namespace LedgerLoad.Transaction

/-! ### The text of a payload -/

/-- What the text of a payload begins with. -/
def opening : Transaction → String
  | .transfer _ _ _ => "\x7b\"kind\":\"transfer\""
  | .invoke _ _ => "\x7b\"kind\":\"invoke\""
  | .custom _ => "\x7b\"kind\":\"custom\""

theorem write_kind {name opening : String} (fields : List (String × Datum))
    (h : opening.toList = '\x7b' :: (Json.writeText "kind" ++ ':' :: Json.writeText name)) :
    Json.write (.ofEntries (("kind", .text name) :: fields)) =
      opening.toList ++ Json.writeEntries false (.ofList fields) := by
  rw [Datum.ofEntries, Entries.ofList, Json.write, Json.writeEntries_cons, Json.write, h]
  simp only [List.cons_append, List.append_assoc]

theorem write_toDatum (tx : Transaction) :
    ∃ fields, Json.write tx.toDatum = tx.opening.toList ++ Json.writeEntries false fields := by
  cases tx with
  | transfer => exact ⟨_, write_kind _ (by rw [opening]; rfl)⟩
  | invoke => exact ⟨_, write_kind _ (by rw [opening]; rfl)⟩
  | custom => exact ⟨_, write_kind _ (by rw [opening]; rfl)⟩

/-- A payload can always be written: it is the UTF-8 form of a text. -/
theorem exists_text (tx : Transaction) :
    ∃ rest, Utf8.decode tx.encode = .ok (tx.opening ++ rest) := by
  obtain ⟨fields, hwrite⟩ := write_toDatum tx
  refine ⟨String.ofList (Json.writeEntries false fields), ?_⟩
  rw [encode, Json.encode, Utf8.decode_encode, Json.text, hwrite, String.ofList_append,
    String.ofList_toList]

/-! ### Numbers that are read -/

/-- The numbers that were read so far are words. -/
structure Draft.Words (t : Draft) : Prop where
  sender : IsWord t.sender
  receiver : IsWord t.receiver
  amount : IsWord t.amount
  contract : IsWord t.contract

theorem Draft.Words.entry {kind : Kind} {t t' : Draft} {key : String} {d : Datum} (ht : t.Words)
    (h : Draft.entry kind t key d = .ok t') : t'.Words := by
  unfold Draft.entry at h
  split_ifs at h
  · obtain ⟨filled, hfilled, h⟩ := Except.bind_eq_ok h
    obtain rfl := Except.ok.inj h
    exact { ht with sender := isWord_of_fill hfilled }
  · obtain ⟨filled, hfilled, h⟩ := Except.bind_eq_ok h
    obtain rfl := Except.ok.inj h
    exact { ht with receiver := isWord_of_fill hfilled }
  · obtain ⟨filled, hfilled, h⟩ := Except.bind_eq_ok h
    obtain rfl := Except.ok.inj h
    exact { ht with amount := isWord_of_fill hfilled }
  · obtain ⟨filled, hfilled, h⟩ := Except.bind_eq_ok h
    obtain rfl := Except.ok.inj h
    exact { ht with contract := isWord_of_fill hfilled }
  · obtain ⟨_, -, h⟩ := Except.bind_eq_ok h
    obtain rfl := Except.ok.inj h
    exact { ht with }
  · obtain rfl := Except.ok.inj h
    exact ht

theorem Draft.Words.finish {kind : Kind} {t : Draft} {tx : Transaction} (ht : t.Words)
    (h : t.finish kind = .ok tx) : tx.Words := by
  cases kind with
  | transfer =>
    obtain ⟨sender, hsender, h⟩ := Except.bind_eq_ok h
    obtain ⟨receiver, hreceiver, h⟩ := Except.bind_eq_ok h
    obtain ⟨amount, hamount, h⟩ := Except.bind_eq_ok h
    obtain rfl := Except.ok.inj h
    exact ⟨ht.sender _ (need_eq_ok hsender), ht.receiver _ (need_eq_ok hreceiver),
      ht.amount _ (need_eq_ok hamount)⟩
  | invoke =>
    obtain ⟨sender, hsender, h⟩ := Except.bind_eq_ok h
    obtain ⟨contract, hcontract, h⟩ := Except.bind_eq_ok h
    obtain rfl := Except.ok.inj h
    exact ⟨ht.sender _ (need_eq_ok hsender), ht.contract _ (need_eq_ok hcontract)⟩
  | custom =>
    obtain ⟨name, -, h⟩ := Except.bind_eq_ok h
    obtain rfl := Except.ok.inj h
    trivial

theorem words_of_ofItems {kind : Kind} {items : Items} {tx : Transaction}
    (h : ofItems items kind = .ok tx) : tx.Words := by
  cases kind with
  | transfer =>
    obtain ⟨⟨_, _⟩, -, h⟩ := Except.bind_eq_ok h
    obtain ⟨sender, hsender, h⟩ := Except.bind_eq_ok h
    obtain ⟨⟨_, _⟩, -, h⟩ := Except.bind_eq_ok h
    obtain ⟨receiver, hreceiver, h⟩ := Except.bind_eq_ok h
    obtain ⟨⟨_, _⟩, -, h⟩ := Except.bind_eq_ok h
    obtain ⟨amount, hamount, h⟩ := Except.bind_eq_ok h
    obtain ⟨_, -, h⟩ := Except.bind_eq_ok h
    obtain rfl := Except.ok.inj h
    exact ⟨Datum.asNat_lt hsender, Datum.asNat_lt hreceiver, Datum.asNat_lt hamount⟩
  | invoke =>
    obtain ⟨⟨_, _⟩, -, h⟩ := Except.bind_eq_ok h
    obtain ⟨sender, hsender, h⟩ := Except.bind_eq_ok h
    obtain ⟨⟨_, _⟩, -, h⟩ := Except.bind_eq_ok h
    obtain ⟨contract, hcontract, h⟩ := Except.bind_eq_ok h
    obtain ⟨_, -, h⟩ := Except.bind_eq_ok h
    obtain rfl := Except.ok.inj h
    exact ⟨Datum.asNat_lt hsender, Datum.asNat_lt hcontract⟩
  | custom =>
    obtain ⟨⟨_, _⟩, -, h⟩ := Except.bind_eq_ok h
    obtain ⟨name, -, h⟩ := Except.bind_eq_ok h
    obtain ⟨_, -, h⟩ := Except.bind_eq_ok h
    obtain rfl := Except.ok.inj h
    trivial

theorem words_of_ofDatum {d : Datum} {tx : Transaction} (h : ofDatum d = .ok tx) : tx.Words := by
  unfold ofDatum at h
  split at h
  · rename_i entries
    obtain ⟨_, -, h⟩ := Except.bind_eq_ok h
    obtain ⟨kind, -, h⟩ := Except.bind_eq_ok h
    obtain ⟨t, ht, h⟩ := Except.bind_eq_ok h
    -- Named fields come in any order: what was read so far is the invariant.
    have hempty : Draft.Words ⟨none, none, none, none, none⟩ :=
      ⟨isWord_none, isWord_none, isWord_none, isWord_none⟩
    have hwords : t.Words := Entries.readInto_keeps (Q := fun _ => True)
      (fun ht _ hentry => ht.entry hentry) entries (fun _ _ => trivial) hempty ht
    exact hwords.finish h
  · cases h
  · cases h
  · obtain ⟨kind, -, h⟩ := Except.bind_eq_ok h
    obtain ⟨_, -, h⟩ := Except.bind_eq_ok h
    exact words_of_ofItems h
  · cases h

/-- **No number of a transaction that was read is beyond a word.** -/
theorem words_of_decode {payload : Bytes} {tx : Transaction} (h : decode payload = .ok tx) :
    tx.Words := by
  unfold decode at h
  split_ifs at h
  split at h
  · rename_i hread
    obtain rfl := Except.ok.inj h
    obtain ⟨tx, htx, hclean⟩ := Except.bind_eq_ok hread
    split_ifs at hclean
    obtain rfl := Except.ok.inj hclean
    exact words_of_ofDatum htx
  · cases h

/-! ### Main statement -/

/-- What it means that a payload stands for a transaction. -/
structure Faithful (tx : Transaction) : Prop where
  /-- The transaction has a payload: the UTF-8 form of a text that begins with the kind. -/
  text : ∃ rest, Utf8.decode tx.encode = .ok (tx.opening ++ rest)
  /-- It is read back from there, -/
  readBack : decode tx.encode = .ok tx
  /-- and no other transaction with words for numbers has this payload. -/
  alone : ∀ other : Transaction, other.Words → other.encode = tx.encode → other = tx

/-- **Payloads stand for their transactions**, whatever the words and the names in them are. -/
theorem faithful_iff (tx : Transaction) : tx.Faithful ↔ tx.Words := by
  constructor
  · intro h
    exact words_of_decode h.readBack
  · intro h
    refine ⟨exists_text tx, decode_encode h, fun other hother hsame => ?_⟩
    have hread := decode_encode hother
    rw [hsame, decode_encode h] at hread
    exact (Except.ok.inj hread).symm

end LedgerLoad.Transaction
