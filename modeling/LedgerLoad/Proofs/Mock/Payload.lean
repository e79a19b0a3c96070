import LedgerLoad.Mock.Payload
import LedgerLoad.Proofs.Workload.RoundTrip

/-! # Payloads are read back

The table of a transaction is walked twice, once for the kind and once for the fields of that kind.
Main statement: `Transaction.decode_encode`, a transaction of which all numbers are words is read
back from its payload, whatever its name. -/

namespace LedgerLoad.Transaction

/-- All numbers of a transaction are words. -/
def Words : Transaction → Prop
  | .transfer sender receiver amount => sender < 2 ^ 64 ∧ receiver < 2 ^ 64 ∧ amount < 2 ^ 64
  | .invoke sender contract => sender < 2 ^ 64 ∧ contract < 2 ^ 64
  | .custom _ => True

theorem writable_toDatum {tx : Transaction} (h : tx.Words) : tx.toDatum.Writable := by
  cases tx with
  | transfer sender receiver amount =>
    obtain ⟨hsender, hreceiver, hamount⟩ := h
    rw [toDatum, Datum.writable_ofEntries]
    intro e he
    simp only [List.mem_cons, List.not_mem_nil, or_false] at he
    rcases he with rfl | rfl | rfl | rfl
    · exact Datum.writable_text _
    · exact Datum.writable_ofNat hsender
    · exact Datum.writable_ofNat hreceiver
    · exact Datum.writable_ofNat hamount
  | invoke sender contract =>
    rw [toDatum, Datum.writable_ofEntries]
    intro e he
    simp only [List.mem_cons, List.not_mem_nil, or_false] at he
    rcases he with rfl | rfl | rfl
    · exact Datum.writable_text _
    · exact Datum.writable_ofNat h.1
    · exact Datum.writable_ofNat h.2
  | custom name =>
    rw [toDatum, Datum.writable_ofEntries]
    intro e he
    simp only [List.mem_cons, List.not_mem_nil, or_false] at he
    rcases he with rfl | rfl
    · exact Datum.writable_text _
    · exact Datum.writable_text _

theorem reread_toDatum (tx : Transaction) : tx.toDatum.reread = tx.toDatum := by
  cases tx <;>
  · rw [toDatum, Datum.reread_ofEntries]
    rfl

/-! ### Fields -/

/-- The entry that says the kind means nothing among the fields. -/
theorem entry_kind (kind : Kind) (t : Draft) (value : Datum) :
    Draft.entry kind t "kind" value = .ok t := by
  cases kind <;> rfl

theorem entry_sender {kind : Kind} (hkind : kind ≠ .custom) {t : Draft} (ht : t.sender = none)
    {n : Nat} (hn : n < 2 ^ 64) :
    Draft.entry kind t "from" (.ofNat n) = .ok { t with sender := some n } := by
  rw [Draft.entry, if_pos ⟨rfl, hkind⟩, ht]
  exact bind_of_ok (fill_of_ok "from" (Datum.asNat_ofNat hn))

theorem entry_receiver {t : Draft} (ht : t.receiver = none) {n : Nat} (hn : n < 2 ^ 64) :
    Draft.entry .transfer t "to" (.ofNat n) = .ok { t with receiver := some n } := by
  rw [Draft.entry, if_neg (by decide), if_pos (by decide), ht]
  exact bind_of_ok (fill_of_ok "to" (Datum.asNat_ofNat hn))

theorem entry_amount {t : Draft} (ht : t.amount = none) {n : Nat} (hn : n < 2 ^ 64) :
    Draft.entry .transfer t "stake" (.ofNat n) = .ok { t with amount := some n } := by
  rw [Draft.entry, if_neg (by decide), if_neg (by decide), if_pos (by decide), ht]
  exact bind_of_ok (fill_of_ok "stake" (Datum.asNat_ofNat hn))

theorem entry_contract {t : Draft} (ht : t.contract = none) {n : Nat} (hn : n < 2 ^ 64) :
    Draft.entry .invoke t "contract" (.ofNat n) = .ok { t with contract := some n } := by
  rw [Draft.entry, if_neg (by decide), if_neg (by decide), if_neg (by decide),
    if_pos (by decide), ht]
  exact bind_of_ok (fill_of_ok "contract" (Datum.asNat_ofNat hn))

theorem entry_name {t : Draft} (ht : t.name = none) (name : String) :
    Draft.entry .custom t "name" (.text name) = .ok { t with name := some name } := by
  rw [Draft.entry, if_neg (by decide), if_neg (by decide), if_neg (by decide),
    if_neg (by decide), if_pos (by decide), ht]
  exact bind_of_ok (fill_of_ok "name" rfl)

/-! ### Kinds -/

theorem Kind.ofDatum_text (name : String) : Kind.ofDatum (.text name) =
    if name = "transfer" then .ok .transfer else if name = "invoke" then .ok .invoke
    else if name = "custom" then .ok .custom else .error (.unknownVariant name) := rfl

theorem takeIn_kind {kind : Kind} {value : Datum} (h : Kind.ofDatum value = .ok kind)
    (tail : Entries) : takeIn none (.cons (some "kind") value tail) = takeIn (some kind) tail := by
  rw [takeIn, if_pos rfl]
  exact bind_of_ok (fill_of_ok "kind" h)

/-- An entry that can be absorbed does not say the kind, unless it is called so. -/
theorem takeIn_field {kind : Option Kind} {key : String} (hkey : key ≠ "kind") {value : Datum}
    (h : value.absorb depth = .ok ()) (tail : Entries) :
    takeIn kind (.cons (some key) value tail) = takeIn kind tail := by
  rw [takeIn, if_neg hkey]
  exact bind_of_ok h

/-! ### Transactions -/

/-- A table is read by the kind that is found in it, and then by the fields of that kind. -/
theorem ofDatum_ofEntries (kind : Kind) (t : Draft) {entries : List (String × Datum)}
    {tx : Transaction} (hkind : takeIn none (.ofList entries) = .ok (some kind))
    (hfields : entries.foldlM (fun t e => Draft.entry kind t e.1 e.2)
      ⟨none, none, none, none, none⟩ = .ok t) (htx : t.finish kind = .ok tx) :
    ofDatum (.ofEntries entries) = .ok tx := by
  rw [Datum.ofEntries, ofDatum, bind_of_ok hkind, bind_of_ok (need_some _ _),
    bind_of_ok (by rw [Entries.readInto_ofList]; exact hfields)]
  exact htx

theorem ofDatum_toDatum {tx : Transaction} (h : tx.Words) : ofDatum tx.toDatum = .ok tx := by
  cases tx with
  | transfer sender receiver amount =>
    obtain ⟨hsender, hreceiver, hamount⟩ := h
    have hkind : Kind.ofDatum (.text "transfer") = .ok .transfer := by
      rw [Kind.ofDatum_text, if_pos rfl]
    refine ofDatum_ofEntries .transfer ⟨some sender, some receiver, some amount, none, none⟩
      ?_ ?_ rfl
    · exact (takeIn_kind hkind _).trans ((takeIn_field (by decide) rfl _).trans
        ((takeIn_field (by decide) rfl _).trans (takeIn_field (by decide) rfl _)))
    · rw [List.foldlM_cons, bind_of_ok (entry_kind _ _ _), List.foldlM_cons,
        bind_of_ok (entry_sender (by decide) rfl hsender), List.foldlM_cons,
        bind_of_ok (entry_receiver rfl hreceiver), List.foldlM_cons,
        bind_of_ok (entry_amount rfl hamount)]
      rfl
  | invoke sender contract =>
    have hkind : Kind.ofDatum (.text "invoke") = .ok .invoke := by
      rw [Kind.ofDatum_text, if_neg (by decide), if_pos rfl]
    refine ofDatum_ofEntries .invoke ⟨some sender, none, none, some contract, none⟩ ?_ ?_ rfl
    · exact (takeIn_kind hkind _).trans
        ((takeIn_field (by decide) rfl _).trans (takeIn_field (by decide) rfl _))
    · rw [List.foldlM_cons, bind_of_ok (entry_kind _ _ _), List.foldlM_cons,
        bind_of_ok (entry_sender (by decide) rfl h.1), List.foldlM_cons,
        bind_of_ok (entry_contract rfl h.2)]
      rfl
  | custom name =>
    have hkind : Kind.ofDatum (.text "custom") = .ok .custom := by
      rw [Kind.ofDatum_text, if_neg (by decide), if_neg (by decide), if_pos rfl]
    refine ofDatum_ofEntries .custom ⟨none, none, none, none, some name⟩ ?_ ?_ rfl
    · exact (takeIn_kind hkind _).trans (takeIn_field (by decide) rfl _)
    · rw [List.foldlM_cons, bind_of_ok (entry_kind _ _ _), List.foldlM_cons,
        bind_of_ok (entry_name rfl name)]
      rfl

theorem encode_ne_nil {tx : Transaction} (h : tx.Words) : tx.encode ≠ [] := by
  obtain ⟨b, tail, hhead, -⟩ := Json.head_write (writable_toDatum h)
  rw [encode, Json.encode_eq_octets, hhead]
  exact List.cons_ne_nil _ _

/-- **A transaction is read back from its payload.** -/
theorem decode_encode {tx : Transaction} (h : tx.Words) : decode tx.encode = .ok tx := by
  have hread : Json.decode ofDatum tx.encode = .ok tx := by
    rw [encode, Json.decode_encode _ (writable_toDatum h), reread_toDatum, ofDatum_toDatum h]
  rw [decode, if_neg (by simp [encode_ne_nil h]), hread]

end LedgerLoad.Transaction
