import LedgerLoad.Data.Reading
import LedgerLoad.Proofs.Except

/-! # What is read from data

What holds of everything that is read from an item holds of all that is read from a list
(`Items.forall_read`), and what each entry keeps the whole table keeps (`Entries.readInto_keeps`). In
both, something may be known of the data in the list or the table beforehand. -/

namespace LedgerLoad

theorem Datum.asNat_lt {limit n : Nat} {d : Datum} (h : d.asNat limit = .ok n) : n < limit := by
  cases d with
  | int i =>
    rw [asNat] at h
    split at h
    · rw [← Except.ok.inj h]
      omega
    · cases h
  | _ => cases h

theorem Items.forall_read {α : Type} {item : Datum → Except DataFault α} {Q : Datum → Prop}
    {P : α → Prop} (hitem : ∀ {d : Datum} {x : α}, Q d → item d = .ok x → P x) : (items : Items) →
    (∀ d ∈ items.toList, Q d) → ∀ {xs : List α}, items.read item = .ok xs → ∀ x ∈ xs, P x
  | .closed, _, xs, h => by
    obtain rfl := Except.ok.inj h
    exact fun x hx => absurd hx List.not_mem_nil
  | .broken, _, xs, h => by cases h
  | .cons head tail, hall, xs, h => by
    obtain ⟨hhead, htail⟩ := List.forall_mem_cons.mp hall
    obtain ⟨y, hy, h⟩ := Except.bind_eq_ok h
    obtain ⟨ys, hys, h⟩ := Except.bind_eq_ok h
    obtain rfl := Except.ok.inj h
    exact List.forall_mem_cons.mpr ⟨hitem hhead hy, Items.forall_read hitem tail htail hys⟩

theorem Entries.readInto_keeps {σ : Type} {entry : σ → String → Datum → Except DataFault σ}
    {Q : Datum → Prop} {P : σ → Prop}
    (hentry : ∀ {s s' : σ} {key : String} {d : Datum}, P s → Q d → entry s key d = .ok s' → P s') :
    (entries : Entries) → (∀ e ∈ entries.toList, Q e.2) → ∀ {s s' : σ}, P s →
    entries.readInto entry s = .ok s' → P s'
  | .closed, _, s, s', hs, h => by
    obtain rfl := Except.ok.inj h
    exact hs
  | .broken, _, s, s', _, h => by cases h
  | .cons none _ _, _, s, s', _, h => by cases h
  | .cons (some key) value tail, hall, s, s', hs, h => by
    obtain ⟨hvalue, htail⟩ := List.forall_mem_cons.mp hall
    obtain ⟨between, hbetween, h⟩ := Except.bind_eq_ok h
    exact Entries.readInto_keeps hentry tail htail (hentry hs hvalue hbetween) h

/-! ### Fields -/

/-- A field that is filled holds what was read. -/
theorem fill_eq_ok {α : Type} {name : String} {slot filled : Option α} {value : Except DataFault α}
    (h : fill name slot value = .ok filled) : ∃ x, value = .ok x ∧ filled = some x := by
  unfold fill at h
  split at h
  · cases h
  · cases value with
    | error fault => cases h
    | ok x => exact ⟨x, rfl, (Except.ok.inj h).symm⟩

theorem need_eq_ok {α : Type} {name : String} {slot : Option α} {x : α}
    (h : need name slot = .ok x) : slot = some x := by
  cases slot with
  | none => cases h
  | some y => rw [Except.ok.inj h]

end LedgerLoad
