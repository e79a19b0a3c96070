import LedgerLoad.Proofs.Document
import LedgerLoad.Proofs.Timing
import Mathlib.Data.List.Forall2

/-! # Results on their way

A result is written as text and read back by the primary. Its numbers may come back rounded, and the
checks of timings apply to what comes back; `Timing.carried` says what becomes of one timing. Main
statement: `SecondaryResult.ofDocument_toDocument`, a result comes back exactly if all its timings
do, each in its own place. -/

namespace LedgerLoad

/-- What the primary reads where a secondary wrote a timing. -/
def Timing.carried (t : Timing) : Except DataFault Timing :=
  Json.decode Timing.ofDatum (Json.encode t.toDatum)

/-- `r.CarriedTo r'`: each timing of the lane comes back as the timing in its place. -/
def LaneResult.CarriedTo (r r' : LaneResult) : Prop :=
  List.Forall₂ (fun t t' => t.carried = .ok t') r.interactions r'.interactions

/-- `r.CarriedTo r'`: each lane comes back as the lane in its place. -/
def SecondaryResult.CarriedTo (r r' : SecondaryResult) : Prop :=
  List.Forall₂ LaneResult.CarriedTo r.lanes r'.lanes

/-- What stands behind an element of the second of two related lists. -/
theorem forall₂_getElem? {α β : Type} {R : α → β → Prop} {xs : List α} {ys : List β} {k : Nat}
    {y : β} (h : List.Forall₂ R xs ys) (hy : ys[k]? = some y) : ∃ x, xs[k]? = some x ∧ R x y := by
  obtain ⟨hk, rfl⟩ := List.getElem?_eq_some_iff.mp hy
  have hk' : k < xs.length := h.length_eq ▸ hk
  exact ⟨xs[k], List.getElem?_eq_getElem hk', h.get hk' hk⟩

/-! ### Levels -/

theorem Items.read_eq_ok {α β : Type} {item : Datum → Except DataFault β} {f : α → Datum}
    {xs : List α} {ys : List β} : (Items.ofList (xs.map f)).read item = .ok ys ↔
      List.Forall₂ (fun x y => item (f x) = .ok y) xs ys := by
  induction xs generalizing ys with
  | nil =>
    simp only [List.map_nil, Items.ofList, Items.read, List.forall₂_nil_left_iff]
    exact ⟨fun h => (Except.ok.inj h).symm, fun h => by rw [h]⟩
  | cons x xs ih =>
    rw [List.map_cons, Items.ofList, Items.read]
    constructor
    · intro h
      cases hx : item (f x) with
      | error e => rw [hx] at h; cases h
      | ok y =>
        cases hxs : (Items.ofList (xs.map f)).read item with
        | error e => rw [hx, hxs] at h; cases h
        | ok rest =>
          rw [hx, hxs] at h
          obtain rfl := Except.ok.inj h
          exact .cons hx (ih.mp hxs)
    · intro h
      cases h with
      | cons hx hxs =>
        rw [hx, ih.mpr hxs]
        rfl

theorem writable_writeLevel {α : Type} {name : String} {f : α → Datum}
    {xs : List α} (h : ∀ x ∈ xs, (f x).Writable) : (writeLevel name f xs).Writable := by
  simpa [writeLevel] using h

theorem readLevel_reread {α β : Type} (name : String) (item : Datum → Except DataFault β)
    (f : α → Datum) (xs : List α) : readLevel name item (writeLevel name f xs).reread =
      (Items.ofList (xs.map fun x => (f x).reread)).read item := by
  have hreread : (writeLevel name f xs).reread =
      .table (.cons (some name) (.list (.ofList (xs.map fun x => (f x).reread))) .closed) := by
    rw [writeLevel, Datum.reread_ofEntries, List.map_singleton, Datum.reread_ofItems, List.map_map]
    rfl
  rw [hreread]
  simp only [readLevel, Entries.readInto, if_true, fill, Option.isSome_none, Bool.false_eq_true,
    if_false, Datum.asList]
  cases (Items.ofList (xs.map fun x => (f x).reread)).read item <;> rfl

/-! ### Results -/

theorem Timing.writable_toDatum (t : Timing) : t.toDatum.Writable := by
  simp [Timing.toDatum, Timing.writeTime]

theorem Timing.carried_eq (t : Timing) : t.carried = Timing.ofDatum t.toDatum.reread :=
  Json.decode_encode _ t.writable_toDatum

theorem LaneResult.writable_toDatum (r : LaneResult) : r.toDatum.Writable :=
  writable_writeLevel fun t _ => t.writable_toDatum

theorem LaneResult.ofDatum_reread {r r' : LaneResult} :
    LaneResult.ofDatum r.toDatum.reread = .ok r' ↔ r.CarriedTo r' := by
  rw [LaneResult.ofDatum, LaneResult.toDatum, readLevel_reread]
  simp only [LaneResult.CarriedTo, Timing.carried_eq]
  rw [← Items.read_eq_ok (f := fun t : Timing => t.toDatum.reread)]
  cases (Items.ofList (r.interactions.map fun t => t.toDatum.reread)).read Timing.ofDatum with
  | error e => simp [Except.map]
  | ok ts => cases r'; simp [Except.map]

theorem SecondaryResult.writable_toDatum (r : SecondaryResult) : r.toDatum.Writable :=
  writable_writeLevel fun l _ => l.writable_toDatum

theorem SecondaryResult.ofDatum_reread {r r' : SecondaryResult} :
    SecondaryResult.ofDatum r.toDatum.reread = .ok r' ↔ r.CarriedTo r' := by
  rw [SecondaryResult.ofDatum, SecondaryResult.toDatum, readLevel_reread]
  have hlane : LaneResult.CarriedTo = fun l l' => LaneResult.ofDatum l.toDatum.reread = .ok l' :=
    funext fun l => funext fun l' => propext LaneResult.ofDatum_reread.symm
  rw [SecondaryResult.CarriedTo, hlane,
    ← Items.read_eq_ok (f := fun l : LaneResult => l.toDatum.reread)]
  cases (Items.ofList (r.lanes.map fun l => l.toDatum.reread)).read LaneResult.ofDatum with
  | error e => simp [Except.map]
  | ok ls => cases r'; simp [Except.map]

/-- **A result comes back** from its document exactly if all its timings do, and then each stands in
its own place. -/
theorem SecondaryResult.ofDocument_toDocument {r r' : SecondaryResult} :
    SecondaryResult.ofDocument r.toDocument = .ok r' ↔ r.CarriedTo r' := by
  rw [← SecondaryResult.ofDatum_reread]
  simp only [SecondaryResult.ofDocument, SecondaryResult.toDocument,
    Json.decode_encode _ r.writable_toDatum]
  cases SecondaryResult.ofDatum r.toDatum.reread <;> simp

/-! ### Interactions that were not reached -/

/-- The number for a time that is not set comes back as one for a time that is not set. -/
theorem Timing.reread_unset :
    ∃ x, (Datum.float Timing.unset).reread = .float x ∧ Timing.readTime x = none := by
  have htext : Json.octets (Json.write (.float Timing.unset)) = [0x2d, 0x31, 0x2e, 0x30] := by
    decide +kernel
  have hnumber : (match (Json.scalar [0x2d, 0x31, 0x2e, 0x30]).1 with
      | .float x => x == Timing.unset
      | _ => false) = true := by decide +kernel
  rw [Datum.reread, htext]
  split at hnumber
  · rename_i x heq
    exact ⟨x, heq, if_pos hnumber⟩
  · cases hnumber

/-- The timing of an interaction that was not reached comes back. -/
theorem Timing.carried_unreached : Timing.unreached.carried = .ok .unreached := by
  obtain ⟨x, hreread, hnone⟩ := Timing.reread_unset
  rw [Timing.carried_eq, Timing.toDatum, Datum.reread_ofEntries]
  simp only [List.map_cons, List.map_nil, Timing.writeTime, Timing.unreached, Option.getD_none,
    hreread]
  rw [Timing.ofDatum_fields rfl rfl rfl, hnone]
  rfl

end LedgerLoad
