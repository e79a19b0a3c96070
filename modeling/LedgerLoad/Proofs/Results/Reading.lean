import LedgerLoad.Proofs.Data.Reading
import LedgerLoad.Proofs.Json.Finite
import LedgerLoad.Proofs.Timing

/-! # What is read as a result

A document that is accepted as a result holds nothing but well-formed timings with finite times,
whoever sent it: `SecondaryResult.forall_ofDocument`. Each level of the tree is read from bounded
data only, which `Items.forall_read` and `Entries.readInto_keeps` hand down. -/

namespace LedgerLoad

/-! ### Levels -/

theorem Items.Bounded.forall_mem : {items : Items} → items.Bounded →
    ∀ d ∈ items.toList, d.Bounded
  | .closed, _ | .broken, _ => fun _ h => absurd h List.not_mem_nil
  | .cons _ _, h => List.forall_mem_cons.mpr ⟨h.1, forall_mem h.2⟩

theorem Entries.Bounded.forall_mem : {entries : Entries} → entries.Bounded →
    ∀ e ∈ entries.toList, e.2.Bounded
  | .closed, _ | .broken, _ => fun _ h => absurd h List.not_mem_nil
  | .cons (some _) _ _, h => List.forall_mem_cons.mpr ⟨h.1, forall_mem h.2⟩
  | .cons none _ tail, h => fun e (he : e ∈ tail.toList) => forall_mem h.2 e he

theorem Datum.Bounded.asList {α : Type} {item : Datum → Except DataFault α} {P : α → Prop}
    (hitem : ∀ {d : Datum} {x : α}, d.Bounded → item d = .ok x → P x) {d : Datum} (hd : d.Bounded)
    {xs : List α} (h : d.asList item = .ok xs) : ∀ x ∈ xs, P x := by
  unfold Datum.asList at h
  split at h
  · exact Items.forall_read hitem _ hd.forall_mem h
  · cases h

theorem Items.bounded_next {items rest : Items} {d : Datum} (hitems : items.Bounded)
    (h : items.next = .ok (d, rest)) : d.Bounded ∧ rest.Bounded := by
  cases items with
  | cons head tail =>
    obtain ⟨rfl, rfl⟩ := Prod.mk.inj (Except.ok.inj h)
    exact hitems
  | closed => cases h
  | broken => cases h

theorem forall_readLevel {α : Type} {name : String} {item : Datum → Except DataFault α}
    {P : α → Prop} (hitem : ∀ {d : Datum} {x : α}, d.Bounded → item d = .ok x → P x) {d : Datum}
    (hd : d.Bounded) {xs : List α} (h : readLevel name item d = .ok xs) : ∀ x ∈ xs, P x := by
  unfold readLevel at h
  split at h
  · rename_i entries
    obtain ⟨found, hfound, h⟩ := Except.bind_eq_ok h
    obtain rfl := need_eq_ok h
    have hkeeps := Entries.readInto_keeps (P := fun slot => ∀ xs, slot = some xs → ∀ x ∈ xs, P x)
      (fun {slot slot' key value} hslot hvalue hentry => by
        split at hentry
        · obtain ⟨ys, hys, rfl⟩ := fill_eq_ok hentry
          intro zs hzs
          obtain rfl := Option.some.inj hzs
          exact hvalue.asList hitem hys
        · obtain ⟨_, -, hentry⟩ := Except.bind_eq_ok hentry
          obtain rfl := Except.ok.inj hentry
          exact hslot)
      entries hd.forall_mem nofun hfound
    exact hkeeps xs rfl
  · rename_i items
    obtain ⟨⟨first, rest⟩, hnext, h⟩ := Except.bind_eq_ok h
    obtain ⟨found, hfound, h⟩ := Except.bind_eq_ok h
    obtain ⟨_, -, h⟩ := Except.bind_eq_ok h
    obtain rfl := Except.ok.inj h
    exact (Items.bounded_next hd hnext).1.asList hitem hfound
  · cases h

/-! ### Timings -/

namespace Timing

/-- What holds of the timing of any interaction in a result: its times are numbers not below zero,
and finite, there is at most one outcome, an outcome has a submission, and a commit comes no
earlier. -/
structure WellFormed (t : Timing) : Prop where
  nonneg : ∀ x ∈ t.times, 0 ≤ x
  finite : ∀ x ∈ t.times, x.isInf = false
  oneOutcome : ¬ (t.commit.isSome = true ∧ t.abort.isSome = true)
  submitted : t.commit.isSome = true ∨ t.abort.isSome = true → t.submit.isSome = true
  ordered : ∀ s c, t.submit = some s → t.commit = some c → s ≤ c

theorem zero_le_of_isTime {x : Float} (h : isTime x = true) : 0 ≤ x := by
  simp only [isTime, Bool.not_eq_true', Bool.or_eq_false_iff, decide_eq_false_iff_not] at h
  obtain ⟨hlt, hnumber⟩ := h
  have hzero : (0 : Float).isNaN = false := by decide +kernel
  exact Double.le_of_not_lt hzero hnumber hlt

theorem Valid.wellFormed {t : Timing} (h : t.Valid) (hfinite : ∀ x ∈ t.times, x.isInf = false) :
    t.WellFormed where
  nonneg x hx := zero_le_of_isTime (h.isTime x hx)
  finite := hfinite
  oneOutcome := by
    rintro ⟨hcommit, habort⟩
    rcases h.oneOutcome with hnone | hnone
    · rw [hnone] at hcommit
      cases hcommit
    · rw [hnone] at habort
      cases habort
  submitted houtcome := by
    by_contra hnone
    obtain ⟨hcommit, habort⟩ := h.submitted (by simpa using hnone)
    rw [hcommit, habort] at houtcome
    rcases houtcome with hset | hset <;> cases hset
  ordered s c hs hc := by
    have hsubmit := h.isTime s (mem_times.mpr (Or.inl hs))
    have hcommit := h.isTime c (mem_times.mpr (Or.inr (Or.inl hc)))
    exact Double.le_of_not_lt (Double.isNaN_of_le (zero_le_of_isTime hsubmit))
      (Double.isNaN_of_le (zero_le_of_isTime hcommit)) (h.ordered s c hs hc)

/-- The numbers found so far are finite. -/
structure Draft.Finite (t : Draft) : Prop where
  submit : ∀ x, t.submit = some x → x.isInf = false
  commit : ∀ x, t.commit = some x → x.isInf = false
  abort : ∀ x, t.abort = some x → x.isInf = false

theorem fill_finite {name : String} {slot filled : Option Float} {d : Datum} (hd : d.Bounded)
    (h : fill name slot d.asFloat = .ok filled) : ∀ x, filled = some x → x.isInf = false := by
  obtain ⟨y, hy, rfl⟩ := fill_eq_ok h
  intro x hx
  obtain rfl := Option.some.inj hx
  exact hd.asFloat hy

theorem Draft.Finite.entry {t t' : Draft} {key : String} {d : Datum} (ht : t.Finite)
    (hd : d.Bounded) (h : t.entry key d = .ok t') : t'.Finite := by
  unfold Draft.entry at h
  split_ifs at h
  · obtain ⟨filled, hfilled, h⟩ := Except.bind_eq_ok h
    obtain rfl := Except.ok.inj h
    exact { ht with submit := fill_finite hd hfilled }
  · obtain ⟨filled, hfilled, h⟩ := Except.bind_eq_ok h
    obtain rfl := Except.ok.inj h
    exact { ht with commit := fill_finite hd hfilled }
  · obtain ⟨filled, hfilled, h⟩ := Except.bind_eq_ok h
    obtain rfl := Except.ok.inj h
    exact { ht with abort := fill_finite hd hfilled }
  · obtain ⟨_, -, h⟩ := Except.bind_eq_ok h
    obtain rfl := Except.ok.inj h
    exact ht

/-- The three numbers of a timing, from a table or a list, are finite. -/
theorem numbers_finite {d : Datum} {submit commit abort : Float} (hd : d.Bounded)
    (h : numbers d = .ok (submit, commit, abort)) :
    submit.isInf = false ∧ commit.isInf = false ∧ abort.isInf = false := by
  unfold numbers at h
  split at h
  · rename_i entries
    obtain ⟨t, ht, h⟩ := Except.bind_eq_ok h
    obtain ⟨s, hs, h⟩ := Except.bind_eq_ok h
    obtain ⟨c, hc, h⟩ := Except.bind_eq_ok h
    obtain ⟨a, ha, h⟩ := Except.bind_eq_ok h
    cases Except.ok.inj h
    have hempty : Draft.Finite ⟨none, none, none⟩ := by constructor <;> intro x hx <;> cases hx
    have hfinite : t.Finite :=
      Entries.readInto_keeps (fun hdraft hvalue hentry => hdraft.entry hvalue hentry) entries
        hd.forall_mem hempty ht
    exact ⟨hfinite.submit _ (need_eq_ok hs), hfinite.commit _ (need_eq_ok hc),
      hfinite.abort _ (need_eq_ok ha)⟩
  · obtain ⟨⟨first, items₁⟩, hfirst, h⟩ := Except.bind_eq_ok h
    obtain ⟨s, hs, h⟩ := Except.bind_eq_ok h
    obtain ⟨⟨second, items₂⟩, hsecond, h⟩ := Except.bind_eq_ok h
    obtain ⟨c, hc, h⟩ := Except.bind_eq_ok h
    obtain ⟨⟨third, items₃⟩, hthird, h⟩ := Except.bind_eq_ok h
    obtain ⟨a, ha, h⟩ := Except.bind_eq_ok h
    obtain ⟨_, -, h⟩ := Except.bind_eq_ok h
    cases Except.ok.inj h
    obtain ⟨hfirst, hd⟩ := Items.bounded_next hd hfirst
    obtain ⟨hsecond, hd⟩ := Items.bounded_next hd hsecond
    obtain ⟨hthird, -⟩ := Items.bounded_next hd hthird
    exact ⟨hfirst.asFloat hs, hsecond.asFloat hc, hthird.asFloat ha⟩
  · cases h

theorem readTime_eq_some {x y : Float} (h : readTime x = some y) : y = x := by
  unfold readTime at h
  split_ifs at h
  exact (Option.some.inj h).symm

/-- Whatever is read as a timing is well formed. -/
theorem wellFormed_of_ofDatum {d : Datum} {t : Timing} (hd : d.Bounded) (h : ofDatum d = .ok t) :
    t.WellFormed := by
  obtain ⟨submit, commit, abort, hnumbers, hmade⟩ := ofDatum_eq_ok h
  obtain ⟨hsubmit, hcommit, habort⟩ := numbers_finite hd hnumbers
  obtain ⟨rfl, hvalid⟩ := ofTimes_eq_ok.mp hmade
  refine hvalid.wellFormed fun x hx => ?_
  rcases mem_times.mp hx with hx | hx | hx
  · rw [readTime_eq_some hx]
    exact hsubmit
  · rw [readTime_eq_some hx]
    exact hcommit
  · rw [readTime_eq_some hx]
    exact habort

end Timing

/-! ### Results -/

theorem LaneResult.forall_ofDatum {d : Datum} {r : LaneResult} (hd : d.Bounded)
    (h : LaneResult.ofDatum d = .ok r) : ∀ t ∈ r.interactions, t.WellFormed := by
  unfold LaneResult.ofDatum at h
  obtain ⟨timings, hread, rfl⟩ := Except.map_eq_ok h
  exact forall_readLevel Timing.wellFormed_of_ofDatum hd hread

theorem SecondaryResult.forall_ofDatum {d : Datum} {r : SecondaryResult} (hd : d.Bounded)
    (h : SecondaryResult.ofDatum d = .ok r) : ∀ t ∈ r.interactions, t.WellFormed := by
  unfold SecondaryResult.ofDatum at h
  obtain ⟨lanes, hread, rfl⟩ := Except.map_eq_ok h
  intro t ht
  obtain ⟨lane, hlane, ht⟩ := List.mem_flatMap.mp ht
  exact forall_readLevel LaneResult.forall_ofDatum hd hread lane hlane t ht

/-- **Whatever is accepted as a result** is well formed throughout. -/
theorem SecondaryResult.forall_ofDocument {d : Document} {r : SecondaryResult}
    (h : SecondaryResult.ofDocument d = .ok r) : ∀ t ∈ r.interactions, t.WellFormed := by
  unfold SecondaryResult.ofDocument at h
  split at h
  · cases h
  · rename_i octets _ _
    cases hdecode : Json.decode SecondaryResult.ofDatum octets with
    | error fault => rw [hdecode] at h; cases h
    | ok r' =>
      rw [hdecode] at h
      obtain rfl := Except.ok.inj h
      obtain ⟨r'', hread, hclean⟩ := Except.bind_eq_ok hdecode
      split at hclean
      · obtain rfl := Except.ok.inj hclean
        exact SecondaryResult.forall_ofDatum (Json.bounded_read octets) hread
      · cases hclean

end LedgerLoad
