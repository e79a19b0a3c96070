import LedgerLoad.Proofs.Double.Order
import LedgerLoad.Proofs.Except
import LedgerLoad.Results.Text

/-! # Checked timings

Three times make a timing exactly if they keep its rules (`Timing.ofTimes_eq_ok`), so whatever is
read as a timing is valid (`Timing.valid_of_ofDatum`). A time that is set is never minus one, the
number for a time that is not set; hence a time is read as it was written
(`Timing.readTime_of_isTime`). -/

namespace LedgerLoad.Timing

/-! ### Three times -/

theorem mem_times {t : Timing} {x : Float} :
    x ∈ t.times ↔ t.submit = some x ∨ t.commit = some x ∨ t.abort = some x := by
  simp only [times, List.mem_filterMap, List.mem_cons, List.not_mem_nil, or_false, id_eq]
  constructor
  · rintro ⟨_, rfl | rfl | rfl, h⟩
    · exact Or.inl h
    · exact Or.inr (Or.inl h)
    · exact Or.inr (Or.inr h)
  · rintro (h | h | h)
    · exact ⟨_, Or.inl rfl, h⟩
    · exact ⟨_, Or.inr (Or.inl rfl), h⟩
    · exact ⟨_, Or.inr (Or.inr rfl), h⟩

theorem firstBadTime_eq_none {t : Timing} :
    firstBadTime t = none ↔ ∀ x ∈ t.times, isTime x = true := by
  simp [firstBadTime, List.find?_eq_none]

/-- **Three times make a timing** exactly if they keep its rules, and then that timing. -/
theorem ofTimes_eq_ok {submit commit abort : Option Float} {t : Timing} :
    ofTimes submit commit abort = .ok t ↔ t = ⟨submit, commit, abort⟩ ∧ t.Valid := by
  unfold ofTimes
  constructor
  · intro h
    dsimp only at h
    cases hbad : firstBadTime ⟨submit, commit, abort⟩ with
    | some x => rw [hbad] at h; cases h
    | none =>
      rw [hbad] at h
      have htimes := firstBadTime_eq_none.mp hbad
      -- The outcomes that are let pass: both set, without submission and ordered are excluded.
      match submit, commit, abort with
      | _, some c, some a => cases h
      | none, some c, none => cases h
      | none, none, some a => cases h
      | some s, some c, none =>
        dsimp only at h
        by_cases hlt : c < s
        · rw [if_pos hlt] at h
          cases h
        · rw [if_neg hlt] at h
          obtain rfl := Except.ok.inj h
          refine ⟨rfl, htimes, Or.inr rfl, nofun, ?_⟩
          intro s' c' hs hc
          cases hs
          cases hc
          exact hlt
      | none, none, none | some s, none, none =>
        obtain rfl := Except.ok.inj h
        exact ⟨rfl, htimes, Or.inl rfl, fun _ => ⟨rfl, rfl⟩, nofun⟩
      | some s, none, some a =>
        obtain rfl := Except.ok.inj h
        exact ⟨rfl, htimes, Or.inl rfl, nofun, nofun⟩
  · rintro ⟨rfl, htimes, houtcome, hsubmitted, hordered⟩
    dsimp only at houtcome hsubmitted hordered ⊢
    rw [firstBadTime_eq_none.mpr htimes]
    match submit, commit, abort with
    | _, some c, some a => rcases houtcome with h | h <;> cases h
    | none, some c, none => cases (hsubmitted rfl).1
    | none, none, some a => cases (hsubmitted rfl).2
    | some s, some c, none => exact if_neg (hordered s c rfl rfl)
    | none, none, none | some s, none, none | some s, none, some a => rfl

/-! ### Times in text -/

/-- A timing is read from three numbers that make one. -/
theorem ofDatum_eq_ok {d : Datum} {t : Timing} (h : ofDatum d = .ok t) :
    ∃ submit commit abort, numbers d = .ok (submit, commit, abort) ∧
      ofTimes (readTime submit) (readTime commit) (readTime abort) = .ok t := by
  obtain ⟨⟨submit, commit, abort⟩, hnumbers, h⟩ := Except.bind_eq_ok h
  dsimp only at h
  split at h
  · rename_i made hmade
    obtain rfl := Except.ok.inj h
    exact ⟨submit, commit, abort, hnumbers, hmade⟩
  · cases h

/-- Whatever is read as a timing is valid. -/
theorem valid_of_ofDatum {d : Datum} {t : Timing} (h : ofDatum d = .ok t) : t.Valid := by
  obtain ⟨submit, commit, abort, -, hmade⟩ := ofDatum_eq_ok h
  exact (ofTimes_eq_ok.mp hmade).2

/-- No time of a run is taken for one that is not set. -/
theorem readTime_of_isTime {x : Float} (h : isTime x = true) : readTime x = some x := by
  have hunset : unset < 0 := by decide +kernel
  refine if_neg fun heq => ?_
  have hplace := (Double.beq_iff.mp heq).2.2
  have hlt : x < 0 := by
    obtain ⟨-, hzero, hless⟩ := Double.lt_iff.mp hunset
    exact Double.lt_iff.mpr ⟨(Double.beq_iff.mp heq).1, hzero, hplace ▸ hless⟩
  simp [isTime, hlt] at h

/-- Three fields that are numbers make the timing of what the numbers say. -/
theorem ofDatum_fields {submit commit abort : Datum} {x y z : Float} (hx : submit.asFloat = .ok x)
    (hy : commit.asFloat = .ok y) (hz : abort.asFloat = .ok z) :
    ofDatum (.ofEntries [("submit_time", submit), ("commit_time", commit), ("abort_time", abort)]) =
      (ofTimes (readTime x) (readTime y) (readTime z)).mapError fun violation =>
        .refused violation.message := by
  have hnumbers : numbers (.ofEntries [("submit_time", submit), ("commit_time", commit),
      ("abort_time", abort)]) = .ok (x, y, z) := by
    simp only [Datum.ofEntries, Entries.ofList, numbers, Entries.readInto, Draft.entry, if_true,
      fill, hx, hy, hz]
    rfl
  rw [ofDatum, hnumbers]
  simp only [bind, Except.bind]
  cases ofTimes (readTime x) (readTime y) (readTime z) <;> rfl

end LedgerLoad.Timing
