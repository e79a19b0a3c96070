import LedgerLoad.Proofs.Statistics.Figures

/-! # Timings that can be recorded

An interaction that is recorded event by event is in one of four states (`Timing.Recordable`): not
reached, submitted, committed or aborted, and an outcome does not precede its submission. All of
them are accepted by `Timing.ofTimes`. The converse has one exception: that an outcome does not
precede its submission is checked of a commit only. Main statement: `Timing.ofTimes_iff`, what is
accepted is what can be recorded, and the aborts before their submission. -/

namespace LedgerLoad

namespace Double

variable {x y : Float}

theorem not_lt_of_le (h : x ≤ y) : ¬ y < x := by
  intro hlt
  have hle := (le_iff.mp h).2.2
  have hless := (lt_iff.mp hlt).2.2
  omega

theorem beq_iff_le : (x == y) = true ↔ x ≤ y ∧ y ≤ x := by
  rw [beq_iff, le_iff, le_iff]
  constructor
  · rintro ⟨hx, hy, hplace⟩
    exact ⟨⟨hx, hy, hplace.le⟩, hy, hx, hplace.ge⟩
  · rintro ⟨⟨hx, hy, hle⟩, -, -, hge⟩
    exact ⟨hx, hy, Int.le_antisymm hle hge⟩

end Double

namespace Timing

variable {t t' : Timing} {event : Event} {time : Float}

theorem isTime_iff {x : Float} : isTime x = true ↔ 0 ≤ x := by
  refine ⟨zero_le_of_isTime, fun h => ?_⟩
  rw [isTime, decide_eq_false (Double.not_lt_of_le h), Double.isNaN_of_le h]
  rfl

theorem isNaN_of_isTime {x : Float} (h : isTime x = true) : x.isNaN = false :=
  Double.isNaN_of_le (zero_le_of_isTime h)

theorem not_lt_iff_le {x y : Float} (hx : isTime x = true) (hy : isTime y = true) :
    ¬ y < x ↔ x ≤ y :=
  ⟨Double.le_of_not_lt (isNaN_of_isTime hx) (isNaN_of_isTime hy), Double.not_lt_of_le⟩

theorem later_eq_or (a b : Float) : later a b = a ∨ later a b = b := by
  unfold later
  split_ifs
  · exact Or.inl rfl
  · exact Or.inl rfl
  · exact Or.inr rfl

/-! ### One event -/

/-- An outcome is entered in one state only. -/
theorem submission_eq_ok {s : Float} (h : t.submission = .ok s) : t = ⟨some s, none, none⟩ := by
  obtain ⟨submit, commit, abort⟩ := t
  cases commit <;> cases abort <;> cases submit <;> cases h
  rfl

/-- An event enters no other time than its own. -/
theorem mem_times_record {x : Float} (h : t.record event time = .ok t') (hx : x ∈ t'.times) :
    x ∈ t.times ∨ x = time := by
  cases event with
  | submit =>
    rw [record] at h
    split_ifs at h
    obtain rfl := Except.ok.inj h
    rcases mem_times.mp hx with hx | hx | hx
    · exact Or.inr (Option.some.inj hx).symm
    · exact Or.inl (mem_times.mpr (Or.inr (Or.inl hx)))
    · exact Or.inl (mem_times.mpr (Or.inr (Or.inr hx)))
  | commit | abort =>
    obtain ⟨s, hs, rfl⟩ := Except.map_eq_ok h
    obtain rfl := submission_eq_ok hs
    -- The time of an outcome is its own, or that of the submission.
    rcases List.mem_pair.mp hx with rfl | rfl
    · exact Or.inl (mem_times.mpr (Or.inl rfl))
    · rcases later_eq_or time s with heq | heq
      · exact Or.inr heq
      · exact Or.inl (mem_times.mpr (Or.inl (congrArg some heq.symm)))

/-- The states of an interaction that is recorded event by event. -/
inductive Recordable : Timing → Prop
  | unreached : Recordable .unreached
  | submitted {s : Float} (hs : isTime s = true) : Recordable ⟨some s, none, none⟩
  | committed {s c : Float} (hs : isTime s = true) (hc : isTime c = true) (hle : s ≤ c) :
      Recordable ⟨some s, some c, none⟩
  | aborted {s a : Float} (hs : isTime s = true) (ha : isTime a = true) (hle : s ≤ a) :
      Recordable ⟨some s, none, some a⟩

/-- A time that is moved up to the submission if it is earlier. -/
theorem later_submission {s : Float} (htime : isTime time = true) (hs : isTime s = true) :
    isTime (later time s) = true ∧ s ≤ later time s := by
  refine ⟨?_, (later_spec (isNaN_of_isTime htime) (isNaN_of_isTime hs)).2⟩
  rcases later_eq_or time s with h | h
  · rw [h]
    exact htime
  · rw [h]
    exact hs

/-- **An event leads from one of the states to another**, whatever its time. -/
theorem Recordable.record (h : t.Recordable) (htime : isTime time = true)
    (hrecord : t.record event time = .ok t') : t'.Recordable := by
  cases h with
  | unreached =>
    cases event with
    | submit =>
      obtain rfl := Except.ok.inj hrecord
      exact .submitted htime
    | commit | abort => cases hrecord
  | submitted hs =>
    obtain ⟨hlater, hle⟩ := later_submission htime hs
    cases event with
    | submit => cases hrecord
    | commit =>
      obtain rfl := Except.ok.inj hrecord
      exact .committed hs hlater hle
    | abort =>
      obtain rfl := Except.ok.inj hrecord
      exact .aborted hs hlater hle
  | committed | aborted => cases event <;> cases hrecord

theorem Recordable.valid (h : t.Recordable) : t.Valid := by
  cases h with
  | unreached =>
    refine ⟨?_, Or.inl rfl, fun _ => ⟨rfl, rfl⟩, ?_⟩
    · intro x hx
      exact absurd hx List.not_mem_nil
    · intro s c hs
      cases hs
  | submitted hs =>
    refine ⟨?_, Or.inl rfl, ?_, ?_⟩
    · simpa [times] using hs
    · intro hnone
      cases hnone
    · intro s c _ hc
      cases hc
  | @committed s c hs hc hle =>
    refine ⟨?_, Or.inr rfl, ?_, ?_⟩
    · simpa [times] using ⟨hs, hc⟩
    · intro hnone
      cases hnone
    · intro s' c' hs' hc'
      obtain rfl := Option.some.inj hs'
      obtain rfl := Option.some.inj hc'
      exact Double.not_lt_of_le hle
  | aborted hs ha =>
    refine ⟨?_, Or.inl rfl, ?_, ?_⟩
    · simpa [times] using ⟨hs, ha⟩
    · intro hnone
      cases hnone
    · intro s c _ hc
      cases hc

/-! ### Events one after another -/

/-- Records an event with its time; one that is refused changes nothing. -/
def attempt (t : Timing) (entry : Event × Float) : Timing :=
  match t.record entry.1 entry.2 with
  | .ok t' => t'
  | .error _ => t

/-- What a sequence of events can leave of an interaction, up to the sign of a zero. -/
def Recorded (t : Timing) : Prop :=
  ∃ entries : List (Event × Float), (∀ e ∈ entries, isTime e.2 = true) ∧
    (entries.foldl attempt unreached == t) = true

theorem Recordable.attempt {entry : Event × Float} (h : t.Recordable)
    (htime : isTime entry.2 = true) : (t.attempt entry).Recordable := by
  unfold Timing.attempt
  cases hrecord : t.record entry.1 entry.2 with
  | ok t' => exact h.record htime hrecord
  | error => exact h

theorem Recordable.foldl {entries : List (Event × Float)} (h : t.Recordable)
    (hentries : ∀ e ∈ entries, isTime e.2 = true) :
    (entries.foldl Timing.attempt t).Recordable := by
  induction entries generalizing t with
  | nil => exact h
  | cons e entries ih =>
    obtain ⟨htime, hentries⟩ := List.forall_mem_cons.mp hentries
    exact ih (h.attempt htime) hentries

theorem beq_iff : (t == t') = true ↔ (t.submit == t'.submit) = true ∧
    (t.commit == t'.commit) = true ∧ (t.abort == t'.abort) = true := by
  have hbeq : (t == t') =
      (t.submit == t'.submit && (t.commit == t'.commit && t.abort == t'.abort)) := rfl
  rw [hbeq, Bool.and_eq_true, Bool.and_eq_true]

theorem none_beq {o : Option Float} : (none == o) = true ↔ o = none := by
  cases o with
  | none => exact ⟨fun _ => rfl, fun _ => rfl⟩
  | some y => exact ⟨nofun, nofun⟩

theorem some_beq {x : Float} {o : Option Float} :
    (some x == o) = true ↔ ∃ y, o = some y ∧ (x == y) = true := by
  cases o with
  | none => exact ⟨nofun, nofun⟩
  | some y =>
    refine ⟨fun h => ⟨y, rfl, h⟩, ?_⟩
    rintro ⟨_, ⟨⟩, h⟩
    exact h

/-- Times that are equal as numbers are in the same state. -/
theorem Recordable.of_beq (h : t.Recordable) (heq : (t == t') = true) : t'.Recordable := by
  obtain ⟨hsubmit, hcommit, habort⟩ := beq_iff.mp heq
  obtain ⟨submit, commit, abort⟩ := t'
  have htime {x y : Float} (hx : isTime x = true) (hxy : (x == y) = true) : isTime y = true :=
    isTime_iff.mpr (Double.le_trans (isTime_iff.mp hx) (Double.beq_iff_le.mp hxy).1)
  have hordered {x y x' y' : Float} (hx : (x == x') = true) (hy : (y == y') = true) (h : x ≤ y) :
      x' ≤ y' :=
    Double.le_trans (Double.beq_iff_le.mp hx).2 (Double.le_trans h (Double.beq_iff_le.mp hy).1)
  cases h with
  | unreached =>
    obtain rfl := none_beq.mp hsubmit
    obtain rfl := none_beq.mp hcommit
    obtain rfl := none_beq.mp habort
    exact .unreached
  | submitted hs =>
    obtain ⟨s', rfl, hs'⟩ := some_beq.mp hsubmit
    obtain rfl := none_beq.mp hcommit
    obtain rfl := none_beq.mp habort
    exact .submitted (htime hs hs')
  | committed hs hc hle =>
    obtain ⟨s', rfl, hs'⟩ := some_beq.mp hsubmit
    obtain ⟨c', rfl, hc'⟩ := some_beq.mp hcommit
    obtain rfl := none_beq.mp habort
    exact .committed (htime hs hs') (htime hc hc') (hordered hs' hc' hle)
  | aborted hs ha hle =>
    obtain ⟨s', rfl, hs'⟩ := some_beq.mp hsubmit
    obtain rfl := none_beq.mp hcommit
    obtain ⟨a', rfl, ha'⟩ := some_beq.mp habort
    exact .aborted (htime hs hs') (htime ha ha') (hordered hs' ha' hle)

/-- An outcome that does not precede its submission is recorded as it is. -/
theorem later_beq {s x : Float} (h : s ≤ x) : (later x s == x) = true := by
  have hs := (Double.le_iff.mp h).1
  have hx := Double.isNaN_of_le h
  obtain ⟨hle, -⟩ := later_spec hx hs
  refine Double.beq_iff_le.mpr ⟨?_, hle⟩
  rcases later_eq_or x s with heq | heq
  · rw [heq]
    exact Double.le_refl hx
  · rw [heq]
    exact h

/-- Each of the states is recorded by entering its times in order. -/
theorem Recordable.recorded (h : t.Recordable) : t.Recorded := by
  have hrefl {x : Float} (hx : isTime x = true) : (x == x) = true :=
    have hle := Double.le_refl (isNaN_of_isTime hx)
    Double.beq_iff_le.mpr ⟨hle, hle⟩
  cases h with
  | unreached => exact ⟨[], nofun, rfl⟩
  | @submitted s hs =>
    exact ⟨[(.submit, s)], by simpa using hs, beq_iff.mpr ⟨hrefl hs, rfl, rfl⟩⟩
  | @committed s c hs hc hle =>
    exact ⟨[(.submit, s), (.commit, c)], by simpa using ⟨hs, hc⟩,
      beq_iff.mpr ⟨hrefl hs, later_beq hle, rfl⟩⟩
  | @aborted s a hs ha hle =>
    exact ⟨[(.submit, s), (.abort, a)], by simpa using ⟨hs, ha⟩,
      beq_iff.mpr ⟨hrefl hs, rfl, later_beq hle⟩⟩

/-- **What can be recorded** are the four states. -/
theorem recorded_iff : t.Recorded ↔ t.Recordable := by
  refine ⟨?_, Recordable.recorded⟩
  rintro ⟨entries, hentries, heq⟩
  exact (Recordable.unreached.foldl hentries).of_beq heq

/-! ### Checked times -/

/-- An abort that precedes its submission. -/
def EarlyAbort (t : Timing) : Prop :=
  t.commit = none ∧ ∃ s a, t.submit = some s ∧ t.abort = some a ∧ a < s

theorem Recordable.not_earlyAbort (h : t.Recordable) : ¬ t.EarlyAbort := by
  rintro ⟨-, s, a, hs, ha, hlt⟩
  cases h with
  | unreached | submitted | committed => cases ha
  | aborted _ _ hle =>
    obtain rfl := Option.some.inj hs
    obtain rfl := Option.some.inj ha
    exact Double.not_lt_of_le hle hlt

theorem valid_iff (htimes : ∀ x ∈ t.times, isTime x = true) :
    t.Valid ↔ t.Recordable ∨ t.EarlyAbort := by
  constructor
  · rintro ⟨-, houtcome, hsubmitted, hordered⟩
    obtain ⟨submit, commit, abort⟩ := t
    dsimp only at houtcome hsubmitted hordered
    match submit, commit, abort with
    | _, some c, some a => rcases houtcome with h | h <;> cases h
    | none, some c, none => cases (hsubmitted rfl).1
    | none, none, some a => cases (hsubmitted rfl).2
    | none, none, none => exact Or.inl .unreached
    | some s, none, none =>
      exact Or.inl (.submitted (by simpa [times] using htimes))
    | some s, some c, none =>
      obtain ⟨hs, hc⟩ : isTime s = true ∧ isTime c = true := by simpa [times] using htimes
      exact Or.inl (.committed hs hc ((not_lt_iff_le hs hc).mp (hordered s c rfl rfl)))
    | some s, none, some a =>
      obtain ⟨hs, ha⟩ : isTime s = true ∧ isTime a = true := by simpa [times] using htimes
      by_cases hlt : a < s
      · exact Or.inr ⟨rfl, s, a, rfl, rfl, hlt⟩
      · exact Or.inl (.aborted hs ha ((not_lt_iff_le hs ha).mp hlt))
  · rintro (h | ⟨hcommit, s, a, hs, ha, -⟩)
    · exact h.valid
    · refine ⟨htimes, Or.inl hcommit, fun hnone => ?_, fun s' c _ hc => ?_⟩
      · rw [hs] at hnone
        cases hnone
      · rw [hcommit] at hc
        cases hc

variable {submit commit abort : Option Float}

/-- **Three times are accepted** exactly if they can be recorded, or if they are of an abort that
precedes its submission, which cannot be recorded. -/
theorem ofTimes_iff (htimes : ∀ x ∈ times ⟨submit, commit, abort⟩, isTime x = true) :
    ((∃ t, ofTimes submit commit abort = .ok t) ↔
      Recorded ⟨submit, commit, abort⟩ ∨ EarlyAbort ⟨submit, commit, abort⟩) ∧
    ¬ (Recorded ⟨submit, commit, abort⟩ ∧ EarlyAbort ⟨submit, commit, abort⟩) := by
  have haccepted : (∃ t, ofTimes submit commit abort = .ok t) ↔
      Valid ⟨submit, commit, abort⟩ := by
    constructor
    · rintro ⟨t, h⟩
      obtain ⟨rfl, hvalid⟩ := ofTimes_eq_ok.mp h
      exact hvalid
    · exact fun hvalid => ⟨_, ofTimes_eq_ok.mpr ⟨rfl, hvalid⟩⟩
  rw [haccepted, valid_iff htimes, recorded_iff]
  exact ⟨Iff.rfl, fun h => h.1.not_earlyAbort h.2⟩

/-- An abort after two seconds, of a submission after one, is accepted and can be recorded. -/
theorem ofTimes_iff_aborted : (∀ x ∈ times ⟨some 1, none, some 2⟩, isTime x = true) ∧
    (∃ t, ofTimes (some 1) none (some 2) = .ok t) ∧ Recorded ⟨some 1, none, some 2⟩ := by
  have htimes : ∀ x ∈ times ⟨some 1, none, some 2⟩, isTime x = true := by decide +kernel
  have hok : ∃ t, ofTimes (some 1) none (some 2) = .ok t := ⟨_, rfl⟩
  refine ⟨htimes, hok, ((ofTimes_iff htimes).1.mp hok).resolve_right ?_⟩
  rintro ⟨-, s, a, ⟨⟩, ⟨⟩, hlt⟩
  exact absurd hlt (by decide +kernel)

/-- An abort after one second, of a submission after two, is accepted and cannot be recorded. -/
theorem earlyAbort_accepted : (∀ x ∈ times ⟨some 2, none, some 1⟩, isTime x = true) ∧
    (∃ t, ofTimes (some 2) none (some 1) = .ok t) ∧ ¬ Recorded ⟨some 2, none, some 1⟩ := by
  refine ⟨by decide +kernel, ⟨_, rfl⟩, fun h => ?_⟩
  exact (recorded_iff.mp h).not_earlyAbort ⟨rfl, 2, 1, rfl, rfl, by decide +kernel⟩

end Timing

end LedgerLoad
