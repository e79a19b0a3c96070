import LedgerLoad.Adapter.Timer
import LedgerLoad.Proofs.Clock.Pool
import LedgerLoad.Proofs.Time.Seconds
import LedgerLoad.Proofs.Timing.Recorded

/-! # Calls of a timer

A client may call its timer as often as it likes and in any order. What counts is the first
submission, and the first commit or abort after it (`Timer.Counts`); every other call is refused.
Main statement: `Timer.followed`, on a clock that never goes back the timer holds the moments of
the calls that count, and they are a timing that `Timing.ofTimes` accepts. -/

namespace LedgerLoad

namespace Duration

theorem since_mono {a b origin : Duration} (h : a ≤ b) : a.since origin ≤ b.since origin := by
  have hnanos : a.nanos ≤ b.nanos := h
  show a.nanos - origin.nanos ≤ b.nanos - origin.nanos
  omega

end Duration

namespace Timing

theorem isTime_toSeconds (d : Duration) : isTime d.toSeconds = true :=
  isTime_iff.mpr d.positive_toSeconds.zero_le

/-- The seconds of a later moment are not moved. -/
theorem later_toSeconds {a b : Duration} (h : a ≤ b) :
    later b.toSeconds a.toSeconds = b.toSeconds := by
  have ha := a.positive_toSeconds
  have hb := b.positive_toSeconds
  rcases later_eq_or b.toSeconds a.toSeconds with heq | heq
  · exact heq
  · have hle := (hb.le_iff ha).mp (heq ▸ (later_spec hb.isNaN ha.isNaN).1)
    have hge := (ha.le_iff hb).mp (Duration.toSeconds_mono h)
    rw [heq]
    exact ha.eq_of_steps hb (Nat.le_antisymm hge hle)

end Timing

/-! ### Calls -/

/-- A call of a timer: an event, and the moment at which it is entered. -/
structure Timer.Call where
  event : Event
  moment : Duration

namespace Timer

/-- Makes one call after another. -/
def after (t : Timer) (calls : List Call) : Timer :=
  calls.foldl (fun t c => (t.enter c.event c.moment).1) t

/-- The answers to calls that are made one after another. -/
def answers (t : Timer) : List Call → List (Except TimingViolation Unit)
  | [] => []
  | c :: calls => (t.enter c.event c.moment).2 :: answers (t.enter c.event c.moment).1 calls

/-- The time of a call. -/
def Call.time (origin : Duration) (c : Call) : Float := (c.moment.since origin).toSeconds

/-- The first submission. -/
def submission (calls : List Call) : Option Call := calls.find? fun c => c.event = .submit

/-- The first outcome after it. -/
def outcome (calls : List Call) : Option Call :=
  (calls.dropWhile fun c => c.event ≠ .submit).find? fun c => c.event ≠ .submit

/-- Whether a call counts that is made after others. -/
def Counts (calls : List Call) (c : Call) : Prop :=
  match c.event with
  | .submit => submission calls = none
  | .commit | .abort => submission calls ≠ none ∧ outcome calls = none

/-- The timing that calls leave behind. -/
def expected (origin : Duration) (calls : List Call) : Timing where
  submit := (submission calls).map (Call.time origin)
  commit := ((outcome calls).filter fun c => c.event = .commit).map (Call.time origin)
  abort := ((outcome calls).filter fun c => c.event = .abort).map (Call.time origin)

section Calls

variable {calls : List Call} {c d : Call} {origin : Duration}

theorem submission_concat : submission (calls ++ [c]) =
    (submission calls).or (if c.event = .submit then some c else none) := by
  unfold submission
  rw [List.find?_append]
  by_cases h : c.event = .submit <;> simp [h]

theorem submission_eq_none : submission calls = none ↔ ∀ d ∈ calls, d.event ≠ .submit := by
  simp [submission, List.find?_eq_none]

theorem dropWhile_eq_nil : (calls.dropWhile fun c => c.event ≠ .submit) = [] ↔
    submission calls = none := by
  rw [submission_eq_none, List.dropWhile_eq_nil_iff]
  simp

theorem outcome_concat : outcome (calls ++ [c]) =
    (outcome calls).or (if submission calls ≠ none ∧ c.event ≠ .submit then some c else none) := by
  unfold outcome
  rw [List.dropWhile_append]
  by_cases hnone : submission calls = none
  · have hnil := dropWhile_eq_nil.mpr hnone
    rw [hnil]
    by_cases h : c.event = .submit <;> simp [hnone, h]
  · have hcons := mt dropWhile_eq_nil.mp hnone
    rw [if_neg (by simpa using hcons), List.find?_append]
    by_cases h : c.event = .submit <;> simp [hnone, h]

theorem outcome_of_submission (h : submission calls = none) : outcome calls = none := by
  unfold outcome
  rw [dropWhile_eq_nil.mpr h]
  rfl

theorem outcome_event (h : outcome calls = some d) : d.event = .commit ∨ d.event = .abort := by
  have hevent : d.event ≠ .submit := by simpa using List.find?_some h
  cases hd : d.event with
  | submit => exact absurd hd hevent
  | commit => exact Or.inl rfl
  | abort => exact Or.inr rfl

/-- What is expected once the first submission was made. -/
theorem expected_of_submission (hs : submission calls = some d) (ho : outcome calls = none) :
    expected origin calls = ⟨some (d.time origin), none, none⟩ := by
  simp [expected, hs, ho]

/-- **One more call**: if it counts, the timing gets its time. -/
theorem record_expected (origin : Duration) (hclock : ∀ d ∈ calls, d.moment ≤ c.moment)
    (h : Counts calls c) : (expected origin calls).record c.event (c.time origin) =
      .ok (expected origin (calls ++ [c])) := by
  have hlater (d : Call) (hd : submission calls = some d) :
      Timing.later (c.time origin) (d.time origin) = c.time origin :=
    Timing.later_toSeconds (Duration.since_mono (hclock d (List.mem_of_find?_eq_some hd)))
  unfold Counts at h
  cases hevent : c.event with
  | submit =>
    rw [hevent] at h
    have ho := outcome_of_submission h
    simp [expected, submission_concat, outcome_concat, h, ho, hevent, Timing.record]
  | commit | abort =>
    rw [hevent] at h
    obtain ⟨hs, ho⟩ := h
    obtain ⟨d, hd⟩ := Option.ne_none_iff_exists'.mp hs
    have hmoved := hlater d hd
    rw [expected_of_submission hd ho]
    simp [expected, submission_concat, outcome_concat, hd, ho, hevent, hmoved, Timing.record,
      Timing.submission, Except.map]

theorem expected_concat_of_not (h : ¬ Counts calls c) :
    expected origin (calls ++ [c]) = expected origin calls := by
  have hsubmission : submission (calls ++ [c]) = submission calls := by
    cases hs : submission calls with
    | some d => rw [submission_concat, hs, Option.some_or]
    | none =>
      have hevent : c.event ≠ .submit := fun hevent => h (by simpa [Counts, hevent] using hs)
      rw [submission_concat, hs, Option.none_or, if_neg hevent]
  have houtcome : outcome (calls ++ [c]) = outcome calls := by
    cases ho : outcome calls with
    | some d => rw [outcome_concat, ho, Option.some_or]
    | none =>
      rw [outcome_concat, ho, Option.none_or, if_neg]
      rintro ⟨hs, hevent⟩
      refine h ?_
      unfold Counts
      cases hkind : c.event with
      | submit => exact absurd hkind hevent
      | commit | abort => exact ⟨hs, ho⟩
  unfold expected
  rw [hsubmission, houtcome]

/-- No outcome is recorded without submission, nor after another. -/
theorem submission_expected (origin : Duration)
    (h : ¬ (submission calls ≠ none ∧ outcome calls = none)) :
    ∃ violation, (expected origin calls).submission = .error violation := by
  cases ho : outcome calls with
  | none =>
    have hs : submission calls = none := by
      by_contra hs
      exact h ⟨hs, ho⟩
    refine ⟨.terminalBeforeSubmit, ?_⟩
    simp [Timing.submission, expected, hs, ho]
  | some d =>
    refine ⟨.duplicateTerminal, ?_⟩
    rcases outcome_event ho with hd | hd <;> simp [Timing.submission, expected, ho, hd]

/-- A call that does not count is refused. -/
theorem record_expected_of_not (origin : Duration) (h : ¬ Counts calls c) :
    ∃ violation, (expected origin calls).record c.event (c.time origin) = .error violation := by
  unfold Counts at h
  cases hevent : c.event with
  | submit =>
    rw [hevent] at h
    obtain ⟨d, hd⟩ := Option.ne_none_iff_exists'.mp h
    exact ⟨.duplicateSubmit, by simp [Timing.record, expected, hd]⟩
  | commit | abort =>
    rw [hevent] at h
    obtain ⟨violation, hviolation⟩ := submission_expected origin h
    exact ⟨violation, by simp [Timing.record, hviolation, Except.map]⟩

end Calls

/-! ### Whole sequences of calls -/

section After

variable {t : Timer} {calls : List Call} {c : Call} {origin : Duration}

theorem after_concat (t : Timer) (calls : List Call) (c : Call) :
    t.after (calls ++ [c]) = ((t.after calls).enter c.event c.moment).1 := by
  simp [after]

theorem answers_append (t : Timer) (calls more : List Call) :
    t.answers (calls ++ more) = t.answers calls ++ (t.after calls).answers more := by
  induction calls generalizing t with
  | nil => rfl
  | cons c calls ih =>
    rw [List.cons_append, answers, answers, ih]
    rfl

theorem length_answers (t : Timer) (calls : List Call) :
    (t.answers calls).length = calls.length := by
  induction calls generalizing t with
  | nil => rfl
  | cons c calls ih => simp [answers, ih]

/-- The answer to a call is that of the timer after the calls before it. -/
theorem getElem?_answers {n : Nat} (hc : calls[n]? = some c) :
    (t.answers calls)[n]? = some ((t.after (calls.take n)).enter c.event c.moment).2 := by
  obtain ⟨hn, rfl⟩ := List.getElem?_eq_some_iff.mp hc
  have hsplit : calls = calls.take n ++ calls[n] :: calls.drop (n + 1) := by simp
  have hlength : (t.answers (calls.take n)).length = n := by
    rw [length_answers, List.length_take]
    omega
  conv_lhs => rw [hsplit, answers_append]
  rw [List.getElem?_append_right (by omega), hlength, Nat.sub_self]
  rfl

theorem origin_enter (t : Timer) (event : Event) (clock : Duration) :
    (t.enter event clock).1.origin = t.origin := by
  unfold enter
  split <;> rfl

theorem origin_after (t : Timer) (calls : List Call) : (t.after calls).origin = t.origin := by
  induction calls using List.reverseRecOn with
  | nil => rfl
  | append_singleton calls c ih => rw [after_concat, origin_enter, ih]

theorem secondsAt_after (origin : Duration) (calls : List Call) (c : Call) :
    ((start origin).after calls).secondsAt c.moment = c.time origin := by
  rw [secondsAt, origin_after]
  rfl

theorem enter_of_ok {event : Event} {clock : Duration} {timing : Timing}
    (h : t.timing.record event (t.secondsAt clock) = .ok timing) :
    t.enter event clock = ({ t with timing }, .ok ()) := by
  simp only [enter, h]

theorem enter_of_error {event : Event} {clock : Duration} {violation : TimingViolation}
    (h : t.timing.record event (t.secondsAt clock) = .error violation) :
    t.enter event clock = ({ t with violations := t.violations + 1 }, .error violation) := by
  simp only [enter, h]

/-- Whether an answer refuses a call. -/
def refuses (answer : Except TimingViolation Unit) : Bool := !answer.isOk

theorem violations_after (t : Timer) (calls : List Call) :
    (t.after calls).violations = t.violations + (t.answers calls).countP refuses := by
  induction calls generalizing t with
  | nil => rfl
  | cons c calls ih =>
    have hafter : t.after (c :: calls) = (t.enter c.event c.moment).1.after calls := rfl
    rw [hafter, ih, answers, List.countP_cons]
    cases hrecord : t.timing.record c.event (t.secondsAt c.moment) with
    | ok timing => simp [enter_of_ok hrecord, refuses, Except.isOk, Except.toBool]
    | error violation =>
      simp [enter_of_error hrecord, refuses, Except.isOk, Except.toBool]
      omega

/-- Whatever is called, the timing is in one of the states that can be recorded. -/
theorem recordable_enter {event : Event} {clock : Duration} (h : t.timing.Recordable) :
    (t.enter event clock).1.timing.Recordable := by
  cases hrecord : t.timing.record event (t.secondsAt clock) with
  | ok timing =>
    rw [enter_of_ok hrecord]
    exact h.record (Timing.isTime_toSeconds _) hrecord
  | error violation =>
    rw [enter_of_error hrecord]
    exact h

theorem recordable_after (origin : Duration) (calls : List Call) :
    ((start origin).after calls).timing.Recordable := by
  induction calls using List.reverseRecOn with
  | nil => exact .unreached
  | append_singleton calls c ih =>
    rw [after_concat]
    exact recordable_enter ih

/-- **What is expected is what the timer holds**, if the clock never goes back. -/
theorem timing_after (origin : Duration) (hclock : calls.Pairwise fun c d => c.moment ≤ d.moment) :
    ((start origin).after calls).timing = expected origin calls := by
  induction calls using List.reverseRecOn with
  | nil => rfl
  | append_singleton calls c ih =>
    obtain ⟨hbefore, -, hlast⟩ := List.pairwise_append.mp hclock
    have htiming := ih hbefore
    rw [after_concat]
    by_cases hcounts : Counts calls c
    · have hearlier (d : Call) (hd : d ∈ calls) : d.moment ≤ c.moment :=
        hlast d hd c (List.mem_singleton.mpr rfl)
      have hrecord := record_expected origin hearlier hcounts
      rw [← htiming, ← secondsAt_after] at hrecord
      rw [enter_of_ok hrecord]
    · obtain ⟨violation, hrecord⟩ := record_expected_of_not origin hcounts
      rw [← htiming, ← secondsAt_after] at hrecord
      rw [enter_of_error hrecord, expected_concat_of_not hcounts]
      exact htiming

end After

/-- What a timer makes of some calls that a client makes one after another. -/
structure Followed (origin : Duration) (calls : List Call) : Prop where
  /-- It holds the time of the first submission, -/
  submit : ((start origin).after calls).timing.submit = (submission calls).map (Call.time origin)
  /-- and of the first outcome after it, if that is a commit -/
  commit : ((start origin).after calls).timing.commit =
    ((outcome calls).filter fun c => c.event = .commit).map (Call.time origin)
  /-- or if it is an abort. -/
  abort : ((start origin).after calls).timing.abort =
    ((outcome calls).filter fun c => c.event = .abort).map (Call.time origin)
  /-- Each call has an answer. -/
  answered : ((start origin).answers calls).length = calls.length
  /-- A call that counts is accepted. -/
  accepted : ∀ n c, calls[n]? = some c → Counts (calls.take n) c →
    ((start origin).answers calls)[n]? = some (.ok ())
  /-- Every other call is refused and changes no time. -/
  refused : ∀ n c, calls[n]? = some c → ¬ Counts (calls.take n) c →
    (∃ violation, ((start origin).answers calls)[n]? = some (.error violation)) ∧
      ((start origin).after (calls.take (n + 1))).timing =
        ((start origin).after (calls.take n)).timing
  /-- The refusals are counted, -/
  violations : ((start origin).after calls).violations =
    ((start origin).answers calls).countP refuses
  /-- and the count does not leave the range of a counter that has one for every call. -/
  violations_le : ((start origin).after calls).violations ≤ calls.length
  /-- For fewer calls than `2 ^ 32` that is a counter of 32 bits. -/
  counter : calls.length < 2 ^ 32 →
    (UInt32.ofNat ((start origin).after calls).violations).toNat =
      ((start origin).answers calls).countP refuses
  /-- The three times make the timing that they are. -/
  checked : Timing.ofTimes ((start origin).after calls).timing.submit
    ((start origin).after calls).timing.commit ((start origin).after calls).timing.abort =
      .ok ((start origin).after calls).timing
  /-- There are never two outcomes. -/
  oneOutcome : ((start origin).after calls).timing.commit = none ∨
    ((start origin).after calls).timing.abort = none

variable {calls : List Call} {origin : Duration}

/-- **A timer follows the calls**: the first submission and the first outcome after it count, on a
clock that never goes back. -/
theorem followed (hclock : calls.Pairwise fun c d => c.moment ≤ d.moment) :
    Followed origin calls := by
  have htiming := timing_after origin hclock
  have hvalid := (recordable_after origin calls).valid
  have hcounted := violations_after (start origin) calls
  have hnone : (start origin).violations = 0 := rfl
  rw [hnone, Nat.zero_add] at hcounted
  have hle : ((start origin).answers calls).countP refuses ≤ calls.length := by
    rw [← length_answers (start origin) calls]
    exact List.countP_le_length
  -- What a call does is said of the timer after the calls before it.
  have hbefore (n : Nat) : ((start origin).after (calls.take n)).timing =
      expected origin (calls.take n) :=
    timing_after origin (hclock.sublist (List.take_sublist n calls))
  have hsplit (n : Nat) (c : Call) (hc : calls[n]? = some c) :
      calls.take (n + 1) = calls.take n ++ [c] := by
    simp [List.take_add_one, hc]
  refine
    { submit := by rw [htiming]; rfl
      commit := by rw [htiming]; rfl
      abort := by rw [htiming]; rfl
      answered := length_answers _ _
      accepted := fun n c hc hcounts => ?_
      refused := fun n c hc hcounts => ?_
      violations := hcounted
      violations_le := hcounted ▸ hle
      counter := fun hfew => ?_
      checked := Timing.ofTimes_eq_ok.mpr ⟨rfl, hvalid⟩
      oneOutcome := hvalid.oneOutcome }
  · have hearlier (d : Call) (hd : d ∈ calls.take n) : d.moment ≤ c.moment := by
      have hpair := hclock.sublist (List.take_sublist (n + 1) calls)
      rw [hsplit n c hc, List.pairwise_append] at hpair
      exact hpair.2.2 d hd c (List.mem_singleton.mpr rfl)
    have hrecord := record_expected origin hearlier hcounts
    rw [← hbefore, ← secondsAt_after] at hrecord
    rw [getElem?_answers hc, enter_of_ok hrecord]
  · obtain ⟨violation, hrecord⟩ := record_expected_of_not origin hcounts
    rw [← hbefore, ← secondsAt_after] at hrecord
    refine ⟨⟨violation, ?_⟩, ?_⟩
    · rw [getElem?_answers hc, enter_of_error hrecord]
    · rw [hsplit n c hc, after_concat, enter_of_error hrecord]
  · rw [hcounted, UInt32.toNat_ofNat', Nat.mod_eq_of_lt (Nat.lt_of_le_of_lt hle hfew)]

/-- A commit before all, two submissions, an abort and a commit: two calls count. -/
theorem followed_stumbling : ∃ calls : List Call,
    calls = [⟨.commit, .ofSeconds 1⟩, ⟨.submit, .ofSeconds 2⟩, ⟨.submit, .ofSeconds 2⟩,
      ⟨.abort, .ofSeconds 4⟩, ⟨.commit, .ofSeconds 5⟩] ∧
    (calls.Pairwise fun c d => c.moment ≤ d.moment) ∧ Followed (.ofSeconds 1) calls ∧
    (((start (.ofSeconds 1)).after calls).timing == ⟨some 1, none, some 3⟩) = true ∧
    ((start (.ofSeconds 1)).after calls).violations = 3 := by
  refine ⟨_, rfl, by decide, followed (by decide), ?_, ?_⟩ <;> decide +kernel

end Timer

end LedgerLoad
