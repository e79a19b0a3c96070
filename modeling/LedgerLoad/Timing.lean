import LedgerLoad.Decimal.Plain

/-! # The timing of one interaction

An interaction is submitted and then committed or aborted. Its timing holds up to three times in
seconds since the start of the run. There are two ways to a timing: `Timing.ofTimes` checks three
given times, and `Timing.record` enters one event after another; `Timing.Valid` says what the first
accepts. -/

namespace LedgerLoad

/-- What can be recorded of an interaction. -/
inductive Event
  | submit
  | commit
  | abort
deriving DecidableEq, Repr

/-- How times can break the order of submission and outcome. -/
inductive TimingViolation
  | duplicateSubmit
  | terminalBeforeSubmit
  | duplicateTerminal
  | commitAndAbort
  | commitBeforeSubmit (submit commit : Float)
  | negativeTime (time : Float)

/-- The words that report a violation. -/
def TimingViolation.message : TimingViolation → String
  | .duplicateSubmit => "Submit time recorded twice"
  | .terminalBeforeSubmit => "Terminal outcome recorded before submit"
  | .duplicateTerminal => "Terminal outcome recorded twice"
  | .commitAndAbort => "Both commit and abort times are set"
  | .commitBeforeSubmit submit commit =>
    s!"Commit time {Decimal.plain commit} precedes submit time {Decimal.plain submit}"
  | .negativeTime time => s!"Negative time {Decimal.plain time}"

/-- The times of one interaction; none of them if it was never reached. -/
structure Timing where
  submit : Option Float
  commit : Option Float
  abort : Option Float
deriving BEq

namespace Timing

/-- The later of two times; what is no number gives way to the other. -/
def later (a b : Float) : Float := if b.isNaN then a else if b < a then a else b

/-- The timing of an interaction that was never attempted. -/
def unreached : Timing := ⟨none, none, none⟩

instance : Inhabited Timing := ⟨unreached⟩

/-- The times that are set, in the order submit, commit, abort. -/
def times (t : Timing) : List Float := [t.submit, t.commit, t.abort].filterMap id

/-- Whether a time can be one of a run: a number and not below zero. -/
def isTime (t : Float) : Bool := !(decide (t < 0) || t.isNaN)

/-! ### Checked times -/

/-- What holds of the times of an interaction: they are times, there is at most one outcome, an
outcome has a submission, and a commit does not precede it. -/
structure Valid (t : Timing) : Prop where
  isTime : ∀ x ∈ t.times, Timing.isTime x = true
  oneOutcome : t.commit = none ∨ t.abort = none
  submitted : t.submit = none → t.commit = none ∧ t.abort = none
  ordered : ∀ s c, t.submit = some s → t.commit = some c → ¬ c < s

/-- The first of the given times that is none. -/
def firstBadTime (t : Timing) : Option Float := t.times.find? fun x => !isTime x

/-- Makes a timing of three times, or says what is wrong with them: a bad time before anything
else, then two outcomes, an outcome without submission, a commit before its submission. -/
def ofTimes (submit commit abort : Option Float) : Except TimingViolation Timing :=
  let t : Timing := ⟨submit, commit, abort⟩
  match firstBadTime t with
  | some time => .error (.negativeTime time)
  | none =>
    match submit, commit, abort with
    | _, some _, some _ => .error .commitAndAbort
    | none, some _, none => .error .terminalBeforeSubmit
    | none, none, some _ => .error .terminalBeforeSubmit
    | some s, some c, none => if c < s then .error (.commitBeforeSubmit s c) else .ok t
    | _, none, _ => .ok t

/-! ### Recorded events -/

/-- The submission an outcome refers to, if an outcome may be recorded. -/
def submission (t : Timing) : Except TimingViolation Float :=
  if t.commit.isSome ∨ t.abort.isSome then .error .duplicateTerminal
  else match t.submit with
    | some s => .ok s
    | none => .error .terminalBeforeSubmit

/-- Enters an event at a time. An outcome is never entered before its submission: an earlier
time is moved up to it. -/
def record (event : Event) (time : Float) (t : Timing) : Except TimingViolation Timing :=
  match event with
  | .submit =>
    if t.submit.isSome then .error .duplicateSubmit else .ok { t with submit := some time }
  | .commit => t.submission.map fun s => { t with commit := some (later time s) }
  | .abort => t.submission.map fun s => { t with abort := some (later time s) }

/-! ### Views -/

/-- Whether the interaction was submitted and has an outcome. -/
def isComplete (t : Timing) : Bool := t.submit.isSome && (t.commit.isSome || t.abort.isSome)

/-- Whether nothing was recorded. -/
def isUnreached (t : Timing) : Bool := t.submit.isNone && t.commit.isNone && t.abort.isNone

/-- The time from submission to commit, of an interaction that committed. -/
def latency (t : Timing) : Option Float :=
  match t.submit, t.commit, t.abort with
  | some s, some c, none => if s ≤ c then some (c - s) else none
  | _, _, _ => none

/-- The latest time that is set. -/
def lastTime (t : Timing) : Option Float :=
  match t.times with
  | [] => none
  | x :: rest => some (rest.foldl later x)

end Timing

end LedgerLoad
