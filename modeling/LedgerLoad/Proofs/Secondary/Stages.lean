import LedgerLoad.Secondary.Basic

/-! # What a secondary accepts

`Secondary.Accepts` lists what can come of a request that is not refused, one case for each request
and stage. Main statement: `answer_cases`, every request is refused and leaves the stage as it was,
or is accepted in one of these ways. -/

namespace LedgerLoad

variable {σ β : Type}

/-- Whether an answer refuses the request. -/
def Answer.isRefused : Answer → Bool
  | .refused _ => true
  | _ => false

/-- Whether lanes are at work. -/
def Stage.isRunning : Stage σ → Bool
  | .running _ => true
  | _ => false

namespace Secondary

/-- `Accepts s clock stage r a next`: at a moment the secondary accepts a request, answers it with
`a`, and is in the stage `next`. -/
inductive Accepts (s : Secondary σ β) (clock : Duration) :
    Stage σ → Received → Answer → Stage σ → Prop
  | prepare {stage : Stage σ} (h : stage.isRunning = false) :
      Accepts s clock stage .prepare .ok .prepared
  | workload {stage : Stage σ} {d : Document} {work : Work σ} (h : stage.takesWork = true)
      (hwork : s.workOf d = .ok work) : Accepts s clock stage (.workload (.ok d)) .ok (.loaded work)
  | run {work : Work σ} : Accepts s clock (.loaded work) .run .ok
      (.running (.start work.shard work.client work.shared work.settings clock))
  | finish {crew : Crew σ} : Accepts s clock (.running crew) .results (.result crew.finish.result)
      (.finished crew.finish.result)
  | again {result : SecondaryResult} :
      Accepts s clock (.finished result) .results (.result result) (.finished result)
  | fin {stage : Stage σ} : Accepts s clock stage .fin .silence stage

variable {s : Secondary σ β} {clock : Duration} {stage next : Stage σ} {r : Received} {a : Answer}

theorem Accepts.answer_eq (h : s.Accepts clock stage r a next) :
    s.answer clock stage r = (a, next) := by
  cases h with
  | prepare h => cases stage <;> first | rfl | cases h
  | workload h hwork => simp [answer, carryOut, load, h, hwork, Except.map]
  | run => rfl
  | finish => rfl
  | again => rfl
  | fin => rfl

theorem Accepts.not_refused (h : s.Accepts clock stage r a next) : a.isRefused = false := by
  cases h <;> rfl

/-- **A request is refused and changes nothing, or it is accepted.** -/
theorem answer_cases (s : Secondary σ β) (clock : Duration) (stage : Stage σ) (r : Received) :
    (∃ fault, s.answer clock stage r = (.refused fault, stage)) ∨
      ∃ a next, s.Accepts clock stage r a next := by
  cases r with
  | prepare =>
    cases h : stage.isRunning with
    | false => exact Or.inr ⟨_, _, .prepare h⟩
    | true =>
      cases stage with
      | running crew => exact Or.inl ⟨_, rfl⟩
      | _ => cases h
  | workload work =>
    cases work with
    | error fault => exact Or.inl ⟨_, rfl⟩
    | ok d =>
      cases h : stage.takesWork with
      | false => exact Or.inl ⟨_, by simp [answer, carryOut, load, h, Except.map]; rfl⟩
      | true =>
        cases hwork : s.workOf d with
        | error fault =>
          exact Or.inl ⟨fault, by simp [answer, carryOut, load, h, hwork, Except.map]⟩
        | ok work => exact Or.inr ⟨_, _, .workload h hwork⟩
  | run =>
    cases stage with
    | loaded work => exact Or.inr ⟨_, _, .run⟩
    | _ => exact Or.inl ⟨_, rfl⟩
  | results =>
    cases stage with
    | running crew => exact Or.inr ⟨_, _, .finish⟩
    | finished result => exact Or.inr ⟨_, _, .again⟩
    | _ => exact Or.inl ⟨_, rfl⟩
  | fin => exact Or.inr ⟨_, _, .fin⟩

theorem stage_of_refused (h : (s.answer clock stage r).1.isRefused = true) :
    (s.answer clock stage r).2 = stage := by
  rcases answer_cases s clock stage r with ⟨fault, hfault⟩ | ⟨a, next, haccepts⟩
  · rw [hfault]
  · rw [haccepts.answer_eq, haccepts.not_refused] at h
    cases h

/-! ### Work -/

/-- What a document must be to give work: a message for a ledger that is known, whose adapter makes
a client. -/
theorem workOf_eq_ok {d : Document} {work : Work σ} : s.workOf d = .ok work ↔
    ∃ message adapter client shared, WorkloadMessage.ofDocument d = .ok message ∧
      s.registry.find? message.ledger = some adapter ∧
      adapter.client (s.view message.parameters) = .ok (client, shared) ∧
      work = { client, shared, shard := message.shard
               settings := s.laneSettings message.parameters } := by
  constructor
  · intro h
    unfold workOf at h
    split at h
    · cases h
    · rename_i message hmessage
      split at h
      · cases h
      · rename_i adapter hadapter
        split at h
        · cases h
        · rename_i client shared hclient
          exact ⟨message, adapter, client, shared, hmessage, hadapter, hclient,
            (Except.ok.inj h).symm⟩
  · rintro ⟨message, adapter, client, shared, hmessage, hadapter, hclient, rfl⟩
    simp only [workOf, hmessage, hadapter, hclient]

end Secondary

end LedgerLoad
