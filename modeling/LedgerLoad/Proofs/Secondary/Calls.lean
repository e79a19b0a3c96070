import LedgerLoad.Proofs.Clock.Pool
import LedgerLoad.Proofs.Secondary.Stages
import LedgerLoad.Secondary.Session

/-! # Calls one after another

A call is a request at a moment. Of any number of calls to a secondary: those that were refused can
be left out (`answers_accepted`); a run is the run of the work that was accepted last since the
secondary was prepared last (`loaded_cases`); a run in progress takes nothing but the request for
its results (`after_running`), which wait for all lanes and stay the same until the secondary is
prepared anew (`after_finished`). -/

namespace LedgerLoad

variable {σ β : Type}

/-- A request that arrives at a moment. -/
structure Call where
  moment : Duration
  request : Received

namespace Secondary

/-- The stage after some calls. -/
def after (s : Secondary σ β) : Stage σ → List Call → Stage σ
  | stage, [] => stage
  | stage, c :: calls => s.after (s.answer c.moment stage c.request).2 calls

/-- The answers to some calls. -/
def answers (s : Secondary σ β) : Stage σ → List Call → List Answer
  | _, [] => []
  | stage, c :: calls =>
    (s.answer c.moment stage c.request).1 :: s.answers (s.answer c.moment stage c.request).2 calls

/-- The calls that are not refused. -/
def accepted (s : Secondary σ β) : Stage σ → List Call → List Call
  | _, [] => []
  | stage, c :: calls =>
    if (s.answer c.moment stage c.request).1.isRefused then s.accepted stage calls
    else c :: s.accepted (s.answer c.moment stage c.request).2 calls

variable {s : Secondary σ β} {stage next : Stage σ}

theorem after_append (s : Secondary σ β) (stage : Stage σ) (calls more : List Call) :
    s.after stage (calls ++ more) = s.after (s.after stage calls) more := by
  induction calls generalizing stage with
  | nil => rfl
  | cons c calls ih => exact ih _

theorem accepted_cons (c : Call) (calls : List Call) :
    s.accepted stage (c :: calls) =
      (if (s.answer c.moment stage c.request).1.isRefused then [] else [c]) ++
        s.accepted (s.answer c.moment stage c.request).2 calls := by
  rw [accepted]
  split
  · rename_i h
    rw [stage_of_refused h, List.nil_append]
  · rfl

/-! ### Refused calls -/

theorem after_accepted (s : Secondary σ β) (stage : Stage σ) (calls : List Call) :
    s.after stage (s.accepted stage calls) = s.after stage calls := by
  induction calls generalizing stage with
  | nil => rfl
  | cons c calls ih =>
    rw [accepted]
    split
    · rename_i h
      rw [ih, after, stage_of_refused h]
    · rw [after, after, ih]

/-- The calls that are not refused get the answers that they got among all calls. -/
theorem answers_accepted (s : Secondary σ β) (stage : Stage σ) (calls : List Call) :
    s.answers stage (s.accepted stage calls) =
      (s.answers stage calls).filter fun a => !a.isRefused := by
  induction calls generalizing stage with
  | nil => rfl
  | cons c calls ih =>
    rw [accepted, answers]
    split
    · rename_i h
      rw [ih, List.filter_cons_of_neg (by simp [h]), stage_of_refused h]
    · rename_i h
      rw [answers, ih, List.filter_cons_of_pos (by simpa using h)]

/-! ### Work -/

/-- Where work that is at hand comes from: it was there from the beginning, or a call brought it,
and no call since was accepted that makes a difference. -/
theorem loaded_cases {work : Work σ} {calls : List Call} (h : s.after stage calls = .loaded work) :
    (stage = .loaded work ∧ ∀ c ∈ s.accepted stage calls, c.request = .fin) ∨
      ∃ earlier moment d later, calls = earlier ++ ⟨moment, .workload (.ok d)⟩ :: later ∧
        (s.after stage earlier).takesWork = true ∧ s.workOf d = .ok work ∧
        ∀ c ∈ s.accepted (.loaded work) later, c.request = .fin := by
  induction calls generalizing stage with
  | nil => exact Or.inl ⟨h, by simp [accepted]⟩
  | cons c calls ih =>
    rw [accepted_cons]
    rcases ih h with ⟨hstage, hfin⟩ | ⟨earlier, moment, d, later, rfl, htakes, hwork, hfin⟩
    · rcases answer_cases s c.moment stage c.request with ⟨fault, hanswer⟩ | ⟨a, next, haccepts⟩
      · rw [hanswer] at hstage hfin ⊢
        exact Or.inl ⟨hstage, by simpa [Answer.isRefused] using hfin⟩
      · rw [haccepts.answer_eq] at hstage hfin ⊢
        obtain rfl : next = .loaded work := hstage
        obtain ⟨moment, request⟩ := c
        cases haccepts with
        | workload htakes hwork =>
          exact Or.inr ⟨[], moment, _, calls, rfl, htakes, hwork, hfin⟩
        | fin => exact Or.inl ⟨rfl, by simpa [Answer.isRefused] using hfin⟩
    · exact Or.inr ⟨c :: earlier, moment, d, later, rfl, htakes, hwork, hfin⟩

/-! ### Runs -/

/-- A run in progress stays so until its results are asked for. -/
theorem after_running {crew : Crew σ} {calls : List Call} (h : ∀ c ∈ calls, c.request ≠ .results) :
    s.after (.running crew) calls = .running crew := by
  induction calls with
  | nil => rfl
  | cons c calls ih =>
    have hstage : (s.answer c.moment (.running crew) c.request).2 = .running crew := by
      rcases answer_cases s c.moment (.running crew) c.request with
        ⟨fault, hanswer⟩ | ⟨a, next, haccepts⟩
      · rw [hanswer]
      · rw [haccepts.answer_eq]
        obtain ⟨moment, request⟩ := c
        cases haccepts with
        | prepare hrunning => cases hrunning
        | workload htakes => cases htakes
        | finish => exact absurd rfl (h _ List.mem_cons_self)
        | fin => rfl
    rw [after, hstage]
    exact ih fun c hc => h c (List.mem_cons_of_mem _ hc)

/-- Results stay as they are until the secondary is prepared anew. -/
theorem after_finished {result : SecondaryResult} {calls : List Call}
    (h : ∀ c ∈ s.accepted (.finished result) calls, c.request ≠ .prepare) :
    s.after (.finished result) calls = .finished result := by
  induction calls with
  | nil => rfl
  | cons c calls ih =>
    rw [accepted_cons] at h
    have hstage : (s.answer c.moment (.finished result) c.request).2 = .finished result := by
      rcases answer_cases s c.moment (.finished result) c.request with
        ⟨fault, hanswer⟩ | ⟨a, next, haccepts⟩
      · rw [hanswer]
      · rw [haccepts.answer_eq] at h ⊢
        obtain ⟨moment, request⟩ := c
        cases haccepts with
        | prepare hrunning => exact absurd rfl (h ⟨moment, .prepare⟩ (by simp [Answer.isRefused]))
        | workload htakes => cases htakes
        | again => rfl
        | fin => rfl
    rw [hstage] at h
    rw [after, hstage]
    exact ih fun c hc => h c (List.mem_append_right _ hc)

end Secondary

/-! ### Waiting for results -/

theorem Crew.finish_run (limit : Option Duration) (crew : Crew σ) :
    (crew.run limit).finish = crew.finish := by
  simp only [Crew.finish, Crew.run, Pool.drain_run]

/-- While lanes are at work a request for results is not answered, and what has arrived behind it
waits as well. -/
theorem Session.proceed_results {s : Session σ β} {crew : Crew σ} {rest : Bytes}
    {limit : Option Duration} (hending : s.ending = none) (hstage : s.stage = .running crew)
    (hinput : Incoming.of s.input = .request .results rest)
    (hended : (crew.run limit).ended = false) :
    (s.proceed limit).output = s.output ∧ (s.proceed limit).input = s.input ∧
      (s.proceed limit).stage = .running (crew.run limit) := by
  have hawait : s.await limit .results = ({ s with
      stage := .running (crew.run limit)
      clock := s.clock.latest (crew.run limit).pool.clock }, false) := by
    simp only [await, hstage, hended]
  rw [proceed, if_neg (by simp [hending])]
  split
  · rename_i h
    cases h.symm.trans hinput
  · rename_i h
    cases h.symm.trans hinput
  · rename_i h
    obtain ⟨rfl, rfl⟩ := Incoming.request.inj (h.symm.trans hinput)
    rw [hawait]
    exact ⟨rfl, rfl, rfl⟩

namespace Secondary

/-- What holds of a secondary after some calls. -/
structure Orderly (s : Secondary σ β) (calls : List Call) : Prop where
  /-- Without the calls that were refused the others are answered as they were. -/
  refused : s.answers .connected (s.accepted .connected calls) =
      (s.answers .connected calls).filter (fun a => !a.isRefused) ∧
    s.after .connected (s.accepted .connected calls) = s.after .connected calls
  /-- A run that is accepted is the run of the work that was accepted last, since when nothing was
  accepted that makes a difference. -/
  run : ∀ moment, (s.answer moment (s.after .connected calls) .run).1.isRefused = false →
    ∃ earlier loading d later message adapter client shared,
      calls = earlier ++ ⟨loading, .workload (.ok d)⟩ :: later ∧
      (s.answer loading (s.after .connected earlier) (.workload (.ok d))).1.isRefused = false ∧
      (∀ c ∈ s.accepted (s.after .connected (earlier ++ [⟨loading, .workload (.ok d)⟩])) later,
        c.request = .fin) ∧
      WorkloadMessage.ofDocument d = .ok message ∧
      s.registry.find? message.ledger = some adapter ∧
      adapter.client (s.view message.parameters) = .ok (client, shared) ∧
      s.answer moment (s.after .connected calls) .run = (.ok, .running
        (.start message.shard client shared (s.laneSettings message.parameters) moment))
  /-- Results are those of lanes that have all ended, and are the same until the secondary is
  prepared anew. -/
  results : ∀ moment, (s.answer moment (s.after .connected calls) .results).1.isRefused = false →
    ∃ result,
      s.answer moment (s.after .connected calls) .results = (.result result, .finished result) ∧
      (∀ crew, s.after .connected calls = .running crew →
        crew.finish.ended = true ∧ result = crew.finish.result) ∧
      ∀ later, (∀ c ∈ s.accepted (.finished result) later, c.request ≠ .prepare) → ∀ moment',
        s.answer moment' (s.after (.finished result) later) .results =
          (.result result, .finished result)
  /-- Results are not written as long as a lane is at work, and are the same however far the lanes
  have come. -/
  waiting : ∀ (session : Session σ β) (crew : Crew σ) (rest : Bytes), session.ending = none →
    session.stage = .running crew → Incoming.of session.input = .request .results rest →
    ∀ limit, (crew.run limit).ended = false →
      (session.proceed limit).output = session.output ∧
      (session.proceed limit).stage = .running (crew.run limit) ∧
      (crew.run limit).finish = crew.finish
  /-- Until its results are asked for, a run in progress takes nothing else. -/
  running : ∀ crew, s.after .connected calls = .running crew →
    ∀ later, (∀ c ∈ later, c.request ≠ .results) → ∀ moment r, r ≠ .results → r ≠ .fin →
      (s.answer moment (s.after .connected (calls ++ later)) r).1.isRefused = true

theorem run_of_last_work {s : Secondary σ β} {calls : List Call} {moment : Duration}
    (h : (s.answer moment (s.after .connected calls) .run).1.isRefused = false) :
    ∃ earlier loading d later work, calls = earlier ++ ⟨loading, .workload (.ok d)⟩ :: later ∧
      s.Accepts loading (s.after .connected earlier) (.workload (.ok d)) .ok (.loaded work) ∧
      (∀ c ∈ s.accepted (.loaded work) later, c.request = .fin) ∧ s.workOf d = .ok work ∧
      s.answer moment (s.after .connected calls) .run = (.ok, .running
        (.start work.shard work.client work.shared work.settings moment)) := by
  generalize hstage : s.after .connected calls = stage at h ⊢
  rcases answer_cases s moment stage .run with ⟨fault, hanswer⟩ | ⟨a, next, haccepts⟩
  · rw [hanswer] at h
    cases h
  · cases haccepts with
    | @run work =>
      rcases loaded_cases hstage with
          ⟨hconnected, -⟩ | ⟨earlier, loading, d, later, hcalls, htakes, hwork, hfin⟩
      · cases hconnected
      · exact ⟨earlier, loading, d, later, work, hcalls, .workload htakes hwork, hfin, hwork, rfl⟩

/-- **The stages of a secondary are orderly** over whole runs, whatever it is called for. -/
theorem orderly (s : Secondary σ β) (calls : List Call) : s.Orderly calls where
  refused := ⟨answers_accepted s _ calls, after_accepted s _ calls⟩
  run moment h := by
    obtain ⟨earlier, loading, d, later, work, hcalls, haccepts, hfin, hwork, hanswer⟩ :=
      run_of_last_work h
    obtain ⟨message, adapter, client, shared, hmessage, hadapter, hclient, rfl⟩ :=
      workOf_eq_ok.mp hwork
    refine ⟨earlier, loading, d, later, message, adapter, client, shared, hcalls, ?_, ?_, hmessage,
      hadapter, hclient, hanswer⟩
    · rw [haccepts.answer_eq]
      rfl
    · rw [after_append, after, haccepts.answer_eq]
      exact hfin
  results moment h := by
    generalize s.after .connected calls = stage at h ⊢
    have hagain (result : SecondaryResult) (later : List Call)
        (hlater : ∀ c ∈ s.accepted (.finished result) later, c.request ≠ .prepare)
        (moment' : Duration) : s.answer moment' (s.after (.finished result) later) .results =
          (.result result, .finished result) := by
      rw [after_finished hlater]
      rfl
    rcases answer_cases s moment stage .results with ⟨fault, hanswer⟩ | ⟨a, next, haccepts⟩
    · rw [hanswer] at h
      cases h
    · cases haccepts with
      | @finish crew =>
        refine ⟨_, rfl, fun crew' hcrew => ?_, hagain _⟩
        obtain rfl := Stage.running.inj hcrew
        exact ⟨Pool.ended_drain _, rfl⟩
      | @again result => exact ⟨result, rfl, fun crew' hcrew => (by cases hcrew), hagain _⟩
  waiting session crew rest hending hstage hinput limit hended := by
    obtain ⟨houtput, -, hrunning⟩ := Session.proceed_results hending hstage hinput hended
    exact ⟨houtput, hrunning, Crew.finish_run limit crew⟩
  running crew hcrew later hlater moment r hresults hfin := by
    rw [after_append, hcrew, after_running hlater]
    rcases answer_cases s moment (.running crew) r with ⟨fault, hanswer⟩ | ⟨a, next, haccepts⟩
    · rw [hanswer]
      rfl
    · cases haccepts with
      | prepare hrunning => cases hrunning
      | workload htakes => cases htakes
      | finish => exact absurd rfl hresults
      | fin => exact absurd rfl hfin

end Secondary

end LedgerLoad
