import Mathlib.Algebra.BigOperators.Group.Finset.Basic
import LedgerLoad.Proofs.Mock.Service

/-! # Balances of the mock ledger

All lanes of a secondary move amounts on one ledger, in the order in which they come to it.

* `Ledger.Decided`, `Ledger.decided_apply`: what one decision does with the balances. A transfer
  that the sender cannot pay changes none. One that he can pay takes the amount from him and gives
  it to the receiver, up to the greatest balance; nothing changes if both are the same.
* `total_after`: over any accounts that include those touched, no decision makes the sum of the
  balances greater, and it stays the same unless a credit is cut off.
* `recorded_of_serves`: a lane commits what the ledger accepted, and aborts what it did not accept.
* `balances_kept`: all this holds of any lanes, whoever comes to the ledger first. -/

namespace LedgerLoad

open Finset (sum_congr)

namespace Mock

namespace Ledger

variable {initial account sender receiver amount : ℕ} {l : Ledger} {tx : Transaction}

/-! ### One decision -/

/-- No balance is above the greatest one. -/
def Bounded (initial : ℕ) (l : Ledger) : Prop := ∀ account, l.balance initial account ≤ greatest

/-- Whether the credit of a transfer is not cut off; to oneself there is nothing to cut off. -/
def Fits (initial : ℕ) (l : Ledger) : Transaction → Prop
  | .transfer sender receiver amount => receiver ≠ sender → amount ≤ l.balance initial sender →
      l.balance initial receiver + amount ≤ greatest
  | _ => True

theorem accepts_transfer :
    l.accepts initial (.transfer sender receiver amount) = true ↔
      amount ≤ l.balance initial sender := by
  simp [accepts]

theorem accepts_touch : (l.touch initial account).accepts initial tx = l.accepts initial tx := by
  cases tx <;> simp [accepts]

/-- A sender who cannot pay is touched, and that is all. -/
theorem apply_refused (h : ¬ amount ≤ l.balance initial sender) :
    l.apply initial (.transfer sender receiver amount) = l.touch initial sender := by
  rw [apply, accepts_touch, if_neg (by rwa [accepts_transfer])]

/-- A sender who can pay pays first. -/
theorem apply_paid (h : amount ≤ l.balance initial sender) :
    l.apply initial (.transfer sender receiver amount) =
      let paid := ((l.touch initial sender).setBalance sender
        (l.balance initial sender - amount)).touch initial receiver
      paid.setBalance receiver (min (paid.balance initial receiver + amount) greatest) := by
  rw [apply, accepts_touch, if_pos (by rwa [accepts_transfer])]
  simp only [balance_touch]

/-- The balances after a transfer that is paid. -/
theorem balance_apply_paid (h : amount ≤ l.balance initial sender) (receiver account : ℕ) :
    (l.apply initial (.transfer sender receiver amount)).balance initial account =
      if account = receiver then
        min ((if receiver = sender then l.balance initial sender - amount
          else l.balance initial receiver) + amount) greatest
      else if account = sender then l.balance initial sender - amount
      else l.balance initial account := by
  rw [apply_paid h]
  simp only [balance_setBalance, balance_touch]

/-- What the decision about a transaction does with a ledger. -/
structure Decided (initial : ℕ) (tx : Transaction) (found left : Ledger) : Prop where
  /-- A transfer is accepted if the sender can pay the amount, so nothing is taken that is not
  there. -/
  transfer : ∀ sender receiver amount, tx = .transfer sender receiver amount →
    (found.accepts initial tx = true ↔ amount ≤ found.balance initial sender)
  /-- Everything else is accepted and moves nothing. -/
  other : (∀ sender receiver amount, tx ≠ .transfer sender receiver amount) →
    found.accepts initial tx = true ∧ left = found
  rejected : found.accepts initial tx = false →
    ∀ account, left.balance initial account = found.balance initial account
  debited : ∀ sender receiver amount, tx = .transfer sender receiver amount →
    found.accepts initial tx = true → sender ≠ receiver →
      left.balance initial sender + amount = found.balance initial sender
  credited : ∀ sender receiver amount, tx = .transfer sender receiver amount →
    found.accepts initial tx = true → sender ≠ receiver →
      left.balance initial receiver = min (found.balance initial receiver + amount) greatest
  bystander : ∀ sender receiver amount, tx = .transfer sender receiver amount →
    ∀ account, account ≠ sender → account ≠ receiver →
      left.balance initial account = found.balance initial account
  toOneself : ∀ account amount, tx = .transfer account account amount →
    ∀ other, left.balance initial other = found.balance initial other

theorem decided_apply (hbounded : l.Bounded initial) (tx : Transaction) :
    Decided initial tx l (l.apply initial tx) := by
  cases tx with
  | transfer sender receiver amount =>
    by_cases h : amount ≤ l.balance initial sender
    · have hbalance := balance_apply_paid h receiver
      refine ⟨?_, fun hne => absurd rfl (hne _ _ _), fun hnot => ?_, ?_, ?_, ?_, ?_⟩
      · rintro _ _ _ ⟨⟩
        exact accepts_transfer
      · rw [accepts_transfer.mpr h] at hnot
        cases hnot
      · rintro _ _ _ ⟨⟩ - hne
        rw [hbalance, if_neg hne, if_pos rfl]
        omega
      · rintro _ _ _ ⟨⟩ - hne
        rw [hbalance, if_pos rfl, if_neg hne.symm]
      · rintro _ _ _ ⟨⟩ account hsender hreceiver
        rw [hbalance, if_neg hreceiver, if_neg hsender]
      · rintro _ _ ⟨⟩ other
        have hle := hbounded sender
        rw [hbalance, if_pos (rfl : sender = sender), Nat.sub_add_cancel h, Nat.min_eq_left hle]
        split_ifs with heq
        · rw [heq]
        · rfl
    · have hsame (account : ℕ) : (l.apply initial (.transfer sender receiver amount)).balance
          initial account = l.balance initial account := by
        rw [apply_refused h, balance_touch]
      have hnot : ¬ l.accepts initial (.transfer sender receiver amount) = true := by
        rwa [accepts_transfer]
      refine ⟨?_, fun hne => absurd rfl (hne _ _ _), fun _ => hsame, ?_, ?_, ?_, ?_⟩
      · rintro _ _ _ ⟨⟩
        exact accepts_transfer
      · exact fun _ _ _ _ haccepts => absurd haccepts hnot
      · exact fun _ _ _ _ haccepts => absurd haccepts hnot
      · exact fun _ _ _ _ account _ _ => hsame account
      · exact fun _ _ _ => hsame
  | invoke | custom =>
    exact ⟨nofun, fun _ => ⟨rfl, rfl⟩, fun _ _ => rfl, nofun, nofun, nofun, nofun⟩

theorem Bounded.apply (h : l.Bounded initial) (tx : Transaction) :
    (l.apply initial tx).Bounded initial := by
  intro account
  cases tx with
  | transfer sender receiver amount =>
    by_cases hpays : amount ≤ l.balance initial sender
    · have := h account
      have := h sender
      rw [balance_apply_paid hpays]
      split_ifs <;> omega
    · rw [apply_refused hpays, balance_touch]
      exact h account
  | invoke | custom => exact h account

/-! ### Accounts touched -/

theorem touched_subset_apply (h : account ∈ l.touched) :
    account ∈ (l.apply initial tx).touched := by
  cases tx with
  | transfer sender receiver amount =>
    by_cases hpays : amount ≤ l.balance initial sender
    · rw [apply_paid hpays]
      simp [touch, mem_touched_setBalance, h]
    · rw [apply_refused hpays]
      simp [touch, mem_touched_setBalance, h]
  | invoke | custom => exact h

/-- Who pays and who is paid is touched. -/
theorem mem_touched_paid (h : amount ≤ l.balance initial sender) (receiver : ℕ) :
    sender ∈ (l.apply initial (.transfer sender receiver amount)).touched ∧
      receiver ∈ (l.apply initial (.transfer sender receiver amount)).touched := by
  rw [apply_paid h]
  simp [touch, mem_touched_setBalance]

/-! ### Sums of balances -/

/-- The sum of the balances of some accounts. -/
def total (initial : ℕ) (l : Ledger) (accounts : Finset ℕ) : ℕ :=
  ∑ account ∈ accounts, l.balance initial account

variable {accounts : Finset ℕ}

theorem total_touch : (l.touch initial account).total initial accounts = l.total initial accounts :=
  sum_congr rfl fun _ _ => balance_touch

/-- A balance that is set takes the place of the one before. -/
theorem total_setBalance (initial : ℕ) (l : Ledger) (h : account ∈ accounts) (amount : ℕ) :
    (l.setBalance account amount).total initial accounts + l.balance initial account =
      l.total initial accounts + amount := by
  have hrest : ∑ other ∈ accounts.erase account,
      (l.setBalance account amount).balance initial other =
        ∑ other ∈ accounts.erase account, l.balance initial other :=
    sum_congr rfl fun other hother => by
      rw [balance_setBalance, if_neg (Finset.ne_of_mem_erase hother)]
  unfold total
  rw [← Finset.add_sum_erase _ _ h, ← Finset.add_sum_erase _ (l.balance initial) h, hrest,
    balance_setBalance, if_pos rfl]
  omega

/-- **No decision makes the sum greater**, and it stays the same unless a credit is cut off. -/
theorem total_apply (hbounded : l.Bounded initial)
    (htouched : ∀ account ∈ (l.apply initial tx).touched, account ∈ accounts) :
    (l.apply initial tx).total initial accounts ≤ l.total initial accounts ∧
      (l.Fits initial tx →
        (l.apply initial tx).total initial accounts = l.total initial accounts) := by
  cases tx with
  | transfer sender receiver amount =>
    by_cases hpays : amount ≤ l.balance initial sender
    · obtain ⟨hsender, hreceiver⟩ := mem_touched_paid hpays receiver
      have hle := hbounded sender
      -- First the sender's balance is set, and then the receiver's, as it is by then.
      have hdebit := total_setBalance initial (l.touch initial sender) (htouched _ hsender)
        (l.balance initial sender - amount)
      rw [total_touch, balance_touch] at hdebit
      have hcredit := total_setBalance initial (((l.touch initial sender).setBalance sender
        (l.balance initial sender - amount)).touch initial receiver) (htouched _ hreceiver)
      simp only [total_touch, balance_touch, balance_setBalance] at hcredit
      rw [apply_paid hpays]
      simp only [balance_touch, balance_setBalance]
      have hcredit := hcredit (min ((if receiver = sender then l.balance initial sender - amount
        else l.balance initial receiver) + amount) greatest)
      refine ⟨?_, fun hfits => ?_⟩
      · omega
      · have hcapped : (if receiver = sender then l.balance initial sender - amount
            else l.balance initial receiver) + amount ≤ greatest := by
          split_ifs with hsame
          · omega
          · exact hfits hsame hpays
        omega
    · rw [apply_refused hpays, total_touch]
      exact ⟨Nat.le_refl _, fun _ => rfl⟩
  | invoke | custom => exact ⟨Nat.le_refl _, fun _ => rfl⟩

end Ledger

/-! ### Any number of decisions -/

variable {s : Settings} {record : Record Ledger} {l l' : Ledger} {accounts : Finset ℕ}

/-- An access that cuts off no credit. -/
def Uncapped (s : Settings) (a : Access Ledger) : Prop :=
  (∃ l, a = counting l) ∨ ∃ tx l, a = deciding s tx l ∧ l.Fits s.initialBalance tx

theorem bounded_access {a : Access Ledger} (h : Does s a)
    (hbounded : a.found.Bounded s.initialBalance) : a.left.Bounded s.initialBalance := by
  obtain ⟨l, rfl⟩ | ⟨tx, l, rfl⟩ := h
  · exact hbounded
  · exact hbounded.apply tx

theorem touched_access {a : Access Ledger} (h : Does s a) {account : ℕ}
    (htouched : account ∈ a.found.touched) : account ∈ a.left.touched := by
  obtain ⟨l, rfl⟩ | ⟨tx, l, rfl⟩ := h
  · exact htouched
  · exact Ledger.touched_subset_apply htouched

theorem total_access {a : Access Ledger} (h : Does s a)
    (hbounded : a.found.Bounded s.initialBalance)
    (htouched : ∀ account ∈ a.left.touched, account ∈ accounts) :
    a.left.total s.initialBalance accounts ≤ a.found.total s.initialBalance accounts ∧
      (Uncapped s a →
        a.left.total s.initialBalance accounts = a.found.total s.initialBalance accounts) := by
  constructor
  · obtain ⟨l, rfl⟩ | ⟨tx, l, rfl⟩ := h
    · exact Nat.le_refl _
    · exact (Ledger.total_apply hbounded htouched).1
  · rintro (⟨l, rfl⟩ | ⟨tx, l, rfl, hfits⟩)
    · rfl
    · exact (Ledger.total_apply hbounded htouched).2 hfits

theorem bounded_after (h : Record.Follows l record l') (hdoes : ∀ e ∈ record, Does s e.2)
    (hbounded : l.Bounded s.initialBalance) : l'.Bounded s.initialBalance := by
  induction h with
  | nil => exact hbounded
  | cons _ ih =>
    obtain ⟨ha, hrest⟩ := List.forall_mem_cons.mp hdoes
    exact ih hrest (bounded_access ha hbounded)

/-- So whatever an access finds is bounded. -/
theorem bounded_found (h : Record.Follows l record l') (hdoes : ∀ e ∈ record, Does s e.2)
    (hbounded : l.Bounded s.initialBalance) :
    ∀ e ∈ record, e.2.found.Bounded s.initialBalance := by
  induction h with
  | nil => exact nofun
  | cons _ ih =>
    obtain ⟨ha, hrest⟩ := List.forall_mem_cons.mp hdoes
    exact List.forall_mem_cons.mpr ⟨hbounded, ih hrest (bounded_access ha hbounded)⟩

/-- An account that was touched stays so. -/
theorem touched_after (h : Record.Follows l record l') (hdoes : ∀ e ∈ record, Does s e.2)
    {account : ℕ} (htouched : account ∈ l.touched) : account ∈ l'.touched := by
  induction h with
  | nil => exact htouched
  | cons _ ih =>
    obtain ⟨ha, hrest⟩ := List.forall_mem_cons.mp hdoes
    exact ih hrest (touched_access ha htouched)

/-- **The sum of the balances never grows**, over any accounts that include those touched, and stays
the same unless a credit is cut off. -/
theorem total_after (h : Record.Follows l record l') (hdoes : ∀ e ∈ record, Does s e.2)
    (hbounded : l.Bounded s.initialBalance)
    (htouched : ∀ account ∈ l'.touched, account ∈ accounts) :
    l'.total s.initialBalance accounts ≤ l.total s.initialBalance accounts ∧
      ((∀ e ∈ record, Uncapped s e.2) →
        l'.total s.initialBalance accounts = l.total s.initialBalance accounts) := by
  induction h with
  | nil => exact ⟨Nat.le_refl _, fun _ => rfl⟩
  | cons hrest ih =>
    obtain ⟨ha, has⟩ := List.forall_mem_cons.mp hdoes
    obtain ⟨hle, heq⟩ := ih has (bounded_access ha hbounded) htouched
    obtain ⟨hfirst, hfirst'⟩ := total_access ha hbounded fun account haccount =>
      htouched account (touched_after hrest has haccount)
    refine ⟨Nat.le_trans hle hfirst, fun huncapped => ?_⟩
    obtain ⟨hu, hus⟩ := List.forall_mem_cons.mp huncapped
    rw [heq hus, hfirst' hu]

/-! ### What the lanes record -/

/-- The decisions among some accesses. -/
def decisions (as : List (Access Ledger)) : List (Access Ledger) :=
  as.filter fun a => !Counts a

theorem decisions_counting (l : Ledger) (as : List (Access Ledger)) :
    decisions (counting l :: as) = decisions as := by
  simp [decisions]

theorem decisions_deciding (tx : Transaction) (l : Ledger) (as : List (Access Ledger)) :
    decisions (deciding s tx l :: as) = deciding s tx l :: decisions as := by
  simp [decisions]

variable {slot : ℕ} {rest : Shard} {as : List (Access Ledger)} {ts : List Timing}
  {fault : Option LaneFault}

/-- Each decision of a lane is about the transaction in its place, and the timing in the same place
shows it. -/
theorem Serves.decided (h : Serves s slot rest as ts fault) {j : ℕ} {a : Access Ledger}
    (ha : (decisions as)[j]? = some a) : ∃ i tx timing, rest[j]? = some i ∧
      Transaction.decode i.payload = .ok tx ∧ ts[j]? = some timing ∧
      a = deciding s tx a.found ∧ timing.Shows (a.found.accepts s.initialBalance tx) := by
  induction h generalizing j with
  | done | undecodable => simp [decisions] at ha
  | fails =>
    rw [decisions_counting] at ha
    simp [decisions] at ha
  | @decides _ i _ tx _ found timing _ _ _ hdecode _ hshows _ ih =>
    rw [decisions_counting, decisions_deciding] at ha
    cases j with
    | zero =>
      obtain rfl := Option.some.inj ha
      exact ⟨i, tx, timing, rfl, hdecode, rfl, rfl, hshows⟩
    | succ j => exact ih ha

/-- Behind its decisions a lane records nothing. -/
theorem Serves.behind (h : Serves s slot rest as ts fault) {j : ℕ} {timing : Timing}
    (hj : (decisions as).length ≤ j) (ht : ts[j]? = some timing) : timing = .unreached := by
  induction h generalizing j with
  | done | undecodable => simp at ht
  | fails =>
    cases j with
    | zero => exact (Option.some.inj ht).symm
    | succ j => simp at ht
  | decides _ _ _ _ ih =>
    rw [decisions_counting, decisions_deciding, List.length_cons] at hj
    cases j with
    | zero => omega
    | succ j => exact ih (Nat.le_of_succ_le_succ hj) ht

/-- A lane without a fault has had a decision on each interaction. -/
theorem Serves.complete (h : Serves s slot rest as ts none) :
    (decisions as).length = rest.length := by
  generalize hfault : none = fault at h
  induction h with
  | done => rfl
  | undecodable | fails => cases hfault
  | decides _ _ _ _ ih =>
    rw [decisions_counting, decisions_deciding, List.length_cons, List.length_cons, ih hfault]

/-- A fault of a lane is about the interaction behind the decisions: it could not be decoded, or was
the trigger that fails. -/
theorem Serves.stopped {fault : LaneFault} (h : Serves s slot rest as ts (some fault)) :
    ∃ i, rest[(decisions as).length]? = some i ∧
      ((∃ reason, Transaction.decode i.payload = .error reason ∧
          fault = .decode (slot + (decisions as).length) reason) ∨
        ∃ m, s.failAt = some m ∧
          fault = .adapter (slot + (decisions as).length) (injected m)) := by
  generalize hfault : some fault = fault' at h
  induction h with
  | done => cases hfault
  | @undecodable slot i _ reason hdecode =>
    obtain rfl := Option.some.inj hfault
    exact ⟨i, rfl, Or.inl ⟨reason, hdecode, rfl⟩⟩
  | @fails slot i _ _ counted _ hfail =>
    obtain rfl := Option.some.inj hfault
    rw [decisions_counting]
    exact ⟨i, rfl, Or.inr ⟨_, hfail, rfl⟩⟩
  | @decides slot _ _ _ _ _ _ as _ _ _ _ _ _ ih =>
    rw [decisions_counting, decisions_deciding, List.length_cons, List.getElem?_cons_succ,
      ← Nat.succ_add_eq_add_succ]
    exact ih hfault

/-- What is known of a lane that has ended, by the decisions on its interactions in order. -/
structure Recorded (s : Settings) (portion : Shard) (decided : List (Access Ledger))
    (o : LaneOutcome) : Prop where
  length : o.result.interactions.length = portion.length
  /-- Each decision is about the transaction in its place, and the slot of that place shows it: a
  commit if the ledger accepted it, and an abort if not. -/
  shown : ∀ (j : ℕ) (a : Access Ledger), decided[j]? = some a → ∃ i tx timing,
    portion[j]? = some i ∧ Transaction.decode i.payload = .ok tx ∧
      o.result.interactions[j]? = some timing ∧ a = deciding s tx a.found ∧
      timing.Shows (a.found.accepts s.initialBalance tx)
  /-- The slots behind hold nothing. -/
  behind : ∀ j : ℕ, decided.length ≤ j → j < portion.length →
    o.result.interactions[j]? = some .unreached
  /-- There is a decision on every interaction, -/
  complete : o.fault = none → decided.length = portion.length
  /-- unless the lane stopped at the trigger that fails, or at what it could not decode. -/
  stopped : ∀ fault, o.fault = some fault → ∃ i, portion[decided.length]? = some i ∧
    ((∃ reason, Transaction.decode i.payload = .error reason ∧
        fault = .decode decided.length reason) ∨
      ∃ m, s.failAt = some m ∧ fault = .adapter decided.length (injected m))

theorem length_decisions (h : Serves s slot rest as ts fault) :
    (decisions as).length ≤ ts.length := by
  induction h with
  | done | undecodable => exact Nat.le_refl _
  | fails =>
    rw [decisions_counting]
    exact Nat.zero_le _
  | decides _ _ _ _ ih =>
    rw [decisions_counting, decisions_deciding]
    exact Nat.succ_le_succ ih

theorem recorded_of_serves {portion : Shard} (h : Serves s 0 portion as ts fault) :
    Recorded s portion (decisions as)
      ⟨Lane.table ts (portion.length - ts.length), fault⟩ := by
  have hle := h.length_le
  have hdecisions := length_decisions h
  refine ⟨?_, fun j a ha => ?_, fun j hj hlt => ?_, fun hnone => ?_, fun fault' hsome => ?_⟩
  · rw [Lane.length_table]
    omega
  · obtain ⟨i, tx, timing, hi, hdecode, ht, hsame, hshows⟩ := h.decided ha
    have hj := (List.getElem?_eq_some_iff.mp ht).1
    refine ⟨i, tx, timing, hi, hdecode, ?_, hsame, hshows⟩
    rw [Lane.table, List.getElem?_append_left hj, ht]
  · by_cases hstored : j < ts.length
    · have ht := List.getElem?_eq_getElem hstored
      rw [Lane.table, List.getElem?_append_left hstored, ht, h.behind hj ht]
    · rw [Lane.table, List.getElem?_append_right (Nat.not_lt.mp hstored), List.getElem?_replicate,
        if_pos (by omega)]
  · obtain rfl : fault = none := hnone
    exact h.complete
  · obtain rfl : fault = some fault' := hsome
    simpa using h.stopped

/-! ### Main statement -/

/-- What is known of the balances in a run of the lanes of a mock client that has come to `p` by the
accesses `before`, and goes on to `q` by the accesses `after`. -/
structure Kept (s : Settings) (shard : Shard) (settings : LaneSettings)
    (p q : Pool Ledger LaneOutcome) (before after : Record Ledger) : Prop where
  /-- The lanes come to the ledger one after another, -/
  follows : Record.Follows p.shared after q.shared
  /-- to count a trigger, which moves nothing, or to let it decide a transaction. -/
  decided : ∀ e ∈ after,
    (∃ l, e.2 = counting l ∧ ∀ account,
      e.2.left.balance s.initialBalance account = e.2.found.balance s.initialBalance account) ∨
    ∃ tx l, e.2 = deciding s tx l ∧ Ledger.Decided s.initialBalance tx e.2.found e.2.left
  /-- No balance is above the greatest one. -/
  bounded : q.shared.Bounded s.initialBalance
  /-- The sum of the balances does not grow, whichever accounts are counted besides. -/
  total_le : ∀ accounts : Finset ℕ, (∀ account ∈ q.shared.touched, account ∈ accounts) →
    q.shared.total s.initialBalance accounts ≤ p.shared.total s.initialBalance accounts
  /-- It stays the same as long as no credit is cut off. -/
  total_eq : ∀ accounts : Finset ℕ, (∀ account ∈ q.shared.touched, account ∈ accounts) →
    (∀ e ∈ after, Uncapped s e.2) →
      q.shared.total s.initialBalance accounts = p.shared.total s.initialBalance accounts
  /-- A lane that has ended has recorded the decisions on its interactions. -/
  lanes : ∀ id < settings.count, ∀ last, q.tasks[id]? = some last → last.ended = true →
    ∃ o, last = .done o ∧ Recorded s (lane s shard settings id).portion
      (decisions ((before ++ after).ofPlace id)) o
  /-- The run can be brought to the end of all lanes. -/
  ends : ∃ rest r, q.Runs rest r ∧ r.ended = true

variable {shard : Shard} {settings : LaneSettings} {origin : Duration}
  {p q : Pool Ledger LaneOutcome} {before after : Record Ledger}

/-- **The balances of a mock ledger are kept**, however many lanes there are and in whatever order
they come to it. -/
theorem balances_kept (hinitial : s.initialBalance ≤ Ledger.greatest)
    (hbefore : (crew s shard settings origin).pool.Runs before p) (hafter : p.Runs after q) :
    Kept s shard settings p q before after := by
  have hall := hbefore.trans hafter
  have hdoes := does_of_runs hall
  have hdoes' : ∀ e ∈ after, Does s e.2 := fun e he => hdoes e (List.mem_append_right before he)
  have hfresh : (crew s shard settings origin).pool.shared.Bounded s.initialBalance :=
    fun _ => hinitial
  have hp : p.shared.Bounded s.initialBalance := bounded_after hbefore.follows
    (fun e he => hdoes e (List.mem_append_left after he)) hfresh
  refine ⟨hafter.follows, fun e he => ?_, bounded_after hafter.follows hdoes' hp,
    fun accounts htouched => (total_after hafter.follows hdoes' hp htouched).1,
    fun accounts htouched => (total_after hafter.follows hdoes' hp htouched).2,
    fun id hid last hlast hended => ?_, Pool.exists_runs_ended q⟩
  · obtain ⟨l, hl⟩ | ⟨tx, l, hl⟩ := hdoes' e he
    · exact Or.inl ⟨l, hl, fun account => by rw [hl]; rfl⟩
    · refine Or.inr ⟨tx, l, hl, ?_⟩
      have hbounded := bounded_found hafter.follows hdoes' hp e he
      rw [hl] at hbounded ⊢
      exact Ledger.decided_apply hbounded tx
  · obtain ⟨ts, fault, hserves, rfl⟩ := serves_of_runs hall hid hlast hended
    have hportion : (lane s shard settings id).portion.length = (lane s shard settings id).length :=
      Lane.length_portion hid
    refine ⟨_, rfl, ?_⟩
    rw [← hportion]
    exact recorded_of_serves hserves

/-- An account has a hundred at first. -/
def purse : Settings := ⟨.ofMillis 10, 100, none⟩

/-- Two transfers from one account, which has enough for one of them only. -/
def rush : Shard :=
  [⟨.ofMillis 1, (Transaction.transfer 0 1 60).encode⟩,
    ⟨.ofMillis 1, (Transaction.transfer 0 2 60).encode⟩]

/-- Two lanes come to the account at the same time. -/
theorem balances_kept_rush : purse.initialBalance ≤ Ledger.greatest ∧ ∃ record q,
    (crew purse rush (LaneSettings.usual.withLanes 2) ⟨0⟩).pool.Runs record q ∧ q.ended = true ∧
      Kept purse rush (LaneSettings.usual.withLanes 2)
        (crew purse rush (LaneSettings.usual.withLanes 2) ⟨0⟩).pool q [] record := by
  have hinitial : purse.initialBalance ≤ Ledger.greatest := by decide
  obtain ⟨record, q, hrun, hended⟩ :=
    Pool.exists_runs_ended (crew purse rush (LaneSettings.usual.withLanes 2) ⟨0⟩).pool
  exact ⟨hinitial, record, q, hrun, hended, balances_kept hinitial .refl hrun⟩

end Mock

end LedgerLoad
