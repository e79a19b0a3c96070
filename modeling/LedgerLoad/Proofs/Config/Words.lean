import LedgerLoad.Config.Benchmark
import LedgerLoad.Proofs.Data.Reading
import Mathlib.Data.Nat.Notation
import Mathlib.Tactic.SplitIfs

/-! # The numbers of a benchmark

Counts and stakes are read as words, so that a benchmark of a file has no number beyond one. Main
statement: `Benchmark.words_of_read`. -/

namespace LedgerLoad

/-- What was read for a field, if anything was, is a word. -/
def IsWord (slot : Option ℕ) : Prop := ∀ n, slot = some n → n < 2 ^ 64

theorem isWord_none : IsWord none := nofun

theorem isWord_of_fill {name : String} {slot filled : Option ℕ} {d : Datum}
    (h : fill name slot d.asWord = .ok filled) : IsWord filled := by
  obtain ⟨n, hn, rfl⟩ := fill_eq_ok h
  intro m hm
  obtain rfl := Option.some.inj hm
  exact Datum.asNat_lt hn

/-! ### Benchmarks -/

/-- The numbers of a benchmark are words. -/
structure Benchmark.Words (b : Benchmark) : Prop where
  accounts : b.accounts.count < 2 ^ 64
  stakes : ∀ w ∈ b.workloads, ∀ stake, w.kind = .transfer stake → stake < 2 ^ 64

theorem Accounts.isWord_entry {fields fields' : Option ℕ × Option ℕ} {key : String} {d : Datum}
    (hfields : IsWord fields.1) (h : entry fields key d = .ok fields') : IsWord fields'.1 := by
  unfold entry at h
  split_ifs at h
  · obtain ⟨filled, hfilled, h⟩ := Except.bind_eq_ok h
    obtain rfl := Except.ok.inj h
    exact isWord_of_fill hfilled
  · obtain ⟨filled, -, h⟩ := Except.bind_eq_ok h
    obtain rfl := Except.ok.inj h
    exact hfields
  · obtain ⟨_, -, h⟩ := Except.bind_eq_ok h
    obtain rfl := Except.ok.inj h
    exact hfields

theorem Accounts.count_lt {d : Datum} {a : Accounts} (h : ofDatum d = .ok a) :
    a.count < 2 ^ 64 := by
  unfold ofDatum at h
  split at h
  · rename_i entries
    obtain ⟨fields, hfields, h⟩ := Except.bind_eq_ok h
    obtain ⟨count, hcount, h⟩ := Except.bind_eq_ok h
    obtain rfl := Except.ok.inj h
    have hword := Entries.readInto_keeps (Q := fun _ => True) (P := fun fields => IsWord fields.1)
      (fun hfields _ hentry => isWord_entry hfields hentry) entries (fun _ _ => trivial)
      isWord_none hfields
    exact hword count (need_eq_ok hcount)
  · obtain ⟨⟨first, rest⟩, -, h⟩ := Except.bind_eq_ok h
    obtain ⟨count, hcount, h⟩ := Except.bind_eq_ok h
    have hlt := Datum.asNat_lt hcount
    split at h
    · obtain ⟨stake, -, h⟩ := Except.bind_eq_ok h
      obtain rfl := Except.ok.inj h
      exact hlt
    · obtain rfl := Except.ok.inj h
      exact hlt
  · cases h

theorem WorkloadKind.isWord_stake {slot slot' : Option ℕ} {key : String} {d : Datum}
    (hslot : IsWord slot) (h : stake slot key d = .ok slot') : IsWord slot' := by
  unfold stake at h
  split_ifs at h
  · exact isWord_of_fill h
  · obtain rfl := Except.ok.inj h
    exact hslot

theorem WorkloadKind.stake_lt {entries : Entries} {stake : ℕ}
    (h : ofEntries entries = .ok (.transfer stake)) : stake < 2 ^ 64 := by
  unfold ofEntries at h
  obtain ⟨found, -, h⟩ := Except.bind_eq_ok h
  obtain ⟨kind, -, h⟩ := Except.bind_eq_ok h
  split_ifs at h
  · obtain ⟨slot, hslot, h⟩ := Except.bind_eq_ok h
    have hword := Entries.readInto_keeps (Q := fun _ => True)
      (fun hslot _ hentry => isWord_stake hslot hentry) entries (fun _ _ => trivial)
      isWord_none hslot
    cases h
    cases slot with
    | none => decide
    | some n => exact hword n rfl
  · cases h
  · obtain ⟨_, -, h⟩ := Except.bind_eq_ok h
    obtain ⟨_, -, h⟩ := Except.bind_eq_ok h
    cases h

theorem Workload.stake_lt {d : Datum} {w : Workload} (h : ofDatum d = .ok w) {stake : ℕ}
    (hkind : w.kind = .transfer stake) : stake < 2 ^ 64 := by
  unfold ofDatum at h
  split at h
  · obtain ⟨draft, -, h⟩ := Except.bind_eq_ok h
    obtain ⟨rate, -, h⟩ := Except.bind_eq_ok h
    obtain ⟨duration, -, h⟩ := Except.bind_eq_ok h
    obtain ⟨kind, hread, h⟩ := Except.bind_eq_ok h
    obtain rfl := Except.ok.inj h
    obtain rfl : kind = .transfer stake := hkind
    exact WorkloadKind.stake_lt hread
  · cases h

theorem Workload.stakes_lt {d : Datum} {ws : List Workload} (h : d.asList ofDatum = .ok ws) :
    ∀ w ∈ ws, ∀ stake, w.kind = .transfer stake → stake < 2 ^ 64 := by
  cases d with
  | list items =>
    exact Items.forall_read (Q := fun _ => True) (fun _ hw _ hkind => stake_lt hw hkind) items
      (fun _ _ => trivial) h
  | _ => cases h

namespace Benchmark

/-- The numbers of what was read so far are words. -/
structure Draft.Words (b : Draft) : Prop where
  accounts : ∀ a, b.accounts = some a → a.count < 2 ^ 64
  workloads : ∀ ws, b.workloads = some ws → ∀ w ∈ ws, ∀ stake, w.kind = .transfer stake →
    stake < 2 ^ 64

theorem Draft.Words.entry {b b' : Draft} {key : String} {d : Datum} (hb : b.Words)
    (h : b.entry key d = .ok b') : b'.Words := by
  unfold Draft.entry at h
  split_ifs at h
  · obtain ⟨filled, hfilled, h⟩ := Except.bind_eq_ok h
    obtain rfl := Except.ok.inj h
    obtain ⟨a, ha, rfl⟩ := fill_eq_ok hfilled
    refine { hb with accounts := fun a' ha' => ?_ }
    obtain rfl := Option.some.inj ha'
    exact Accounts.count_lt ha
  · obtain ⟨filled, -, h⟩ := Except.bind_eq_ok h
    obtain rfl := Except.ok.inj h
    exact { hb with }
  · obtain ⟨filled, -, h⟩ := Except.bind_eq_ok h
    obtain rfl := Except.ok.inj h
    exact { hb with }
  · obtain ⟨filled, hfilled, h⟩ := Except.bind_eq_ok h
    obtain rfl := Except.ok.inj h
    obtain ⟨ws, hws, rfl⟩ := fill_eq_ok hfilled
    refine { hb with workloads := fun ws' hws' => ?_ }
    obtain rfl := Option.some.inj hws'
    exact Workload.stakes_lt hws
  · obtain ⟨_, -, h⟩ := Except.bind_eq_ok h
    obtain rfl := Except.ok.inj h
    exact hb

theorem words_of_ofDatum {d : Datum} {b : Benchmark} (h : ofDatum d = .ok b) : b.Words := by
  unfold ofDatum at h
  split at h
  · rename_i entries
    obtain ⟨draft, hdraft, h⟩ := Except.bind_eq_ok h
    obtain rfl := Except.ok.inj h
    have hempty : Draft.Words ⟨none, none, none, none⟩ := ⟨nofun, nofun⟩
    have hwords := Entries.readInto_keeps (Q := fun _ => True) (fun hb _ hentry => hb.entry hentry)
      entries (fun _ _ => trivial) hempty hdraft
    constructor
    · cases haccounts : draft.accounts with
      | none => exact Nat.two_pow_pos 64
      | some a => exact hwords.accounts a haccounts
    · cases hworkloads : draft.workloads with
      | none => exact nofun
      | some ws => exact hwords.workloads ws hworkloads
  · cases h

/-- **No number of a benchmark that was read is beyond a word.** -/
theorem words_of_read {text : String} {b : Benchmark} (h : read text = .ok b) : b.Words := by
  unfold read Toml.decode at h
  split at h
  · exact words_of_ofDatum h
  · cases h

end Benchmark

end LedgerLoad
