import LedgerLoad.Mock.Adapter
import LedgerLoad.Proofs.Config.Words
import LedgerLoad.Proofs.Lane.Course
import LedgerLoad.Proofs.Mock.Payload
import LedgerLoad.Proofs.Plan.Room
import LedgerLoad.Proofs.Plan.Schedule

/-! # Plans for the mock ledger

The builder of the mock ledger gives out the numbers from zero on, so what was created under a
number is that number itself, and none that a plan asks for is refused. The payloads that it writes
are read back by the client. Main statement: `Mock.plan_understood`, whatever is planned for a mock
ledger is understood by every mock client (`Mock.Understood`), and no lane stops at it. -/

namespace LedgerLoad

/-! ### Lanes that understand their payloads -/

/-- A lane never stops at a payload that it cannot decode, whoever else runs in the pool and however
long anybody is kept waiting. -/
def Lane.Understands {σ : Type} (l : Lane σ) : Prop :=
  ∀ (origin : Duration) (p q : Pool σ LaneOutcome) (k : ℕ) (o : LaneOutcome),
    p.tasks[k]? = some (l.task origin) → p.Delayed q → q.tasks[k]? = some (.done o) →
      ∀ slot fault, o.fault ≠ some (.decode slot fault)

theorem Lane.understands_of_shard {σ : Type} {l : Lane σ}
    (h : ∀ i ∈ l.shard, ∃ handle, l.client.decode i.payload = .ok handle) : l.Understands := by
  intro origin p q k o ht hrun hlast slot fault hfault
  obtain ⟨i, hi, hdecode⟩ := undecodable_of_ends (Pool.ends_of_delayed hrun ht hlast rfl) hfault
  obtain ⟨handle, hhandle⟩ := h i ((RoundRobin.share_sublist _ _ _).subset hi)
  rw [hhandle] at hdecode
  cases hdecode

/-! ### What is asked of a mock ledger -/

/-- `w.Suits b i t`: the transaction is what the interaction numbered `i` of a workload may be on a
ledger where accounts and contracts are numbered from zero on. -/
def Workload.Suits (w : Workload) (b : Benchmark) (i : ℕ) : Transaction → Prop
  | .transfer sender receiver amount => w.kind = .transfer amount ∧ sender ≠ receiver ∧
      sender < b.accounts.count ∧ receiver < b.accounts.count
  | .invoke sender contract => w.kind = .invoke ∧ sender < b.accounts.count ∧
      contract < b.contracts.length ∧ contract = i % b.contracts.length
  | .custom name => w.kind = .custom name

theorem Workload.Suits.words {b : Benchmark} (hb : b.Words) {w : Workload} (hw : w ∈ b.workloads)
    {i : ℕ} (hi : i < w.count) {t : Transaction} (h : w.Suits b i t) : t.Words := by
  have haccounts := hb.accounts
  cases t with
  | transfer sender receiver amount =>
    obtain ⟨hkind, -, hsender, hreceiver⟩ := h
    exact ⟨by omega, by omega, hb.stakes w hw amount hkind⟩
  | invoke sender contract =>
    obtain ⟨-, hsender, -, rfl⟩ := h
    have hcount : w.count < 2 ^ 64 := UInt64.toNat_lt _
    have hmod : i % b.contracts.length ≤ i := Nat.mod_le i _
    exact ⟨by omega, by omega⟩
  | custom name => trivial

namespace Mock

/-! ### The builder -/

/-- The accounts and the contracts of a builder are numbered in the order of their creation. -/
def Numbered (c : Created) (accounts contracts : List ℕ) : Prop :=
  accounts = List.range c.accounts ∧ contracts = List.range c.contracts.length

theorem checkAccount_of_mem {c : Created} {account : ℕ} (h : account ∈ List.range c.accounts) :
    c.checkAccount account = .ok account := if_pos (List.mem_range.mp h)

theorem checkContract_of_mem {c : Created} {contract : ℕ}
    (h : contract ∈ List.range c.contracts.length) : c.checkContract contract = .ok contract :=
  if_pos (List.mem_range.mp h)

/-- **The builder refuses nothing that it has created**, and writes what it is asked to. -/
theorem builder_serves :
    builder.Serves Numbered (fun t octets => octets = t.encode) fun _ => False where
  account := by
    rintro c _ _ ⟨rfl, rfl⟩ stake
    exact ⟨List.range_succ.symm, rfl⟩
  contract := by
    rintro c _ _ ⟨rfl, rfl⟩ name
    refine ⟨rfl, ?_⟩
    rw [List.length_append, List.length_singleton, List.range_succ]
  resource := by
    rintro - c _ _ ⟨rfl, rfl⟩ domain
    exact ⟨rfl, rfl⟩
  transfer := by
    rintro c _ _ ⟨rfl, rfl⟩ sender receiver hsender hreceiver stake
    simp only [BuilderCall.Ends, builder, checkAccount_of_mem hsender,
      checkAccount_of_mem hreceiver]
    exact ⟨rfl, rfl, rfl⟩
  invoke := by
    rintro c _ _ ⟨rfl, rfl⟩ sender contract hsender hcontract
    simp only [BuilderCall.Ends, builder, checkContract_of_mem hcontract,
      checkAccount_of_mem hsender]
    exact ⟨rfl, rfl, rfl⟩
  interaction := by
    rintro - c _ _ ⟨rfl, rfl⟩ name
    exact ⟨rfl, rfl, rfl⟩

theorem builder_supports (b : Benchmark) : builder.Supports b :=
  ⟨fun _ => rfl, fun _ _ _ _ => rfl⟩

/-! ### Provisions -/

/-- Where the numbers are in order, what stands in a place is its number. -/
theorem getD_of_range {xs : Array ℕ} {n : ℕ} (h : xs.toList = List.range n) {i : ℕ}
    (hi : i < xs.size) : xs.getD i 0 = i := by
  have hsize : xs.size = n := by rw [← Array.length_toList, h, List.length_range]
  have hat : xs.toList[i]? = some xs[i] := by simp [hi]
  rw [h, List.getElem?_range (hsize ▸ hi)] at hat
  simpa [Array.getD, hi] using (Option.some.inj hat).symm

/-- What a workload asks for among the provisions is asked for by number. -/
theorem suits_of_asks {b : Benchmark} (hvalid : b.validate = .ok ()) {p : Plan.Provisions}
    {c : Created} (hp : Plan.Provided b Numbered p c) {w : Workload} (hw : w ∈ b.workloads) {i : ℕ}
    {t : Transaction} (h : w.Asks p i t) : w.Suits b i t := by
  obtain ⟨haccounts, hcontracts⟩ := hp.holds
  unfold Workload.Asks at h
  cases hkind : w.kind with
  | transfer stake =>
    simp only [hkind] at h
    obtain ⟨sender, receiver, hsender, hreceiver, hne, rfl⟩ := h
    rw [getD_of_range haccounts hsender, getD_of_range haccounts hreceiver]
    exact ⟨hkind, hne, hp.accounts ▸ hsender, hp.accounts ▸ hreceiver⟩
  | invoke =>
    simp only [hkind] at h
    obtain ⟨sender, hsender, rfl⟩ := h
    obtain ⟨place, hfault⟩ := Benchmark.fault?_of_validate hvalid hw
    have hcalled : i % b.contracts.length < b.contracts.length :=
      Nat.mod_lt i (Benchmark.callable_of_accepted hfault hkind).2
    rw [getD_of_range haccounts hsender, hp.contracts,
      getD_of_range hcontracts (by rwa [hp.contracts])]
    exact ⟨hkind, hp.accounts ▸ hsender, hcalled, rfl⟩
  | custom name =>
    simp only [hkind] at h
    subst h
    exact hkind

/-! ### Plans -/

/-- Every mock client makes this transaction of a payload. -/
def Reads (payload : Bytes) (t : Transaction) : Prop :=
  ∀ s : Settings, (client s).decode payload = .ok (.transaction t)

theorem reads_encode {t : Transaction} (h : t.Words) : Reads t.encode t := by
  intro s
  show (Transaction.decode t.encode).map Handle.transaction = _
  rw [Transaction.decode_encode h]
  rfl

/-- The interactions of a workload as mock clients understand them: each has its time and is what it
may be. -/
structure Stream (b : Benchmark) (w : Workload) (xs : List Interaction) : Prop where
  length : xs.length = w.count
  due : ∀ i x, xs[i]? = some x → w.due? i = some x.due
  reads : ∀ i x, xs[i]? = some x → ∃ t, w.Suits b i t ∧ Reads x.payload t

theorem stream_of_streams {b : Benchmark} (hvalid : b.validate = .ok ()) (hwords : b.Words)
    {p : Plan.Provisions} {c : Created} (hp : Plan.Provided b Numbered p c) {w : Workload}
    (hw : w ∈ b.workloads) {xs : List Interaction}
    (h : Plan.Streams p (fun t octets => octets = t.encode) w xs) : Stream b w xs := by
  refine ⟨h.length, h.due, fun i x hx => ?_⟩
  obtain ⟨t, hasks, hpayload⟩ := h.payload i x hx
  have hsuits := suits_of_asks hvalid hp hw hasks
  have hi : i < w.count := h.length ▸ (List.getElem?_eq_some_iff.mp hx).1
  exact ⟨t, hsuits, hpayload ▸ reads_encode (hsuits.words hwords hw hi)⟩

/-- Each interaction of a shard is one of a workload, and what it may be. -/
theorem reads_of_streams {b : Benchmark} {secondaries : ℕ} {parts : List (List Interaction)}
    (h : List.Forall₂ (Stream b) b.workloads parts) {shard : Shard}
    (hshard : shard ∈ RoundRobin.deal secondaries (Plan.sorted parts.flatten)) {x : Interaction}
    (hx : x ∈ shard) : ∃ w ∈ b.workloads, ∃ i < w.count, ∃ t,
      w.due? i = some x.due ∧ w.Suits b i t ∧ Reads x.payload t := by
  obtain ⟨k, -, rfl⟩ := List.mem_map.mp hshard
  have hmem := (Plan.perm_sorted _).mem_iff.mp ((RoundRobin.share_sublist _ _ _).subset hx)
  obtain ⟨xs, hxs, hx⟩ := List.mem_flatten.mp hmem
  obtain ⟨place, hplace, rfl⟩ := List.mem_iff_getElem.mp hxs
  obtain ⟨i, hi, rfl⟩ := List.mem_iff_getElem.mp hx
  have hplace' : place < b.workloads.length := h.length_eq ▸ hplace
  have hstream : Stream b b.workloads[place] parts[place] := h.get hplace' hplace
  have hat := List.getElem?_eq_getElem hi
  obtain ⟨t, hsuits, hread⟩ := hstream.reads i _ hat
  exact ⟨_, List.getElem_mem hplace', i, hstream.length ▸ hi, t, hstream.due i _ hat, hsuits,
    hread⟩

/-! ### Lanes of mock clients -/

/-- A lane with a mock client understands payloads that are read, at whatever times they are due. -/
theorem understands_of_reads {l : Lane Ledger} (hclient : ∃ s, l.client = client s) {shard : Shard}
    (hpayloads : l.shard.map Interaction.payload = shard.map Interaction.payload)
    (hreads : ∀ x ∈ shard, ∃ t, Reads x.payload t) : l.Understands := by
  obtain ⟨s, hclient⟩ := hclient
  refine Lane.understands_of_shard fun i hi => ?_
  have hpayload := List.mem_map_of_mem (f := Interaction.payload) hi
  rw [hpayloads] at hpayload
  obtain ⟨x, hx, hsame⟩ := List.mem_map.mp hpayload
  obtain ⟨t, hread⟩ := hreads x hx
  rw [hclient, ← hsame]
  exact ⟨_, hread s⟩

/-- A client that the adapter gives is a mock client. -/
theorem client_of_adapter {view : ConnectionView} {c : Client Ledger} {shared : Ledger}
    (h : adapter.client view = .ok (c, shared)) : ∃ s, c = client s := by
  obtain ⟨s, -, hclient⟩ := Except.map_eq_ok (h : (settings view).map _ = _)
  exact ⟨s, (Prod.mk.inj hclient).1⟩

/-- A secondary that has been sent a shard for its mock ledger has a mock client for it, and all
payloads. -/
theorem work_of_shard {s : Secondary Ledger Created} {ledger : String} {parameters : RunParameters}
    {shard : Shard} {work : Work Ledger} (hregistry : s.registry.find? ledger = some adapter)
    (h : s.workOf (WorkloadMessage.toDocument ⟨ledger, parameters, shard⟩) = .ok work) :
    (∃ settings, work.client = client settings) ∧
      work.shard.map Interaction.payload = shard.map Interaction.payload := by
  constructor
  · obtain ⟨message, found, c, shared, hmessage, hadapter, hclient, rfl⟩ :=
      Secondary.workOf_eq_ok.mp h
    obtain ⟨hledger, -⟩ := WorkloadMessage.ofDocument_toDocument hmessage
    rw [hledger, hregistry] at hadapter
    obtain rfl := Option.some.inj hadapter
    exact client_of_adapter hclient
  · rw [(Work.of_message h).1, List.map_map]
    rfl

/-! ### Main statement -/

/-- What it means that the shards of a benchmark are understood on a mock ledger. -/
structure Understood (b : Benchmark) (secondaries : ℕ) (shards : List Shard) : Prop where
  length : shards.length = secondaries
  /-- The shards are dealt from what the workloads give. -/
  dealt : ∃ parts, List.Forall₂ (Stream b) b.workloads parts ∧
    shards = RoundRobin.deal secondaries (Plan.sorted parts.flatten)
  /-- So each interaction is one of a workload, and what it may be. -/
  reads : ∀ shard ∈ shards, ∀ x ∈ shard, ∃ w ∈ b.workloads, ∃ i < w.count, ∃ t,
    w.due? i = some x.due ∧ w.Suits b i t ∧ Reads x.payload t
  /-- A lane with a mock client never stops at one of the payloads, at whatever times they are
  due. -/
  lanes : ∀ shard ∈ shards, ∀ l : Lane Ledger, (∃ s, l.client = client s) →
    l.shard.map Interaction.payload = shard.map Interaction.payload → l.Understands
  /-- So no lane of a secondary does that has been sent the shard for its mock ledger. -/
  secondaries : ∀ shard ∈ shards, ∀ (s : Secondary Ledger Created) (ledger : String)
    (parameters : RunParameters) (work : Work Ledger),
    s.registry.find? ledger = some adapter →
      s.workOf (WorkloadMessage.toDocument ⟨ledger, parameters, shard⟩) = .ok work →
        ∀ id, (work.lane id).Understands

theorem understood_of_streams {b : Benchmark} {secondaries : ℕ} {parts : List (List Interaction)}
    (h : List.Forall₂ (Stream b) b.workloads parts) :
    Understood b secondaries (RoundRobin.deal secondaries (Plan.sorted parts.flatten)) := by
  have hlanes : ∀ shard ∈ RoundRobin.deal secondaries (Plan.sorted parts.flatten),
      ∀ l : Lane Ledger, (∃ s, l.client = client s) →
        l.shard.map Interaction.payload = shard.map Interaction.payload → l.Understands := by
    intro shard hshard l hclient hpayloads
    refine understands_of_reads hclient hpayloads fun x hx => ?_
    obtain ⟨w, -, i, -, t, -, -, hread⟩ := reads_of_streams h hshard hx
    exact ⟨t, hread⟩
  refine ⟨RoundRobin.length_deal secondaries _, ⟨parts, h, rfl⟩,
    fun shard hshard x hx => reads_of_streams h hshard hx, hlanes,
    fun shard hshard s ledger parameters work hregistry hwork id => ?_⟩
  obtain ⟨hclient, hpayloads⟩ := work_of_shard hregistry hwork
  exact hlanes shard hshard (work.lane id) hclient hpayloads

/-- **Whatever is planned for a mock ledger is understood there**: an accepted benchmark for which
there is room gives shards of which every mock client can decode all payloads, each into what its
workload asks for. -/
theorem plan_understood {b : Benchmark} (hvalid : b.validate = .ok ()) (hwords : b.Words)
    (hfits : b.Fits) {secondaries : ℕ} (hpos : 0 < secondaries) (seed : ℕ) :
    ∃ shards, plan builder .nothing b secondaries seed = .ok shards ∧
      Understood b secondaries shards := by
  have hnothing : Numbered .nothing [] [] := ⟨rfl, rfl⟩
  rcases plan_cases_willing builder_serves (builder_supports b) hvalid hnothing hpos seed with
    ⟨p, parts, after, hp, hparts, -, hplan⟩ | ⟨-, hnot⟩
  · refine ⟨_, hplan, understood_of_streams ?_⟩
    exact List.forall₂_iff_get.mpr ⟨hparts.length_eq, fun i hw hxs =>
      stream_of_streams hvalid hwords hp (List.get_mem _ _) (hparts.get hw hxs)⟩
  · exact absurd hfits hnot

/-- Transfers, calls of two contracts, and something else. -/
def bustle : Benchmark :=
  ⟨⟨3, 100⟩, ["counter", "market"], ["dex"],
    [⟨.transfer 5, 2.0, .ofSeconds 2, .zero⟩, ⟨.invoke, 3.0, .ofSeconds 1, .ofSeconds 1⟩,
      ⟨.custom "swap", 1.0, .ofSeconds 1, .zero⟩]⟩

/-- Eight interactions, planned for two secondaries. -/
theorem plan_understood_bustle : bustle.validate = .ok () ∧ bustle.total = 8 ∧
    ∃ shards, plan builder .nothing bustle 2 7 = .ok shards ∧ Understood bustle 2 shards := by
  have hvalid : bustle.validate = .ok () := rfl
  have htotal : bustle.total = 8 := by decide +kernel
  have hwords : bustle.Words := by
    refine ⟨by decide, fun w hw stake hkind => ?_⟩
    simp only [bustle, List.mem_cons, List.not_mem_nil, or_false] at hw
    rcases hw with rfl | rfl | rfl <;> cases hkind
    decide
  have hfits : bustle.Fits :=
    Benchmark.fits_of_early hvalid (by rw [htotal]; decide) (by decide)
  exact ⟨hvalid, htotal, plan_understood hvalid hwords hfits Nat.two_pos 7⟩

end Mock

end LedgerLoad
