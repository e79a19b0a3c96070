import LedgerLoad.Proofs.Plan

/-! # How planning ends

Planning is made of steps that draw numbers and call the builder, and any of them may fail.
`Plan.Ends` says at once what holds of a step that ends well and where it may stop otherwise. From
what is known of the single calls of a builder (`Builder.Serves`) follows what is known of a whole
schedule. Main statement: `Plan.schedule_ends`, a benchmark that is accepted gives each workload its
interactions, or there is an excuse: the builder cannot do what it is asked for or fails itself, or
there is no room for the schedule (`Benchmark.Fits`). -/

namespace LedgerLoad

namespace Plan

variable {β α γ : Type}

/-! ### Steps -/

/-- `Ends x before good bad`: the step ends well, and what it gives and leaves is good, or it ends in
a stop that is bad. -/
def Ends (x : Planning β α) (before : Random.Source × β)
    (good : α → Random.Source × β → Prop) (bad : PlanStop → Prop) : Prop :=
  match x before with
  | .ok (a, after) => good a after
  | .error stop => bad stop

section Ends

variable {x : Planning β α} {before after : Random.Source × β}
  {good good' : α → Random.Source × β → Prop} {bad bad' : PlanStop → Prop}

theorem Ends.of_ok (h : Ends x before good bad) {a : α} (hx : x before = .ok (a, after)) :
    good a after := by
  unfold Ends at h
  rwa [hx] at h

theorem Ends.of_error (h : Ends x before good bad) {stop : PlanStop} (hx : x before = .error stop) :
    bad stop := by
  unfold Ends at h
  rwa [hx] at h

/-- A step ends in one of two ways. -/
theorem Ends.cases (h : Ends x before good bad) :
    (∃ a after, x before = .ok (a, after) ∧ good a after) ∨
      ∃ stop, x before = .error stop ∧ bad stop := by
  cases hx : x before with
  | ok p => exact Or.inl ⟨p.1, p.2, rfl, h.of_ok hx⟩
  | error stop => exact Or.inr ⟨stop, rfl, h.of_error hx⟩

theorem Ends.imp (h : Ends x before good bad) (hgood : ∀ a after, good a after → good' a after)
    (hbad : ∀ stop, bad stop → bad' stop) : Ends x before good' bad' := by
  unfold Ends at h ⊢
  split <;> simp_all

theorem ends_pure {a : α} (h : good a before) :
    Ends (pure a : Planning β α) before good bad := h

theorem ends_throw {stop : PlanStop} (h : bad stop) :
    Ends (throw stop : Planning β α) before good bad := h

/-- One step after another. -/
theorem Ends.bind {f : α → Planning β γ} {good : γ → Random.Source × β → Prop}
    (h : Ends x before (fun a between => Ends (f a) between good bad) bad) :
    Ends (x >>= f) before good bad := by
  rcases h.cases with ⟨a, between, hx, hf⟩ | ⟨stop, hx, hstop⟩
  · unfold Ends
    rw [bind_of_ok hx]
    exact hf
  · have hbind : (x >>= f) before = .error stop := by
      show (x before >>= fun p => f p.1 p.2) = _
      rw [hx]
      rfl
    unfold Ends
    rw [hbind]
    exact hstop

/-- A step for each element of a list, with an invariant of the elements that are done, of what they
have given, and of what is left. -/
theorem ends_mapM {f : α → Planning β γ} {xs : List α}
    {I : List α → List γ → Random.Source × β → Prop}
    (step : ∀ done x rest ys before, done ++ x :: rest = xs → I done ys before →
      Ends (f x) before (fun y after => I (done ++ [x]) (ys ++ [y]) after) bad)
    (h : I [] [] before) : Ends (xs.mapM f) before (fun ys after => I xs ys after) bad := by
  have hrest : ∀ rest done ys before, done ++ rest = xs → I done ys before →
      Ends (rest.mapM f) before (fun zs after => I xs (ys ++ zs) after) bad := by
    intro rest
    induction rest with
    | nil =>
      intro done ys before hxs hI
      rw [List.append_nil] at hxs
      rw [List.mapM_nil]
      refine ends_pure ?_
      rwa [List.append_nil, ← hxs]
    | cons x rest ih =>
      intro done ys before hxs hI
      rw [List.mapM_cons]
      refine Ends.bind ((step done x rest ys before hxs hI).imp (fun y between hI' => ?_)
        fun _ hbad => hbad)
      refine Ends.bind ((ih (done ++ [x]) (ys ++ [y]) between (by simpa using hxs) hI').imp
        (fun zs after hall => ends_pure ?_) fun _ hbad => hbad)
      rwa [List.append_assoc] at hall
  exact (hrest xs [] [] before rfl h).imp (fun ys after hI => hI) fun _ hbad => hbad

/-- The same with a relation between each element and what it gives. -/
theorem ends_mapM_forall₂ {f : α → Planning β γ} {xs : List α} {R : α → γ → Prop}
    {I : Random.Source × β → Prop}
    (step : ∀ x ∈ xs, ∀ before, I before → Ends (f x) before (fun y after => R x y ∧ I after) bad)
    (h : I before) :
    Ends (xs.mapM f) before (fun ys after => List.Forall₂ R xs ys ∧ I after) bad := by
  refine ends_mapM (I := fun done ys after => List.Forall₂ R done ys ∧ I after)
    (fun done x rest ys before hxs hI => ?_) ⟨.nil, h⟩
  refine (step x (hxs ▸ by simp) before hI.2).imp (fun y after hy => ?_) fun _ hbad => hbad
  exact ⟨List.rel_append hI.1 (.cons hy.1 .nil), hy.2⟩

/-- A number that is drawn is below its bound, and the builder does not notice. This holds also where
the limit of `Random.Source.below` is met. -/
theorem ends_draw {bound : ℕ} (hbound : 0 < bound) (source : Random.Source) (b : β) :
    Ends (draw bound) (source, b) (fun n after => n < bound ∧ after.2 = b) bad := by
  unfold Ends draw
  dsimp only
  rw [if_neg (Nat.ne_of_gt hbound)]
  exact ⟨Random.Source.below_lt hbound source, rfl⟩

end Ends

end Plan

/-! ### Builders -/

/-- `c.Ends b good bad`: a call to a builder ends well, and the answer and what the builder is then
are good, or it ends in a fault that is bad. -/
def BuilderCall.Ends {β α : Type} (c : BuilderCall β α) (b : β) (good : α → β → Prop)
    (bad : AdapterFault → Prop) : Prop :=
  match c b with
  | .ok (a, b') => good a b'
  | .error fault => bad fault

/-- What is known of the calls to a builder, as long as it is asked only for what it can do and
about what it has created: `holds b accounts contracts` that these were created, `writes` the
payloads for a transaction, and `faulty` the faults that it may answer with. A builder of which all
calls succeed is one where no fault is faulty. -/
structure Builder.Serves {β : Type} (builder : Builder β)
    (holds : β → List ℕ → List ℕ → Prop) (writes : Transaction → Bytes → Prop)
    (faulty : AdapterFault → Prop) : Prop where
  account : ∀ {b accounts contracts}, holds b accounts contracts → ∀ stake,
    (builder.createAccount stake).Ends b
      (fun account b' => holds b' (accounts ++ [account]) contracts) faulty
  contract : ∀ {b accounts contracts}, holds b accounts contracts → ∀ name,
    (builder.createContract name).Ends b
      (fun contract b' => holds b' accounts (contracts ++ [contract])) faulty
  resource : builder.capabilities.resources = true →
    ∀ {b accounts contracts}, holds b accounts contracts → ∀ domain,
      (builder.createResource domain).Ends b (fun _ b' => holds b' accounts contracts) faulty
  transfer : ∀ {b accounts contracts}, holds b accounts contracts →
    ∀ {sender receiver}, sender ∈ accounts → receiver ∈ accounts → ∀ stake,
      (builder.encodeTransfer stake sender receiver).Ends b (fun octets b' =>
        writes (.transfer sender receiver stake) octets ∧ holds b' accounts contracts) faulty
  invoke : ∀ {b accounts contracts}, holds b accounts contracts →
    ∀ {sender contract}, sender ∈ accounts → contract ∈ contracts →
      (builder.encodeInvoke sender contract).Ends b (fun octets b' =>
        writes (.invoke sender contract) octets ∧ holds b' accounts contracts) faulty
  interaction : builder.capabilities.customInteractions = true →
    ∀ {b accounts contracts}, holds b accounts contracts → ∀ name,
      (builder.encodeInteraction name).Ends b (fun octets b' =>
        writes (.custom name) octets ∧ holds b' accounts contracts) faulty

/-- Nothing is known of a builder in general. -/
theorem Builder.serves_any {β : Type} (builder : Builder β) :
    builder.Serves (fun _ _ _ => True) (fun _ _ => True) fun _ => True := by
  have hany {α : Type} (c : BuilderCall β α) (b : β) {good : α → β → Prop}
      (h : ∀ a b', good a b') : c.Ends b good fun _ => True := by
    unfold BuilderCall.Ends
    split
    · exact h _ _
    · trivial
  constructor <;> intros <;> exact hany _ _ (by simp)

/-- A builder can do what a benchmark asks for. -/
structure Builder.Supports {β : Type} (builder : Builder β) (b : Benchmark) : Prop where
  resources : b.resources ≠ [] → builder.capabilities.resources = true
  interactions : ∀ w ∈ b.workloads, ∀ name, w.kind = .custom name →
    builder.capabilities.customInteractions = true

/-- There is room for the schedule of a benchmark: it is not too long, and whatever is due is due
within the longest span. -/
structure Benchmark.Fits (b : Benchmark) : Prop where
  total : b.total ≤ Plan.greatestLength
  due : ∀ w ∈ b.workloads, ∀ i < w.count, (w.due? i).isSome

namespace Plan

variable {β α : Type} {builder : Builder β} {holds : β → List ℕ → List ℕ → Prop}
  {writes : Transaction → Bytes → Prop} {faulty : AdapterFault → Prop}

/-- Why an accepted benchmark may not be planned after all. -/
def Excuse (builder : Builder β) (b : Benchmark) (faulty : AdapterFault → Prop) :
    PlanStop → Prop
  | .fault (.unsupported _) => ¬ builder.Supports b
  | .fault (.adapter fault) => faulty fault
  | .outOfRange => ¬ b.Fits
  | _ => False

/-- A call in the course of planning. -/
theorem ends_call {c : BuilderCall β α} {source : Random.Source} {b : β} {good : α → β → Prop}
    {bad : PlanStop → Prop} (h : c.Ends b good faulty)
    (hbad : ∀ fault, faulty fault → bad (.fault (.adapter fault))) :
    Ends (call c) (source, b) (fun a after => good a after.2) bad := by
  unfold BuilderCall.Ends at h
  unfold Ends call
  dsimp only
  cases hc : c b with
  | ok p =>
    rw [hc] at h
    exact h
  | error fault =>
    rw [hc] at h
    exact hbad fault h

/-! ### Provisions -/

/-- What was created is as much as was asked for, and the builder knows of it. -/
structure Provided (b : Benchmark) (holds : β → List ℕ → List ℕ → Prop) (p : Provisions)
    (state : β) : Prop where
  accounts : p.accounts.size = b.accounts.count
  contracts : p.contracts.size = b.contracts.length
  holds : holds state p.accounts.toList p.contracts.toList

/-- One call after another to create something. -/
theorem create_ends {c : α → BuilderCall β ℕ} {xs : List α} {C : β → List ℕ → Prop}
    (hc : ∀ x ∈ xs, ∀ b ys, C b ys → (c x).Ends b (fun y b' => C b' (ys ++ [y])) faulty)
    {source : Random.Source} {state : β} (h : C state []) {bad : PlanStop → Prop}
    (hadapter : ∀ fault, faulty fault → bad (.fault (.adapter fault))) :
    Ends (xs.mapM fun x => call (c x)) (source, state)
      (fun ys after => C after.2 ys ∧ ys.length = xs.length) bad := by
  refine ends_mapM (I := fun done ys after => C after.2 ys ∧ ys.length = done.length)
    (fun done x rest ys before hxs hI => ?_) ⟨h, rfl⟩
  refine (ends_call (hc x (hxs ▸ by simp) before.2 ys hI.1) hadapter).imp (fun y after hy => ?_)
    fun _ hbad => hbad
  exact ⟨hy, by rw [List.length_append, List.length_append, hI.2]; rfl⟩

/-- **As many accounts and contracts are created as are configured**, if the builder does not fail
and can create the resources. -/
theorem provide_ends (hserves : builder.Serves holds writes faulty) (b : Benchmark)
    {source : Random.Source} {state : β} (h : holds state [] []) {bad : PlanStop → Prop}
    (hadapter : ∀ fault, faulty fault → bad (.fault (.adapter fault)))
    (hunsupported : ¬ builder.Supports b → ∀ what, bad (.fault (.unsupported what))) :
    Ends (provide builder b) (source, state) (fun p after => Provided b holds p after.2) bad := by
  unfold provide
  by_cases hlack : b.resources ≠ [] ∧ !builder.capabilities.resources
  · rw [if_pos hlack]
    refine Ends.bind (ends_throw (hunsupported (fun hsupports => ?_) _))
    have := hsupports.resources hlack.1
    simp [this] at hlack
  rw [if_neg hlack]
  refine Ends.bind ((create_ends (C := fun b' ys => holds b' ys [])
    (fun stake _ b' ys hheld => hserves.account hheld stake) h hadapter).imp
    (fun accounts between haccounts => ?_) fun _ hbad => hbad)
  refine Ends.bind ((create_ends (C := fun b' ys => holds b' accounts ys)
    (fun name _ b' ys hheld => hserves.contract hheld name) haccounts.1 hadapter).imp
    (fun contracts between' hcontracts => ?_) fun _ hbad => hbad)
  refine Ends.bind ((create_ends (C := fun b' _ => holds b' accounts contracts)
    (fun domain hdomain b' ys hheld => hserves.resource ?_ hheld domain) hcontracts.1 hadapter).imp
    (fun _ after hafter => ends_pure ⟨?_, ?_, hafter.1⟩) fun _ hbad => hbad)
  · have hasked : b.resources ≠ [] := List.ne_nil_of_mem hdomain
    simpa [hasked] using hlack
  · simpa using haccounts.2
  · simpa using hcontracts.2

/-! ### Interactions -/

theorem pairOf_lt {n first second : ℕ} (hfirst : first < n) (hsecond : second < n - 1) :
    (pairOf first second).1 < n ∧ (pairOf first second).2 < n ∧
      (pairOf first second).1 ≠ (pairOf first second).2 := by
  unfold pairOf
  dsimp only
  split_ifs <;> omega

theorem getD_mem {xs : Array ℕ} {i : ℕ} (h : i < xs.size) : xs.getD i 0 ∈ xs.toList := by
  simp [Array.getD, h]

end Plan

/-- What the interaction numbered `i` of a workload may do with what was created: a transfer is
between two different accounts, and the contracts are called in turn. -/
def Workload.Asks (w : Workload) (p : Plan.Provisions) (i : ℕ) (t : Transaction) : Prop :=
  match w.kind with
  | .transfer stake => ∃ sender receiver, sender < p.accounts.size ∧ receiver < p.accounts.size ∧
      sender ≠ receiver ∧
      t = .transfer (p.accounts.getD sender 0) (p.accounts.getD receiver 0) stake
  | .invoke => ∃ sender < p.accounts.size,
      t = .invoke (p.accounts.getD sender 0) (p.contracts.getD (i % p.contracts.size) 0)
  | .custom name => t = .custom name

namespace Plan

variable {β : Type} {builder : Builder β} {holds : β → List ℕ → List ℕ → Prop}
  {writes : Transaction → Bytes → Prop} {faulty : AdapterFault → Prop}
  {p : Provisions} {w : Workload} {place : ℕ}

/-- A payload is written for what the workload asks for. -/
theorem payload_ends (hserves : builder.Serves holds writes faulty)
    (hclear : obstacle? builder p w place = none) {source : Random.Source} {state : β}
    (h : holds state p.accounts.toList p.contracts.toList) {bad : PlanStop → Prop}
    (hadapter : ∀ fault, faulty fault → bad (.fault (.adapter fault))) (i : ℕ) :
    Ends (payload builder p w.kind i) (source, state) (fun octets after =>
      (∃ t, w.Asks p i t ∧ writes t octets) ∧
        holds after.2 p.accounts.toList p.contracts.toList) bad := by
  unfold obstacle? at hclear
  unfold payload Workload.Asks
  cases hkind : w.kind with
  | transfer stake =>
    simp only [hkind] at hclear ⊢
    have henough : ¬ p.accounts.size < 2 := by
      intro hfew
      rw [if_pos hfew] at hclear
      cases hclear
    refine Ends.bind ?_
    unfold drawPair
    refine Ends.bind ((ends_draw (by omega) source state).imp (fun first between hfirst => ?_)
      fun _ hbad => hbad)
    obtain ⟨source', state'⟩ := between
    obtain ⟨hfirst, rfl⟩ := hfirst
    refine Ends.bind ((ends_draw (by omega) source' state').imp (fun second between hsecond => ?_)
      fun _ hbad => hbad)
    obtain ⟨source'', state''⟩ := between
    obtain ⟨hsecond, rfl⟩ := hsecond
    obtain ⟨hsender, hreceiver, hne⟩ := pairOf_lt hfirst hsecond
    refine ends_pure ((ends_call (hserves.transfer h (getD_mem hsender) (getD_mem hreceiver) stake)
      hadapter).imp (fun octets after hwrites => ?_) fun _ hbad => hbad)
    exact ⟨⟨_, ⟨_, _, hsender, hreceiver, hne, rfl⟩, hwrites.1⟩, hwrites.2⟩
  | invoke =>
    simp only [hkind] at hclear ⊢
    have hany : 0 < p.accounts.size ∧ 0 < p.contracts.size := by
      split_ifs at hclear
      omega
    refine Ends.bind ((ends_draw hany.1 source state).imp (fun sender between hsender => ?_)
      fun _ hbad => hbad)
    obtain ⟨source', state'⟩ := between
    obtain ⟨hsender, rfl⟩ := hsender
    refine (ends_call (hserves.invoke h (getD_mem hsender)
      (getD_mem (Nat.mod_lt i hany.2))) hadapter).imp (fun octets after hwrites => ?_)
      fun _ hbad => hbad
    exact ⟨⟨_, ⟨sender, hsender, rfl⟩, hwrites.1⟩, hwrites.2⟩
  | custom name =>
    simp only [hkind] at hclear ⊢
    have hable : builder.capabilities.customInteractions = true := by
      by_contra hnot
      rw [if_neg hnot] at hclear
      cases hclear
    refine (ends_call (hserves.interaction hable h name) hadapter).imp
      (fun octets after hwrites => ?_) fun _ hbad => hbad
    exact ⟨⟨_, rfl, hwrites.1⟩, hwrites.2⟩

/-- What is made for a workload: each of its interactions in its turn, due when it is to be and with
a payload for what the workload asks for. -/
structure Streams (p : Provisions) (writes : Transaction → Bytes → Prop) (w : Workload)
    (xs : List Interaction) : Prop where
  length : xs.length = w.count
  due : ∀ i x, xs[i]? = some x → w.due? i = some x.due
  payload : ∀ i x, xs[i]? = some x → ∃ t, w.Asks p i t ∧ writes t x.payload

/-- A workload against which something stands gives nothing. -/
theorem interactions_blocked {fault : PlanFault} (h : obstacle? builder p w place = some fault)
    {before : Random.Source × β} {good : List Interaction → Random.Source × β → Prop}
    {bad : PlanStop → Prop} (hbad : bad (.fault fault)) :
    Ends (interactions builder p w place) before good bad := by
  unfold interactions
  rw [h]
  exact ends_throw hbad

/-- A workload against which nothing stands gives its interactions, unless the builder fails or one
of them is due too late. -/
theorem interactions_ends (hserves : builder.Serves holds writes faulty)
    (hclear : obstacle? builder p w place = none) {source : Random.Source} {state : β}
    (h : holds state p.accounts.toList p.contracts.toList) {bad : PlanStop → Prop}
    (hadapter : ∀ fault, faulty fault → bad (.fault (.adapter fault)))
    (hlate : ∀ i < w.count, w.due? i = none → bad .outOfRange) :
    Ends (interactions builder p w place) (source, state) (fun xs after => Streams p writes w xs ∧
      holds after.2 p.accounts.toList p.contracts.toList) bad := by
  unfold interactions
  rw [hclear]
  refine (ends_mapM_forall₂ (I := fun after => holds after.2 p.accounts.toList p.contracts.toList)
    (R := fun i x => w.due? i = some x.due ∧ ∃ t, w.Asks p i t ∧ writes t x.payload)
    (fun i hi before hI => ?_) h).imp (fun xs after hxs => ?_) fun _ hbad => hbad
  · obtain ⟨source', state'⟩ := before
    rw [interaction_fixedPayload]
    unfold interaction
    cases hdue : w.due? i with
    | none => exact ends_throw (hlate i (List.mem_range.mp hi) hdue)
    | some due =>
      refine Ends.bind ((payload_ends hserves hclear hI hadapter i).imp
        (fun octets after hoctets => ?_) fun _ hbad => hbad)
      exact ends_pure ⟨⟨rfl, hoctets.1⟩, hoctets.2⟩
  · have hlength := hxs.1.length_eq
    rw [List.length_range] at hlength
    have hat (i : ℕ) (x : Interaction) (hx : xs[i]? = some x) :
        w.due? i = some x.due ∧ ∃ t, w.Asks p i t ∧ writes t x.payload := by
      obtain ⟨hi, rfl⟩ := List.getElem?_eq_some_iff.mp hx
      have hmade := hxs.1.get (i := i) (by rw [List.length_range]; omega) hi
      rwa [List.get_eq_getElem, List.getElem_range] at hmade
    exact ⟨⟨hlength.symm, fun i x hx => (hat i x hx).1, fun i x hx => (hat i x hx).2⟩, hxs.2⟩

end Plan

/-! ### Accepted benchmarks -/

namespace Benchmark

variable {b : Benchmark}

/-- A benchmark is accepted if there is no first fault, and refused for the first one. -/
theorem validate_cases (b : Benchmark) :
    b.validate = .ok () ∧ b.workloads.zipIdx.findSome? (fun x => b.fault? x.1 x.2) = none ∨
      ∃ fault, b.validate = .error fault ∧
        b.workloads.zipIdx.findSome? (fun x => b.fault? x.1 x.2) = some fault := by
  unfold validate
  split
  · exact Or.inr ⟨_, rfl, ‹_›⟩
  · exact Or.inl ⟨rfl, ‹_›⟩

theorem validate_eq_ok_iff : b.validate = .ok () ↔
    ∀ place w, b.workloads[place]? = some w → b.fault? w place = none := by
  rcases b.validate_cases with ⟨hok, hnone⟩ | ⟨fault, herror, hsome⟩
  · refine ⟨fun _ place w hw => ?_, fun _ => hok⟩
    exact List.findSome?_eq_none_iff.mp hnone (w, place) (List.mem_zipIdx_iff_getElem?.mpr hw)
  · rw [herror]
    refine ⟨nofun, fun h => ?_⟩
    obtain ⟨x, hx, hfault⟩ := List.exists_of_findSome?_eq_some hsome
    rw [h x.2 x.1 (List.mem_zipIdx_iff_getElem?.mp hx)] at hfault
    cases hfault

theorem isRate_of_accepted {w : Workload} {place : ℕ} (h : b.fault? w place = none) :
    isRate w.rate = true := by
  by_contra hrate
  rw [fault?, if_pos (by simpa using hrate)] at h
  cases h

theorem enough_of_accepted {w : Workload} {place : ℕ} (h : b.fault? w place = none) {stake : ℕ}
    (hkind : w.kind = .transfer stake) : 2 ≤ b.accounts.count := by
  rw [fault?, if_neg (by simp [isRate_of_accepted h]), hkind] at h
  refine Nat.not_lt.mp fun hfew => ?_
  rw [if_pos hfew] at h
  cases h

theorem callable_of_accepted {w : Workload} {place : ℕ} (h : b.fault? w place = none)
    (hkind : w.kind = .invoke) : 0 < b.accounts.count ∧ 0 < b.contracts.length := by
  rw [fault?, if_neg (by simp [isRate_of_accepted h]), hkind] at h
  have hany : ¬ (b.accounts.count = 0 ∨ b.contracts = []) := by
    intro hnothing
    rw [if_pos hnothing] at h
    cases h
  rw [not_or] at hany
  exact ⟨Nat.pos_of_ne_zero hany.1, List.length_pos_iff.mpr hany.2⟩

theorem fault?_of_validate (h : b.validate = .ok ()) {w : Workload} (hw : w ∈ b.workloads) :
    ∃ place, b.fault? w place = none := by
  obtain ⟨place, hplace⟩ := List.mem_iff_getElem?.mp hw
  exact ⟨place, validate_eq_ok_iff.mp h place w hplace⟩

theorem isRate_of_validate (h : b.validate = .ok ()) {w : Workload} (hw : w ∈ b.workloads) :
    isRate w.rate = true :=
  have ⟨_, hfault⟩ := fault?_of_validate h hw
  isRate_of_accepted hfault

end Benchmark

namespace Plan

variable {β : Type} {builder : Builder β} {holds : β → List ℕ → List ℕ → Prop}
  {writes : Transaction → Bytes → Prop} {faulty : AdapterFault → Prop} {b : Benchmark}

/-- Against a workload that is accepted nothing stands but that the builder has no interactions of
its own. -/
theorem obstacle?_of_accepted {p : Provisions} {state : β} (hp : Provided b holds p state)
    {w : Workload} (hw : w ∈ b.workloads) {place : ℕ} (h : b.fault? w place = none) :
    obstacle? builder p w place = none ∨
      ∃ what, obstacle? builder p w place = some (.unsupported what) ∧ ¬ builder.Supports b := by
  unfold obstacle?
  have haccounts := hp.accounts
  have hcontracts := hp.contracts
  cases hkind : w.kind with
  | transfer stake =>
    have henough := Benchmark.enough_of_accepted h hkind
    exact Or.inl (if_neg (by omega))
  | invoke =>
    obtain ⟨hany, hcallable⟩ := Benchmark.callable_of_accepted h hkind
    exact Or.inl ((if_neg (by omega)).trans (if_neg (by omega)))
  | custom name =>
    simp only
    by_cases hable : builder.capabilities.customInteractions = true
    · exact Or.inl (if_pos hable)
    · exact Or.inr ⟨_, if_neg hable, fun hsupports =>
        hable (hsupports.interactions w hw name hkind)⟩

/-- A workload that is accepted gives its interactions, or there is an excuse. -/
theorem interactions_of_accepted (hserves : builder.Serves holds writes faulty) {p : Provisions}
    {state : β} (hp : Provided b holds p state) {w : Workload} (hw : w ∈ b.workloads) {place : ℕ}
    (hfault : b.fault? w place = none) {before : Random.Source × β}
    (h : holds before.2 p.accounts.toList p.contracts.toList) :
    Ends (interactions builder p w place) before (fun xs after => Streams p writes w xs ∧
      holds after.2 p.accounts.toList p.contracts.toList) (Excuse builder b faulty) := by
  rcases obstacle?_of_accepted hp hw hfault with hclear | ⟨what, hblocked, hnot⟩
  · refine interactions_ends hserves hclear h (fun _ hfault => hfault) fun i hi hlate hfits => ?_
    have hdue := hfits.due w hw i hi
    rw [hlate] at hdue
    cases hdue
  · exact interactions_blocked hblocked hnot

/-- A builder that does whatever it is asked for leaves no other excuse than a lack of room. -/
theorem Excuse.outOfRange (hsupports : builder.Supports b) {stop : PlanStop}
    (h : Excuse builder b (fun _ => False) stop) : stop = .outOfRange ∧ ¬ b.Fits := by
  rcases stop with fault | _ | _
  · cases fault with
    | unsupported what => exact absurd hsupports h
    | _ => exact h.elim
  · exact ⟨rfl, h⟩
  · exact h.elim

/-- **Planning of an accepted benchmark**: each workload gives its interactions, or there is an
excuse. -/
theorem schedule_ends (hserves : builder.Serves holds writes faulty)
    (hvalid : b.validate = .ok ()) (source : Random.Source) {state : β} (h : holds state [] []) :
    Ends (schedule builder b) (source, state) (fun xs after => ∃ p parts,
      Provided b holds p after.2 ∧ List.Forall₂ (Streams p writes) b.workloads parts ∧
        b.total ≤ greatestLength ∧ xs = sorted parts.flatten) (Excuse builder b faulty) := by
  unfold schedule
  refine Ends.bind ((provide_ends hserves b h (fun _ hfault => hfault) fun hnot _ => hnot).imp
    (fun p between hp => ?_) fun _ hbad => hbad)
  by_cases hlong : greatestLength < b.total
  · rw [if_pos hlong]
    exact Ends.bind (ends_throw fun hfits => absurd hfits.total (Nat.not_le.mpr hlong))
  rw [if_neg hlong]
  refine Ends.bind ((ends_mapM_forall₂
    (I := fun after => holds after.2 p.accounts.toList p.contracts.toList)
    (R := fun w xs => Streams p writes w.1 xs) (fun w hw before hI => ?_) hp.holds).imp
    (fun parts after hparts => ends_pure ?_) fun _ hbad => hbad)
  · obtain ⟨w, place⟩ := w
    have hplace := List.mem_zipIdx_iff_getElem?.mp hw
    exact interactions_of_accepted hserves hp (List.mem_of_getElem? hplace)
      (Benchmark.validate_eq_ok_iff.mp hvalid place w hplace) hI
  · refine ⟨p, parts, { hp with holds := hparts.2 }, ?_, Nat.not_lt.mp hlong, rfl⟩
    rw [← List.zipIdx_map_fst 0 b.workloads, List.forall₂_map_left_iff]
    exact hparts.1

/-- A benchmark that gives each workload its interactions fits. -/
theorem fits_of_streams {p : Provisions} {parts : List (List Interaction)}
    (htotal : b.total ≤ greatestLength)
    (hparts : List.Forall₂ (Streams p writes) b.workloads parts) : b.Fits := by
  refine ⟨htotal, fun w hw i hi => ?_⟩
  obtain ⟨place, hplace, rfl⟩ := List.mem_iff_getElem.mp hw
  have hplace' : place < parts.length := hparts.length_eq ▸ hplace
  have hstreams : Streams p writes b.workloads[place] parts[place] := hparts.get hplace hplace'
  have hi' : i < parts[place].length := hstreams.length ▸ hi
  rw [hstreams.due i _ (List.getElem?_eq_getElem hi')]
  rfl

end Plan

/-- What planning gives for an accepted benchmark: shards that are dealt from the interactions of
all workloads, or an excuse. -/
theorem plan_cases {β : Type} {builder : Builder β} {holds : β → List ℕ → List ℕ → Prop}
    {writes : Transaction → Bytes → Prop} {faulty : AdapterFault → Prop} {b : Benchmark}
    (hserves : builder.Serves holds writes faulty) (hvalid : b.validate = .ok ()) {state : β}
    (h : holds state [] []) {secondaries : ℕ} (hpos : 0 < secondaries) (seed : ℕ) :
    (∃ p parts after, Plan.Provided b holds p after ∧
      List.Forall₂ (Plan.Streams p writes) b.workloads parts ∧ b.Fits ∧
        plan builder state b secondaries seed =
          .ok (RoundRobin.deal secondaries (Plan.sorted parts.flatten))) ∨
    ∃ stop, plan builder state b secondaries seed = .error stop ∧
      Plan.Excuse builder b faulty stop := by
  rcases (Plan.schedule_ends hserves hvalid (.ofSeed seed) h).cases with
    ⟨xs, after, hschedule, p, parts, hp, hparts, htotal, rfl⟩ | ⟨stop, hstop, hexcuse⟩
  · exact Or.inl ⟨p, parts, after.2, hp, hparts, Plan.fits_of_streams htotal hparts,
      plan_of_schedule hpos hschedule⟩
  · exact Or.inr ⟨stop, plan_of_schedule_error hpos hstop, hexcuse⟩

end LedgerLoad
