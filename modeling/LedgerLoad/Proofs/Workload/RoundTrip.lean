import LedgerLoad.Proofs.Document
import LedgerLoad.Proofs.Workload.Message

/-! # Work as a document and back

The document of a message is read as the message with its times in whole microseconds
(`WorkloadMessage.ofDocument_toDocument_eq`). Conversely a document is read as a message exactly if
its first two elements and the length of every other one are as they should be
(`WorkloadMessage.exists_ofDocument_iff`), and then all but the parameters is written again octet
for octet. Main statement: `WorkloadMessage.document_exchange`. -/

namespace LedgerLoad

/-! ### Tables that were written -/

theorem bind_of_ok {ε α γ : Type} {x : Except ε α} {a : α} {f : α → Except ε γ} (h : x = .ok a) :
    x >>= f = f a := by
  rw [h]
  rfl

theorem need_some {α : Type} (name : String) (x : α) : need name (some x) = .ok x := rfl

theorem fill_of_ok {α : Type} (name : String) {value : Except DataFault α} {x : α}
    (h : value = .ok x) : fill name none value = .ok (some x) := by
  rw [fill, h]
  rfl

theorem Entries.readInto_ofList {σ : Type} (entry : σ → String → Datum → Except DataFault σ) (s : σ)
    (es : List (String × Datum)) :
    (Entries.ofList es).readInto entry s = es.foldlM (fun s e => entry s e.1 e.2) s := by
  induction es generalizing s with
  | nil => rfl
  | cons e es ih =>
    rw [Entries.ofList, Entries.readInto, List.foldlM_cons]
    simp only [ih]

/-- A dictionary is read back from a table of its values, if each value is. -/
theorem Datum.asDictionary_ofEntries {α : Type} {value : Datum → Except DataFault α}
    {write : α → Datum} (hvalue : ∀ x, value (write x) = .ok x) (d : Dictionary α) :
    (Datum.ofEntries (d.entries.map fun e => (e.1, write e.2))).asDictionary value = .ok d := by
  have hfold (es : List (String × α)) (start : Dictionary α) :
      (es.map fun e => (e.1, write e.2)).foldlM
        (fun d e => (value e.2).map (d.insert e.1)) start =
      .ok (es.foldl (fun d e => d.insert e.1 e.2) start) := by
    induction es generalizing start with
    | nil => rfl
    | cons e es ih =>
      rw [List.map_cons, List.foldlM_cons, hvalue, List.foldl_cons]
      exact ih _
  rw [Datum.ofEntries, Datum.asDictionary, Entries.readInto_ofList, hfold]
  exact congrArg Except.ok (Dictionary.ofList_entries d)

theorem Datum.writable_ofNat {n : Nat} (h : n < 2 ^ 64) : (Datum.ofNat n).Writable :=
  ⟨Int.le_trans (by decide) (Int.natCast_nonneg n), Int.ofNat_lt.mpr h⟩

theorem Datum.asNat_ofNat {n limit : Nat} (h : n < limit) : (Datum.ofNat n).asNat limit = .ok n :=
  if_pos ⟨Int.natCast_nonneg n, Int.ofNat_lt.mpr h⟩

/-! ### Spans of time -/

namespace Duration

theorem seconds_lt {d : Duration} (h : d ≤ longest) : d.seconds < 2 ^ 64 := by
  have hle : d.nanos ≤ 2 ^ 64 * second - 1 := h
  have hpos : 0 < 2 ^ 64 * second := by decide
  refine Nat.div_lt_of_lt_mul ?_
  rw [Nat.mul_comm]
  omega

theorem subsecond_lt (d : Duration) : d.subsecond < second := Nat.mod_lt _ (by decide)

theorem writable_toDatum {d : Duration} (h : d ≤ longest) : d.toDatum.Writable := by
  have hlt : second < 2 ^ 64 := by decide
  rw [toDatum, Datum.writable_ofEntries]
  intro e he
  simp only [List.mem_cons, List.not_mem_nil, or_false] at he
  rcases he with rfl | rfl
  · exact Datum.writable_ofNat (seconds_lt h)
  · exact Datum.writable_ofNat (Nat.lt_trans d.subsecond_lt hlt)

theorem ofDatum_parts {first last : Datum} {seconds nanos : Nat}
    (hseconds : first.asWord = .ok seconds) (hnanos : last.asNat (2 ^ 32) = .ok nanos) :
    ofDatum (.ofEntries [("secs", first), ("nanos", last)]) = ofParts seconds nanos := by
  have hfirst : entry (none, none) "secs" first = .ok (some seconds, none) := by
    rw [entry, if_pos rfl]
    exact bind_of_ok (fill_of_ok "secs" hseconds)
  have hlast : entry (some seconds, none) "nanos" last = .ok (some seconds, some nanos) := by
    rw [entry, if_neg (by decide), if_pos rfl]
    exact bind_of_ok (fill_of_ok "nanos" hnanos)
  have hparts : (Entries.ofList [("secs", first), ("nanos", last)]).readInto entry (none, none) =
      .ok (some seconds, some nanos) := by
    rw [Entries.readInto_ofList]
    exact (bind_of_ok hfirst).trans (bind_of_ok hlast)
  rw [Datum.ofEntries, ofDatum, bind_of_ok hparts, bind_of_ok (need_some _ _),
    bind_of_ok (need_some _ _)]

/-- A span is read back. -/
theorem ofDatum_reread {d : Duration} (h : d ≤ longest) : ofDatum d.toDatum.reread = .ok d := by
  have hlt : second < 2 ^ 32 := by decide
  have hwhole : d.seconds * second + d.subsecond = d.nanos := Nat.div_add_mod' d.nanos second
  have hreread : d.toDatum.reread = d.toDatum := by
    rw [toDatum, Datum.reread_ofEntries]
    rfl
  rw [hreread, toDatum, ofDatum_parts (Datum.asNat_ofNat (seconds_lt h))
    (Datum.asNat_ofNat (Nat.lt_trans d.subsecond_lt hlt)), ofParts]
  simp only [hwhole]
  exact if_pos h

end Duration

/-! ### Parameters -/

theorem Parameters.writable_toDatum (p : Parameters) : (Parameters.toDatum p).Writable := by
  rw [Parameters.toDatum, Datum.writable_ofEntries]
  intro e he
  obtain ⟨entry, -, rfl⟩ := List.mem_map.mp he
  exact Datum.writable_text _

theorem Parameters.ofDatum_reread (p : Parameters) :
    Parameters.ofDatum (Parameters.toDatum p).reread = .ok p := by
  have htext (text : String) : Datum.asText (Datum.text text) = .ok text := rfl
  rw [Parameters.toDatum, Datum.reread_ofEntries, List.map_map]
  exact Datum.asDictionary_ofEntries htext p

theorem Endpoints.writable_toDatum (e : Endpoints) : (Endpoints.toDatum e).Writable := by
  rw [Endpoints.toDatum, Datum.writable_ofEntries]
  intro x hx
  obtain ⟨entry, -, rfl⟩ := List.mem_map.mp hx
  rw [Datum.writable_ofItems]
  intro text htext
  obtain ⟨s, -, rfl⟩ := List.mem_map.mp htext
  exact Datum.writable_text _

theorem Endpoints.ofDatum_reread (e : Endpoints) :
    Endpoints.ofDatum (Endpoints.toDatum e).reread = .ok e := by
  have hgroup (group : List String) :
      Datum.asList Datum.asText (Datum.ofItems (group.map Datum.text)) = .ok group :=
    Document.read_texts group
  have hreread : (Endpoints.toDatum e).reread =
      Datum.ofEntries (e.entries.map fun x => (x.1, Datum.ofItems (x.2.map Datum.text))) := by
    rw [Endpoints.toDatum, Datum.reread_ofEntries, List.map_map]
    simp [Function.comp_def]
  rw [hreread]
  exact Datum.asDictionary_ofEntries hgroup e

namespace RunParameters

theorem writable_toDatum {p : RunParameters} (hdelay : p.maxDelay ≤ .longest)
    (hskew : p.maxSkew ≤ .longest) : p.toDatum.Writable := by
  rw [toDatum, Datum.writable_ofEntries]
  intro e he
  simp only [List.mem_cons, List.not_mem_nil, or_false] at he
  rcases he with rfl | rfl | rfl | rfl
  · exact Endpoints.writable_toDatum p.endpoints
  · exact Parameters.writable_toDatum p.parameters
  · exact Duration.writable_toDatum hdelay
  · exact Duration.writable_toDatum hskew

theorem ofDatum_fields {p : RunParameters} {endpoints parameters delay skew : Datum}
    (hendpoints : Endpoints.ofDatum endpoints = .ok p.endpoints)
    (hparameters : Parameters.ofDatum parameters = .ok p.parameters)
    (hdelay : Duration.ofDatum delay = .ok p.maxDelay)
    (hskew : Duration.ofDatum skew = .ok p.maxSkew) :
    ofDatum (.ofEntries [("endpoints", endpoints), ("parameters", parameters),
      ("max_delay", delay), ("max_skew", skew)]) = .ok p := by
  have h₁ : Draft.entry ⟨none, none, none, none⟩ "endpoints" endpoints =
      .ok ⟨some p.endpoints, none, none, none⟩ := by
    rw [Draft.entry, if_pos rfl]
    exact bind_of_ok (fill_of_ok "endpoints" hendpoints)
  have h₂ : Draft.entry ⟨some p.endpoints, none, none, none⟩ "parameters" parameters =
      .ok ⟨some p.endpoints, some p.parameters, none, none⟩ := by
    rw [Draft.entry, if_neg (by decide), if_pos rfl]
    exact bind_of_ok (fill_of_ok "parameters" hparameters)
  have h₃ : Draft.entry ⟨some p.endpoints, some p.parameters, none, none⟩ "max_delay" delay =
      .ok ⟨some p.endpoints, some p.parameters, some p.maxDelay, none⟩ := by
    rw [Draft.entry, if_neg (by decide), if_neg (by decide), if_pos rfl]
    exact bind_of_ok (fill_of_ok "max_delay" hdelay)
  have h₄ : Draft.entry ⟨some p.endpoints, some p.parameters, some p.maxDelay, none⟩ "max_skew"
      skew = .ok ⟨some p.endpoints, some p.parameters, some p.maxDelay, some p.maxSkew⟩ := by
    rw [Draft.entry, if_neg (by decide), if_neg (by decide), if_neg (by decide), if_pos rfl]
    exact bind_of_ok (fill_of_ok "max_skew" hskew)
  have hfields : (Entries.ofList [("endpoints", endpoints), ("parameters", parameters),
      ("max_delay", delay), ("max_skew", skew)]).readInto Draft.entry ⟨none, none, none, none⟩ =
      .ok ⟨some p.endpoints, some p.parameters, some p.maxDelay, some p.maxSkew⟩ := by
    rw [Entries.readInto_ofList]
    exact (bind_of_ok h₁).trans ((bind_of_ok h₂).trans ((bind_of_ok h₃).trans (bind_of_ok h₄)))
  rw [Datum.ofEntries, ofDatum, bind_of_ok hfields]
  rfl

/-- **Parameters of a run are read back** from their JSON text. -/
theorem decode_encode {p : RunParameters} (hdelay : p.maxDelay ≤ .longest)
    (hskew : p.maxSkew ≤ .longest) : Json.decode ofDatum (Json.encode p.toDatum) = .ok p := by
  rw [Json.decode_encode _ (writable_toDatum hdelay hskew), toDatum, Datum.reread_ofEntries]
  exact ofDatum_fields (Endpoints.ofDatum_reread _) (Parameters.ofDatum_reread _)
    (Duration.ofDatum_reread hdelay) (Duration.ofDatum_reread hskew)

end RunParameters

/-! ### Interactions -/

/-- An interaction that was read is written as the octets it was read from. -/
theorem Interaction.encode_of_decode {octets : Bytes} {i : Interaction}
    (h : decode octets = .ok i) : 8 ≤ octets.length ∧ i.encode = octets := by
  unfold decode at h
  split at h
  · cases h
  · rename_i hlength
    obtain rfl := Except.ok.inj h
    have htake : (octets.take 8).length = 8 := by
      rw [List.length_take]
      omega
    have hwritten := Bytes.leOctets_leValue (octets.take 8)
    rw [htake] at hwritten
    have hlt : Bytes.leValue (octets.take 8) < 256 ^ 8 := by
      rw [← hwritten, Bytes.leValue_leOctets]
      exact Nat.mod_lt _ (by decide)
    have hmicros : (Duration.ofMicros (Bytes.leValue (octets.take 8))).micros =
        Bytes.leValue (octets.take 8) := Nat.mul_div_cancel _ (by decide)
    have hgreatest : greatestTime + 1 = 256 ^ 8 := by decide
    refine ⟨by omega, ?_⟩
    rw [encode, hmicros, Nat.min_eq_left (by omega), hwritten]
    exact List.take_append_drop 8 octets

theorem Interaction.decode_long {octets : Bytes} (h : 8 ≤ octets.length) :
    ∃ i, decode octets = .ok i := ⟨_, if_neg (by omega)⟩

namespace WorkloadMessage

theorem readShard_eq_ok {index : Nat} {elements : List Bytes} {shard : Shard}
    (h : readShard index elements = .ok shard) :
    (∀ octets ∈ elements, 8 ≤ octets.length) ∧ shard.map Interaction.encode = elements := by
  induction elements generalizing index shard with
  | nil =>
    cases h
    exact ⟨fun _ ho => (List.not_mem_nil ho).elim, rfl⟩
  | cons octets elements ih =>
    unfold readShard at h
    cases hfirst : Interaction.decode octets with
    | error fault =>
      rw [hfirst] at h
      cases h
    | ok i =>
      rw [hfirst] at h
      obtain ⟨rest, hrest, rfl⟩ := Except.map_eq_ok h
      obtain ⟨hlength, hoctets⟩ := Interaction.encode_of_decode hfirst
      obtain ⟨hlong, helements⟩ := ih hrest
      refine ⟨List.forall_mem_cons.mpr ⟨hlength, hlong⟩, ?_⟩
      rw [List.map_cons, hoctets, helements]

/-- What was read is what is left of interactions that were sent, so no time is out of reach. -/
theorem due_of_readShard {index : Nat} {elements : List Bytes} {shard : Shard}
    (h : readShard index elements = .ok shard) : ∀ i ∈ shard, i.due < .ofMicros (2 ^ 64) := by
  obtain ⟨-, rfl⟩ := readShard_eq_ok h
  rw [readShard_encode] at h
  intro i hi
  rw [← Except.ok.inj h] at hi
  obtain ⟨j, -, rfl⟩ := List.mem_map.mp hi
  have hgreatest : Interaction.greatestTime = 2 ^ 64 - 1 := rfl
  show min j.due.micros Interaction.greatestTime * 1000 < 2 ^ 64 * 1000
  omega

/-- Elements are read up to the first that is too short, and that one is named. -/
theorem readShard_short (index : Nat) {earlier : List Bytes} {octets : Bytes}
    (hearlier : ∀ e ∈ earlier, 8 ≤ e.length) (hshort : octets.length < 8) (later : List Bytes) :
    readShard index (earlier ++ octets :: later) =
      .error (.invalidElement (index + earlier.length) (ShortInteraction.message ⟨octets.length⟩)) := by
  induction earlier generalizing index with
  | nil =>
    rw [List.nil_append, readShard, Interaction.decode, if_pos hshort]
    rfl
  | cons e earlier ih =>
    obtain ⟨hlong, hearlier⟩ := List.forall_mem_cons.mp hearlier
    obtain ⟨i, hi⟩ := Interaction.decode_long hlong
    rw [List.cons_append, readShard, hi, List.length_cons, Nat.add_comm earlier.length 1,
      ← Nat.add_assoc]
    simp only [ih (index + 1) hearlier]
    rfl

theorem readShard_long (index : Nat) {elements : List Bytes}
    (h : ∀ octets ∈ elements, 8 ≤ octets.length) :
    ∃ shard, readShard index elements = .ok shard := by
  induction elements generalizing index with
  | nil => exact ⟨[], rfl⟩
  | cons octets elements ih =>
    obtain ⟨hlong, helements⟩ := List.forall_mem_cons.mp h
    obtain ⟨i, hi⟩ := Interaction.decode_long hlong
    obtain ⟨shard, hshard⟩ := ih (index + 1) helements
    refine ⟨i :: shard, ?_⟩
    rw [readShard, hi]
    simp only [hshard]
    rfl

/-! ### Messages -/

/-- What is left of a message that was sent: its times in whole microseconds. -/
def sent (m : WorkloadMessage) : WorkloadMessage :=
  { m with shard := m.shard.map Interaction.sent }

/-- `Heads d ledger parameters rest`: the first two elements of a document are good ones, a text and
parameters, and `rest` stands behind them. -/
def Heads (d : Document) (ledger : String) (parameters : RunParameters) (rest : List Bytes) :
    Prop :=
  ∃ octets, d.elements = Utf8.encode ledger :: octets :: rest ∧
    Json.decode RunParameters.ofDatum octets = .ok parameters

/-- Behind good heads it depends on the interactions alone what is read. -/
theorem ofDocument_heads {d : Document} {ledger : String} {parameters : RunParameters}
    {rest : List Bytes} (h : Heads d ledger parameters rest) :
    ofDocument d = (readShard 2 rest).map fun shard => ⟨ledger, parameters, shard⟩ := by
  obtain ⟨octets, helements, hparameters⟩ := h
  have htwo : d.require 2 = .ok () := by
    rw [Document.require, helements, if_neg (by simp)]
  have htext : d.text 0 = .ok ledger := by
    rw [Document.text, helements]
    simp [Utf8.decode_encode]
  have hsecond : d.elements.getD 1 [] = octets := by rw [helements]; rfl
  have hrest : d.elements.drop 2 = rest := by rw [helements]; rfl
  rw [ofDocument, bind_of_ok htwo, bind_of_ok htext, hsecond, hparameters, hrest]
  cases readShard 2 rest <;> rfl

theorem text_zero {octets : Bytes} {elements : List Bytes} {ledger : String}
    (h : Document.text ⟨octets :: elements⟩ 0 = .ok ledger) : octets = Utf8.encode ledger := by
  unfold Document.text at h
  cases hdecode : Utf8.decode octets with
  | error fault => simp [hdecode] at h
  | ok s =>
    simp [hdecode] at h
    rw [← h, Utf8.encode_of_decode hdecode]

/-- **What is read as a message**: good heads, and interactions behind them. -/
theorem ofDocument_eq_ok_iff {d : Document} {m : WorkloadMessage} : ofDocument d = .ok m ↔
    ∃ rest, Heads d m.ledger m.parameters rest ∧ readShard 2 rest = .ok m.shard := by
  constructor
  · intro h
    obtain ⟨elements⟩ := d
    match elements, h with
    | [], h => cases h
    | [_], h => cases h
    | first :: octets :: rest, h =>
      unfold ofDocument at h
      cases htext : Document.text ⟨first :: octets :: rest⟩ 0 with
      | error fault =>
        rw [htext] at h
        cases h
      | ok ledger =>
        cases hparameters : Json.decode RunParameters.ofDatum octets with
        | error fault =>
          rw [htext] at h
          simp only [List.getD_cons_succ, List.getD_cons_zero, hparameters] at h
          cases h
        | ok parameters =>
          have hheads : Heads ⟨first :: octets :: rest⟩ ledger parameters rest :=
            ⟨octets, by rw [text_zero htext], hparameters⟩
          change ofDocument ⟨first :: octets :: rest⟩ = .ok m at h
          rw [ofDocument_heads hheads] at h
          obtain ⟨shard, hshard, rfl⟩ := Except.map_eq_ok h
          exact ⟨rest, hheads, hshard⟩
  · rintro ⟨rest, hheads, hshard⟩
    rw [ofDocument_heads hheads, hshard]
    rfl

/-- **A message comes back** from its document, with its times in whole microseconds. -/
theorem ofDocument_toDocument_eq {m : WorkloadMessage} (hdelay : m.parameters.maxDelay ≤ .longest)
    (hskew : m.parameters.maxSkew ≤ .longest) : ofDocument m.toDocument = .ok m.sent :=
  ofDocument_eq_ok_iff.mpr ⟨m.shard.map Interaction.encode,
    ⟨_, rfl, RunParameters.decode_encode hdelay hskew⟩, readShard_encode 2 m.shard⟩

/-- A document that is a message: a text, parameters, and interactions. -/
structure IsMessage (d : Document) : Prop where
  two : 2 ≤ d.elements.length
  ledger : ∃ s, d.elements[0]? = some (Utf8.encode s)
  parameters : ∃ octets p, d.elements[1]? = some octets ∧
    Json.decode RunParameters.ofDatum octets = .ok p
  interactions : ∀ octets ∈ d.elements.drop 2, 8 ≤ octets.length

theorem exists_ofDocument_iff {d : Document} : (∃ m, ofDocument d = .ok m) ↔ IsMessage d := by
  constructor
  · rintro ⟨m, h⟩
    obtain ⟨rest, ⟨octets, helements, hparameters⟩, hshard⟩ := ofDocument_eq_ok_iff.mp h
    refine ⟨?_, ⟨m.ledger, ?_⟩, ⟨octets, m.parameters, ?_, hparameters⟩, ?_⟩
    · simp [helements]
    · rw [helements]
      rfl
    · rw [helements]
      rfl
    · rw [helements]
      exact (readShard_eq_ok hshard).1
  · rintro ⟨htwo, ⟨s, hs⟩, ⟨octets, p, hoctets, hp⟩, hlong⟩
    obtain ⟨elements⟩ := d
    match elements, htwo with
    | first :: second :: rest, _ =>
      obtain ⟨shard, hshard⟩ := readShard_long 2 hlong
      obtain rfl := Option.some.inj hs
      obtain rfl := Option.some.inj hoctets
      exact ⟨⟨s, p, shard⟩, ofDocument_eq_ok_iff.mpr ⟨rest, ⟨second, rfl, hp⟩, hshard⟩⟩

/-- **Messages and documents**: a message comes back from its document with its times in whole
microseconds. A document is read exactly if it is a message; all of it but the parameters is then
written again as it was. Behind a good head the first element that is too short is named. -/
theorem document_exchange :
    (∀ m : WorkloadMessage, m.parameters.maxDelay ≤ .longest → m.parameters.maxSkew ≤ .longest →
      ofDocument m.toDocument = .ok m.sent) ∧
    ∀ d : Document, ((∃ m, ofDocument d = .ok m) ↔ IsMessage d) ∧
      (∀ m, ofDocument d = .ok m → m.toDocument.elements[0]? = d.elements[0]? ∧
        (∃ octets, d.elements[1]? = some octets ∧
          Json.decode RunParameters.ofDatum octets = .ok m.parameters) ∧
        m.toDocument.elements.drop 2 = d.elements.drop 2) ∧
      ∀ (ledger : String) (p : RunParameters) (earlier later : List Bytes) (octets : Bytes),
        Heads d ledger p (earlier ++ octets :: later) → (∀ e ∈ earlier, 8 ≤ e.length) →
        octets.length < 8 → ofDocument d = .error (.invalidElement (2 + earlier.length)
          (ShortInteraction.message ⟨octets.length⟩)) := by
  refine ⟨fun m hdelay hskew => ofDocument_toDocument_eq hdelay hskew,
    fun d => ⟨exists_ofDocument_iff, fun m h => ?_, ?_⟩⟩
  · obtain ⟨rest, ⟨octets, helements, hparameters⟩, hshard⟩ := ofDocument_eq_ok_iff.mp h
    rw [helements]
    exact ⟨rfl, ⟨octets, rfl, hparameters⟩, (readShard_eq_ok hshard).2⟩
  · intro ledger p earlier later octets hheads hearlier hshort
    rw [ofDocument_heads hheads, readShard_short 2 hearlier hshort]
    rfl

/-- A time between two microseconds, and a third element behind good heads that is too short. -/
theorem document_exchange_short :
    ofDocument (toDocument ⟨"é", .usual, [⟨⟨1500999⟩, [7]⟩]⟩) =
        .ok ⟨"é", .usual, [⟨⟨1500000⟩, [7]⟩]⟩ ∧
      ofDocument ⟨[Utf8.encode "é", Json.encode RunParameters.usual.toDatum, [1, 2, 3]]⟩ =
        .error (.invalidElement 2 "Interaction too short: 3 bytes") := by
  have hdelay : RunParameters.usual.maxDelay ≤ .longest := by decide
  have hskew : RunParameters.usual.maxSkew ≤ .longest := by decide
  have hheads : Heads ⟨[Utf8.encode "é", Json.encode RunParameters.usual.toDatum, [1, 2, 3]]⟩
      "é" .usual ([] ++ [1, 2, 3] :: []) := ⟨_, rfl, RunParameters.decode_encode hdelay hskew⟩
  exact ⟨document_exchange.1 _ hdelay hskew,
    (document_exchange.2 _).2.2 _ _ _ _ _ hheads (by simp) (by decide)⟩

end WorkloadMessage

end LedgerLoad
