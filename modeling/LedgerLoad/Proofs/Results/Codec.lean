import LedgerLoad.Proofs.Results.Carried

/-! # The text of results is read back

A time is `Stable` if the text of its digits is read as that time again. Main statement:
`CampaignResult.read_written`, a tree of valid timings with stable times is what is read from its
text, secondary by secondary from their documents and as a whole from what is put out, and packing
what is put out loses nothing. So no step between the lanes and the output can turn a time that is
set into one that is not, or move an entry. -/

namespace LedgerLoad

/-- The text of a double is read as that double again. -/
def Json.Stable (x : Float) : Prop := Json.decode Datum.asFloat (Json.encode (.float x)) = .ok x

theorem Json.stable_iff {x : Float} :
    Json.Stable x ↔ (Datum.float x).reread.asFloat = .ok x := by
  rw [Json.Stable, Json.decode_encode _ (by simp)]

/-! ### Timings -/

namespace Timing

/-- What is read where a time was written, be it set or not. -/
theorem asFloat_reread {time : Option Float}
    (h : ∀ x, time = some x → isTime x = true ∧ Json.Stable x) :
    ∃ x, (writeTime time).reread.asFloat = .ok x ∧ readTime x = time := by
  cases time with
  | none =>
    obtain ⟨x, hreread, hnone⟩ := reread_unset
    refine ⟨x, ?_, hnone⟩
    show (Datum.float unset).reread.asFloat = _
    rw [hreread]
    rfl
  | some x =>
    obtain ⟨htime, hstable⟩ := h x rfl
    exact ⟨x, Json.stable_iff.mp hstable, readTime_of_isTime htime⟩

/-- A valid timing with stable times comes back. -/
theorem carried_of_stable {t : Timing} (hvalid : t.Valid) (hstable : ∀ x ∈ t.times, Json.Stable x) :
    t.carried = .ok t := by
  have htime (x : Float) (hx : x ∈ t.times) : isTime x = true ∧ Json.Stable x :=
    ⟨hvalid.isTime x hx, hstable x hx⟩
  obtain ⟨s, hs, hsubmit⟩ := asFloat_reread fun x hx => htime x (mem_times.mpr (Or.inl hx))
  obtain ⟨c, hc, hcommit⟩ :=
    asFloat_reread fun x hx => htime x (mem_times.mpr (Or.inr (Or.inl hx)))
  obtain ⟨a, ha, habort⟩ :=
    asFloat_reread fun x hx => htime x (mem_times.mpr (Or.inr (Or.inr hx)))
  rw [carried_eq, toDatum, Datum.reread_ofEntries]
  simp only [List.map_cons, List.map_nil]
  rw [ofDatum_fields hs hc ha, hsubmit, hcommit, habort, ofTimes_eq_ok.mpr ⟨rfl, hvalid⟩]
  rfl

end Timing

/-! ### Trees -/

/-- Each timing of a tree can be read back from its text. -/
structure CampaignResult.Readable (r : CampaignResult) : Prop where
  valid : ∀ t ∈ r.interactions, t.Valid
  stable : ∀ t ∈ r.interactions, ∀ x ∈ t.times, Json.Stable x

theorem SecondaryResult.carriedTo_self {r : SecondaryResult}
    (h : ∀ t ∈ r.interactions, t.carried = .ok t) : r.CarriedTo r := by
  refine List.forall₂_same.mpr fun lane hlane => List.forall₂_same.mpr fun t ht => ?_
  exact h t (List.mem_flatMap.mpr ⟨lane, hlane, ht⟩)

namespace CampaignResult

theorem encode_plain (r : CampaignResult) : r.encode false = Json.encode r.toDatum := rfl

theorem writable_toDatum (r : CampaignResult) : r.toDatum.Writable :=
  writable_writeLevel fun s _ => s.writable_toDatum

/-- A whole result comes back exactly if all its parts do, each in its own place. -/
theorem ofDatum_reread {r r' : CampaignResult} : ofDatum r.toDatum.reread = .ok r' ↔
    List.Forall₂ SecondaryResult.CarriedTo r.secondaries r'.secondaries := by
  have hpart : SecondaryResult.CarriedTo =
      fun s s' => SecondaryResult.ofDatum s.toDatum.reread = .ok s' :=
    funext fun s => funext fun s' => propext SecondaryResult.ofDatum_reread.symm
  rw [ofDatum, toDatum, readLevel_reread, hpart,
    ← Items.read_eq_ok (f := fun s : SecondaryResult => s.toDatum.reread)]
  cases (Items.ofList (r.secondaries.map fun s => s.toDatum.reread)).read SecondaryResult.ofDatum with
  | error e => simp [Except.map]
  | ok ss => cases r'; simp [Except.map]

theorem Readable.carriedTo {r : CampaignResult} (h : r.Readable) {s : SecondaryResult}
    (hs : s ∈ r.secondaries) : s.CarriedTo s := by
  refine SecondaryResult.carriedTo_self fun t ht => ?_
  have hmem : t ∈ r.interactions := List.mem_flatMap.mpr ⟨s, hs, ht⟩
  exact Timing.carried_of_stable (h.valid t hmem) (h.stable t hmem)

/-- A tree with entries of every kind, a lane without entries and a secondary without lanes. -/
def mixed : CampaignResult :=
  ⟨[⟨[⟨[.unreached, ⟨some 0.5, none, none⟩, ⟨some 0.5, some 0.75, none⟩]⟩, ⟨[]⟩,
    ⟨[⟨some 0, none, some 1e-7⟩]⟩]⟩, ⟨[]⟩]⟩

theorem readable_mixed : mixed.Readable where
  valid t ht := by
    have hmade : ∀ t ∈ mixed.interactions,
        (Timing.ofTimes t.submit t.commit t.abort).toOption.isSome = true := by decide +kernel
    have ht := hmade t ht
    cases hof : Timing.ofTimes t.submit t.commit t.abort with
    | error violation =>
      rw [hof] at ht
      cases ht
    | ok made =>
      obtain ⟨rfl, hvalid⟩ := Timing.ofTimes_eq_ok.mp hof
      exact hvalid
  stable := by
    unfold Json.Stable
    decide +kernel

/-- **The text of a result is read back**: if its timings are valid and their times stable, each
secondary is what is read from its document, the whole is what is read from the octets put out, and
unpacking what is put out packed gives the same octets. -/
theorem read_written {r : CampaignResult} (h : r.Readable) :
    (∀ s ∈ r.secondaries, SecondaryResult.ofDocument s.toDocument = .ok s) ∧
      Json.decode ofDatum (r.encode false) = .ok r ∧
      ((r.encode false).length < 2 ^ 32 → Lz4.unpack (r.encode true) = some (r.encode false)) := by
  refine ⟨fun s hs => SecondaryResult.ofDocument_toDocument.mpr (h.carriedTo hs), ?_, ?_⟩
  · rw [encode_plain, Json.decode_encode _ r.writable_toDatum]
    exact ofDatum_reread.mpr (List.forall₂_same.mpr fun s hs => h.carriedTo hs)
  · exact Lz4.unpack_pack

theorem read_written_mixed : mixed.Readable ∧ (mixed.encode false).length < 2 ^ 32 ∧
    (∀ s ∈ mixed.secondaries, SecondaryResult.ofDocument s.toDocument = .ok s) ∧
    Json.decode ofDatum (mixed.encode false) = .ok mixed ∧
    Lz4.unpack (mixed.encode true) = some (mixed.encode false) := by
  obtain ⟨hparts, hwhole, hpacked⟩ := read_written readable_mixed
  have hshort : (mixed.encode false).length < 2 ^ 32 := by
    have hlength : (Json.octets (Json.write mixed.toDatum)).length < 2 ^ 32 := by decide +kernel
    rw [encode_plain, Json.encode_eq_octets]
    exact hlength
  exact ⟨readable_mixed, hshort, hparts, hwhole, hpacked hshort⟩

end CampaignResult

end LedgerLoad
