import LedgerLoad.Document
import LedgerLoad.Proofs.Bytes.Hex
import LedgerLoad.Proofs.Bytes.Lz4
import LedgerLoad.Proofs.Json.Length
import LedgerLoad.Proofs.Json.RoundTrip

/-! # Documents: decoding what was encoded

`Document.decode_encode`: a document that can be encoded at all is the one its body decodes to.
`Document.decode_ne_tooLarge`: a body that was read is never called too large, so that on a stream
this fault tells a length that was not read. `Document.encode_of_short`: what a document must not
exceed to be encoded. -/

namespace LedgerLoad.Document

/-! ### The length of the JSON text -/

theorem escape_digit {d : UInt8} (h : Hex.IsDigit d) :
    Json.escape (Char.ofNat d.toNat) = [Char.ofNat d.toNat] := by
  have hletter := Hex.letter_toNat h
  have hrange : 0x30 ≤ d.toNat ∧ d.toNat ≠ 0x22 ∧ d.toNat ≠ 0x5c := by
    rcases h with h | h <;> omega
  have hne (c : Char) (hc : d.toNat ≠ c.toNat) : Char.ofNat d.toNat ≠ c :=
    fun he => hc (by rw [← he, hletter])
  rw [Json.escape, if_neg (hne '"' hrange.2.1), if_neg (hne '\\' hrange.2.2), if_pos (by omega)]

theorem length_text_hex (octets : Bytes) :
    (Json.octets (Json.writeText (Hex.text octets))).length = 2 * octets.length + 2 := by
  have h : ∀ ds : Bytes, (∀ d ∈ ds, Hex.IsDigit d) →
      (Json.octets ((ds.map fun d => Char.ofNat d.toNat).flatMap Json.escape)).length =
        ds.length := by
    intro ds hds
    induction ds with
    | nil => rfl
    | cons d ds ih =>
      rw [List.map_cons, List.flatMap_cons, escape_digit (hds d List.mem_cons_self),
        List.singleton_append, Json.octets_cons, Hex.encodeChar_digit (hds d List.mem_cons_self),
        List.singleton_append, List.length_cons, ih fun x hx => hds x (List.mem_cons_of_mem d hx)]
      rfl
  have hquote : (Json.octets ['"']).length = 1 := rfl
  rw [Json.writeText, Json.octets_ascii _ _ (by decide), Json.octets_append, List.length_cons,
    List.length_append, hquote, Hex.text, String.toList_ofList, h _ (Hex.digits_encode octets),
    Hex.length_encode]

/-- **The JSON text is as long as it is said to be.** -/
theorem length_json (d : Document) : d.json.length = d.jsonLength := by
  have helement (octets : Bytes) :
      (Json.encode (.text (Hex.text octets))).length = 2 * octets.length + 2 := by
    rw [Json.encode_eq_octets, Json.write, length_text_hex]
  rw [json, Json.length_ofItems, jsonLength, List.map_map]
  simp only [Function.comp_def, helement]

/-- Two digits for each octet, and three letters around each element. -/
theorem jsonLength_le (d : Document) :
    d.jsonLength ≤ 2 + (d.elements.map fun octets => 2 * octets.length + 3).sum := by
  have h := Json.listLength_le (d.elements.map fun octets => 2 * octets.length + 2)
  rw [List.map_map] at h
  exact h

/-! ### The round trip -/

theorem readElements_text (elements : List Bytes) :
    readElements (elements.map Hex.text) = .ok elements := by
  induction elements with
  | nil => rfl
  | cons octets rest ih =>
    rw [List.map_cons, readElements, Hex.decode_text]
    simp only [ih]
    rfl

theorem read_texts (digits : List String) :
    (Items.ofList (digits.map Datum.text)).read Datum.asText = .ok digits := by
  induction digits with
  | nil => rfl
  | cons s rest ih =>
    rw [List.map_cons, Items.ofList, Items.read, ih]
    rfl

theorem ofJson_json (d : Document) : ofJson d.json = .ok d := by
  have hread : Json.decode (Datum.asList Datum.asText) d.json = .ok (d.elements.map Hex.text) := by
    rw [json, Json.decode_encode _ (by simp), Datum.reread_ofItems]
    have hmap : (d.elements.map fun octets => Datum.text (Hex.text octets)).map Datum.reread =
        (d.elements.map Hex.text).map Datum.text := by
      simp [Function.comp_def]
    rw [hmap]
    exact read_texts _
  rw [ofJson, hread]
  simp only [readElements_text]
  rfl

theorem encode_eq_ok {d : Document} {body : Bytes} (h : d.encode = .ok body) :
    d.json.length ≤ limit ∧ body = Lz4.pack d.json ∧ body.length ≤ limit := by
  have hlength := length_json d
  unfold encode at h
  dsimp only at h
  split at h
  · cases h
  · split at h
    · cases h
    · obtain rfl := Except.ok.inj h
      exact ⟨by omega, rfl, by omega⟩

/-- **Decoding undoes encoding**: what fits into a body is read back from it. -/
theorem decode_encode {d : Document} {body : Bytes} (h : d.encode = .ok body) :
    decode body = .ok d := by
  obtain ⟨hjson, rfl, -⟩ := encode_eq_ok h
  have hlimit : limit < 2 ^ 32 := by decide
  rw [decode, Lz4.declared_pack (by omega)]
  simp only
  rw [if_neg (by omega), Lz4.unpack_pack (by omega)]
  exact ofJson_json d

/-! ### Faults of a body -/

theorem readElements_fault {digits : List String} {fault : DocumentFault}
    (h : readElements digits = .error fault) : ∃ f, fault = .hex f := by
  induction digits with
  | nil => cases h
  | cons s rest ih =>
    unfold readElements at h
    split at h
    · exact ⟨_, (Except.error.inj h).symm⟩
    · cases hrest : readElements rest with
      | ok _ => rw [hrest] at h; cases h
      | error f =>
        rw [hrest] at h
        obtain rfl := Except.error.inj h
        exact ih hrest

/-- Of a body that was read it is never said that it is too large. -/
theorem decode_ne_tooLarge (body : Bytes) (length : Nat) :
    decode body ≠ .error (.tooLarge length) := by
  intro h
  unfold decode at h
  split at h
  · cases h
  · split at h
    · cases h
    · split at h
      · cases h
      · unfold ofJson at h
        split at h
        · cases h
        · rename_i digits _
          cases hread : readElements digits with
          | ok _ => rw [hread] at h; cases h
          | error f =>
            rw [hread] at h
            obtain ⟨f', rfl⟩ := readElements_fault hread
            cases h

/-! ### What can be encoded -/

/-- A document of up to a quarter of the limit can be encoded. -/
theorem encode_of_short {d : Document}
    (h : (d.elements.map fun octets => octets.length + 2).sum ≤ 2 ^ 28) :
    ∃ body, d.encode = .ok body := by
  have hjson := jsonLength_le d
  have hlength := length_json d
  have hpack := Lz4.length_pack_le d.json
  have hsum : (d.elements.map fun octets => 2 * octets.length + 3).sum ≤
      2 * (d.elements.map fun octets => octets.length + 2).sum := by
    generalize d.elements = elements
    induction elements with
    | nil => simp
    | cons octets elements ih =>
      simp only [List.map_cons, List.sum_cons]
      omega
  have hlimit : limit = 2 ^ 30 := rfl
  refine ⟨Lz4.pack d.json, ?_⟩
  unfold encode
  dsimp only
  rw [if_neg (by omega), if_neg (by omega)]

/-- A document whose JSON text is beyond the limit is refused. -/
theorem encode_of_long {d : Document} (h : limit < d.jsonLength) :
    d.encode = .error (.tooLarge d.jsonLength) := by
  unfold encode
  dsimp only
  rw [if_pos h]

/-- The text of a document of one text. -/
theorem text_ofText (s : String) : (ofText s).text 0 = .ok s := by
  simp [text, ofText, Utf8.decode_encode]

end LedgerLoad.Document
