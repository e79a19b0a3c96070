import LedgerLoad.Proofs.Json.Length
import LedgerLoad.Results.Text

/-! # The lengths of results as documents

`SecondaryResult.jsonLength_toDocument`: the document of a result is as long as `documentLength` says
without making it. -/

namespace LedgerLoad

/-- A record that has one list under one name, which needs no escapes. -/
theorem length_writeLevel {α : Type} {name : String} (item : α → Datum) (xs : List α)
    (hname : (Json.octets (Json.writeText name)).length = name.utf8ByteSize + 2) :
    (Json.encode (writeLevel name item xs)).length =
      Json.entryLength name (Json.listLength (xs.map fun x => (Json.encode (item x)).length)) := by
  rw [writeLevel, Json.length_ofEntry _ hname, Json.length_ofItems, List.map_map]
  rfl

theorem LaneResult.length_toDatum (r : LaneResult) :
    (Json.encode r.toDatum).length = r.textLength :=
  length_writeLevel Timing.toDatum r.interactions (by decide)

/-- **The document of a result is as long as it is said to be.** -/
theorem SecondaryResult.jsonLength_toDocument (r : SecondaryResult) :
    r.toDocument.jsonLength = r.documentLength := by
  have htext : (Json.encode r.toDatum).length =
      Json.entryLength "clients" (Json.listLength (r.lanes.map LaneResult.textLength)) := by
    rw [toDatum, length_writeLevel _ _ (by decide),
      List.map_congr_left fun lane _ => lane.length_toDatum]
  rw [Document.jsonLength, toDocument, List.map_cons, List.map_nil, htext, documentLength]

end LedgerLoad
