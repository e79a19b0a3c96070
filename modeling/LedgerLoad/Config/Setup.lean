import LedgerLoad.Toml.Document
import LedgerLoad.Workload.Message

/-! # The setup of a run

A setup file says which ledger is under test and how it is reached. Parameters and endpoints may be
left out; entries of other names mean nothing. -/

namespace LedgerLoad

/-- Reads a document of TOML as something. -/
def Toml.decode {α : Type} (reader : Datum → Except DataFault α) (text : String) :
    Except DataFault α :=
  match Toml.read text with
  | some d => reader d
  | none => .error .malformed

/-- Which ledger is under test, and how it is reached. -/
structure Setup where
  ledger : String
  parameters : Parameters
  endpoints : Endpoints
deriving DecidableEq

namespace Setup

/-- A setup that is being read. -/
structure Draft where
  ledger : Option String
  parameters : Option Parameters
  endpoints : Option Endpoints

/-- Reads one entry. -/
def Draft.entry (s : Draft) (key : String) (value : Datum) : Except DataFault Draft :=
  if key = "ledger" then return { s with ledger := ← fill key s.ledger value.asText }
  else if key = "parameters" then
    return { s with parameters := ← fill key s.parameters (Parameters.ofDatum value) }
  else if key = "endpoints" then
    return { s with endpoints := ← fill key s.endpoints (Endpoints.ofDatum value) }
  else do value.skip; return s

/-- Reads a setup. -/
def ofDatum : Datum → Except DataFault Setup
  | .table entries => do
    let s ← entries.readInto Draft.entry ⟨none, none, none⟩
    return ⟨← need "ledger" s.ledger, s.parameters.getD .empty, s.endpoints.getD .empty⟩
  | d => .error d.mismatch

/-- Reads the text of a setup file. -/
def read (text : String) : Except DataFault Setup := Toml.decode ofDatum text

end Setup

end LedgerLoad
