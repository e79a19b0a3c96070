import LedgerLoad.Bytes.Utf8
import LedgerLoad.Config.Benchmark

/-! # Campaigns

A campaign is one run of a benchmark against a ledger by a number of secondaries. Its setup and its
benchmark stand in two files, the setup being read first; the rest is said by whoever starts it. -/

namespace LedgerLoad

/-- What to do when secondaries fail a phase. -/
inductive FaultPolicy
  /-- Stop the run. -/
  | abort
  /-- Go on without them. -/
  | degrade
deriving DecidableEq, Repr

/-- What is said of a run besides its two files. -/
structure Campaign where
  secondaries : Nat
  /-- Interactions that take longer are logged. -/
  maxDelay : Duration
  /-- Interactions that begin later than this after their time are logged. -/
  maxSkew : Duration
  /-- The seed of all draws. -/
  seed : Nat
  policy : FaultPolicy
  /-- What the adapter's builder is told about this machine. -/
  environment : Environment
deriving DecidableEq, Repr

/-- The files of a campaign. -/
inductive ConfigFile
  | setup
  | benchmark
deriving DecidableEq, Repr

/-- Why a campaign cannot be started. -/
inductive ConfigFault
  | missing (file : ConfigFile)
  /-- The file is no text. -/
  | notText (file : ConfigFile)
  | unreadable (file : ConfigFile) (fault : DataFault)
  | invalid (fault : BenchmarkFault)
  | noSecondaries

/-- The words that report a configuration that can be read and makes no sense. -/
def invalidConfiguration (reason : String) : String := "Invalid configuration: " ++ reason

/-- The words that report a fault, up to the reason why a file cannot be read; `path` tells where
the files are. -/
def ConfigFault.message (path : ConfigFile → String) : ConfigFault → String
  | .missing file => "Failed to read " ++ path file
  | .notText file => "Failed to read " ++ path file
  | .unreadable file _ => "Failed to parse " ++ path file
  | .invalid fault => invalidConfiguration fault.message
  | .noSecondaries => invalidConfiguration "at least one secondary is required"

namespace Campaign

/-- A campaign with the usual thresholds, seed zero and the policy to stop. -/
def usual (secondaries : Nat) : Campaign :=
  { secondaries, maxDelay := .ofSeconds 5, maxSkew := .ofMillis 100, seed := 0, policy := .abort
    environment := ⟨[]⟩ }

/-- Reads a file, of which the octets are given if it is there. -/
def readFile {α : Type} (file : ConfigFile) (reader : String → Except DataFault α) :
    Option Bytes → Except ConfigFault α
  | none => .error (.missing file)
  | some octets =>
    match Utf8.decode octets with
    | .error _ => .error (.notText file)
    | .ok text =>
      match reader text with
      | .ok x => .ok x
      | .error fault => .error (.unreadable file fault)

/-- Reads the setup and the benchmark, and validates the benchmark. -/
def load (c : Campaign) (files : ConfigFile → Option Bytes) :
    Except ConfigFault (Setup × Benchmark) := do
  if c.secondaries = 0 then throw .noSecondaries
  let setup ← readFile .setup Setup.read (files .setup)
  let benchmark ← readFile .benchmark Benchmark.read (files .benchmark)
  match benchmark.validate with
  | .ok () => return (setup, benchmark)
  | .error fault => throw (.invalid fault)

end Campaign

end LedgerLoad
