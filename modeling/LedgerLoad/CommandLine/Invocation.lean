import LedgerLoad.CommandLine.Grammar
import LedgerLoad.Config.Campaign
import LedgerLoad.Secondary.Basic
import LedgerLoad.Text.Integer

/-! # Invocations

The program is invoked as a primary, with a number of secondaries and two files, or as a secondary,
with the host of the primary; each has options of its own. Options that take one value are given at
most once. -/

namespace LedgerLoad.CommandLine

/-- The port on which a primary listens if nothing is said. -/
def usualPort : Nat := 7000

/-- What the log holds at a verbosity: everything from this level on. -/
def logFilter : (verbosity : Nat) → String
  | 0 => "warn"
  | 1 => "info"
  | 2 => "debug"
  | _ => "trace"

/-- One more step of verbosity, as far as it is counted. -/
def moreVerbose (verbosity : Nat) : Nat := min (verbosity + 1) 255

/-- An invocation as a primary. -/
structure PrimaryOptions where
  secondaries : Option Nat
  setup : Option String
  benchmark : Option String
  maxDelay : Option Duration
  maxSkew : Option Duration
  seed : Option Nat
  port : Option Nat
  /-- Where the result is written; to the standard output if nothing is said. -/
  output : Option String
  compress : Bool
  policy : Option FaultPolicy
  environment : List String
  verbosity : Nat

/-- An invocation as a secondary. -/
structure SecondaryOptions where
  primary : Option String
  port : Option Nat
  environment : List String
  tags : List String
  lanes : Option Nat
  verbosity : Nat

/-! ### Values -/

/-- A value for an option that is given once. -/
def once {α : Type} (slot : Option α) (value : Option α) : Option (Option α) :=
  if slot.isSome then none else value.map some

/-- A natural number of 64 bits. -/
def readCount (text : String) : Option Nat := (Text.readWord text).toOption

/-- The number of a port. -/
def readPort (text : String) : Option Nat :=
  match Text.readInteger (Text.signed 64) text with
  | .ok n => if 0 ≤ n ∧ n < 65536 then some n.toNat else none
  | .error _ => none

/-- A written span of time. -/
def readSpan (text : String) : Option Duration := (Written.read text).toOption

/-- The name of a file. -/
def readPath (text : String) : Option String := if text.isEmpty then none else some text

/-- A fault policy. -/
def readPolicy (text : String) : Option FaultPolicy :=
  if text = "abort" then some .abort else if text = "degrade" then some .degrade else none

/-! ### The two commands -/

namespace PrimaryOptions

/-- Nothing said yet. -/
def none : PrimaryOptions :=
  { secondaries := .none, setup := .none, benchmark := .none, maxDelay := .none, maxSkew := .none
    seed := .none, port := .none, output := .none, compress := false, policy := .none
    environment := [], verbosity := 0 }

/-- Sets the port. -/
def setPort (text : String) (o : PrimaryOptions) : Option PrimaryOptions := do
  return { o with port := ← once o.port (readPort text) }

/-- Sets the file for the result. -/
def setOutput (text : String) (o : PrimaryOptions) : Option PrimaryOptions := do
  return { o with output := ← once o.output (readPath text) }

/-- The options of a primary. -/
def option? : OptionName → Option (Effect PrimaryOptions)
  | .letter 'h' => some .help
  | .letter 'p' => some (.value setPort)
  | .letter 'o' => some (.value setOutput)
  | .letter 'v' => some (.flag fun o => some { o with verbosity := moreVerbose o.verbosity })
  | .letter _ => .none
  | .word name =>
    if name = "help" then some .help
    else if name = "port" then some (.value setPort)
    else if name = "output" then some (.value setOutput)
    else if name = "max-delay" then
      some (.value fun text o => do
        return { o with maxDelay := ← once o.maxDelay (readSpan text) })
    else if name = "max-skew" then
      some (.value fun text o => do return { o with maxSkew := ← once o.maxSkew (readSpan text) })
    else if name = "seed" then
      some (.value fun text o => do return { o with seed := ← once o.seed (readCount text) })
    else if name = "compress" then
      some (.flag fun o => if o.compress then .none else some { o with compress := true })
    else if name = "fault-policy" then
      some (.value fun text o => do return { o with policy := ← once o.policy (readPolicy text) })
    else if name = "env" then
      some (.value fun text o => some { o with environment := o.environment ++ [text] })
    else .none

/-- The arguments of a primary, in their order. -/
def argument (text : String) (o : PrimaryOptions) : Option PrimaryOptions :=
  if o.secondaries.isNone then do return { o with secondaries := some (← readCount text) }
  else if o.setup.isNone then do return { o with setup := some (← readPath text) }
  else if o.benchmark.isNone then do return { o with benchmark := some (← readPath text) }
  else .none

def grammar : Grammar PrimaryOptions := ⟨option?, argument⟩

end PrimaryOptions

namespace SecondaryOptions

/-- Nothing said yet. -/
def none : SecondaryOptions :=
  { primary := .none, port := .none, environment := [], tags := [], lanes := .none, verbosity := 0 }

/-- Sets the port. -/
def setPort (text : String) (o : SecondaryOptions) : Option SecondaryOptions := do
  return { o with port := ← once o.port (readPort text) }

/-- The options of a secondary. -/
def option? : OptionName → Option (Effect SecondaryOptions)
  | .letter 'h' => some .help
  | .letter 'p' => some (.value setPort)
  | .letter 'v' => some (.flag fun o => some { o with verbosity := moreVerbose o.verbosity })
  | .letter _ => .none
  | .word name =>
    if name = "help" then some .help
    else if name = "port" then some (.value setPort)
    else if name = "env" then
      some (.value fun text o => some { o with environment := o.environment ++ [text] })
    else if name = "tag" then some (.value fun text o => some { o with tags := o.tags ++ [text] })
    else if name = "lanes" then
      some (.value fun text o => do return { o with lanes := ← once o.lanes (readCount text) })
    else .none

/-- The argument of a secondary. -/
def argument (text : String) (o : SecondaryOptions) : Option SecondaryOptions :=
  if o.primary.isNone then some { o with primary := some text } else .none

def grammar : Grammar SecondaryOptions := ⟨option?, argument⟩

/-- The settings of a secondary, if its primary is known. -/
def settings? (o : SecondaryOptions) : Option SecondarySettings := do
  let settings := SecondarySettings.usual (← o.primary) (o.port.getD usualPort)
  return { settings.withLanes (o.lanes.getD 1) with
    environment := ⟨o.environment⟩, tags := o.tags }

end SecondaryOptions

/-- A primary, once all that must be said is said. -/
structure PrimaryInvocation where
  campaign : Campaign
  setup : String
  benchmark : String
  port : Nat
  output : Option String
  compress : Bool
  verbosity : Nat

/-- A primary as it was invoked, if nothing is missing. -/
def PrimaryOptions.invocation? (o : PrimaryOptions) : Option PrimaryInvocation := do
  let usual := Campaign.usual (← o.secondaries)
  let campaign :=
    { usual with
      maxDelay := o.maxDelay.getD usual.maxDelay
      maxSkew := o.maxSkew.getD usual.maxSkew
      seed := o.seed.getD usual.seed
      policy := o.policy.getD usual.policy
      environment := ⟨o.environment⟩ }
  return { campaign, setup := ← o.setup, benchmark := ← o.benchmark
           port := o.port.getD usualPort, output := o.output, compress := o.compress
           verbosity := o.verbosity }

/-! ### The program -/

/-- What the program is asked to do. -/
inductive Invocation
  | primary (p : PrimaryInvocation)
  | secondary (s : SecondarySettings) (verbosity : Nat)

/-- Makes what was read complete. -/
def Reading.complete {S T : Type} (complete : S → Option T) : Reading S → Reading T
  | .settings s => Reading.andThen Reading.settings (complete s)
  | .help => .help
  | .version => .version
  | .misuse => .misuse

/-- The options before a command; there are no other arguments. -/
def outer : Grammar Unit where
  option?
    | .letter 'h' => some .help
    | .letter 'V' => some .version
    | .word "help" => some .help
    | .word "version" => some .version
    | _ => none
  argument _ _ := none

/-- Reads the commands for which help is asked. -/
def readHelp : List String → Reading Invocation
  | [] => .help
  | [command] => if command ∈ ["primary", "secondary", "help"] then .help else .misuse
  | _ => .misuse

/-- Reads the arguments of the program. -/
def Invocation.read : List String → Reading Invocation
  | "primary" :: args =>
    (PrimaryOptions.grammar.read args .none).complete fun o =>
      o.invocation?.map Invocation.primary
  | "secondary" :: args =>
    (SecondaryOptions.grammar.read args .none).complete fun o =>
      o.settings?.map fun s => .secondary s o.verbosity
  | "help" :: args => readHelp args
  | args => (outer.read args ()).complete fun _ => none

/-- Why a primary does not begin. -/
inductive StartFault
  | config (fault : ConfigFault)
  | unknownLedger (name : String) (known : List String)

/-- The words that report a fault; the reason why a file cannot be read is left out. -/
def StartFault.message (p : PrimaryInvocation) : StartFault → String
  | .config fault =>
    let path
      | .setup => p.setup
      | .benchmark => p.benchmark
    invalidConfiguration (fault.message path)
  | .unknownLedger name known =>
    "Unknown ledger type " ++ Text.quoted name ++ " (known: " ++ ", ".intercalate known ++ ")"

/-- Reads the files of a primary and looks for its ledger, before it listens to anyone. -/
def PrimaryInvocation.begin (p : PrimaryInvocation) (known : List String)
    (file : String → Option Bytes) : Except StartFault (Setup × Benchmark) :=
  let files
    | .setup => file p.setup
    | .benchmark => file p.benchmark
  match p.campaign.load files with
  | .error fault => .error (.config fault)
  | .ok (setup, benchmark) =>
    if setup.ledger ∈ known then .ok (setup, benchmark)
    else .error (.unknownLedger setup.ledger known)

/-- The name and the version of the program. -/
def versionLine : String := "ledgerbench 0.1.0"

/-- How a fault that ends the program is reported. -/
def errorLine (message : String) : String := "Error: " ++ message

/-- The last line of a report. -/
def hintLine : String := "Run `ledgerbench --help` for usage."

end LedgerLoad.CommandLine
