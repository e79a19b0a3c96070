import LedgerLoad.Adapter.BuiltIn
import LedgerLoad.CommandLine.Invocation

/-! # The program

Reads the arguments and the files of a run and reports what is wrong with them. A run itself needs
streams to other machines, which this program does not open; it says so. -/

namespace LedgerLoad

/-- How the program is used. -/
def usage : String := "\n".intercalate [
  "Distributed benchmark orchestrator for ledger technologies",
  "",
  "Usage: ledgerbench <COMMAND>",
  "",
  "Commands:",
  "  primary    Coordinate a benchmark across secondaries and emit the result",
  "  secondary  Run a shard of the workload on the primary's command",
  "  help       Print this message or the help of the given subcommand(s)",
  "",
  "Options:",
  "  -h, --help     Print help",
  "  -V, --version  Print version"]

/-- The octets of a file, if it can be read. -/
def readFile? (path : String) : IO (Option Bytes) := do
  try
    let octets ← IO.FS.readBinFile path
    return some octets.toList
  catch _ => return none

/-- Reports a fault that ends the program. -/
def reportFault (message : String) : IO UInt32 := do
  IO.eprintln (CommandLine.errorLine message)
  IO.eprintln CommandLine.hintLine
  return 1

/-- Starts a primary. -/
def runPrimary (p : CommandLine.PrimaryInvocation) : IO UInt32 := do
  let setup ← readFile? p.setup
  let benchmark ← readFile? p.benchmark
  match p.begin builtIn.types fun path => if path = p.setup then setup else benchmark with
  | .error fault => reportFault (fault.message p)
  | .ok _ => reportFault s!"Failed to listen on port {p.port}"

end LedgerLoad

/-- Does what the arguments ask for. -/
def main (args : List String) : IO UInt32 := do
  match LedgerLoad.CommandLine.Invocation.read args with
  | .help => IO.println LedgerLoad.usage; return 0
  | .version => IO.println LedgerLoad.CommandLine.versionLine; return 0
  | .misuse => IO.eprintln LedgerLoad.usage; return 2
  | .settings (.primary p) => LedgerLoad.runPrimary p
  | .settings (.secondary s _) =>
    LedgerLoad.reportFault s!"Failed to connect to primary at {s.primary}:{s.port}"
