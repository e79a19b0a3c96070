import LedgerLoad.Statistics.Figures

/-! # The report of a run

The figures as lines of text: a label padded to a column of twenty characters, and a number of
three places with its unit. -/

namespace LedgerLoad.Statistics

/-- A figure with its unit. -/
def shown (unit : String) : Option Float → String
  | some x => Decimal.fixed 3 x ++ " " ++ unit
  | none => "unavailable"

/-- A line of the report. -/
def line (label value : String) : String :=
  label ++ String.ofList (List.replicate (20 - label.length) ' ') ++ value

/-- The report, without a line end after the last line. -/
def report (s : Statistics) : String :=
  "\n".intercalate [
    "=== Benchmark Report ===",
    line "Interactions:" (toString s.interactions),
    line "Submitted:" (toString s.submitted),
    line "Committed:" (toString s.committed),
    line "Aborted:" (toString s.aborted),
    line "Duration:" (shown "s" (some s.lastTime)),
    line "Average load:" (shown "tx/s" s.load),
    line "Average throughput:" (shown "tx/s" s.throughput),
    line "Average latency:" (shown "s" s.mean),
    line "Median latency:" (shown "s" s.median),
    line "P90 latency:" (shown "s" (s.quantile 0.90)),
    line "P99 latency:" (shown "s" (s.quantile 0.99))]

end LedgerLoad.Statistics
