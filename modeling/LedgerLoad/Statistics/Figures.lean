import LedgerLoad.Results
import LedgerLoad.Statistics.Histogram

/-! # The figures of a run

One pass over the timings of a run counts interactions and collects commit latencies. Rates and
latencies are available only if some time is above zero and some interaction committed. -/

namespace LedgerLoad

/-- What a run comes down to. -/
structure Statistics where
  interactions : Nat
  submitted : Nat
  committed : Nat
  aborted : Nat
  /-- The latest time of any interaction, zero if there is none. -/
  lastTime : Float
  /-- The commit latencies in ascending order. -/
  latencies : List Float

namespace Statistics

/-- A number whose order is the order of doubles: minus zero comes before zero, and the difference
of two infinities, which is no number, before all. -/
def orderKey (x : Float) : Nat :=
  let bits := x.toBits.toNat
  if x.isNaN then 0 else if 2 ^ 63 ≤ bits then 2 ^ 64 - 1 - bits else 2 ^ 63 + bits

/-- Doubles in ascending order. -/
def sorted (xs : List Float) : List Float := xs.mergeSort fun a b => orderKey a ≤ orderKey b

/-- Reduces timings, in any grouping, to figures. -/
def ofTimings (timings : List Timing) : Statistics :=
  { interactions := timings.length
    submitted := timings.countP fun t => t.submit.isSome
    committed := timings.countP fun t => t.commit.isSome
    aborted := timings.countP fun t => t.abort.isSome
    lastTime := (timings.filterMap Timing.lastTime).foldl Timing.later 0
    latencies := sorted (timings.filterMap Timing.latency) }

/-- Reduces the whole tree of results. -/
def ofResult (r : CampaignResult) : Statistics := ofTimings r.interactions

/-- Whether rates and latencies can be told. -/
def isAvailable (s : Statistics) : Bool := decide (0 < s.lastTime) && !s.latencies.isEmpty

/-- A figure, if figures are available. -/
def figure (s : Statistics) (value : Float) : Option Float :=
  if s.isAvailable then some value else none

/-- Submissions per second. -/
def load (s : Statistics) : Option Float := s.figure (Float.ofNat s.submitted / s.lastTime)

/-- Commits per second. -/
def throughput (s : Statistics) : Option Float :=
  s.figure (Float.ofNat s.latencies.length / s.lastTime)

/-- The mean latency. -/
def mean (s : Statistics) : Option Float :=
  s.figure (s.latencies.foldl (· + ·) (-0.0) / Float.ofNat s.latencies.length)

/-- The middle latency, of an even number the upper one of the middle two. -/
def median (s : Statistics) : Option Float :=
  if s.isAvailable then s.latencies[s.latencies.length / 2]? else none

/-- A latency in whole microseconds. -/
def micros (latency : Float) : Nat := (latency * 1000000).toUInt64.toNat

/-- The histogram of the latencies. -/
def histogram (s : Statistics) : Histogram := .ofList (s.latencies.map micros)

/-- The least natural number not below a double; zero for what is negative or no number. -/
def ceiling (x : Float) : Nat :=
  match Decimal.Parts.of x with
  | .finite false mantissa exponent =>
    let (num, den) := Decimal.scaled mantissa exponent 0
    (num + den - 1) / den
  | _ => 0

/-- The rank that a share of so many values stands for, at least the first. -/
def rank (share : Float) (count : Nat) : Nat := max 1 (ceiling (share * Float.ofNat count))

/-- A share between zero and one; what is no number stays. -/
def clamp (share : Float) : Float := if share < 0 then 0 else if 1 < share then 1 else share

/-- The latency at a share of the samples, in seconds with three digits of its microseconds. -/
def quantile (s : Statistics) (share : Float) : Option Float :=
  let share := clamp share
  let h := s.histogram
  let value := if share == 0 then h.bottom else h.atRank (rank share s.latencies.length)
  s.figure (Float.ofNat value / 1000000)

end Statistics

end LedgerLoad
