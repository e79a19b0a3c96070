import LedgerLoad.Adapter.BuiltIn
import LedgerLoad.Adapter.Connection
import LedgerLoad.Adapter.Contract
import LedgerLoad.Adapter.Script
import LedgerLoad.Adapter.Timer
import LedgerLoad.Adapter.Transaction
import LedgerLoad.Arithmetic
import LedgerLoad.Bytes
import LedgerLoad.Bytes.Hex
import LedgerLoad.Bytes.Lz4
import LedgerLoad.Bytes.Utf8
import LedgerLoad.Clock.Pool
import LedgerLoad.Clock.Task
import LedgerLoad.CommandLine.Grammar
import LedgerLoad.CommandLine.Invocation
import LedgerLoad.Config.Benchmark
import LedgerLoad.Config.Campaign
import LedgerLoad.Config.Setup
import LedgerLoad.Data.Datum
import LedgerLoad.Data.Reading
import LedgerLoad.Decimal.Parts
import LedgerLoad.Decimal.Plain
import LedgerLoad.Decimal.Shortest
import LedgerLoad.Decimal.Written
import LedgerLoad.Dictionary
import LedgerLoad.Document
import LedgerLoad.Interaction
import LedgerLoad.Json.Numeral
import LedgerLoad.Json.Reader
import LedgerLoad.Json.Writer
import LedgerLoad.Lane.Basic
import LedgerLoad.Lane.Crew
import LedgerLoad.Main
import LedgerLoad.Mock.Adapter
import LedgerLoad.Mock.Ledger
import LedgerLoad.Mock.Payload
import LedgerLoad.Plan
import LedgerLoad.Primary.Basic
import LedgerLoad.Primary.Link
import LedgerLoad.Primary.Run
import LedgerLoad.Primary.Secondaries
import LedgerLoad.Proofs.Adapter.Timer
import LedgerLoad.Proofs.Bytes.Hex
import LedgerLoad.Proofs.Bytes.Lz4
import LedgerLoad.Proofs.Bytes.Utf8
import LedgerLoad.Proofs.Clock.Accesses
import LedgerLoad.Proofs.Clock.Delays
import LedgerLoad.Proofs.Clock.Interleaving
import LedgerLoad.Proofs.Clock.Pool
import LedgerLoad.Proofs.Config.Words
import LedgerLoad.Proofs.Data.Reading
import LedgerLoad.Proofs.Document
import LedgerLoad.Proofs.Double.Alike
import LedgerLoad.Proofs.Double.Finite
import LedgerLoad.Proofs.Double.Nearest
import LedgerLoad.Proofs.Double.Order
import LedgerLoad.Proofs.Double.Positive
import LedgerLoad.Proofs.Double.Rounding
import LedgerLoad.Proofs.Double.Whole
import LedgerLoad.Proofs.Except
import LedgerLoad.Proofs.Json.Finite
import LedgerLoad.Proofs.Json.Number
import LedgerLoad.Proofs.Json.Numeral
import LedgerLoad.Proofs.Json.RoundTrip
import LedgerLoad.Proofs.Json.Text
import LedgerLoad.Proofs.Lane.Course
import LedgerLoad.Proofs.Lane.Independence
import LedgerLoad.Proofs.Lane.Slots
import LedgerLoad.Proofs.Lane.TimeOrder
import LedgerLoad.Proofs.Lane.Times
import LedgerLoad.Proofs.Lane.Walk
import LedgerLoad.Proofs.Mock.Balances
import LedgerLoad.Proofs.Mock.Codec
import LedgerLoad.Proofs.Mock.Failure
import LedgerLoad.Proofs.Mock.Payload
import LedgerLoad.Proofs.Mock.Plan
import LedgerLoad.Proofs.Mock.Service
import LedgerLoad.Proofs.Plan
import LedgerLoad.Proofs.Plan.Due
import LedgerLoad.Proofs.Plan.Outcome
import LedgerLoad.Proofs.Plan.Pairs
import LedgerLoad.Proofs.Plan.Room
import LedgerLoad.Proofs.Plan.Schedule
import LedgerLoad.Proofs.Plan.Validation
import LedgerLoad.Proofs.Primary.Answers
import LedgerLoad.Proofs.Primary.Completion
import LedgerLoad.Proofs.Primary.Course
import LedgerLoad.Proofs.Primary.Discipline
import LedgerLoad.Proofs.Primary.HalfSent
import LedgerLoad.Proofs.Primary.Interleaving
import LedgerLoad.Proofs.Primary.Link
import LedgerLoad.Proofs.Primary.Outcome
import LedgerLoad.Proofs.Primary.Placement
import LedgerLoad.Proofs.Primary.Round
import LedgerLoad.Proofs.Primary.Run
import LedgerLoad.Proofs.Primary.Seats
import LedgerLoad.Proofs.Results.Carried
import LedgerLoad.Proofs.Results.Codec
import LedgerLoad.Proofs.Results.Place
import LedgerLoad.Proofs.Results.Reading
import LedgerLoad.Proofs.RoundRobin
import LedgerLoad.Proofs.Secondary.Calls
import LedgerLoad.Proofs.Secondary.HalfAnswered
import LedgerLoad.Proofs.Secondary.Serving
import LedgerLoad.Proofs.Secondary.Stages
import LedgerLoad.Proofs.Statistics.Accuracy
import LedgerLoad.Proofs.Statistics.Figures
import LedgerLoad.Proofs.Statistics.Histogram
import LedgerLoad.Proofs.Statistics.Quantiles
import LedgerLoad.Proofs.Statistics.Regrouped
import LedgerLoad.Proofs.Time.Seconds
import LedgerLoad.Proofs.Timing
import LedgerLoad.Proofs.Timing.Recorded
import LedgerLoad.Proofs.Wire.Framing
import LedgerLoad.Proofs.Wire.Stream
import LedgerLoad.Proofs.Workload.Message
import LedgerLoad.Proofs.Workload.RoundTrip
import LedgerLoad.Random.ChaCha
import LedgerLoad.Results
import LedgerLoad.Results.Text
import LedgerLoad.RoundRobin
import LedgerLoad.Secondary.Basic
import LedgerLoad.Secondary.Session
import LedgerLoad.Statistics.Figures
import LedgerLoad.Statistics.Histogram
import LedgerLoad.Statistics.Report
import LedgerLoad.Text.Blank
import LedgerLoad.Text.Integer
import LedgerLoad.Text.Quoted
import LedgerLoad.Text.Visible
import LedgerLoad.Time.Duration
import LedgerLoad.Time.Written
import LedgerLoad.Timing
import LedgerLoad.Toml.Document
import LedgerLoad.Toml.Lexical
import LedgerLoad.Toml.Section
import LedgerLoad.Wire.Command
import LedgerLoad.Wire.Frame
import LedgerLoad.Wire.Request
import LedgerLoad.Workload.Message
