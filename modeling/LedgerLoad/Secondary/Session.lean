import LedgerLoad.Secondary.Basic

/-! # Sessions

A session is a secondary on a stream. It takes requests off the octets that have arrived, answers
each before it looks at the next, and waits for its lanes when it is asked for results. It ends with
the last request, at the end of the stream, or at octets that are no request. Main statements:
`proceed` lets it work as long as it can, `serve` is its whole life on a stream that is given at
once. -/

namespace LedgerLoad

/-- A secondary on a stream. -/
structure Session (σ β : Type) where
  secondary : Secondary σ β
  clock : Duration
  stage : Stage σ
  /-- The octets that have arrived and wait to be read. -/
  input : Bytes
  /-- The octets that were written. -/
  output : Bytes
  /-- What was logged, except by lanes at work, from first to last. -/
  log : List Notice
  /-- Whether somebody takes what is written. -/
  reachable : Bool
  /-- How the session ended, once it has. -/
  ending : Option (Except WireFault Unit)

namespace Session

variable {σ β : Type}

/-- A session before anything has arrived. -/
def start (secondary : Secondary σ β) : Session σ β :=
  { secondary, clock := .zero, stage := .connected, input := [], output := [], log := []
    reachable := true, ending := none }

/-! ### Requests -/

/-- What is logged of results that are given for the first time. -/
def report (stage : Stage σ) : Received → List Notice
  | .results =>
    match stage with
    | .running crew => crew.finish.report
    | _ => []
  | _ => []

/-- The ending of a session that has written an answer, if that ends it. -/
def endingAfter (reachable : Bool) (r : Received) (written : Wire.Written) :
    Option (Except WireFault Unit) :=
  if r.command = .fin then some (.ok ())
  else if !reachable then some (.error .io)
  else written.fault.map fun fault => .error (.document fault)

/-- Answers a request, behind which `rest` has arrived. -/
def take (s : Session σ β) (r : Received) (rest : Bytes) : Session σ β :=
  let (answer, stage) := s.secondary.answer s.clock s.stage r
  let written := answer.write
  { s with
    stage
    input := rest
    output := if s.reachable then s.output ++ written.octets else s.output
    log := s.log ++ report s.stage r ++ answer.notices r.command
    ending := endingAfter s.reachable r written }

@[simp] theorem input_take (s : Session σ β) (r : Received) (rest : Bytes) :
    (s.take r rest).input = rest := rfl

/-- Lets time go by up to a limit until a request can be answered, and says whether it can: results
have to wait for the lanes. -/
def await (limit : Option Duration) (s : Session σ β) : Received → Session σ β × Bool
  | .results =>
    match s.stage with
    | .running crew =>
      let crew := crew.run limit
      ({ s with stage := .running crew, clock := s.clock.latest crew.pool.clock }, crew.ended)
    | _ => (s, true)
  | _ => (s, true)

/-- Answers what has arrived, up to a limit on the clock or as far as it goes. -/
def proceed (limit : Option Duration) (s : Session σ β) : Session σ β :=
  if s.ending.isSome then s
  else
    match h : Incoming.of s.input with
    | .incomplete => s
    | .broken fault => { s with input := [], ending := some (.error fault) }
    | .request r rest =>
      let (waited, ready) := s.await limit r
      if ready then
        have := Incoming.of_shorter h
        proceed limit (waited.take r rest)
      else waited
termination_by s.input.length

/-! ### Octets and time -/

/-- Octets arrive; the session comes to know of them when it proceeds. -/
def arrive (octets : Bytes) (s : Session σ β) : Session σ β := { s with input := s.input ++ octets }

/-- Lets lanes at work catch up with the clock. -/
def catchUp (s : Session σ β) : Session σ β :=
  match s.stage with
  | .running crew => { s with stage := .running (crew.waitUntil s.clock) }
  | _ => s

/-- Lets time go by up to a moment. -/
def waitUntil (moment : Duration) (s : Session σ β) : Session σ β :=
  let s := s.proceed (some moment)
  { s with clock := s.clock.latest moment }.catchUp

/-- Answers what can be answered at once. -/
def settle (s : Session σ β) : Session σ β := s.waitUntil s.clock

/-- Answers all that has arrived, whatever time that takes. -/
def exhaust (s : Session σ β) : Session σ β := (s.proceed none).catchUp

/-- Lets time go by until what was written is enough, or until nothing more will be written; the
fuel is more than the number of requests that have arrived. -/
def waitForUpTo (enough : Bytes → Bool) : (fuel : Nat) → Session σ β → Session σ β
  | 0, s => s
  | fuel + 1, s =>
    let s := s.settle
    if enough s.output || s.ending.isSome then s
    else
      match s.stage with
      | .running crew =>
        let moment := crew.finish.pool.clock
        if moment ≤ s.clock then s else waitForUpTo enough fuel (s.waitUntil moment)
      | _ => s

/-- Lets time go by until what was written is enough; what is enough already takes no time. -/
def waitFor (enough : Bytes → Bool) (s : Session σ β) : Session σ β :=
  if enough s.output then s else waitForUpTo enough (s.input.length + 1) s

/-- Moves the clock in one go, and answers what can be answered then. -/
def jumpTo (moment : Duration) (s : Session σ β) : Session σ β :=
  let stage : Stage σ := match s.stage with
    | .running crew => .running (crew.setClock moment)
    | stage => stage
  { s with clock := moment, stage }.settle

/-! ### The end of the stream -/

/-- What is logged at the end of a stream between two requests. -/
def closeNotice (stage : Stage σ) : Notice :=
  ⟨.warn, "Primary closed the connection", [("state", stage.name)]⟩

/-- Answers all that has arrived; then the stream ends. A stream that ends inside a request is
broken. -/
def close (s : Session σ β) : Session σ β :=
  let s := s.proceed none
  if s.ending.isSome then s
  else if s.input = [] then
    { s with log := s.log ++ [closeNotice s.stage], ending := some (.ok ()) }
  else { s with ending := some (.error .io) }

/-- The stream ends and nobody takes any more answers. -/
def hangUp (s : Session σ β) : Session σ β := { s with reachable := false }.close

/-- All that was logged, that of lanes at work last. -/
def notices (s : Session σ β) : List Notice :=
  match s.stage with
  | .running crew => s.log ++ crew.pool.log.reverse
  | _ => s.log

end Session

/-- The words that report how a session ended badly. -/
def serveMessage (fault : WireFault) : String := "Control connection failed: " ++ fault.message

/-- The life of a secondary on a stream that brings the given octets and ends, with somebody who
takes all answers. -/
def Secondary.serve {σ β : Type} (s : Secondary σ β) (input : Bytes) : Session σ β :=
  ((Session.start s).arrive input).close

end LedgerLoad
