import Portal.RunQueue.Clock
import Portal.Base.Json
import Mathlib.Data.String.Basic
import Mathlib.Data.Prod.Lex

/-!
# One pipeline of the run queue (`reconciler/run_queue.rs`: `Entry`)

What the queue holds of a pipeline and everything one pass does to a single entry: the plan's
rewrite, the arming and clearing of its retry, the end of its run, its coming due and its start.
The loops over the whole queue are in `Portal.RunQueue.Queue`.

* `Entry.arm`, `Entry.clearRetry`        the retry a failed run earned;
* `Entry.plan`, `Entry.retries`          what a plan makes of the entry;
* `Entry.verdict`, `Entry.endRun`        what a look at its run makes of it;
* `Entry.queueDue`, `Entry.queueRetry`, `Entry.refuse`, `Entry.start`.
-/

namespace Portal

/-- a pipeline by project and name, in the order of its project, then of its name -/
abbrev Key := Lex (String × String)

instance : LawfulBEq Key := inferInstance

namespace Key

def of (project name : String) : Key := toLex (project, name)

def project (key : Key) : String := (ofLex key).1

def name (key : Key) : String := (ofLex key).2

end Key

/-- what the queue takes from outside the Portal's own code: the hex SHA-256 of a stream's text and
the name of a pipeline's workload account -/
structure Ext where
  streamHash : Value → String
  accountName : String → String

/-- the longest a run may take -/
def runTimeout : Nat := Duration.ofSecs (15 * 60)

/-- a plan this old starts nothing -/
def stalePlan : Nat := Duration.ofSecs (10 * 60)

/-- how long a pipeline waits before each retry -/
def backoff : List Nat :=
  [Duration.ofSecs (15 * 60), Duration.ofSecs (60 * 60), Duration.ofSecs (4 * 60 * 60)]

def retriesPerDay : Nat := 6

structure Planned where
  stream : Value
  clock : Clock
  replace : Bool
deriving DecidableEq

inductive Last where
  | finished (time : Int) (seconds : Nat)
  | failed (time : Int) (reason : String)
deriving DecidableEq

/-- the run a pipeline earned when its last run failed for a cause outside its source -/
structure Retry where
  due : Int
  cause : String
deriving DecidableEq

structure Entry where
  stream : Value
  clock : Clock
  lane : Lane
  /-- when it is due next -/
  next : Option Int
  /-- in the queue since this due time -/
  queued : Option Int
  /-- in the runner since then -/
  running : Option Int
  /-- the id of the run in the runner, its due time -/
  run : Option String
  /-- the hash of the stream that run runs -/
  runStream : Option String
  /-- a leftover of its stream is still to be removed -/
  sweep : Bool
  /-- the runner did not let go of its last run -/
  stuck : Bool
  last : Option Last
  retry : Option Retry
  /-- the failed run the last retry was armed for -/
  armedFor : Option String
  /-- retries armed since its last run that did not fail for an outside cause -/
  attempts : Nat
  /-- when each retry of the last day was queued -/
  retried : List Int
deriving DecidableEq

inductive RunState where
  | running
  | finished
  | gone
deriving DecidableEq

/-- a run that ended: its id, whether the runner finished it and the hash of its stream -/
structure End where
  key : Key
  run : String
  finished : Bool
  stream : String
deriving DecidableEq

structure Start where
  key : Key
  run : String
  stream : Value
deriving DecidableEq

/-- the text of a stream that names its run by the clock -/
def tickText : String := "meta jc_run = now().ts_format(\"2006-01-02T15:04:05Z\", \"UTC\")"

/-- the stream of one run, with its id written in place of the clock's time -/
def withRun (stream : Value) (run : String) : Value :=
  stream.mapStrings (replaceAll tickText ("meta jc_run = " ++ quote run))

def Start.sent (s : Start) : Value := withRun s.stream s.run

/-- a day after `t`, `t` is a day old -/
def lastDay (now t : Int) : Bool := now - t < Time.day

/-- the due time a pipeline whose newest run last wrote at `last` missed by `now` -/
def missed (clock : Clock) (last now : Int) : Option Int :=
  (clock.nextAfter last).filter (fun due => due ≤ now)

/-- the first due time of a clock taken up at `now` -/
def Clock.first (clock : Clock) (now : Int) : Option Int :=
  match clock with
  | .once => some now
  | clock => clock.nextAfter now

namespace Entry

/-- how long one run may take: three periods of a short one, two minutes at least -/
def cap (e : Entry) (timeout : Nat) : Nat :=
  match e.clock with
  | .every p _ =>
    if p < shortBelow then min timeout (max (p * 3) (Duration.ofSecs 120)) else timeout
  | _ => timeout

/-! ## the retry -/

/-- the retry the failed run `run` earned, once -/
def arm (e : Entry) (run cause : String) (now : Int) : Entry :=
  if e.armedFor = some run then e else
    let retried := e.retried.filter (lastDay now)
    let room := retried.length < retriesPerDay
    let due := (backoff[e.attempts]?).map (fun wait : Nat => now + (wait : Int))
    { e with
      armedFor := some run
      retried := retried
      attempts := min (e.attempts + 1) (2 ^ 64 - 1)
      retry := (due.filter (fun due => room && e.next.all (fun next => due < next))).map
        (fun due => ⟨due, cause⟩) }

def clearRetry (e : Entry) : Entry := { e with retry := none, armedFor := none, attempts := 0 }

inductive Judgement where
  | leave
  | arm (run cause : String)
  | clear
deriving DecidableEq

/-! ## the plan -/

def new (p : Planned) (next : Option Int) (now : Int) : Entry where
  stream := p.stream
  clock := p.clock
  lane := p.clock.lane now
  next := next
  queued := none
  running := none
  run := none
  runStream := none
  sweep := true
  stuck := false
  last := none
  retry := none
  armedFor := none
  attempts := 0
  retried := []

/-- an entry whose stream or clock the plan changes; a `replace` pipeline whose stream changed is
due at once -/
def change (e : Entry) (p : Planned) (now : Int) : Entry :=
  { e with
    stuck := false
    stream := p.stream
    clock := p.clock
    lane := p.clock.lane now
    next := if p.replace = true ∧ e.stream ≠ p.stream then some now else p.clock.first now }

/-- an entry the queue holds, under a plan -/
def plan (e : Entry) (p : Planned) (now : Int) : Entry :=
  if e.stream = p.stream ∧ e.clock = p.clock then e else e.change p now

/-- what the log says of the newest run comes to: `failed` is `none` when the log was not read,
`some none` when its run is not among the failed ones -/
def judgement (e : Entry) (failed : Option (Option (String × String))) : Judgement :=
  match failed with
  | none => .leave
  | some failed =>
    if e.running ≠ none ∨ e.queued ≠ none then .leave else
      match e.last, failed with
      | some (.failed _ _), _ => .leave
      | _, some (run, cause) => .arm run cause
      | _, none => .clear

def judge (e : Entry) (failed : Option (Option (String × String))) (now : Int) : Entry :=
  match e.judgement failed with
  | .leave => e
  | .arm run cause => e.arm run cause now
  | .clear => e.clearRetry

/-- its pending retry, not later than `now` -/
def hurry (e : Entry) (now : Int) : Entry :=
  { e with retry := e.retry.map (fun r => { r with due := min r.due now }) }

def retries (e : Entry) (failed : Option (Option (String × String))) (changed : Bool) (now : Int) :
    Entry :=
  if changed then (e.judge failed now).hurry now else e.judge failed now

/-! ## the end of a run -/

/-- why a run the runner answers `state` for ends, and nothing while it goes on: `some none` is a
run that finished -/
def verdict (e : Entry) (started : Int) (state : RunState) (now : Int) (timeout : Nat) :
    Option (Option String) :=
  match state with
  | .finished => some none
  | .gone => some (some "the runner no longer holds the run")
  | .running =>
    if e.cap timeout ≤ Duration.ofSpan (now - started) then
      some (some ("it ran past " ++ toString (Duration.asSecs (e.cap timeout) / 60)
        ++ " min and was stopped"))
    else none

/-- a run the runner lost is retried; one past its cap would only run past it again -/
def lost (e : Entry) (state : RunState) (failure : Option String) : Judgement :=
  match state, failure, e.run with
  | .gone, some reason, some run => .arm run reason
  | _, _, _ => .leave

def armLost (e : Entry) (state : RunState) (failure : Option String) (now : Int) : Entry :=
  match e.lost state failure with
  | .arm run cause => e.arm run cause now
  | _ => e

def endRun (e : Entry) (started : Int) (state : RunState) (failure : Option String) (now : Int) :
    Entry :=
  { e.armLost state failure now with
    runStream := none
    running := none
    last := some (match failure with
      | none => .finished now (Duration.asSecs (Duration.ofSpan (now - started)))
      | some reason => .failed now reason) }

def ended (e : Entry) (key : Key) (failure : Option String) : List End :=
  match e.run with
  | none => []
  | some run => [⟨key, run, failure.isNone, e.runStream.getD ""⟩]

/-! ## coming due -/

def free (e : Entry) : Prop := e.queued = none ∧ e.running = none ∧ e.stuck = false

instance (e : Entry) : Decidable e.free := inferInstanceAs (Decidable (_ ∧ _ ∧ _))

/-- what came due joins the queue; `next` moves on whether it did or not -/
def queueDue (e : Entry) (now : Int) : Entry :=
  match e.next.filter (fun due => due ≤ now) with
  | none => e
  | some due =>
    { e with
      queued := if e.free then some due else e.queued
      next := e.clock.nextAfter now }

/-- a retry that came due joins the queue under its own time; it is spent whether it did or not -/
def queueRetry (e : Entry) (now : Int) : Entry :=
  match e.retry.filter (fun retry => retry.due ≤ now) with
  | none => e
  | some retry =>
    if e.free then
      { e with retry := none, queued := some retry.due, retried := e.retried ++ [now] }
    else { e with retry := none }

/-! ## the start -/

def unboundReason : String :=
  "not started: the realm holds no client for its account yet, so the gateway would refuse its "
    ++ "writes (401); it runs at its next due time once the client is there"

/-- a run whose account has no client ends failed without a start -/
def refuse (e : Entry) (now : Int) : Entry :=
  { e with queued := none, last := some (.failed now unboundReason) }

def start (e : Entry) (x : Ext) (due now : Int) : Entry :=
  { e with
    queued := none
    running := some now
    run := some (stamp due)
    runStream := some (x.streamHash e.stream) }

def stuckReason : String :=
  "it ran past its cap and the runner could not stop it: a step loops or never returns (a "
    ++ "recursive jq def, a range over millions of items), so the runner restarts to free it; "
    ++ "change the step and push again, the pipeline runs once its steps change"

/-- the runner did not let go of its run -/
def hold (e : Entry) (now : Int) : Entry :=
  { e with stuck := true, queued := none, last := some (.failed now stuckReason) }

def failedToStart (e : Entry) (reason : String) (now : Int) : Entry :=
  let reason := "the runner refused the run: " ++ reason
  let e := { e with running := none }
  let e := match e.run with
    | none => e
    | some run => e.arm run reason now
  { e with last := some (.failed now reason) }

end Entry
end Portal
