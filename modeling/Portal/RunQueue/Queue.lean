import Portal.Base.OrdMap
import Portal.RunQueue.Entry
import Mathlib.Data.Finset.Basic
import Mathlib.Data.List.Sort

/-!
# The run queue (`reconciler/run_queue.rs`: `RunQueue`)

The queue's state and its operations, each as one section under the queue's lock.  The loops go over
the entries in key order; `plan` alters one entry a turn, `settle` ends what the runner is done
with, queues what came due and starts what each lane has room for.

* `RunQueue.plan`      the reconciler's whole set of run-and-delete pipelines;
* `RunQueue.sweeps`    the streams to remove before anything starts;
* `RunQueue.settle`    the runs to delete and the runs to start;
* `RunQueue.stuck`, `failedToStart`, `runNow`.
-/

namespace Portal

structure RunQueue where
  batch : Nat
  short : Nat
  timeout : Nat
  entries : OrdMap Key Entry
  /-- runs whose pipeline went away while they ran -/
  gone : List Key
  /-- the runs that ended since the last tick took them -/
  ends : List End
  plannedAt : Option Int
  /-- when each pipeline's newest logged run last wrote; `none` until the log was read -/
  ran : Option (OrdMap Key Int)
  /-- the hash of the stream each pipeline's newest logged run ran -/
  streams : Option (OrdMap Key String)
  /-- the workload accounts without a client -/
  unbound : Finset String
  /-- the pipelines whose newest logged run failed for a cause outside its source -/
  failed : Option (OrdMap Key (String × String))
  /-- a fingerprint of each project's rules, and the projects whose fingerprint changed -/
  rules : OrdMap String UInt64
  rulesChanged : Finset String

inductive RunNow where
  | notQueued
  | running (run : String)
  | held
deriving DecidableEq

namespace RunQueue

def new (batch short : Nat) : RunQueue where
  batch := max batch 1
  short := max short 1
  timeout := runTimeout
  entries := OrdMap.empty
  gone := []
  ends := []
  plannedAt := none
  ran := none
  streams := none
  unbound := ∅
  failed := none
  rules := OrdMap.empty
  rulesChanged := ∅

def put (q : RunQueue) (key : Key) (e : Entry) : RunQueue :=
  { q with entries := q.entries.insert key e }

/-! ## what the reconciler tells it -/

def setFailed (q : RunQueue) (failed : OrdMap Key (String × String)) : RunQueue :=
  { q with failed := some failed }

def setRules (q : RunQueue) (rules : OrdMap String UInt64) : RunQueue :=
  let changed := rules.toList.filter (fun r => (q.rules.get? r.1).any (fun old => old ≠ r.2))
  { q with rules := rules, rulesChanged := q.rulesChanged ∪ (changed.map Prod.fst).toFinset }

def setUnbound (q : RunQueue) (accounts : Finset String) : RunQueue :=
  { q with unbound := accounts }

def setRan (q : RunQueue) (ran : OrdMap Key Int) : RunQueue := { q with ran := some ran }

def setStreams (q : RunQueue) (streams : OrdMap Key String) : RunQueue :=
  { q with streams := some streams }

/-- whether `key`'s own account is one without a client -/
def isUnbound (q : RunQueue) (x : Ext) (key : Key) : Bool :=
  key.project ++ "/" ++ x.accountName key.name ∈ q.unbound

/-! ## the plan -/

/-- a `replace` pipeline whose stream differs from the one its newest logged run ran -/
def changedUnheld (q : RunQueue) (x : Ext) (key : Key) (p : Planned) : Bool :=
  p.replace && ((q.streams.bind (fun streams => streams.get? key)).any
    (fun ran => ran ≠ x.streamHash p.stream))

/-- when a pipeline new to this queue is due first -/
def firstOfNew (q : RunQueue) (x : Ext) (key : Key) (p : Planned) (now : Int) : Option Int :=
  if q.changedUnheld x key p then some now else
    match q.ran with
    | none => p.clock.first now
    | some ran =>
      match ran.get? key with
      | none => some now
      | some last => (missed p.clock last now).or (p.clock.first now)

def planEntry (q : RunQueue) (x : Ext) (key : Key) (p : Planned) (now : Int) :
    Option Entry → Entry
  | some e => e.plan p now
  | none => Entry.new p (q.firstOfNew x key p now) now

def retries (q : RunQueue) (now : Int) : RunQueue :=
  { q with
    entries := q.entries.mapVal (fun key e =>
      e.retries (q.failed.map (fun failed => failed.get? key))
        (key.project ∈ q.rulesChanged) now)
    failed := none
    rulesChanged := ∅ }

/-- the queue without the pipelines a plan no longer has; their runs are gone -/
def dropUnwanted (q : RunQueue) (wanted : OrdMap Key Planned) : RunQueue :=
  let dropped := q.entries.toList.filter (fun p => (wanted.get? p.1).isNone)
  { q with
    entries := q.entries.filterKeys (fun key => (wanted.get? key).isSome)
    gone := q.gone ++ (dropped.filter (fun p => p.2.running.isSome)).map Prod.fst }

def planWanted (q : RunQueue) (x : Ext) (wanted : OrdMap Key Planned) (now : Int) : RunQueue :=
  { q with
    entries := wanted.toList.foldl
      (fun entries w => entries.alter w.1 (fun e => some (q.planEntry x w.1 w.2 now e))) q.entries }

def plan (q : RunQueue) (x : Ext) (wanted : OrdMap Key Planned) (now : Int) : RunQueue :=
  ((({ q with plannedAt := some now }).dropUnwanted wanted).planWanted x wanted now).retries now

/-! ## the first lock section of a tick -/

/-- the streams to remove: runs whose pipeline went away, and each new pipeline's leftover -/
def sweeps (q : RunQueue) : RunQueue × List Key :=
  let due (e : Entry) : Bool := e.sweep && e.running.isNone
  ({ q with
      gone := []
      entries := q.entries.mapVal (fun _ e => if due e then { e with sweep := false } else e) },
    q.gone ++ (q.entries.toList.filter (fun p => due p.2)).map Prod.fst)

def running (q : RunQueue) : List Key :=
  (q.entries.toList.filter (fun p => p.2.running.isSome)).map Prod.fst

/-! ## the second -/

/-- the runs the runner finished, lost or held too long -/
def settleEnds (now : Int) : List (Key × RunState) → RunQueue → RunQueue × List Key
  | [], q => (q, [])
  | (key, state) :: states, q =>
    match q.entries.get? key with
    | none => settleEnds now states q
    | some e =>
      match e.running with
      | none => settleEnds now states q
      | some started =>
        match e.verdict started state now q.timeout with
        | none => settleEnds now states q
        | some failure =>
          let q := { q with ends := q.ends ++ e.ended key failure }
          let r := settleEnds now states (q.put key (e.endRun started state failure now))
          (r.1, key :: r.2)

def queueDue (q : RunQueue) (now : Int) : RunQueue :=
  { q with entries := q.entries.mapVal (fun _ e => e.queueDue now) }

def queueRetries (q : RunQueue) (now : Int) : RunQueue :=
  { q with entries := q.entries.mapVal (fun _ e => e.queueRetry now) }

/-- whether the last plan is recent enough to start anything -/
def fresh (q : RunQueue) (now : Int) : Bool :=
  q.plannedAt.any (fun planned => Duration.ofSpan (now - planned) < stalePlan)

/-- how many runs of a lane are in the runner -/
def busy (q : RunQueue) (lane : Lane) : Nat :=
  q.entries.count (fun e => e.lane = lane && e.running.isSome)

/-- the due time of an entry that waits in a lane -/
def waits (lane : Lane) (e : Entry) : Option Int :=
  if e.lane = lane ∧ e.running = none ∧ e.sweep = false then e.queued else none

def waiting (q : RunQueue) (lane : Lane) : List (Lex (Int × Key)) :=
  (q.entries.toList.filterMap (fun p => (waits lane p.2).map (fun due => toLex (due, p.1)))
    ).insertionSort (fun a b => a ≤ b)

def refuseAll (q : RunQueue) (refused : List (Lex (Int × Key))) (now : Int) : RunQueue :=
  { q with
    entries := refused.foldl
      (fun entries w => entries.alter (ofLex w).2 (fun e => e.map (fun e => e.refuse now)))
      q.entries }

def startAll (x : Ext) (now : Int) : List (Lex (Int × Key)) → RunQueue → RunQueue × List Start
  | [], q => (q, [])
  | w :: ws, q =>
    match q.entries.get? (ofLex w).2 with
    | none => startAll x now ws q
    | some e =>
      let r := startAll x now ws (q.put (ofLex w).2 (e.start x (ofLex w).1 now))
      (r.1, ⟨(ofLex w).2, stamp (ofLex w).1, e.stream⟩ :: r.2)

/-- one lane: the runs without an account end here, the rest start in order while there is room -/
def settleLane (q : RunQueue) (x : Ext) (lane : Lane) (limit : Nat) (fresh : Bool) (now : Int) :
    RunQueue × List Start :=
  if fresh then
    let refused := (q.waiting lane).filter (fun w => q.isUnbound x (ofLex w).2)
    let rest := (q.waiting lane).filter (fun w => !q.isUnbound x (ofLex w).2)
    startAll x now (rest.take (limit - q.busy lane)) (q.refuseAll refused now)
  else (q, [])

/-- what comes before the lanes: the ends and what came due -/
def settleDue (q : RunQueue) (states : List (Key × RunState)) (now : Int) : RunQueue × List Key :=
  let r := settleEnds now states q
  ((r.1.queueDue now).queueRetries now, r.2)

def settle (q : RunQueue) (x : Ext) (states : List (Key × RunState)) (now : Int) :
    RunQueue × List Key × List Start :=
  let due := q.settleDue states now
  let fresh := due.1.fresh now
  let first := due.1.settleLane x .batch due.1.batch fresh now
  let second := first.1.settleLane x .short first.1.short fresh now
  (second.1, due.2, first.2 ++ second.2)

/-! ## the later answers of the runner -/

def stuck (q : RunQueue) (key : Key) (now : Int) : RunQueue :=
  { q with entries := q.entries.modify key (fun e => e.hold now) }

def failedToStart (q : RunQueue) (key : Key) (reason : String) (now : Int) : RunQueue :=
  { q with entries := q.entries.modify key (fun e => e.failedToStart reason now) }

def takeEnds (q : RunQueue) : RunQueue × List End := ({ q with ends := [] }, q.ends)

/-- queues one run of `key` now, outside its clock, and names it -/
def runNow (q : RunQueue) (key : Key) (now : Int) : RunQueue × Except RunNow String :=
  match q.entries.get? key with
  | none => (q, .error .notQueued)
  | some e =>
    if e.running ≠ none then (q, .error (.running (e.run.getD "")))
    else if e.stuck then (q, .error .held)
    else
      let due := e.queued.getD now
      (q.put key { e with queued := some due }, .ok (stamp due))

end RunQueue
end Portal
