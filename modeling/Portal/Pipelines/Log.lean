import Mathlib.Data.List.DropRight
import Portal.Base.OrdMap
import Portal.Pipelines.Masking
import Portal.RunQueue.Entry

/-!
# The log of a pipeline's runs (`pipeline_log.rs`: `LogStore`)

What the runners report of each run: its lines, its counts, what its records changed and the stream it
ran.  The store is the one in memory; times are the texts of RFC 3339, and counts are natural numbers.

* `Memory.append`, `Memory.recordChanges`, `Memory.ranStream`   one report of one pipeline;
* `Logs`, `Act`, `run`       the log of every pipeline, and what is called on it;
* `ranStreams`, `lines`      what is read;
* `Event`, `history`, `replay`   what was reported of a pipeline since it was last forgotten;
* `memoryOf_run`             **a pipeline's log is what its history makes of an empty one**.
-/

namespace Portal

namespace Pipelines

/-- how many lines one pipeline keeps -/
@[irreducible] def linesKept : Nat := 5000

/-- how many runs one pipeline keeps the counts of -/
@[irreducible] def runsKept : Nat := 200

/-- the longest record id and message a line carries -/
def textChars : Nat := 500

inductive Outcome where
  | sent
  | rejected
  | failed
deriving DecidableEq

structure NewLine where
  recordId : String
  step : Option Int
  outcome : Outcome
  message : String
deriving DecidableEq

/-- a line of a log but for its place -/
structure Line where
  time : String
  run : String
  recordId : String
  step : Option Int
  outcome : Outcome
  message : String
deriving DecidableEq

structure LogLine extends Line where
  id : Nat
deriving DecidableEq

structure LogRun where
  run : String
  firstAt : String
  lastAt : String
  sent : Nat
  rejected : Nat
  failed : Nat
  created : Option Nat
  updated : Option Nat
  unchanged : Option Nat
deriving DecidableEq

/-- what the written records of one report did -/
structure Changes where
  created : Nat
  updated : Nat
  unchanged : Nat
deriving DecidableEq

structure Memory where
  next : Nat
  lines : List LogLine
  runs : List LogRun
  /-- the last hash written per record id -/
  hashes : OrdMap String String
  /-- the stream each run ran, by run -/
  streams : OrdMap String String

namespace Memory

def empty : Memory := ⟨0, [], [], OrdMap.empty, OrdMap.empty⟩

end Memory

def clean (text : String) : String := String.ofList (maskText (text.toList.take textChars))

def cutHash (hash : String) : String := String.ofList (hash.toList.take 64)

def count (outcome : Outcome) (lines : List NewLine) : Nat :=
  (lines.filter (fun l => l.outcome = outcome)).length

def NewLine.kept (now run : String) (l : NewLine) : Line :=
  ⟨now, run, clean l.recordId, l.step, l.outcome, clean l.message⟩

/-- the lines of a report with their places, after the place `next` -/
def numbered (next : Nat) (lines : List Line) : List LogLine :=
  (lines.zipIdx (next + 1)).map (fun p => { p.1 with id := p.2 })

/-- the run of a report with its counts, moved to the end -/
def countRun (now run : String) (lines : List NewLine) (runs : List LogRun) : List LogRun :=
  match runs.find? (fun r => r.run = run) with
  | some kept =>
    runs.eraseP (fun r => r.run = run) ++ [{ kept with
      lastAt := now
      sent := kept.sent + count .sent lines
      rejected := kept.rejected + count .rejected lines
      failed := kept.failed + count .failed lines }]
  | none =>
    runs ++ [⟨run, now, now, count .sent lines, count .rejected lines, count .failed lines,
      none, none, none⟩]

/-- one report of a run: its lines and counts, and what is beyond the bounds dropped -/
def Memory.append (m : Memory) (now run : String) (lines : List NewLine) : Memory :=
  let runs := (countRun now run lines m.runs).rtake runsKept
  { m with
    next := m.next + lines.length
    lines := (m.lines ++ numbered m.next (lines.map (NewLine.kept now run))).rtake linesKept
    runs := runs
    streams := m.streams.filterKeys (fun run => runs.any (fun kept => kept.run = run)) }

def compared (written : List (String × String)) : List (String × String) :=
  (written.filter (fun w => w.1 ≠ "")).map (fun w => (clean w.1, cutHash w.2))

/-- one record beside the last hash of its id -/
def tallyOne (s : OrdMap String String × Changes) (w : String × String) :
    OrdMap String String × Changes :=
  (s.1.insert w.1 w.2,
    match s.1.get? w.1 with
    | none => { s.2 with created := s.2.created + 1 }
    | some before =>
      if before = w.2 then { s.2 with unchanged := s.2.unchanged + 1 }
      else { s.2 with updated := s.2.updated + 1 })

def tally (known : OrdMap String String) (written : List (String × String)) :
    OrdMap String String × Changes :=
  written.foldl tallyOne (known, ⟨0, 0, 0⟩)

def LogRun.changed (r : LogRun) (c : Changes) : LogRun :=
  { r with
    created := some (r.created.getD 0 + c.created)
    updated := some (r.updated.getD 0 + c.updated)
    unchanged := some (r.unchanged.getD 0 + c.unchanged) }

def changeRun (run : String) (c : Changes) : List LogRun → List LogRun
  | [] => []
  | r :: runs => if r.run = run then r.changed c :: runs else r :: changeRun run c runs

def Memory.recordChanges (m : Memory) (run : String) (written : List (String × String)) :
    Memory × Changes :=
  let t := tally m.hashes (compared written)
  ({ m with hashes := t.1, runs := changeRun run t.2 m.runs }, t.2)

def Memory.ranStream (m : Memory) (run stream : String) : Memory :=
  if m.runs.any (fun logged => logged.run = run) then
    { m with streams := m.streams.insert run stream }
  else m

def Memory.newestStream (m : Memory) : Option String :=
  m.runs.getLast?.bind (fun newest => m.streams.get? newest.run)

/-- the lines of a run, newest first, at most `limit`, older than `before` -/
def Memory.page (m : Memory) (run : String) (limit : Nat) (before : Option Int) : List LogLine :=
  (m.lines.reverse.filter (fun l => l.run = run && before.all (fun b => (l.id : Int) < b))).take
    (max 1 (min limit linesKept))

/-! ## the logs of all pipelines -/

abbrev Logs := OrdMap Key Memory

def memoryOf (logs : Logs) (key : Key) : Memory := (logs.get? key).getD Memory.empty

inductive Act where
  | append (now project pipeline run : String) (lines : List NewLine)
  | recordChanges (project pipeline run : String) (written : List (String × String))
  | ranStream (project pipeline run stream : String)
  | forgetGone (loaded : OrdMap String (List String))

def append (logs : Logs) (now project pipeline run : String) (lines : List NewLine) : Logs :=
  logs.insert (Key.of project pipeline)
    ((memoryOf logs (Key.of project pipeline)).append now run lines)

def recordChanges (logs : Logs) (project pipeline run : String) (written : List (String × String)) :
    Logs × Changes :=
  let m := (memoryOf logs (Key.of project pipeline)).recordChanges run written
  (logs.insert (Key.of project pipeline) m.1, m.2)

def ranStream (logs : Logs) (project pipeline run stream : String) : Logs :=
  logs.modify (Key.of project pipeline) (fun m => m.ranStream run stream)

/-- a pipeline its project no longer holds -/
def gone (loaded : OrdMap String (List String)) (key : Key) : Bool :=
  !(loaded.get? key.project).all (fun names => names.contains key.name)

def forgetGone (logs : Logs) (loaded : OrdMap String (List String)) : Logs :=
  logs.filterKeys (fun key => !gone loaded key)

def Act.apply (logs : Logs) : Act → Logs
  | .append now project pipeline run lines => Pipelines.append logs now project pipeline run lines
  | .recordChanges project pipeline run written =>
    (Pipelines.recordChanges logs project pipeline run written).1
  | .ranStream project pipeline run stream => Pipelines.ranStream logs project pipeline run stream
  | .forgetGone loaded => Pipelines.forgetGone logs loaded

/-- the logs of one process after `acts`, oldest first -/
def run (acts : List Act) : Logs := acts.foldl Act.apply OrdMap.empty

/-- the pipelines whose newest run has a stream, with it -/
def ranStreams (logs : Logs) : List (Key × String) :=
  logs.toList.filterMap (fun p => p.2.newestStream.map (fun stream => (p.1, stream)))

def lines (logs : Logs) (project pipeline run : String) (limit : Nat) (before : Option Int) :
    List LogLine :=
  ((logs.get? (Key.of project pipeline)).map (fun m => m.page run limit before)).getD []

/-! ## histories -/

inductive Event where
  | append (now run : String) (lines : List NewLine)
  | changes (run : String) (written : List (String × String))
  | stream (run stream : String)
deriving DecidableEq

def Memory.take (m : Memory) : Event → Memory
  | .append now run lines => m.append now run lines
  | .changes run written => (m.recordChanges run written).1
  | .stream run stream => m.ranStream run stream

def replay (h : List Event) : Memory := h.foldl Memory.take Memory.empty

def note (key : Key) (h : List Event) : Act → List Event
  | .append now project pipeline run lines =>
    if Key.of project pipeline = key then h ++ [.append now run lines] else h
  | .recordChanges project pipeline run written =>
    if Key.of project pipeline = key then h ++ [.changes run written] else h
  | .ranStream project pipeline run stream =>
    if Key.of project pipeline = key then h ++ [.stream run stream] else h
  | .forgetGone loaded => if gone loaded key then [] else h

/-- what was reported of a pipeline since it was last forgotten, oldest first -/
def history (key : Key) (acts : List Act) : List Event := acts.foldl (note key) []

theorem memoryOf_insert (logs : Logs) (key key' : Key) (m : Memory) :
    memoryOf (logs.insert key m) key' = if key' = key then m else memoryOf logs key' := by
  unfold memoryOf
  rw [OrdMap.get?_insert]
  split <;> rfl

theorem replay_snoc (h : List Event) (e : Event) : replay (h ++ [e]) = (replay h).take e := by
  rw [replay, List.foldl_append]
  rfl

theorem memoryOf_ranStream (logs : Logs) (project pipeline run stream : String) (key : Key) :
    memoryOf (ranStream logs project pipeline run stream) key
      = if key = Key.of project pipeline then (memoryOf logs key).ranStream run stream
        else memoryOf logs key := by
  unfold memoryOf ranStream
  rw [OrdMap.get?_modify]
  by_cases hk : key = Key.of project pipeline
  · rw [if_pos hk, if_pos hk]
    subst hk
    cases logs.get? (Key.of project pipeline) <;> rfl
  · rw [if_neg hk, if_neg hk]

theorem memoryOf_forgetGone (logs : Logs) (loaded : OrdMap String (List String)) (key : Key) :
    memoryOf (forgetGone logs loaded) key
      = if gone loaded key then Memory.empty else memoryOf logs key := by
  unfold memoryOf forgetGone
  rw [OrdMap.get?_filterKeys]
  cases gone loaded key <;> rfl

/-- **Step**: every call is an event of one pipeline, or forgets it. -/
theorem memoryOf_apply {logs : Logs} {key : Key} {h : List Event} (a : Act)
    (hm : memoryOf logs key = replay h) :
    memoryOf (a.apply logs) key = replay (note key h a) := by
  cases a with
  | append now project pipeline run lines =>
    show memoryOf (Pipelines.append logs now project pipeline run lines) key
      = replay (if _ then _ else _)
    rw [Pipelines.append, memoryOf_insert]
    by_cases hk : key = Key.of project pipeline
    · rw [if_pos hk, if_pos hk.symm, replay_snoc, ← hm, hk]
      rfl
    · rw [if_neg hk, if_neg (Ne.symm hk), hm]
  | recordChanges project pipeline run written =>
    show memoryOf (Pipelines.recordChanges logs project pipeline run written).1 key
      = replay (if _ then _ else _)
    rw [Pipelines.recordChanges, memoryOf_insert]
    by_cases hk : key = Key.of project pipeline
    · rw [if_pos hk, if_pos hk.symm, replay_snoc, ← hm, hk]
      rfl
    · rw [if_neg hk, if_neg (Ne.symm hk), hm]
  | ranStream project pipeline run stream =>
    show memoryOf (Pipelines.ranStream logs project pipeline run stream) key
      = replay (if _ then _ else _)
    rw [memoryOf_ranStream]
    by_cases hk : key = Key.of project pipeline
    · rw [if_pos hk, if_pos hk.symm, replay_snoc, ← hm]
      rfl
    · rw [if_neg hk, if_neg (Ne.symm hk), hm]
  | forgetGone loaded =>
    show memoryOf (Pipelines.forgetGone logs loaded) key = replay (if _ then _ else _)
    rw [memoryOf_forgetGone]
    by_cases hg : gone loaded key = true
    · rw [if_pos hg, if_pos hg]
      rfl
    · rw [if_neg hg, if_neg hg, hm]

/-- **Run**: a pipeline's log is what its history makes of an empty one. -/
theorem memoryOf_run (acts : List Act) (key : Key) :
    memoryOf (run acts) key = replay (history key acts) := by
  induction acts using List.reverseRecOn with
  | nil => rfl
  | append_singleton acts a ih =>
    rw [run, history, List.foldl_append, List.foldl_append]
    exact memoryOf_apply a ih

end Pipelines

end Portal
