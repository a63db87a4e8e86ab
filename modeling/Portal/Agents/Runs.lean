import Mathlib.Data.String.Basic
import Mathlib.Logic.Relation
import Portal.Base.Machine
import Portal.Base.OrdMap

/-!
# The runs of agents in the store (`agents/run.rs`; `agents/store.rs`; `db.rs`: `agent_runs`;
`api/agent_runs.rs`: `end_run`)

Calls of any number of Portal replicas work on one table.  A status is moved in two statements: the
row is read and the move judged, then the row is updated if it still has the status it was judged
from.  An application's run is stored under a lock of its App once no run of the App is live.  A run
is ended ticket first.

* `AgentRunStatus`      the states and the moves between them;
* `Store`, `step`       the table and the calls in flight, statement by statement;
* `Moved`               what one step makes of a row;
* `lifecycle`           **the law**: a run moves along the allowed moves, and once over stays as it is;
* `one_live`            **the law**: an App has one live run;
* `ended_ticket`        **the law**: a run that was ended has no ticket.
-/

namespace Portal
namespace Agents

/-! ## the states -/

inductive AgentRunStatus where
  | queued
  | starting
  | interviewing
  | building
  | testing
  | previewing
  | awaitingApproval
  | published
  | failed
  | cancelled
  | expired
deriving DecidableEq

namespace AgentRunStatus

def asStr : AgentRunStatus → String
  | queued => "queued"
  | starting => "starting"
  | interviewing => "interviewing"
  | building => "building"
  | testing => "testing"
  | previewing => "previewing"
  | awaitingApproval => "awaiting_approval"
  | published => "published"
  | failed => "failed"
  | cancelled => "cancelled"
  | expired => "expired"

def all : List AgentRunStatus :=
  [queued, starting, interviewing, building, testing, previewing, awaitingApproval, published,
    failed, cancelled, expired]

def parse (name : String) : Option AgentRunStatus := all.find? (fun status => status.asStr = name)

def isTerminal : AgentRunStatus → Bool
  | published | failed | cancelled | expired => true
  | _ => false

def allowsTransitionTo (status next : AgentRunStatus) : Bool :=
  if status.isTerminal then false
  else if status = next then true
  else
    match status, next with
    | queued, starting => true
    | starting, interviewing => true
    | starting, building => true
    | interviewing, building => true
    | building, testing => true
    | testing, previewing => true
    | previewing, awaitingApproval => true
    | awaitingApproval, published => true
    | _, failed => true
    | _, cancelled => true
    | _, expired => true
    | _, _ => false

theorem parse_asStr (status : AgentRunStatus) : parse status.asStr = some status := by
  cases status <;> decide

end AgentRunStatus

/-! ## the table -/

structure AgentRun where
  project : String
  appName : String
  kind : String
  status : String
  ticketHash : String
  error : Option String
  startedAt : Option Int
  finishedAt : Option Int
  expiresAt : Int
deriving DecidableEq

namespace AgentRun

/-- the statuses of no live run, as the lock's query lists them -/
def ended : List String := ["published", "failed", "cancelled", "expired"]

def live (r : AgentRun) : Bool := r.status ∉ ended

def ofApp (r : AgentRun) (project app : String) : Bool := r.project = project && r.appName = app

def alone (r : AgentRun) : Bool := r.kind ≠ "conversation"

/-- the row after `update_agent_run_status` -/
def moved (r : AgentRun) (next : AgentRunStatus) (error : Option String) (now : Int) : AgentRun :=
  { r with
    status := next.asStr
    error := error.orElse (fun _ => r.error)
    startedAt := if r.startedAt = none ∧ next ≠ .queued then some now else r.startedAt
    finishedAt := if next.isTerminal ∧ r.finishedAt = none then some now else r.finishedAt }

end AgentRun

inductive Doing where
  /-- it holds its App's lock and found no live run -/
  | storing (id : String) (run : AgentRun)
  /-- `end_run` has cleared the ticket -/
  | cleared (id : String)
  /-- `set_status` has judged the move, for `end_run` or not -/
  | moving (id : String) (source next : AgentRunStatus) (error : Option String) (ends : Bool)
deriving DecidableEq

structure Store where
  runs : OrdMap String AgentRun
  calls : OrdMap Nat Doing

inductive StoreAct where
  /-- a conversation is stored -/
  | create (id : String) (run : AgentRun)
  /-- any other run: its App is locked, and asked for a live run -/
  | lock (call : Nat) (id : String) (run : AgentRun)
  | insert (call : Nat)
  | judge (call : Nat) (id : String) (next : AgentRunStatus) (error : Option String)
  /-- `end_run` begins, on a run it has read -/
  | clear (call : Nat) (id : String)
  /-- `end_run` goes on -/
  | judgeEnd (call : Nat) (next : AgentRunStatus) (reason : String)
  | move (call : Nat) (now : Int)
  | setExpiry (id : String) (expiresAt : Int)
  /-- a statement fails, or the replica stops -/
  | abandon (call : Nat)

/-- `transition` -/
def transition (status : String) (next : AgentRunStatus) : Option AgentRunStatus :=
  (AgentRunStatus.parse status).filter (fun current => current.allowsTransitionTo next)

def Doing.locks (project app : String) : Doing → Bool
  | .storing _ run => run.ofApp project app
  | _ => false

def judged (s : Store) (call : Nat) (id : String) (next : AgentRunStatus) (error : Option String)
    (ends : Bool) : Option Store :=
  ((s.runs.get? id).bind (fun r => transition r.status next)).map (fun source =>
    { s with calls := s.calls.insert call (.moving id source next error ends) })

def step (s : Store) : StoreAct → Option Store
  | .create id run =>
    if run.kind = "conversation" ∧ run.status = "queued" ∧ s.runs.get? id = none then
      some { s with runs := s.runs.insert id run }
    else none
  | .lock call id run =>
    if run.alone ∧ run.status = "queued" ∧ s.calls.get? call = none ∧
        s.calls.toList.all (fun p => !p.2.locks run.project run.appName) ∧
        s.runs.toList.all (fun p => !(p.2.ofApp run.project run.appName && p.2.live)) then
      some { s with calls := s.calls.insert call (.storing id run) }
    else none
  | .insert call =>
    match s.calls.get? call with
    | some (.storing id run) =>
      if s.runs.get? id = none then
        some { runs := s.runs.insert id run, calls := s.calls.erase call }
      else none
    | _ => none
  | .judge call id next error =>
    if s.calls.get? call = none then judged s call id next error false else none
  | .clear call id =>
    if s.calls.get? call = none ∧ (s.runs.get? id).isSome then
      some { runs := s.runs.modify id (fun r => { r with ticketHash := "" })
             calls := s.calls.insert call (.cleared id) }
    else none
  | .judgeEnd call next reason =>
    match s.calls.get? call with
    | some (.cleared id) => judged s call id next (some reason) true
    | _ => none
  | .move call now =>
    match s.calls.get? call with
    | some (.moving id source next error _) =>
      some {
        runs := s.runs.modify id
          (fun r => if r.status = source.asStr then r.moved next error now else r)
        calls := s.calls.erase call }
    | _ => none
  | .setExpiry id expiresAt =>
    some { s with runs := s.runs.modify id (fun r => { r with expiresAt }) }
  | .abandon call => some { s with calls := s.calls.erase call }

/-! ## what one step does -/

/-- `step`, read backwards -/
inductive Stepped (s : Store) : StoreAct → Store → Prop
  | create {id : String} {run : AgentRun} (hkind : run.kind = "conversation")
      (hnew : s.runs.get? id = none) :
      Stepped s (.create id run) ⟨s.runs.insert id run, s.calls⟩
  | lock {call : Nat} {id : String} {run : AgentRun}
      (hfree : ∀ p ∈ s.calls.toList, p.2.locks run.project run.appName = false)
      (hnone : ∀ p ∈ s.runs.toList, p.2.ofApp run.project run.appName = true → p.2.live = false) :
      Stepped s (.lock call id run) ⟨s.runs, s.calls.insert call (.storing id run)⟩
  | insert {call : Nat} {id : String} {run : AgentRun}
      (hcall : s.calls.get? call = some (.storing id run)) (hnew : s.runs.get? id = none) :
      Stepped s (.insert call) ⟨s.runs.insert id run, s.calls.erase call⟩
  | judge {call : Nat} {id : String} {source next : AgentRunStatus} {error : Option String}
      (hallows : source.allowsTransitionTo next = true) :
      Stepped s (.judge call id next error)
        ⟨s.runs, s.calls.insert call (.moving id source next error false)⟩
  | judgeEnd {call : Nat} {id : String} {source next : AgentRunStatus} {reason : String}
      (hallows : source.allowsTransitionTo next = true)
      (hcall : s.calls.get? call = some (.cleared id)) :
      Stepped s (.judgeEnd call next reason)
        ⟨s.runs, s.calls.insert call (.moving id source next (some reason) true)⟩
  | clear {call : Nat} {id : String} (hrow : (s.runs.get? id).isSome) :
      Stepped s (.clear call id)
        ⟨s.runs.modify id (fun r => { r with ticketHash := "" }), s.calls.insert call (.cleared id)⟩
  | move {call : Nat} {now : Int} {id : String} {source next : AgentRunStatus}
      {error : Option String} {ends : Bool}
      (hcall : s.calls.get? call = some (.moving id source next error ends)) :
      Stepped s (.move call now)
        ⟨s.runs.modify id (fun r => if r.status = source.asStr then r.moved next error now else r),
          s.calls.erase call⟩
  | setExpiry {id : String} {expiresAt : Int} :
      Stepped s (.setExpiry id expiresAt) ⟨s.runs.modify id (fun r => { r with expiresAt }), s.calls⟩
  | abandon {call : Nat} : Stepped s (.abandon call) ⟨s.runs, s.calls.erase call⟩

section
variable {s s' : Store} {a : StoreAct} {id : String} {r r' : AgentRun}

theorem judged_eq_some {call : Nat} {next : AgentRunStatus} {error : Option String} {ends : Bool}
    (h : judged s call id next error ends = some s') :
    ∃ source, source.allowsTransitionTo next = true ∧
      s' = ⟨s.runs, s.calls.insert call (.moving id source next error ends)⟩ := by
  obtain ⟨source, hsource, rfl⟩ := Option.map_eq_some_iff.1 h
  obtain ⟨r, -, hr⟩ := Option.bind_eq_some_iff.1 hsource
  exact ⟨source, (Option.filter_eq_some_iff.1 hr).2, rfl⟩

theorem stepped_of_step (h : step s a = some s') : Stepped s a s' := by
  cases a with
  | create id run =>
    simp only [step] at h
    split at h
    · rename_i hgo
      obtain rfl := Option.some.inj h
      exact .create hgo.1 hgo.2.2
    · exact absurd h (by simp)
  | lock call id run =>
    simp only [step] at h
    split at h
    · rename_i hgo
      obtain rfl := Option.some.inj h
      obtain ⟨-, -, -, hfree, hnone⟩ := hgo
      refine .lock ?_ ?_
      · intro p hp
        simpa using List.all_eq_true.1 hfree p hp
      · intro p hp happ
        have hp' := List.all_eq_true.1 hnone p hp
        rw [happ] at hp'
        simpa using hp'
    · exact absurd h (by simp)
  | insert call =>
    simp only [step] at h
    split at h
    · rename_i hcall
      split at h
      · rename_i hnew
        obtain rfl := Option.some.inj h
        exact .insert hcall hnew
      · exact absurd h (by simp)
    · exact absurd h (by simp)
  | judge call id next error =>
    simp only [step] at h
    split at h
    · obtain ⟨source, hallows, rfl⟩ := judged_eq_some h
      exact .judge hallows
    · exact absurd h (by simp)
  | clear call id =>
    simp only [step] at h
    split at h
    · rename_i hgo
      obtain rfl := Option.some.inj h
      exact .clear hgo.2
    · exact absurd h (by simp)
  | judgeEnd call next reason =>
    simp only [step] at h
    split at h
    · rename_i hcall
      obtain ⟨source, hallows, rfl⟩ := judged_eq_some h
      exact .judgeEnd hallows hcall
    · exact absurd h (by simp)
  | move call now =>
    simp only [step] at h
    split at h
    · rename_i hcall
      obtain rfl := Option.some.inj h
      exact .move hcall
    · exact absurd h (by simp)
  | setExpiry id expiresAt =>
    obtain rfl := Option.some.inj h
    exact .setExpiry
  | abandon call =>
    obtain rfl := Option.some.inj h
    exact .abandon

/-! ## the calls in flight -/

/-- what a step says of the call it puts where it is -/
def Begun (s s' : Store) (call : Nat) : Doing → Prop
  | .storing _ run =>
    s'.runs = s.runs ∧ (∀ p ∈ s.calls.toList, p.2.locks run.project run.appName = false) ∧
      (∀ p ∈ s.runs.toList, p.2.ofApp run.project run.appName = true → p.2.live = false) ∧
      ∀ call', call' ≠ call → s'.calls.get? call' = s.calls.get? call'
  | .cleared id => ∃ r, s'.runs.get? id = some r ∧ r.ticketHash = ""
  | .moving id source next _ ends =>
    s'.runs = s.runs ∧ source.allowsTransitionTo next = true ∧
      (ends = true → s.calls.get? call = some (.cleared id))

theorem call_of_step (h : Stepped s a s') {call : Nat} {doing : Doing}
    (hget : s'.calls.get? call = some doing) :
    (s.calls.get? call = some doing ∧ a ≠ .insert call) ∨ Begun s s' call doing := by
  cases h with
  | create hkind hnew => exact .inl ⟨hget, by simp⟩
  | lock hfree hnone =>
    rcases OrdMap.of_get?_insert hget with ⟨rfl, rfl⟩ | ⟨-, hget⟩
    · refine .inr ⟨rfl, hfree, hnone, ?_⟩
      intro call' hne
      show (s.calls.insert call _).get? call' = s.calls.get? call'
      rw [OrdMap.get?_insert, if_neg hne]
    · exact .inl ⟨hget, by simp⟩
  | insert hcall hnew =>
    obtain ⟨hne, hget⟩ := OrdMap.of_get?_erase hget
    refine .inl ⟨hget, ?_⟩
    intro hact
    exact hne (StoreAct.insert.inj hact).symm
  | judge hallows =>
    rcases OrdMap.of_get?_insert hget with ⟨rfl, rfl⟩ | ⟨-, hget⟩
    · exact .inr ⟨rfl, hallows, by simp⟩
    · exact .inl ⟨hget, by simp⟩
  | judgeEnd hallows hcall =>
    rcases OrdMap.of_get?_insert hget with ⟨rfl, rfl⟩ | ⟨-, hget⟩
    · exact .inr ⟨rfl, hallows, fun _ => hcall⟩
    · exact .inl ⟨hget, by simp⟩
  | clear hrow =>
    rcases OrdMap.of_get?_insert hget with ⟨rfl, rfl⟩ | ⟨-, hget⟩
    · obtain ⟨r, hr⟩ := Option.isSome_iff_exists.1 hrow
      refine .inr ⟨{ r with ticketHash := "" }, ?_, rfl⟩
      rw [OrdMap.get?_modify, if_pos rfl, hr]
      rfl
    · exact .inl ⟨hget, by simp⟩
  | move hcall => exact .inl ⟨(OrdMap.of_get?_erase hget).2, by simp⟩
  | setExpiry => exact .inl ⟨hget, by simp⟩
  | abandon => exact .inl ⟨(OrdMap.of_get?_erase hget).2, by simp⟩

def Judged (s : Store) : Prop :=
  ∀ call id source next error ends, s.calls.get? call = some (.moving id source next error ends) →
    source.allowsTransitionTo next = true

theorem Judged.step (hj : Judged s) (h : Stepped s a s') : Judged s' := by
  intro call id source next error ends hget
  rcases call_of_step h hget with ⟨hold, -⟩ | ⟨-, hallows, -⟩
  · exact hj call id source next error ends hold
  · exact hallows

/-! ## the rows -/

/-- the status of a run goes one allowed move on -/
def Allows (a b : String) : Prop :=
  ∃ x y, AgentRunStatus.parse a = some x ∧ AgentRunStatus.parse b = some y ∧
    x.allowsTransitionTo y = true

/-- **Row**: a row is as it was, loses its ticket, has another lease, or moves. -/
inductive Moved (r : AgentRun) : AgentRun → Prop
  | same : Moved r r
  | cleared : Moved r { r with ticketHash := "" }
  | lease (expiresAt : Int) : Moved r { r with expiresAt }
  | moves {source next : AgentRunStatus} (error : Option String) (now : Int)
      (hsource : r.status = source.asStr) (hallows : source.allowsTransitionTo next = true) :
      Moved r (r.moved next error now)

theorem moved_modify {runs : OrdMap String AgentRun} {id' : String} {f : AgentRun → AgentRun}
    (hget : runs.get? id = some r) (hf : Moved r (f r)) :
    ∃ r', (runs.modify id' f).get? id = some r' ∧ Moved r r' := by
  by_cases hid : id = id'
  · subst hid
    refine ⟨f r, ?_, hf⟩
    rw [OrdMap.get?_modify, if_pos rfl, hget]
    rfl
  · refine ⟨r, ?_, .same⟩
    rw [OrdMap.get?_modify, if_neg hid]
    exact hget

theorem get?_insert_new {runs : OrdMap String AgentRun} {id' : String} {run : AgentRun}
    (hget : runs.get? id = some r) (hnew : runs.get? id' = none) :
    (runs.insert id' run).get? id = some r := by
  rw [OrdMap.get?_insert, if_neg]
  · exact hget
  · rintro rfl
    exact absurd (hget.symm.trans hnew) (by simp)

/-- **Step**: a stored run stays stored. -/
theorem row_of_step (hj : Judged s) (h : Stepped s a s') (hget : s.runs.get? id = some r) :
    ∃ r', s'.runs.get? id = some r' ∧ Moved r r' := by
  cases h with
  | create hkind hnew => exact ⟨r, get?_insert_new hget hnew, .same⟩
  | lock hfree hnone => exact ⟨r, hget, .same⟩
  | insert hcall hnew => exact ⟨r, get?_insert_new hget hnew, .same⟩
  | judge hallows => exact ⟨r, hget, .same⟩
  | judgeEnd hallows hcall => exact ⟨r, hget, .same⟩
  | clear hrow => exact moved_modify hget .cleared
  | @move call now id' source next error ends hcall =>
    refine moved_modify hget ?_
    show Moved r (if r.status = source.asStr then r.moved next error now else r)
    split
    · rename_i hstatus
      exact .moves error now hstatus (hj call id' source next error ends hcall)
    · exact .same
  | setExpiry => exact moved_modify hget (.lease _)
  | abandon => exact ⟨r, hget, .same⟩

def Adds (s : Store) (id : String) (r : AgentRun) (a : StoreAct) : Prop :=
  r.kind = "conversation" ∨ ∃ call, a = .insert call ∧ s.calls.get? call = some (.storing id r)

theorem added_of_step (h : Stepped s a s') (hnone : s.runs.get? id = none)
    (hget : s'.runs.get? id = some r) : Adds s id r a := by
  have hmodify : ∀ (id' : String) (f : AgentRun → AgentRun),
      (s.runs.modify id' f).get? id = none := by
    intro id' f
    rw [OrdMap.get?_modify]
    split
    · rename_i hid
      rw [← hid, hnone]
      rfl
    · exact hnone
  have hinsert : ∀ (id' : String) (run : AgentRun), (s.runs.insert id' run).get? id = some r →
      id = id' ∧ run = r := by
    intro id' run hrun
    rw [OrdMap.get?_insert] at hrun
    split at hrun
    · rename_i hid
      exact ⟨hid, Option.some.inj hrun⟩
    · exact absurd (hnone.symm.trans hrun) (by simp)
  cases h with
  | create hkind hnew =>
    obtain ⟨rfl, rfl⟩ := hinsert _ _ hget
    exact .inl hkind
  | insert hcall hnew =>
    obtain ⟨rfl, rfl⟩ := hinsert _ _ hget
    exact .inr ⟨_, rfl, hcall⟩
  | lock hfree hnone' => exact absurd (hnone.symm.trans hget) (by simp)
  | judge hallows => exact absurd (hnone.symm.trans hget) (by simp)
  | judgeEnd hallows hcall => exact absurd (hnone.symm.trans hget) (by simp)
  | abandon => exact absurd (hnone.symm.trans hget) (by simp)
  | clear hrow => exact absurd ((hmodify _ _).symm.trans hget) (by simp)
  | move hcall => exact absurd ((hmodify _ _).symm.trans hget) (by simp)
  | setExpiry => exact absurd ((hmodify _ _).symm.trans hget) (by simp)

theorem row_or_added (hj : Judged s) (h : Stepped s a s') (hget : s'.runs.get? id = some r') :
    (∃ r, s.runs.get? id = some r ∧ Moved r r') ∨ Adds s id r' a := by
  cases hold : s.runs.get? id with
  | none => exact .inr (added_of_step h hold hget)
  | some r =>
    obtain ⟨r'', hr'', hmoved⟩ := row_of_step hj h hold
    obtain rfl := Option.some.inj (hr''.symm.trans hget)
    exact .inl ⟨r, rfl, hmoved⟩

/-! ## the lifecycle -/

structure Came (r r' : AgentRun) : Prop where
  project : r'.project = r.project
  appName : r'.appName = r.appName
  kind : r'.kind = r.kind
  path : Relation.ReflTransGen Allows r.status r'.status
  /-- once over it stays as it is -/
  settled : ∀ status, AgentRunStatus.parse r.status = some status → status.isTerminal = true →
    r'.status = r.status ∧ r'.error = r.error ∧ r'.finishedAt = r.finishedAt
  ticket : r.ticketHash = "" → r'.ticketHash = ""

theorem Came.refl (r : AgentRun) : Came r r :=
  ⟨rfl, rfl, rfl, .refl, fun _ _ _ => ⟨rfl, rfl, rfl⟩, id⟩

theorem not_terminal_of_allows {x y : AgentRunStatus} (h : x.allowsTransitionTo y = true) :
    x.isTerminal = false := by
  cases hx : x.isTerminal with
  | false => rfl
  | true => simp [AgentRunStatus.allowsTransitionTo, hx] at h

theorem came_of_moved (h : Moved r r') : Came r r' := by
  cases h with
  | same => exact .refl r
  | cleared => exact ⟨rfl, rfl, rfl, .refl, fun _ _ _ => ⟨rfl, rfl, rfl⟩, fun _ => rfl⟩
  | lease expiresAt => exact ⟨rfl, rfl, rfl, .refl, fun _ _ _ => ⟨rfl, rfl, rfl⟩, id⟩
  | @moves source next error now hsource hallows =>
    have hparse : AgentRunStatus.parse r.status = some source := by
      rw [hsource]
      exact source.parse_asStr
    refine ⟨rfl, rfl, rfl, .single ⟨source, next, hparse, next.parse_asStr, hallows⟩, ?_, id⟩
    intro status hstatus hterminal
    obtain rfl := Option.some.inj (hparse.symm.trans hstatus)
    rw [not_terminal_of_allows hallows] at hterminal
    exact absurd hterminal (by simp)

theorem Came.trans {r'' : AgentRun} (h : Came r r') (h' : Came r' r'') : Came r r'' := by
  refine ⟨h'.project.trans h.project, h'.appName.trans h.appName, h'.kind.trans h.kind,
    h.path.trans h'.path, ?_, fun hticket => h'.ticket (h.ticket hticket)⟩
  intro status hstatus hterminal
  obtain ⟨hsame, herror, hfinished⟩ := h.settled status hstatus hterminal
  obtain ⟨hsame', herror', hfinished'⟩ := h'.settled status (hsame ▸ hstatus) hterminal
  exact ⟨hsame'.trans hsame, herror'.trans herror, hfinished'.trans hfinished⟩

theorem live_of_moved (h : Moved r r') (hlive : r'.live = true) : r.live = true := by
  cases h with
  | same => exact hlive
  | cleared => exact hlive
  | lease expiresAt => exact hlive
  | @moves source next error now hsource hallows =>
    have hterminal := not_terminal_of_allows hallows
    unfold AgentRun.live
    rw [hsource]
    cases source with
    | published | failed | cancelled | expired => exact absurd hterminal (by decide)
    | _ => decide

/-! ## the laws -/

/-- an empty table, and no call in flight -/
def Store.fresh : Store := ⟨OrdMap.empty, OrdMap.empty⟩

theorem judged_run {s₀ : Store} (hj : Judged s₀) {tr : List (Trans Store StoreAct)}
    (hr : Run step s₀ tr s) : Judged s :=
  Run.invariant (C := fun _ => True) hj
    (fun _ _ _ hs _ hj => hj.step (stepped_of_step hs)) hr (by simp)

theorem judged_fresh : Judged .fresh :=
  fun _ _ _ _ _ _ hget => absurd hget (by simp [Store.fresh])

theorem came_run {s₀ : Store} (hj : Judged s₀) {tr : List (Trans Store StoreAct)}
    (hr : Run step s₀ tr s) (hget : s₀.runs.get? id = some r) :
    ∃ r', s.runs.get? id = some r' ∧ Came r r' := by
  refine (Run.invariant (C := fun _ => True)
    (I := fun s => Judged s ∧ ∃ r', s.runs.get? id = some r' ∧ Came r r')
    ⟨hj, r, hget, .refl r⟩ ?_ hr (by simp)).2
  rintro s a s' hs - ⟨hjudged, r', hr', hcame⟩
  have hstepped := stepped_of_step hs
  obtain ⟨r'', hr'', hmoved⟩ := row_of_step hjudged hstepped hr'
  exact ⟨hjudged.step hstepped, r'', hr'', hcame.trans (came_of_moved hmoved)⟩

/-- **A run moves along the allowed moves, and once over stays as it is**: whatever calls of however
many replicas work on the table, in whatever order of their statements, a stored run stays stored,
its status goes from one state to the next by moves the lifecycle has, and a run that is over keeps
its status, its error and the time it ended. -/
theorem lifecycle {tr tr' : List (Trans Store StoreAct)} (hr : Run step .fresh tr s)
    (hr' : Run step s tr' s') (hget : s.runs.get? id = some r) :
    ∃ r', s'.runs.get? id = some r' ∧ Came r r' :=
  came_run (judged_run judged_fresh hr) hr' hget

/-- **Invariant**: no App has two live runs, or a live one beside a call that stores one, or two
such calls. -/
structure Lone (s : Store) : Prop where
  judged : Judged s
  rows : ∀ id id' r r', s.runs.get? id = some r → s.runs.get? id' = some r' → r.alone = true →
    r'.alone = true → r.live = true → r'.live = true → r'.project = r.project →
    r'.appName = r.appName → id' = id
  storing : ∀ call id run, s.calls.get? call = some (.storing id run) →
    ∀ id' r, s.runs.get? id' = some r → r.alone = true → r.project = run.project →
      r.appName = run.appName → r.live = false
  calls : ∀ call call' id id' run run', s.calls.get? call = some (.storing id run) →
    s.calls.get? call' = some (.storing id' run') → run'.project = run.project →
    run'.appName = run.appName → call' = call

theorem lone_fresh : Lone .fresh := by
  refine ⟨judged_fresh, ?_, ?_, ?_⟩
  · intro id id' r r' hr
    exact absurd hr (by simp [Store.fresh])
  · intro call id run hcall
    exact absurd hcall (by simp [Store.fresh])
  · intro call call' id id' run run' hcall
    exact absurd hcall (by simp [Store.fresh])

theorem not_alone_of_talk (h : r.kind = "conversation") : r.alone = false := by
  simp [AgentRun.alone, h]

theorem Lone.apart (hl : Lone s) {id' : String} {r₀ r'' : AgentRun} (hadds : Adds s id r a)
    (halone : r.alone = true) (hget : s.runs.get? id' = some r₀) (hmoved : Moved r₀ r'')
    (halone' : r''.alone = true) (hlive' : r''.live = true) (hproject : r''.project = r.project)
    (happ : r''.appName = r.appName) : False := by
  rcases hadds with htalk | ⟨call, -, hcall⟩
  · rw [not_alone_of_talk htalk] at halone
    exact absurd halone (by simp)
  · have hcame := came_of_moved hmoved
    have halone₀ : r₀.alone = true := by
      rw [← halone', AgentRun.alone, AgentRun.alone, hcame.kind]
    have hdead := hl.storing call id r hcall id' r₀ hget halone₀ (hcame.project ▸ hproject)
      (hcame.appName ▸ happ)
    rw [live_of_moved hmoved hlive'] at hdead
    exact absurd hdead (by simp)

theorem Lone.step (hl : Lone s) (h : Stepped s a s') : Lone s' := by
  refine ⟨hl.judged.step h, ?_, ?_, ?_⟩
  · intro id id' r r' hr hr' halone halone' hlive hlive' hproject happ
    rcases row_or_added hl.judged h hr with ⟨r₀, hr₀, hmoved⟩ | hadds
    · rcases row_or_added hl.judged h hr' with ⟨r₀', hr₀', hmoved'⟩ | hadds'
      · have hcame := came_of_moved hmoved
        have hcame' := came_of_moved hmoved'
        refine hl.rows id id' r₀ r₀' hr₀ hr₀' ?_ ?_ (live_of_moved hmoved hlive)
          (live_of_moved hmoved' hlive') ?_ ?_
        · rw [← halone, AgentRun.alone, AgentRun.alone, hcame.kind]
        · rw [← halone', AgentRun.alone, AgentRun.alone, hcame'.kind]
        · rw [← hcame.project, ← hcame'.project, hproject]
        · rw [← hcame.appName, ← hcame'.appName, happ]
      · exact (hl.apart hadds' halone' hr₀ hmoved halone hlive hproject.symm happ.symm).elim
    · rcases row_or_added hl.judged h hr' with ⟨r₀', hr₀', hmoved'⟩ | hadds'
      · exact (hl.apart hadds halone hr₀' hmoved' halone' hlive' hproject happ).elim
      · rcases hadds with htalk | ⟨call, rfl, hcall⟩
        · rw [not_alone_of_talk htalk] at halone
          exact absurd halone (by simp)
        · rcases hadds' with htalk' | ⟨call', hact, hcall'⟩
          · rw [not_alone_of_talk htalk'] at halone'
            exact absurd halone' (by simp)
          · obtain rfl := StoreAct.insert.inj hact
            have heq := Option.some.inj (hcall.symm.trans hcall')
            exact (Doing.storing.inj heq).1.symm
  · intro call id run hcall id' r hr halone hproject happ
    rcases call_of_step h hcall with ⟨hcall₀, hne⟩ | ⟨hsame, -, hnone, -⟩
    · rcases row_or_added hl.judged h hr with ⟨r₀, hr₀, hmoved⟩ | htalk | ⟨call', rfl, hcall'⟩
      · have hcame := came_of_moved hmoved
        have hdead := hl.storing call id run hcall₀ id' r₀ hr₀
          (by rw [← halone, AgentRun.alone, AgentRun.alone, hcame.kind])
          (hcame.project ▸ hproject) (hcame.appName ▸ happ)
        cases hlive : r.live with
        | false => rfl
        | true =>
          rw [live_of_moved hmoved hlive] at hdead
          exact absurd hdead (by simp)
      · rw [not_alone_of_talk htalk] at halone
        exact absurd halone (by simp)
      · -- the call that stores the row is the one that held the lock, and it is over
        obtain rfl := hl.calls call call' id id' run r hcall₀ hcall' hproject happ
        exact absurd rfl hne
    · rw [hsame] at hr
      refine hnone (id', r) ((OrdMap.mem_toList _ _ _).2 hr) ?_
      simp [AgentRun.ofApp, hproject, happ]
  · intro call call' id id' run run' hcall hcall' hproject happ
    by_cases hcalls : call' = call
    · exact hcalls
    · rcases call_of_step h hcall with ⟨hcall₀, -⟩ | ⟨-, hfree, -, hframe⟩
      · rcases call_of_step h hcall' with ⟨hcall₀', -⟩ | ⟨-, hfree', -, -⟩
        · exact hl.calls call call' id id' run run' hcall₀ hcall₀' hproject happ
        · have hlocks := hfree' (call, .storing id run) ((OrdMap.mem_toList _ _ _).2 hcall₀)
          simp [Doing.locks, AgentRun.ofApp, hproject, happ] at hlocks
      · rw [hframe call' hcalls] at hcall'
        have hlocks := hfree (call', .storing id' run') ((OrdMap.mem_toList _ _ _).2 hcall')
        simp [Doing.locks, AgentRun.ofApp, hproject, happ] at hlocks

def Store.liveRuns (s : Store) (project app : String) : List (String × AgentRun) :=
  s.runs.toList.filter (fun p => p.2.ofApp project app && p.2.alone && p.2.live)

theorem mem_liveRuns {project app : String} {p : String × AgentRun}
    (h : p ∈ s.liveRuns project app) :
    s.runs.get? p.1 = some p.2 ∧ p.2.project = project ∧ p.2.appName = app ∧ p.2.alone = true ∧
      p.2.live = true := by
  obtain ⟨hmem, hp⟩ := List.mem_filter.1 h
  simp only [AgentRun.ofApp, Bool.and_eq_true, decide_eq_true_eq] at hp
  exact ⟨(OrdMap.mem_toList _ _ _).1 hmem, hp.1.1.1, hp.1.1.2, hp.1.2, hp.2⟩

/-- **An App has one live run**: however the calls of however many replicas interleave, no two runs
that were stored alone live for one App. -/
theorem one_live {tr : List (Trans Store StoreAct)} (hr : Run step .fresh tr s)
    (project app : String) : (s.liveRuns project app).length ≤ 1 := by
  have hl : Lone s := Run.invariant (C := fun _ => True) lone_fresh
    (fun _ _ _ hs _ hl => hl.step (stepped_of_step hs)) hr (by simp)
  have hsorted : (s.liveRuns project app).Pairwise (fun p q => p.1 < q.1) :=
    s.runs.sorted.sublist List.filter_sublist
  have hrows : ∀ p ∈ s.liveRuns project app, s.runs.get? p.1 = some p.2 ∧ p.2.project = project ∧
      p.2.appName = app ∧ p.2.alone = true ∧ p.2.live = true := fun p => mem_liveRuns
  generalize s.liveRuns project app = l at hsorted hrows
  rcases l with _ | ⟨p, _ | ⟨q, rest⟩⟩
  · simp
  · simp
  · obtain ⟨hp, hproject, happ, halone, hlive⟩ := hrows p (by simp)
    obtain ⟨hq, hproject', happ', halone', hlive'⟩ := hrows q (by simp)
    have heq := hl.rows p.1 q.1 p.2 q.2 hp hq halone halone' hlive hlive'
      (hproject'.trans hproject.symm) (happ'.trans happ.symm)
    have hlt := List.rel_of_pairwise_cons hsorted List.mem_cons_self
    exact absurd heq.symm hlt.ne

/-- **Invariant**: a run that is being ended has no ticket. -/
structure Unticketed (s : Store) : Prop where
  judged : Judged s
  cleared : ∀ call id, s.calls.get? call = some (.cleared id) →
    ∃ r, s.runs.get? id = some r ∧ r.ticketHash = ""
  moving : ∀ call id source next error,
    s.calls.get? call = some (.moving id source next error true) →
    ∃ r, s.runs.get? id = some r ∧ r.ticketHash = ""

theorem Unticketed.step (hu : Unticketed s) (h : Stepped s a s') : Unticketed s' := by
  have hstays : ∀ id, (∃ r, s.runs.get? id = some r ∧ r.ticketHash = "") →
      ∃ r, s'.runs.get? id = some r ∧ r.ticketHash = "" := by
    rintro id ⟨r, hr, hticket⟩
    obtain ⟨r', hr', hmoved⟩ := row_of_step hu.judged h hr
    exact ⟨r', hr', (came_of_moved hmoved).ticket hticket⟩
  refine ⟨hu.judged.step h, ?_, ?_⟩
  · intro call id hcall
    rcases call_of_step h hcall with ⟨hcall₀, -⟩ | hrow
    · exact hstays id (hu.cleared call id hcall₀)
    · exact hrow
  · intro call id source next error hcall
    rcases call_of_step h hcall with ⟨hcall₀, -⟩ | ⟨-, -, hcleared⟩
    · exact hstays id (hu.moving call id source next error hcall₀)
    · exact hstays id (hu.cleared call id (hcleared rfl))

/-- **What is ended has no ticket**: a run that `end_run` goes on to move has no ticket, then or at
any time after, wherever other calls come between and whatever of them fails. -/
theorem ended_ticket {tr tr' : List (Trans Store StoreAct)} (hr : Run step .fresh tr s)
    {call : Nat} {source next : AgentRunStatus} {error : Option String}
    (hcall : s.calls.get? call = some (.moving id source next error true))
    (hr' : Run step s tr' s') :
    ∃ r r', s.runs.get? id = some r ∧ r.ticketHash = "" ∧
      s'.runs.get? id = some r' ∧ r'.ticketHash = "" := by
  have hu : Unticketed s := by
    refine Run.invariant (C := fun _ => True) ⟨judged_fresh, ?_, ?_⟩
      (fun _ _ _ hs _ hu => hu.step (stepped_of_step hs)) hr (by simp)
    · intro call id hcall
      exact absurd hcall (by simp [Store.fresh])
    · intro call id source next error hcall
      exact absurd hcall (by simp [Store.fresh])
  obtain ⟨r, hget, hticket⟩ := hu.moving call id source next error hcall
  obtain ⟨r', hget', hcame⟩ := came_run hu.judged hr' hget
  exact ⟨r, r', hget, hticket, hget', hcame.ticket hticket⟩

end

/-! ## an application's run, cancelled -/

def applicationRun : AgentRun :=
  ⟨"helsinki", "bikes", "application", "queued", "hash", none, none, none, 600⟩

def stored : Store := final step .fresh [.lock 0 "run-1" applicationRun, .insert 0]

def ending : Store :=
  final step .fresh [.lock 0 "run-1" applicationRun, .insert 0, .clear 1 "run-1",
    .judgeEnd 1 .cancelled "cancelled by jana"]

theorem lifecycle_of_cancelled :
    ∃ r', (final step stored [.clear 1 "run-1", .judgeEnd 1 .cancelled "cancelled by jana",
        .move 1 7]).runs.get? "run-1" = some r' ∧ Came applicationRun r' :=
  lifecycle (run_trace (by decide +kernel)) (run_trace (by decide +kernel)) (by decide +kernel)

theorem one_live_of_stored : (stored.liveRuns "helsinki" "bikes").length ≤ 1 :=
  one_live (run_trace (by decide +kernel)) "helsinki" "bikes"

theorem ended_ticket_of_cancelled :
    ∃ r r', ending.runs.get? "run-1" = some r ∧ r.ticketHash = "" ∧
      (final step ending [.move 1 7]).runs.get? "run-1" = some r' ∧ r'.ticketHash = "" := by
  have hcall : ending.calls.get? 1
      = some (.moving "run-1" .queued .cancelled (some "cancelled by jana") true) := by
    decide +kernel
  exact ended_ticket (run_trace (by decide +kernel)) hcall (run_trace (by decide +kernel))

end Agents
end Portal
