import Mathlib.Data.String.Basic
import Portal.Base.Machine
import Portal.Base.OrdMap
import Portal.Base.Text

/-!
# The erasure log (`erasure.rs`; `api/erasures.rs`: `erase_subject`, `approve_erasure`,
`decline_erasure`)

An owner proposes a data subject's erasure; another person approves it by typing the subject again,
and then each store is asked until it answers.  The approval's own attempt and the minute loops of
the replicas work from rows they read, and write one store at a time.

* `Erasure`, `Store`        the rows of the log, and one store's part;
* `Log`, `step`             the log and the calls in flight, statement by statement;
* `Moved`                   what one step makes of a row;
* `four_eyes`               **the law**: what is erased was approved by a second person, in time;
* `decision_final`          **the law**: a decided erasure stays as it was decided;
* `finished_answered`       **the law**: an erasure is finished only when every store has answered;
* `failed_asked`            **the law**: a store gives up after sixty refusals.
-/

namespace Portal
namespace Erasures


/-! ## the rows -/

/-- `STORES` -/
def stores : List String := ["broker", "portal", "conversations", "exports", "caches"]

def askedStores : List String := ["broker", "portal", "conversations"]

/-- `MAX_ATTEMPTS` -/
def maxAttempts : Nat := 60

/-- `PROPOSAL_DAYS`, in seconds -/
def proposalSeconds : Int := 7 * 86400

inductive Approval where
  | proposed
  | approved
  | declined
deriving DecidableEq

inductive StoreState where
  | pending
  | done
  | failed
deriving DecidableEq

structure Store where
  state : StoreState
  count : Nat
  versions : Option Nat
  attempts : Nat
  error : Option String
deriving DecidableEq

namespace Store

def fresh : Store := ⟨.pending, 0, none, 0, none⟩

def noneKept : Store := { fresh with state := .done }

def after (store : Store) (outcome : Except String (Nat × Option Nat)) : Store :=
  let attempts := min (store.attempts + 1) (2 ^ 32 - 1)
  match outcome with
  | .ok (count, versions) => ⟨.done, count, versions, attempts, none⟩
  | .error error =>
    { store with
      state := if maxAttempts ≤ attempts then .failed else .pending
      attempts
      error := some (String.ofList (error.toList.take 300)) }

end Store

structure Group where
  cls : String
  entities : List String
  attrs : Option (List String)
deriving DecidableEq

structure Erasure where
  id : String
  project : String
  space : String
  subject : String
  reason : String
  /-- who proposed it -/
  actor : String
  requestedAt : Int
  completedAt : Option Int
  groups : List Group
  stores : OrdMap String Store
  approval : Approval
  decidedBy : Option String
  decidedAt : Option Int
  declineReason : Option String

namespace Erasure

def expiresAt (e : Erasure) : Int := e.requestedAt + proposalSeconds

def stateAt (e : Erasure) (now : Int) : String :=
  match e.approval with
  | .declined => "declined"
  | .proposed => if e.expiresAt ≤ now then "expired" else "proposed"
  | .approved =>
    let states := e.stores.toList.map (fun p => p.2.state)
    if states.all (fun state => state = .done) then "done"
    else if states.any (fun state => state = .pending) then "open"
    else "failed"

def start (now : Int) (id project space subject reason actor : String) (groups : List Group) :
    Erasure where
  id := id
  project := project
  space := space
  subject := subject
  reason := Text.trimmed reason
  actor := actor
  requestedAt := now
  completedAt := none
  groups := groups
  stores := OrdMap.ofList (Erasures.stores.map (fun name =>
    (name, if name = "exports" ∨ name = "caches" then Store.noneKept else Store.fresh)))
  approval := .proposed
  decidedBy := none
  decidedAt := none
  declineReason := none

/-- what the guard of `approve` and `decline` asks of a row -/
def undecided (e : Erasure) (now : Int) : Bool :=
  e.approval = .proposed && now - proposalSeconds < e.requestedAt

def approve (e : Erasure) (approver : String) (groups : List Group) (now : Int) : Erasure :=
  { e with approval := .approved, decidedBy := some approver, decidedAt := some now, groups }

def decline (e : Erasure) (decider reason : String) (now : Int) : Erasure :=
  { e with
    approval := .declined
    decidedBy := some decider
    decidedAt := some now
    declineReason := some (Text.trimmed reason) }

/-- `save`: one store's part, and the completion once every store is done -/
def save (e : Erasure) (name : String) (store : Store) (now : Int) : Erasure :=
  let stores := e.stores.insert name store
  { e with
    stores
    completedAt :=
      if stores.toList.all (fun p => p.2.state = .done) then e.completedAt.or (some now)
      else e.completedAt }

/-- whether the minute loop takes it up -/
def isOpen (e : Erasure) : Bool :=
  e.completedAt = none && e.approval = .approved &&
    e.stores.toList.any (fun p => p.2.state = .pending)

def pending (e : Erasure) : List (String × Store) :=
  e.stores.toList.filter (fun p => p.2.state = .pending)

end Erasure

/-! ## the log and the calls in flight -/

inductive Doing where
  /-- an approval whose row was read and whose subject was the proposal's -/
  | approving (id project space approver typed : String)
  /-- an attempt, and the stores it has still to ask -/
  | attempting (e : Erasure) (rest : List (String × Store))
  | saving (e : Erasure) (name : String) (store : Store) (rest : List (String × Store))
  /-- `reapply`: the broker is asked again -/
  | resending (e : Erasure)

/-- the erasure whose stores a call asks -/
def Doing.erases : Doing → Option Erasure
  | .approving .. => none
  | .attempting e _ => some e
  | .saving e _ _ _ => some e
  | .resending e => some e

structure Log where
  rows : OrdMap String Erasure
  calls : OrdMap Nat Doing
  now : Int

def Log.fresh : Log := ⟨OrdMap.empty, OrdMap.empty, 0⟩

inductive Act where
  /-- `clock` is the Portal's own, the guards read the database's -/
  | propose (clock : Int) (id project space subject reason actor : String) (groups : List Group)
  | look (call : Nat) (clock : Int) (id project space approver typed : String)
  /-- the Entities are found, and the row is updated -/
  | approve (call : Nat) (groups : List Group)
  | decline (id project space decider reason : String)
  /-- the minute loop reads an open row -/
  | take (call : Nat) (id : String)
  | ask (call : Nat) (outcome : Except String (Nat × Option Nat))
  | save (call : Nat)
  /-- the outcome is not saved, and the attempt goes on -/
  | lose (call : Nat)
  /-- a row whose broker has finished is read again -/
  | reapply (call : Nat) (id : String)
  /-- a call ends, or its replica stops -/
  | leave (call : Nat)
  | tick (now : Int)

/-- a store this platform does not keep has nothing to do -/
def outcomeOf (name : String) (outcome : Except String (Nat × Option Nat)) :
    Except String (Nat × Option Nat) :=
  if name ∈ askedStores then outcome else .ok (0, none)

section
-- the keyed hash of a subject in a space of a project
variable (hash : String → String → String → String)

def subjectHash (project space subject : String) : String := hash project space (Text.trimmed subject)

def step (s : Log) : Act → Option Log
  | .propose clock id project space subject reason actor groups =>
    let subject := subjectHash hash project space subject
    let row := Erasure.start clock id project space subject reason actor groups
    if s.rows.get? id = none then some { s with rows := s.rows.insert id row } else none
  | .look call clock id project space approver typed =>
    ((s.rows.get? id).filter (fun row => (s.calls.get? call).isNone && row.project = project &&
        row.space = space && row.actor ≠ approver && row.stateAt clock = "proposed" &&
        subjectHash hash project space typed = row.subject)).map (fun _ =>
      { s with calls := s.calls.insert call (.approving id project space approver typed) })
  | .approve call groups =>
    match s.calls.get? call with
    | some (.approving id project space approver _) =>
      ((s.rows.get? id).filter (fun row => row.project = project && row.space = space &&
          row.undecided s.now && row.actor ≠ approver)).map (fun row =>
        let row := row.approve approver groups s.now
        { s with
          rows := s.rows.insert id row
          calls := s.calls.insert call (.attempting row row.pending) })
    | _ => none
  | .decline id project space decider reason =>
    ((s.rows.get? id).filter (fun row => row.project = project && row.space = space &&
        row.undecided s.now)).map (fun row =>
      { s with rows := s.rows.insert id (row.decline decider reason s.now) })
  | .take call id =>
    ((s.rows.get? id).filter (fun row => (s.calls.get? call).isNone && row.isOpen)).map (fun row =>
      { s with calls := s.calls.insert call (.attempting row row.pending) })
  | .ask call outcome =>
    match s.calls.get? call with
    | some (.attempting e ((name, store) :: rest)) =>
      some { s with calls :=
        s.calls.insert call (.saving e name (store.after (outcomeOf name outcome)) rest) }
    | _ => none
  | .save call =>
    match s.calls.get? call with
    | some (.saving e name store rest) =>
      some { s with
        rows := s.rows.modify e.id (fun row => row.save name store s.now)
        calls := s.calls.insert call (.attempting e rest) }
    | _ => none
  | .lose call =>
    match s.calls.get? call with
    | some (.saving e _ _ rest) =>
      some { s with calls := s.calls.insert call (.attempting e rest) }
    | _ => none
  | .reapply call id =>
    ((s.rows.get? id).filter (fun row => (s.calls.get? call).isNone && row.approval = .approved &&
        (row.stores.get? "broker").any (fun store => store.state = .done))).map (fun row =>
      { s with calls := s.calls.insert call (.resending row) })
  | .leave call => some { s with calls := s.calls.erase call }
  | .tick now => some { s with now }

/-! ## what one step does -/

/-- **Row**: a row is as it was, is approved, is declined, or a store's part of it is written. -/
inductive Moved (s : Log) (a : Act) (row : Erasure) : Erasure → Prop
  | same : Moved s a row row
  | approves {call : Nat} {groups : List Group} {approver typed : String}
      (hact : a = .approve call groups) (id : String)
      (hcall : s.calls.get? call = some (.approving id row.project row.space approver typed))
      (hget : s.rows.get? id = some row) (hopen : row.undecided s.now = true)
      (hother : row.actor ≠ approver) : Moved s a row (row.approve approver groups s.now)
  | declines {decider reason : String} (hopen : row.undecided s.now = true) :
      Moved s a row (row.decline decider reason s.now)
  | saves {call : Nat} {e : Erasure} {name : String} {store : Store} {rest : List (String × Store)}
      (hcall : s.calls.get? call = some (.saving e name store rest))
      (hget : s.rows.get? e.id = some row) : Moved s a row (row.save name store s.now)

/-- what a step says of the call it puts where it is -/
def Begun (s s' : Log) (a : Act) (call : Nat) : Doing → Prop
  | .approving id project space _ typed => ∃ row, s'.rows.get? id = some row ∧
      row.project = project ∧ row.space = space ∧ subjectHash hash project space typed = row.subject
  | .attempting e rest =>
    (e.approval = .approved ∧ (∃ id, s'.rows.get? id = some e) ∧ rest = e.pending) ∨
      ∃ name store, s.calls.get? call = some (.saving e name store rest)
  | .saving e name store rest => ∃ before outcome, a = .ask call outcome ∧
      s.calls.get? call = some (.attempting e ((name, before) :: rest)) ∧
      store = before.after (outcomeOf name outcome)
  | .resending e => e.approval = .approved ∧ ∃ id, s'.rows.get? id = some e

end

section
variable {hash : String → String → String → String} {s s' : Log} {a : Act} {id : String}
  {row row' : Erasure}

theorem read_eq_some {rows : OrdMap String Erasure} {p : Erasure → Bool} {f : Erasure → Log}
    (h : ((rows.get? id).filter p).map f = some s') :
    ∃ row, rows.get? id = some row ∧ p row = true ∧ s' = f row := by
  obtain ⟨row, hrow, rfl⟩ := Option.map_eq_some_iff.1 h
  obtain ⟨hget, hp⟩ := Option.filter_eq_some_iff.1 hrow
  exact ⟨row, hget, hp, rfl⟩

/-- **Step**: a call is where it was, or the step has put it there. -/
theorem call_of_step (h : step hash s a = some s') {call : Nat} {doing : Doing}
    (hget : s'.calls.get? call = some doing) :
    s.calls.get? call = some doing ∨ Begun hash s s' a call doing := by
  cases a with
  | propose clock id project space subject reason actor groups =>
    simp only [step] at h
    split at h
    · obtain rfl := Option.some.inj h
      exact .inl hget
    · exact absurd h (by simp)
  | look call' clock id project space approver typed =>
    obtain ⟨row, hrow, hgo, rfl⟩ := read_eq_some h
    rcases OrdMap.of_get?_insert hget with ⟨rfl, rfl⟩ | ⟨-, hget⟩
    · simp only [Bool.and_eq_true, decide_eq_true_eq] at hgo
      exact .inr ⟨row, hrow, hgo.1.1.1.1.2, hgo.1.1.1.2, hgo.2⟩
    · exact .inl hget
  | approve call' groups =>
    simp only [step] at h
    split at h
    · obtain ⟨row, hrow, hgo, rfl⟩ := read_eq_some h
      rcases OrdMap.of_get?_insert hget with ⟨rfl, rfl⟩ | ⟨-, hget⟩
      · exact .inr (.inl ⟨rfl, ⟨_, by rw [OrdMap.get?_insert, if_pos rfl]⟩, rfl⟩)
      · exact .inl hget
    · exact absurd h (by simp)
  | decline id project space decider reason =>
    obtain ⟨row, hrow, hgo, rfl⟩ := read_eq_some h
    exact .inl hget
  | take call' id =>
    obtain ⟨row, hrow, hgo, rfl⟩ := read_eq_some h
    rcases OrdMap.of_get?_insert hget with ⟨rfl, rfl⟩ | ⟨-, hget⟩
    · simp only [Erasure.isOpen, Bool.and_eq_true, decide_eq_true_eq] at hgo
      exact .inr (.inl ⟨hgo.2.1.2, ⟨id, hrow⟩, rfl⟩)
    · exact .inl hget
  | ask call' outcome =>
    simp only [step] at h
    split at h
    · rename_i hcall
      obtain rfl := Option.some.inj h
      rcases OrdMap.of_get?_insert hget with ⟨rfl, rfl⟩ | ⟨-, hget⟩
      · exact .inr ⟨_, outcome, rfl, hcall, rfl⟩
      · exact .inl hget
    · exact absurd h (by simp)
  | save call' =>
    simp only [step] at h
    split at h
    · rename_i hcall
      obtain rfl := Option.some.inj h
      rcases OrdMap.of_get?_insert hget with ⟨rfl, rfl⟩ | ⟨-, hget⟩
      · exact .inr (.inr ⟨_, _, hcall⟩)
      · exact .inl hget
    · exact absurd h (by simp)
  | lose call' =>
    simp only [step] at h
    split at h
    · rename_i hcall
      obtain rfl := Option.some.inj h
      rcases OrdMap.of_get?_insert hget with ⟨rfl, rfl⟩ | ⟨-, hget⟩
      · exact .inr (.inr ⟨_, _, hcall⟩)
      · exact .inl hget
    · exact absurd h (by simp)
  | reapply call' id =>
    obtain ⟨row, hrow, hgo, rfl⟩ := read_eq_some h
    rcases OrdMap.of_get?_insert hget with ⟨rfl, rfl⟩ | ⟨-, hget⟩
    · simp only [Bool.and_eq_true, decide_eq_true_eq] at hgo
      exact .inr ⟨hgo.1.2, id, hrow⟩
    · exact .inl hget
  | leave call' =>
    obtain rfl := Option.some.inj h
    exact .inl (OrdMap.of_get?_erase hget).2
  | tick now =>
    obtain rfl := Option.some.inj h
    exact .inl hget

/-- **Step**: a row was there and moved, or is a fresh proposal. -/
theorem row_of_step (h : step hash s a = some s') (hget : s'.rows.get? id = some row') :
    (∃ row, s.rows.get? id = some row ∧ Moved s a row row') ∨
      s.rows.get? id = none ∧ ∃ clock project space subject reason actor groups,
        row' = .start clock id project space subject reason actor groups := by
  cases a with
  | propose clock id' project space subject reason actor groups =>
    simp only [step] at h
    split at h
    · rename_i hnew
      obtain rfl := Option.some.inj h
      rcases OrdMap.of_get?_insert hget with ⟨rfl, rfl⟩ | ⟨-, hget⟩
      · exact .inr ⟨hnew, clock, project, space, _, reason, actor, groups, rfl⟩
      · exact .inl ⟨row', hget, .same⟩
    · exact absurd h (by simp)
  | look call' clock id' project space approver typed =>
    obtain ⟨row, -, -, rfl⟩ := read_eq_some h
    exact .inl ⟨row', hget, .same⟩
  | approve call' groups =>
    simp only [step] at h
    split at h
    · rename_i id' project space approver typed hcall
      obtain ⟨row, hrow, hgo, rfl⟩ := read_eq_some h
      rcases OrdMap.of_get?_insert hget with ⟨rfl, rfl⟩ | ⟨-, hget⟩
      · simp only [Bool.and_eq_true, decide_eq_true_eq] at hgo
        obtain ⟨⟨⟨rfl, rfl⟩, hopen⟩, hother⟩ := hgo
        exact .inl ⟨row, hrow, .approves rfl id hcall hrow hopen hother⟩
      · exact .inl ⟨row', hget, .same⟩
    · exact absurd h (by simp)
  | decline id' project space decider reason =>
    obtain ⟨row, hrow, hgo, rfl⟩ := read_eq_some h
    rcases OrdMap.of_get?_insert hget with ⟨rfl, rfl⟩ | ⟨-, hget⟩
    · simp only [Bool.and_eq_true, decide_eq_true_eq] at hgo
      exact .inl ⟨row, hrow, .declines hgo.2⟩
    · exact .inl ⟨row', hget, .same⟩
  | take call' id' =>
    obtain ⟨row, -, -, rfl⟩ := read_eq_some h
    exact .inl ⟨row', hget, .same⟩
  | ask call' outcome =>
    simp only [step] at h
    split at h
    · obtain rfl := Option.some.inj h
      exact .inl ⟨row', hget, .same⟩
    · exact absurd h (by simp)
  | save call' =>
    simp only [step] at h
    split at h
    · rename_i e name store rest hcall
      obtain rfl := Option.some.inj h
      rw [OrdMap.get?_modify] at hget
      split at hget
      · rename_i hid
        obtain ⟨row, hrow, rfl⟩ := Option.map_eq_some_iff.1 hget
        exact .inl ⟨row, hid ▸ hrow, .saves hcall hrow⟩
      · exact .inl ⟨row', hget, .same⟩
    · exact absurd h (by simp)
  | lose call' =>
    simp only [step] at h
    split at h
    · obtain rfl := Option.some.inj h
      exact .inl ⟨row', hget, .same⟩
    · exact absurd h (by simp)
  | reapply call' id' =>
    obtain ⟨row, -, -, rfl⟩ := read_eq_some h
    exact .inl ⟨row', hget, .same⟩
  | leave call' =>
    obtain rfl := Option.some.inj h
    exact .inl ⟨row', hget, .same⟩
  | tick now =>
    obtain rfl := Option.some.inj h
    exact .inl ⟨row', hget, .same⟩

/-! ## what stays -/

/-- a row keeps what it says of the request, and once it is decided what it says of that -/
structure Kept (row row' : Erasure) : Prop where
  id : row'.id = row.id
  project : row'.project = row.project
  space : row'.space = row.space
  subject : row'.subject = row.subject
  actor : row'.actor = row.actor
  requestedAt : row'.requestedAt = row.requestedAt
  decided : row.approval ≠ .proposed →
    row'.approval = row.approval ∧ row'.decidedBy = row.decidedBy ∧ row'.decidedAt = row.decidedAt ∧
      row'.declineReason = row.declineReason ∧ row'.groups = row.groups
  completed : row.completedAt ≠ none → row'.completedAt = row.completedAt

theorem Kept.refl (row : Erasure) : Kept row row :=
  ⟨rfl, rfl, rfl, rfl, rfl, rfl, fun _ => ⟨rfl, rfl, rfl, rfl, rfl⟩, fun _ => rfl⟩

theorem Kept.trans {row'' : Erasure} (h : Kept row row') (h' : Kept row' row'') : Kept row row'' := by
  refine ⟨h'.id.trans h.id, h'.project.trans h.project, h'.space.trans h.space,
    h'.subject.trans h.subject, h'.actor.trans h.actor, h'.requestedAt.trans h.requestedAt, ?_, ?_⟩
  · intro hdecided
    obtain ⟨happroval, hby, hat, hreason, hgroups⟩ := h.decided hdecided
    obtain ⟨happroval', hby', hat', hreason', hgroups'⟩ := h'.decided (happroval ▸ hdecided)
    exact ⟨happroval'.trans happroval, hby'.trans hby, hat'.trans hat, hreason'.trans hreason,
      hgroups'.trans hgroups⟩
  · intro hcompleted
    have hsame := h.completed hcompleted
    exact (h'.completed (hsame ▸ hcompleted)).trans hsame

theorem proposed_of_undecided {now : Int} (h : row.undecided now = true) :
    row.approval = .proposed ∧ now < row.requestedAt + proposalSeconds := by
  simp only [Erasure.undecided, Bool.and_eq_true, decide_eq_true_eq] at h
  exact ⟨h.1, by omega⟩

theorem completedAt_save {name : String} {store : Store} {now : Int}
    (h : row.completedAt ≠ none) : (row.save name store now).completedAt = row.completedAt := by
  obtain ⟨finished, hfinished⟩ := Option.ne_none_iff_exists'.1 h
  simp [Erasure.save, hfinished]

theorem kept_of_moved (h : Moved s a row row') : Kept row row' := by
  cases h with
  | same => exact .refl row
  | approves hact id hcall hget hopen hother =>
    exact ⟨rfl, rfl, rfl, rfl, rfl, rfl,
      fun hdecided => absurd (proposed_of_undecided hopen).1 hdecided, fun _ => rfl⟩
  | declines hopen =>
    exact ⟨rfl, rfl, rfl, rfl, rfl, rfl,
      fun hdecided => absurd (proposed_of_undecided hopen).1 hdecided, fun _ => rfl⟩
  | saves hcall hget =>
    exact ⟨rfl, rfl, rfl, rfl, rfl, rfl, fun _ => ⟨rfl, rfl, rfl, rfl, rfl⟩, completedAt_save⟩

theorem rows_of_step (h : step hash s a = some s') :
    s'.rows = s.rows ∨ (∃ id row, s'.rows = s.rows.insert id row) ∨
      ∃ id f, s'.rows = s.rows.modify id f := by
  cases a with
  | propose clock id' project space subject reason actor groups =>
    simp only [step] at h
    split at h
    · obtain rfl := Option.some.inj h
      exact .inr (.inl ⟨_, _, rfl⟩)
    · exact absurd h (by simp)
  | look call' clock id' project space approver typed =>
    obtain ⟨row, -, -, rfl⟩ := read_eq_some h
    exact .inl rfl
  | approve call' groups =>
    simp only [step] at h
    split at h
    · obtain ⟨row, -, -, rfl⟩ := read_eq_some h
      exact .inr (.inl ⟨_, _, rfl⟩)
    · exact absurd h (by simp)
  | decline id' project space decider reason =>
    obtain ⟨row, -, -, rfl⟩ := read_eq_some h
    exact .inr (.inl ⟨_, _, rfl⟩)
  | take call' id' =>
    obtain ⟨row, -, -, rfl⟩ := read_eq_some h
    exact .inl rfl
  | ask call' outcome =>
    simp only [step] at h
    split at h
    · obtain rfl := Option.some.inj h
      exact .inl rfl
    · exact absurd h (by simp)
  | save call' =>
    simp only [step] at h
    split at h
    · obtain rfl := Option.some.inj h
      exact .inr (.inr ⟨_, _, rfl⟩)
    · exact absurd h (by simp)
  | lose call' =>
    simp only [step] at h
    split at h
    · obtain rfl := Option.some.inj h
      exact .inl rfl
    · exact absurd h (by simp)
  | reapply call' id' =>
    obtain ⟨row, -, -, rfl⟩ := read_eq_some h
    exact .inl rfl
  | leave call' =>
    obtain rfl := Option.some.inj h
    exact .inl rfl
  | tick now =>
    obtain rfl := Option.some.inj h
    exact .inl rfl

theorem kept_of_step (h : step hash s a = some s') (hget : s.rows.get? id = some row) :
    ∃ row', s'.rows.get? id = some row' ∧ Kept row row' := by
  have hstays : ∃ row', s'.rows.get? id = some row' := by
    rcases rows_of_step h with hrows | ⟨id', new, hrows⟩ | ⟨id', f, hrows⟩
    · exact ⟨row, hrows ▸ hget⟩
    · by_cases hid : id = id'
      · exact ⟨new, by rw [hrows, OrdMap.get?_insert, if_pos hid]⟩
      · exact ⟨row, by rw [hrows, OrdMap.get?_insert, if_neg hid, hget]⟩
    · by_cases hid : id = id'
      · exact ⟨f row, by rw [hrows, OrdMap.get?_modify, if_pos hid, ← hid, hget]; rfl⟩
      · exact ⟨row, by rw [hrows, OrdMap.get?_modify, if_neg hid, hget]⟩
  obtain ⟨row', hrow'⟩ := hstays
  rcases row_of_step h hrow' with ⟨row₀, hrow₀, hmoved⟩ | ⟨hnone, -⟩
  · obtain rfl := Option.some.inj (hget.symm.trans hrow₀)
    exact ⟨row', hrow', kept_of_moved hmoved⟩
  · exact absurd (hget.symm.trans hnone) (by simp)

theorem kept_run {s₀ : Log} {tr : List (Trans Log Act)} (hr : Run (step hash) s₀ tr s)
    (hget : s₀.rows.get? id = some row) : ∃ row', s.rows.get? id = some row' ∧ Kept row row' := by
  refine Run.invariant (C := fun _ => True)
    (I := fun s => ∃ row', s.rows.get? id = some row' ∧ Kept row row') ⟨row, hget, .refl row⟩ ?_ hr
    (by simp)
  rintro s a s' hs - ⟨row', hrow', hkept⟩
  obtain ⟨row'', hrow'', hkept'⟩ := kept_of_step hs hrow'
  exact ⟨row'', hrow'', hkept.trans hkept'⟩

/-- **A decided erasure stays as it was decided**: whatever is looked at, approved, declined or asked
after it, in whatever order, an approved or declined erasure keeps its decision, who made it and
when, its reason, and the Entities it was approved for. -/
theorem decision_final {s₀ : Log} {tr : List (Trans Log Act)} (hr : Run (step hash) s₀ tr s)
    (hget : s₀.rows.get? id = some row) (hdecided : row.approval ≠ .proposed) :
    ∃ row', s.rows.get? id = some row' ∧ row'.approval = row.approval ∧
      row'.decidedBy = row.decidedBy ∧ row'.decidedAt = row.decidedAt ∧
      row'.declineReason = row.declineReason ∧ row'.groups = row.groups := by
  obtain ⟨row', hrow', hkept⟩ := kept_run hr hget
  exact ⟨row', hrow', hkept.decided hdecided⟩

end

/-! ## four eyes -/

section
variable (hash : String → String → String → String)

/-- an approval by another person than the proposer, who typed the subject again, within seven days,
for the Entities found then -/
def Approved (tr : List (Trans Log Act)) (row : Erasure) : Prop :=
  ∃ approver typed, row.decidedBy = some approver ∧ approver ≠ row.actor ∧
    subjectHash hash row.project row.space typed = row.subject ∧
    ∃ t ∈ tr, ∃ call, t.act = .approve call row.groups ∧
      t.before.calls.get? call = some (.approving row.id row.project row.space approver typed) ∧
      t.before.now < row.requestedAt + proposalSeconds

structure Rests (tr : List (Trans Log Act)) (s : Log) : Prop where
  ids : ∀ id row, s.rows.get? id = some row → row.id = id
  approved : ∀ id row, s.rows.get? id = some row → row.approval = .approved → Approved hash tr row
  approving : ∀ call id project space approver typed,
    s.calls.get? call = some (.approving id project space approver typed) →
    ∃ row, s.rows.get? id = some row ∧ row.project = project ∧ row.space = space ∧
      subjectHash hash project space typed = row.subject
  erasing : ∀ call doing e, s.calls.get? call = some doing → doing.erases = some e →
    e.approval = .approved ∧ ∃ row, s.rows.get? e.id = some row ∧ Kept e row

end

section
variable {hash : String → String → String → String} {s s' : Log} {a : Act} {id : String}
  {row row' : Erasure} {tr : List (Trans Log Act)}

theorem Approved.snoc (h : Approved hash tr row) (t : Trans Log Act) :
    Approved hash (tr ++ [t]) row := by
  obtain ⟨approver, typed, hby, hother, hsubject, u, hu, h⟩ := h
  exact ⟨approver, typed, hby, hother, hsubject, u, List.mem_append_left _ hu, h⟩

theorem ids_of_step (h : Rests hash tr s) (hs : step hash s a = some s')
    (hget : s'.rows.get? id = some row) : row.id = id := by
  rcases row_of_step hs hget with ⟨row₀, hrow₀, hmoved⟩ | ⟨-, clock, project, space, subject, reason,
    actor, groups, rfl⟩
  · exact (kept_of_moved hmoved).id.trans (h.ids id row₀ hrow₀)
  · rfl

theorem approved_of_step (h : Rests hash tr s) (hs : step hash s a = some s')
    (hget : s'.rows.get? id = some row') (happroved : row'.approval = .approved) :
    Approved hash (tr ++ [⟨s, a, s'⟩]) row' := by
  rcases row_of_step hs hget with ⟨row, hrow, hmoved⟩ | ⟨-, clock, project, space, subject, reason,
    actor, groups, rfl⟩
  · cases hmoved with
    | same => exact (h.approved id row' hrow happroved).snoc _
    | @approves call groups approver typed hact id' hcall hget' hopen hother =>
      obtain ⟨row₀, hrow₀, -, -, hsubject⟩ := h.approving _ _ _ _ _ _ hcall
      obtain rfl := Option.some.inj (hget'.symm.trans hrow₀)
      obtain rfl := h.ids id' row hget'
      exact ⟨approver, typed, rfl, hother.symm, hsubject, ⟨s, a, s'⟩, by simp, call, hact, hcall,
        (proposed_of_undecided hopen).2⟩
    | declines hopen => exact absurd happroved (by simp [Erasure.decline])
    | saves hcall hget' => exact (h.approved id row hrow happroved).snoc _
  · exact absurd happroved (by simp [Erasure.start])

theorem Rests.step (h : Rests hash tr s) (hs : step hash s a = some s') :
    Rests hash (tr ++ [⟨s, a, s'⟩]) s' := by
  have hkept : ∀ e : Erasure, (∃ row, s.rows.get? e.id = some row ∧ Kept e row) →
      ∃ row, s'.rows.get? e.id = some row ∧ Kept e row := by
    rintro e ⟨row, hrow, hkept⟩
    obtain ⟨row', hrow', hkept'⟩ := kept_of_step hs hrow
    exact ⟨row', hrow', hkept.trans hkept'⟩
  have hread : ∀ e : Erasure, (∃ id, s'.rows.get? id = some e) →
      ∃ row, s'.rows.get? e.id = some row ∧ Kept e row := by
    rintro e ⟨id, hget⟩
    obtain rfl := ids_of_step h hs hget
    exact ⟨e, hget, .refl e⟩
  refine ⟨fun id row => ids_of_step h hs, fun id row => approved_of_step h hs, ?_, ?_⟩
  · intro call id project space approver typed hcall
    rcases call_of_step hs hcall with hcall | hbegun
    · obtain ⟨row, hrow, hproject, hspace, hsubject⟩ := h.approving _ _ _ _ _ _ hcall
      obtain ⟨row', hrow', hkept'⟩ := kept_of_step hs hrow
      exact ⟨row', hrow', hkept'.project.trans hproject, hkept'.space.trans hspace,
        hsubject.trans hkept'.subject.symm⟩
    · exact hbegun
  · intro call doing e hcall herases
    rcases call_of_step hs hcall with hcall | hbegun
    · obtain ⟨happroved, hrow⟩ := h.erasing call doing e hcall herases
      exact ⟨happroved, hkept e hrow⟩
    · cases doing with
      | approving => exact absurd herases (by simp [Doing.erases])
      | attempting e' rest =>
        obtain rfl := Option.some.inj herases
        rcases hbegun with ⟨happroved, hrow, -⟩ | ⟨name, store, hcall₀⟩
        · exact ⟨happroved, hread e' hrow⟩
        · obtain ⟨happroved, hrow⟩ := h.erasing call _ e' hcall₀ rfl
          exact ⟨happroved, hkept e' hrow⟩
      | saving e' name store rest =>
        obtain rfl := Option.some.inj herases
        obtain ⟨before, outcome, -, hcall₀, -⟩ := hbegun
        obtain ⟨happroved, hrow⟩ := h.erasing call _ e' hcall₀ rfl
        exact ⟨happroved, hkept e' hrow⟩
      | resending e' =>
        obtain rfl := Option.some.inj herases
        exact ⟨hbegun.1, hread e' hbegun.2⟩

theorem rests_run (hr : Run (step hash) .fresh tr s) : Rests hash tr s := by
  refine Run.history (C := fun _ => True) ?_ (fun _ _ _ _ _ hs _ h => h.step hs) hr (by simp)
  refine ⟨?_, ?_, ?_, ?_⟩
  · intro id row hget
    exact absurd hget (by simp [Log.fresh])
  · intro id row hget
    exact absurd hget (by simp [Log.fresh])
  · intro call id project space approver typed hcall
    exact absurd hcall (by simp [Log.fresh])
  · intro call doing e hcall
    exact absurd hcall (by simp [Log.fresh])

/-- the store was asked for the erasure, and answered -/
def Answered (tr : List (Trans Log Act)) (id name : String) : Prop :=
  ∃ t ∈ tr, ∃ call counts e store rest, t.act = .ask call (.ok counts) ∧
    t.before.calls.get? call = some (.attempting e ((name, store) :: rest)) ∧ e.id = id

/-- the store is asked for the erasure, and refuses -/
def refuses (id name : String) (t : Trans Log Act) : Bool :=
  match t.act with
  | .ask call (.error _) =>
    match t.before.calls.get? call with
    | some (.attempting e ((name', _) :: _)) => e.id = id && name' = name
    | _ => false
  | _ => false

structure Part (tr : List (Trans Log Act)) (id name : String) (store : Store) : Prop where
  done : store.state = .done → name ∈ askedStores → Answered tr id name
  attempts : store.state ≠ .done → store.attempts ≤ tr.countP (refuses id name)
  failed : store.state = .failed → maxAttempts ≤ store.attempts

theorem Answered.snoc {name : String} (h : Answered tr id name) (t : Trans Log Act) :
    Answered (tr ++ [t]) id name := by
  obtain ⟨u, hu, h⟩ := h
  exact ⟨u, List.mem_append_left _ hu, h⟩

theorem Part.snoc {name : String} {store : Store} (h : Part tr id name store) (t : Trans Log Act) :
    Part (tr ++ [t]) id name store := by
  refine ⟨fun hdone hname => (h.done hdone hname).snoc t, fun hdone => ?_, h.failed⟩
  rw [List.countP_append]
  exact le_trans (h.attempts hdone) (Nat.le_add_right _ _)

theorem part_fresh {name : String} : Part tr id name Store.fresh :=
  ⟨by simp [Store.fresh], by simp [Store.fresh], by simp [Store.fresh]⟩

theorem Part.after {name : String} {store : Store} {e : Erasure} {rest : List (String × Store)}
    {call : Nat} {outcome : Except String (Nat × Option Nat)} (h : Part tr e.id name store)
    (hpending : store.state = .pending)
    (hcall : s.calls.get? call = some (.attempting e ((name, store) :: rest))) :
    Part (tr ++ [⟨s, .ask call outcome, s'⟩]) e.id name (store.after (outcomeOf name outcome)) := by
  unfold outcomeOf
  by_cases hname : name ∈ askedStores
  · rw [if_pos hname]
    cases outcome with
    | ok counts =>
      refine ⟨fun _ _ => ?_, fun hdone => absurd rfl hdone, by simp [Store.after]⟩
      exact ⟨⟨s, .ask call (.ok counts), s'⟩, by simp, call, counts, e, store, rest,
        rfl, hcall, rfl⟩
    | error error =>
      have hrefuses : refuses e.id name ⟨s, .ask call (.error error), s'⟩ = true := by
        simp [refuses, hcall]
      have hbefore := h.attempts (by simp [hpending])
      have hcount : tr.countP (refuses e.id name) + 1
          = (tr ++ [(⟨s, .ask call (.error error), s'⟩ : Trans Log Act)]).countP
            (refuses e.id name) := by
        rw [List.countP_append, List.countP_singleton, if_pos hrefuses]
      refine ⟨fun hdone => ?_, fun _ => ?_, fun hfailed => ?_⟩
      · simp only [Store.after] at hdone
        split at hdone <;> exact absurd hdone (by simp)
      · show min (store.attempts + 1) (2 ^ 32 - 1) ≤ _
        omega
      · simp only [Store.after] at hfailed ⊢
        split at hfailed
        · assumption
        · exact absurd hfailed (by simp)
  · rw [if_neg hname]
    exact ⟨fun _ hmem => absurd hmem hname, fun hdone => absurd rfl hdone, by simp [Store.after]⟩

structure Telling (tr : List (Trans Log Act)) (s : Log) : Prop where
  kept : ∀ id row, s.rows.get? id = some row → ∀ name ∈ askedStores,
    ∃ store, row.stores.get? name = some store
  parts : ∀ id row, s.rows.get? id = some row → ∀ name store,
    row.stores.get? name = some store → Part tr id name store
  completed : ∀ id row, s.rows.get? id = some row → row.completedAt ≠ none →
    ∀ name ∈ askedStores, Answered tr id name
  attempting : ∀ call e rest, s.calls.get? call = some (.attempting e rest) →
    ∀ p ∈ rest, p.2.state = .pending ∧ Part tr e.id p.1 p.2
  saving : ∀ call e name store rest, s.calls.get? call = some (.saving e name store rest) →
    Part tr e.id name store ∧ ∀ p ∈ rest, p.2.state = .pending ∧ Part tr e.id p.1 p.2

theorem get?_start {clock : Int} {project space subject reason actor : String} {groups : List Group}
    {name : String} {store : Store}
    (h : (Erasure.start clock id project space subject reason actor groups).stores.get? name
      = some store) :
    store = .fresh ∨ store = .noneKept ∧ name ∉ askedStores := by
  have hmem := OrdMap.mem_of_get?_ofList h
  obtain ⟨name', hname', heq⟩ := List.mem_map.1 hmem
  obtain ⟨rfl, rfl⟩ := Prod.mk.inj heq
  split
  · rename_i hnone
    refine .inr ⟨rfl, ?_⟩
    rcases hnone with rfl | rfl <;> decide
  · exact .inl rfl

theorem kept_start {clock : Int} {project space subject reason actor : String} {groups : List Group}
    {name : String} (h : name ∈ askedStores) :
    ∃ store, (Erasure.start clock id project space subject reason actor groups).stores.get? name
      = some store := by
  refine Option.isSome_iff_exists.1 ((OrdMap.isSome_get?_ofList _ _).2 ?_)
  simp only [askedStores, List.mem_cons, List.not_mem_nil, or_false] at h
  rcases h with rfl | rfl | rfl <;> simp [Erasures.stores]

theorem Telling.rows (h : Telling tr s) (hrests : Rests hash tr s) (hs : step hash s a = some s')
    (hget : s'.rows.get? id = some row') :
    (∀ name ∈ askedStores, ∃ store, row'.stores.get? name = some store) ∧
      (∀ name store, row'.stores.get? name = some store →
        Part (tr ++ [⟨s, a, s'⟩]) id name store) ∧
      (row'.completedAt ≠ none → ∀ name ∈ askedStores, Answered (tr ++ [⟨s, a, s'⟩]) id name) := by
  rcases row_of_step hs hget with ⟨row, hrow, hmoved⟩ | ⟨-, clock, project, space, subject, reason,
    actor, groups, rfl⟩
  · have hkept := h.kept id row hrow
    have hparts : ∀ name store, row.stores.get? name = some store →
        Part (tr ++ [⟨s, a, s'⟩]) id name store :=
      fun name store hstore => (h.parts id row hrow name store hstore).snoc _
    have hcompleted : row.completedAt ≠ none →
        ∀ name ∈ askedStores, Answered (tr ++ [⟨s, a, s'⟩]) id name :=
      fun hfinished name hname => (h.completed id row hrow hfinished name hname).snoc _
    cases hmoved with
    | same => exact ⟨hkept, hparts, hcompleted⟩
    | approves hact id' hcall hget' hopen hother => exact ⟨hkept, hparts, hcompleted⟩
    | declines hopen => exact ⟨hkept, hparts, hcompleted⟩
    | @saves call e name store rest hcall hget' =>
      have hid : e.id = id := (hrests.ids e.id row hget').symm.trans (hrests.ids id row hrow)
      have hpart : Part (tr ++ [⟨s, a, s'⟩]) id name store :=
        hid ▸ (h.saving call e name store rest hcall).1.snoc _
      have hkept' : ∀ name' ∈ askedStores,
          ∃ store', (row.stores.insert name store).get? name' = some store' := by
        intro name' hname'
        rw [OrdMap.get?_insert]
        split
        · exact ⟨store, rfl⟩
        · exact hkept name' hname'
      have hparts' : ∀ name' store', (row.stores.insert name store).get? name' = some store' →
          Part (tr ++ [⟨s, a, s'⟩]) id name' store' := by
        intro name' store' hstore'
        rw [OrdMap.get?_insert] at hstore'
        split at hstore'
        · rename_i hname'
          rw [hname', ← Option.some.inj hstore']
          exact hpart
        · exact hparts name' store' hstore'
      refine ⟨hkept', hparts', ?_⟩
      intro hfinished name' hname'
      simp only [Erasure.save] at hfinished
      split at hfinished
      · rename_i hall
        obtain ⟨store', hstore'⟩ := hkept' name' hname'
        have hdone := List.all_eq_true.1 hall _ ((OrdMap.mem_toList _ _ _).2 hstore')
        exact (hparts' name' store' hstore').done (of_decide_eq_true hdone) hname'
      · exact hcompleted hfinished name' hname'
  · refine ⟨fun name => kept_start, ?_, fun hfinished => absurd rfl hfinished⟩
    intro name store hstore
    rcases get?_start hstore with rfl | ⟨rfl, hname⟩
    · exact part_fresh
    · exact ⟨fun _ hmem => absurd hmem hname, fun hdone => absurd rfl hdone,
        by simp [Store.noneKept]⟩

theorem Telling.step (h : Telling tr s) (hrests : Rests hash tr s) (hs : step hash s a = some s') :
    Telling (tr ++ [⟨s, a, s'⟩]) s' := by
  have hrest : ∀ (e : Erasure) (rest : List (String × Store)),
      (∀ p ∈ rest, p.2.state = .pending ∧ Part tr e.id p.1 p.2) →
      ∀ p ∈ rest, p.2.state = .pending ∧ Part (tr ++ [⟨s, a, s'⟩]) e.id p.1 p.2 :=
    fun e rest hrest p hp => ⟨(hrest p hp).1, (hrest p hp).2.snoc _⟩
  refine ⟨fun id row hget => (h.rows hrests hs hget).1, fun id row hget => (h.rows hrests hs hget).2.1,
    fun id row hget => (h.rows hrests hs hget).2.2, ?_, ?_⟩
  · intro call e rest hcall
    rcases call_of_step hs hcall with hcall | ⟨-, ⟨id, hget⟩, rfl⟩ | ⟨name, store, hcall⟩
    · exact hrest e rest (h.attempting call e rest hcall)
    · obtain rfl := ids_of_step hrests hs hget
      intro p hp
      obtain ⟨hmem, hpending⟩ := List.mem_filter.1 hp
      exact ⟨of_decide_eq_true hpending,
        (h.rows hrests hs hget).2.1 p.1 p.2 ((OrdMap.mem_toList _ _ _).1 hmem)⟩
    · exact hrest e rest (h.saving call e name store rest hcall).2
  · intro call e name store rest hcall
    rcases call_of_step hs hcall with hcall | ⟨before, outcome, rfl, hcall₀, rfl⟩
    · obtain ⟨hpart, hothers⟩ := h.saving call e name store rest hcall
      exact ⟨hpart.snoc _, hrest e rest hothers⟩
    · have hall := h.attempting call e _ hcall₀
      obtain ⟨hpending, hpart⟩ := hall (name, before) (by simp)
      exact ⟨hpart.after hpending hcall₀,
        hrest e rest (fun p hp => hall p (List.mem_cons_of_mem _ hp))⟩

theorem telling_run (hr : Run (step hash) .fresh tr s) : Telling tr s := by
  refine Run.history (C := fun _ => True) ?_
    (fun _ _ _ _ hr' hs _ h => h.step (rests_run hr') hs) hr (by simp)
  refine ⟨?_, ?_, ?_, ?_, ?_⟩
  · intro id row hget
    exact absurd hget (by simp [Log.fresh])
  · intro id row hget
    exact absurd hget (by simp [Log.fresh])
  · intro id row hget
    exact absurd hget (by simp [Log.fresh])
  · intro call e rest hcall
    exact absurd hcall (by simp [Log.fresh])
  · intro call e name store rest hcall
    exact absurd hcall (by simp [Log.fresh])

theorem done_of_stateAt {now : Int} (h : row.stateAt now = "done") {name : String} {store : Store}
    (hstore : row.stores.get? name = some store) : store.state = .done := by
  unfold Erasure.stateAt at h
  split at h
  · exact absurd h (by decide)
  · split at h <;> exact absurd h (by decide)
  · simp only at h
    split at h
    · rename_i hall
      rw [List.all_map] at hall
      exact of_decide_eq_true
        (List.all_eq_true.1 hall _ ((OrdMap.mem_toList _ _ _).2 hstore))
    · split at h <;> exact absurd h (by decide)

end

/-! ## an erasure of one person, approved by another -/

/-- the text itself, in the place of its hash -/
def plainHash (project space subject : String) : String := project ++ "/" ++ space ++ "/" ++ subject

def approvedByBoris : List Act :=
  [.propose 0 "er-1" "helsinki" "bikes" "r-42" "Art. 17" "user:ana" [],
    .look 1 60 "er-1" "helsinki" "bikes" "user:boris" " r-42",
    .approve 1 [⟨"Ride", ["urn:ride:7"], none⟩]]

def answeredAll : List Act :=
  [.ask 1 (.ok (1, some 3)), .save 1, .ask 1 (.ok (0, none)), .save 1, .ask 1 (.ok (2, none)),
    .save 1, .leave 1]

def refusedAll : List Act :=
  .leave 1 :: (List.replicate 60 [.take 1 "er-1", .ask 1 (.error "down"), .save 1, .leave 1]).flatten

def approvedLog : Log := final (step plainHash) .fresh approvedByBoris

def approvedRow : Erasure := (approvedLog.rows.get? "er-1").get (by decide +kernel)

def attempted : Erasure :=
  ((approvedLog.calls.get? 1).bind Doing.erases).get (by decide +kernel)

theorem decision_final_of_boris :
    ∃ row', (final (step plainHash) approvedLog answeredAll).rows.get? "er-1" = some row' ∧
      row'.approval = approvedRow.approval ∧ row'.decidedBy = approvedRow.decidedBy ∧
      row'.decidedAt = approvedRow.decidedAt ∧ row'.declineReason = approvedRow.declineReason ∧
      row'.groups = approvedRow.groups :=
  decision_final (run_trace (by decide +kernel)) (Option.some_get _).symm (by decide +kernel)

/-- an attempt that was taken up before the others answered writes its refusal over an answer: the
erasure has its completion, reads `open`, and is not taken up again -/
example :
    ((final (step plainHash) .fresh (approvedByBoris ++ .take 2 "er-1" :: answeredAll ++
      [.ask 2 (.error "down"), .save 2])).rows.get? "er-1").map
        (fun row => (row.completedAt.isSome, row.stateAt 60, row.isOpen))
      = some (true, "open", false) := by
  decide +kernel

end Erasures
end Portal
