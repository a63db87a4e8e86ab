import Mathlib.Data.List.DropRight
import Mathlib.Data.Prod.Lex
import Mathlib.Data.String.Basic
import Portal.Base.DateTime
import Portal.Base.OrdMap
import Portal.Base.Text

/-!
# The alert store (`alerts.rs`: `AlertStore`)

Who watches what, the incidents with when they recovered, and the notices left for people.  What
the evaluator changes is a `Write`; people subscribe, mute and stop in between.

* `Store.upsert`, `Store.remove`, `Store.mute`   what a person asks for;
* `Store.openIncident`, `Store.closeIncident`, `Store.notify`, `Store.digested`   what a pass does;
* `Store.write`, `Store.writes`   one of these, and a list of them in order;
* `noticesOf_notify`              a person keeps their newest notices, everyone else theirs.
-/

namespace Portal.Alerts

/-! ## the rows -/

inductive Scope
  | pipeline | space | type | agent
deriving DecidableEq, Repr

inductive Event
  | failure | stale | zero | invalid | refusalSpike | spendShare | offHoursWrite
deriving DecidableEq, Repr

inductive Delivery
  | portal | digest
deriving DecidableEq, Repr

namespace Event

/-- an event about an agent profile's runs, not a pipeline -/
def isAgent : Event → Bool
  | refusalSpike | spendShare | offHoursWrite => true
  | _ => false

theorem ctorIdx_injective : Function.Injective Event.ctorIdx := fun a b h => by
  cases a <;> cases b <;> first | rfl | cases h

instance : LinearOrder Event := LinearOrder.lift' Event.ctorIdx ctorIdx_injective

end Event

/-- project, pipeline (or agent profile) and event -/
abbrev IncidentKey := Lex (String × Lex (String × Event))

namespace IncidentKey

def of (project pipeline : String) (event : Event) : IncidentKey :=
  toLex (project, toLex (pipeline, event))

def project (key : IncidentKey) : String := (ofLex key).1

def pipeline (key : IncidentKey) : String := (ofLex (ofLex key).2).1

def event (key : IncidentKey) : Event := (ofLex (ofLex key).2).2

end IncidentKey

structure Subscription where
  id : Nat
  project : String
  scope : Scope
  target : String
  events : List Event
  delivery : Delivery
deriving DecidableEq, Repr

structure Held where
  subject : String
  subscription : Subscription
  mutedUntil : Option Int
  digestAt : Option Int
deriving DecidableEq, Repr

structure Incident where
  key : IncidentKey
  detail : String
  openedAt : Int
deriving DecidableEq

structure Signal where
  key : IncidentKey
  detail : String
deriving DecidableEq

inductive Change
  | opened | recovered | digest
deriving DecidableEq, Repr

structure Notice where
  id : Nat
  subscription : Nat
  key : IncidentKey
  change : Change
  detail : String
deriving DecidableEq

abbrev Row := Incident × Option Int

structure Store where
  next : Nat
  subscriptions : List Held
  incidents : List Row
  notices : List (String × Notice)
deriving DecidableEq

/-- `KEPT` -/
def kept : Nat := 200

/-- `iter_mut().find`: the first element that satisfies `p`, changed -/
def modifyFirst {α : Type} (p : α → Bool) (f : α → α) : List α → List α
  | [] => []
  | a :: l => if p a then f a :: l else a :: modifyFirst p f l

namespace Store

def empty : Store := ⟨0, [], [], []⟩

variable (s : Store)

/-! ## what a person asks for -/

def upsert (subject project : String) (scope : Scope) (target : String) (events : List Event)
    (delivery : Delivery) : Store :=
  let same (held : Held) : Bool :=
    held.subject = subject && held.subscription.project = project
      && held.subscription.scope = scope && held.subscription.target = target
  if s.subscriptions.any same then
    { s with
      subscriptions := modifyFirst same (fun held =>
        { held with
          subscription := { held.subscription with events := events, delivery := delivery } })
        s.subscriptions }
  else
    { s with
      next := s.next + 1
      subscriptions := s.subscriptions ++
        [⟨subject, ⟨s.next + 1, project, scope, target, events, delivery⟩, none, none⟩] }

def remove (subject : String) (id : Nat) : Store :=
  let theirs (held : Held) : Bool := held.subject = subject && held.subscription.id = id
  if s.subscriptions.any theirs then
    { s with
      subscriptions := s.subscriptions.filter fun held => !theirs held
      notices := s.notices.filter fun p => p.2.subscription ≠ id }
  else s

def mute (subject : String) (id : Nat) (mutedUntil : Option Int) : Store :=
  { s with
    subscriptions := modifyFirst
      (fun held => held.subject = subject && held.subscription.id = id)
      (fun held => { held with mutedUntil := mutedUntil }) s.subscriptions }

/-! ## what a pass does -/

def openIncident (signal : Signal) (now : Int) : Store :=
  { s with incidents := s.incidents ++ [(⟨signal.key, signal.detail, now⟩, none)] }

def closeIncident (key : IncidentKey) (now : Int) : Store :=
  { s with
    incidents := s.incidents.map fun row =>
      if row.1.key = key ∧ row.2 = none then (row.1, some now) else row }

/-- the notices without the first `drop` of a recipient -/
def dropFirst (recipient : String) : Nat → List (String × Notice) → List (String × Notice)
  | _, [] => []
  | 0, l => l
  | drop + 1, p :: l =>
    if p.1 = recipient then dropFirst recipient drop l else p :: dropFirst recipient (drop + 1) l

def notify (recipient : String) (subscription : Nat) (key : IncidentKey) (change : Change)
    (detail : String) : Store :=
  let notices := s.notices ++ [(recipient, ⟨s.next + 1, subscription, key, change, detail⟩)]
  let theirs := (notices.filter fun p => p.1 = recipient).length
  { s with
    next := s.next + 1
    notices := if theirs > kept then dropFirst recipient (theirs - kept) notices else notices }

def digested (id : Nat) (now : Int) : Store :=
  { s with
    subscriptions := modifyFirst (fun held => held.subscription.id = id)
      (fun held => { held with digestAt := some now }) s.subscriptions }

/-- the rows with their places, opened after an instant -/
def incidentsSince (since : Int) : List (Row × Nat) :=
  s.incidents.zipIdx.filter fun p => p.1.1.openedAt > since

def openIncidents : OrdMap IncidentKey Incident :=
  .ofList ((s.incidents.filter fun row => row.2.isNone).map fun row => (row.1.key, row.1))

end Store

inductive Write
  | openIncident (signal : Signal) (now : Int)
  | closeIncident (key : IncidentKey) (now : Int)
  | notify (recipient : String) (subscription : Nat) (key : IncidentKey) (change : Change)
      (detail : String)
  /-- a notice of a digest, and the place of the incident it lists -/
  | digest (recipient : String) (subscription : Nat) (incident : Nat) (key : IncidentKey)
      (detail : String)
  | digested (id : Nat) (now : Int)
deriving DecidableEq

namespace Store

def write (s : Store) : Write → Store
  | .openIncident signal now => s.openIncident signal now
  | .closeIncident key now => s.closeIncident key now
  | .notify recipient subscription key change detail =>
    s.notify recipient subscription key change detail
  | .digest recipient subscription _ key detail =>
    s.notify recipient subscription key .digest detail
  | .digested id now => s.digested id now

def writes (s : Store) (ws : List Write) : Store := ws.foldl write s

@[simp] theorem writes_nil (s : Store) : s.writes [] = s := rfl

@[simp] theorem writes_cons (s : Store) (w : Write) (ws : List Write) :
    s.writes (w :: ws) = (s.write w).writes ws := rfl

theorem writes_append (s : Store) (ws ws' : List Write) :
    s.writes (ws ++ ws') = (s.writes ws).writes ws' := List.foldl_append

end Store

/-! ## the notices of a person -/

section
variable {α β : Type}

theorem map_modifyFirst {p : α → Bool} {f : α → α} {g : α → β} (h : ∀ a, g (f a) = g a)
    (l : List α) : (modifyFirst p f l).map g = l.map g := by
  induction l with
  | nil => rfl
  | cons a l ih =>
    unfold modifyFirst
    split
    · rw [List.map_cons, List.map_cons, h]
    · rw [List.map_cons, List.map_cons, ih]

end

namespace Store

def noticesOf (s : Store) (recipient : String) : List Notice :=
  (s.notices.filter fun p => p.1 = recipient).map Prod.snd

theorem filter_dropFirst (recipient : String) (drop : Nat) (l : List (String × Notice)) :
    (dropFirst recipient drop l).filter (fun p => p.1 = recipient)
      = (l.filter fun p => p.1 = recipient).drop drop := by
  induction l generalizing drop with
  | nil => simp [dropFirst]
  | cons p l ih =>
    cases drop with
    | zero => rfl
    | succ drop =>
      by_cases h : p.1 = recipient
      · simp [dropFirst, h, ih]
      · simp [dropFirst, h, ih]

theorem filter_dropFirst_of_ne {recipient other : String} (hne : other ≠ recipient) (drop : Nat)
    (l : List (String × Notice)) :
    (dropFirst recipient drop l).filter (fun p => p.1 = other) = l.filter fun p => p.1 = other := by
  induction l generalizing drop with
  | nil => simp [dropFirst]
  | cons p l ih =>
    cases drop with
    | zero => rfl
    | succ drop =>
      by_cases h : p.1 = recipient
      · have hp : p.1 ≠ other := fun heq => hne (heq.symm.trans h)
        simp [dropFirst, h, ih, hne.symm]
      · simp [dropFirst, h, ih, List.filter_cons]

theorem dropFirst_sublist (recipient : String) (drop : Nat) (l : List (String × Notice)) :
    (dropFirst recipient drop l).Sublist l := by
  induction l generalizing drop with
  | nil => simp [dropFirst]
  | cons p l ih =>
    cases drop with
    | zero => exact List.Sublist.refl _
    | succ drop =>
      unfold dropFirst
      split
      · exact (ih drop).cons p
      · exact (ih (drop + 1)).cons_cons p

/-- **A notice leaves its recipient their newest notices, and everyone else theirs.** -/
theorem noticesOf_notify (s : Store) (recipient : String) (subscription : Nat) (key : IncidentKey)
    (change : Change) (detail other : String) :
    (s.notify recipient subscription key change detail).noticesOf other =
      if other = recipient then
        (s.noticesOf recipient
          ++ [(⟨s.next + 1, subscription, key, change, detail⟩ : Notice)]).rtake kept
      else s.noticesOf other := by
  unfold notify noticesOf
  simp only []
  split_ifs with hmany hother hother
  · subst hother
    rw [filter_dropFirst]
    simp [List.rtake, List.filter_append, List.map_drop]
  · rw [filter_dropFirst_of_ne hother]
    simp [List.filter_append, Ne.symm hother]
  · subst hother
    simp only [List.filter_append, List.length_append] at hmany
    simp only [List.rtake, List.filter_append, List.map_append]
    rw [Nat.sub_eq_zero_of_le (by simpa using hmany)]
    simp
  · simp [List.filter_append, Ne.symm hother]

end Store
end Portal.Alerts
