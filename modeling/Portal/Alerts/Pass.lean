import Portal.Alerts.Store
import Portal.Base.Machine

/-!
# The evaluator's passes (`alerts.rs`: `Evaluator::run`, `step`, `digest_due`, `covers`)

A pass reads what holds now, opens and closes incidents, tells those who asked to be told at once,
and writes the digests that are due.  Any call on the store may fail, and ends the pass there.

* `Reading`            what a pass finds: the pipelines, the signals, the agent runs;
* `step`, `digestDue`  what opens and closes; whether a digest is due;
* `passWrites`, `made` the writes of a pass, and those before the call that failed;
* `Store.act`          passes, and what people ask for in between;
* `log`                the writes of a run.
-/

namespace Portal.Alerts

/-! ## who is told -/

structure Watched where
  project : String
  name : String
  spaces : List String
  types : List String
deriving DecidableEq

def covers (subscription : Subscription) (pipeline : Watched) : Bool :=
  if subscription.project ≠ pipeline.project then false
  else
    match subscription.scope with
    | .pipeline => subscription.target = pipeline.name
    | .space => pipeline.spaces.contains subscription.target
    | .type =>
      match Text.splitOnce '/' subscription.target.toList with
      | some (space, kind) =>
        pipeline.spaces.contains (String.ofList space) && pipeline.types.contains (String.ofList kind)
      | none => false
    | .agent => false

def coversKey (subscription : Subscription) (key : IncidentKey) (pipelines : List Watched) : Bool :=
  if key.event.isAgent then
    subscription.scope = .agent && subscription.project = key.project
      && subscription.target = key.pipeline
  else
    match pipelines.find? fun p => p.project = key.project && p.name = key.pipeline with
    | some p => covers subscription p
    | none => false

/-! ## what a pass finds -/

/-- what `read_pipelines`, the held deletes, the run health and the agent runs say.  Each names a
key once; the pipelines' events and the agents' are apart. -/
structure Reading where
  now : Int
  pipelines : List Watched
  signals : List Signal
  /-- none: no run store; `some none`: it does not answer -/
  agents : Option (Option (List Signal))
  distinct : (signals.map Signal.key).Nodup
  ofPipelines : ∀ signal ∈ signals, signal.key.event.isAgent = false
  agentsDistinct : ∀ found ∈ agents.join, (found.map Signal.key).Nodup
  ofAgents : ∀ found ∈ agents.join, ∀ signal ∈ found, signal.key.event.isAgent = true

theorem Reading.distinct_none : ∀ found ∈ Option.join (none : Option (Option (List Signal))),
    (found.map Signal.key).Nodup := by
  simp

theorem Reading.agents_none : ∀ found ∈ Option.join (none : Option (Option (List Signal))),
    ∀ signal ∈ found, signal.key.event.isAgent = true := by
  simp

/-- the signals a pass judges by: while the agent runs are not read, their open incidents hold -/
def addAgents (incidents : OrdMap IncidentKey Incident) (r : Reading) : List Signal :=
  match r.agents with
  | none => r.signals
  | some (some found) => r.signals ++ found
  | some none =>
    r.signals ++ ((incidents.toList.filter fun p => p.1.event.isAgent).map fun p =>
      ⟨p.2.key, p.2.detail⟩)

def step (incidents : OrdMap IncidentKey Incident) (signals : List Signal) :
    List Signal × List IncidentKey :=
  (signals.filter fun signal => (incidents.get? signal.key).isNone,
    incidents.keys.filter fun key => !(signals.map Signal.key).contains key)

/-- `DIGEST_HOUR` -/
def digestHour : Nat := 7

def digestDue (last : Option Int) (now : Int) : Bool :=
  if Time.hourOf now < digestHour then false
  else
    match last with
    | some last => last < now / Time.day * Time.day + digestHour * Time.hour
    | none => true

/-! ## a pass -/

def Held.muted (held : Held) (now : Int) : Bool :=
  match held.mutedUntil with
  | some mutedUntil => now < mutedUntil
  | none => false

def audience (subscriptions : List Held) (r : Reading) (key : IncidentKey) : List Held :=
  subscriptions.filter fun held =>
    held.subscription.delivery = .portal && held.subscription.events.contains key.event
      && !held.muted r.now && coversKey held.subscription key r.pipelines

def tell (hs : List Held) (key : IncidentKey) (change : Change) (detail : String) : List Write :=
  hs.map fun held => .notify held.subject held.subscription.id key change detail

section
variable (s : Store) (r : Reading)

def signals : List Signal := addAgents s.openIncidents r

def opening : List Signal := (step s.openIncidents (signals s r)).1

def closing : List IncidentKey := (step s.openIncidents (signals s r)).2

def openWrites (signal : Signal) : List Write :=
  .openIncident signal r.now ::
    tell (audience s.subscriptions r signal.key) signal.key .opened signal.detail

def closeWrites (key : IncidentKey) : List Write :=
  .closeIncident key r.now :: tell (audience s.subscriptions r key) key .recovered ""

def firstWrites : List Write :=
  (opening s r).flatMap (openWrites s r) ++ (closing s r).flatMap (closeWrites s r)

def due : List Held :=
  s.subscriptions.filter fun held =>
    held.subscription.delivery = .digest && digestDue held.digestAt r.now

/-- what a digest lists of the last day's rows -/
def lists (held : Held) (row : Row) : Bool :=
  held.digestAt.getD (r.now - Time.day) < row.1.openedAt
    && coversKey held.subscription row.1.key r.pipelines
    && held.subscription.events.contains row.1.key.event

def digestDetail (row : Row) : String :=
  match row.2 with
  | some recovered => "recovered " ++ stamp recovered
  | none => row.1.detail

def digestWrites (day : List (Row × Nat)) (held : Held) : List Write :=
  (if held.muted r.now then []
  else (day.filter fun p => lists r held p.1).map fun p =>
    .digest held.subject held.subscription.id p.2 p.1.1.key (digestDetail p.1))
  ++ [.digested held.subscription.id r.now]

/-- the digests that are due, of the rows the pass leaves -/
def digests : List Write :=
  if (due s r).isEmpty then []
  else
    let day := (s.writes (firstWrites s r)).incidentsSince (r.now - Time.day)
    (due s r).flatMap (digestWrites r day)

def passWrites : List Write := firstWrites s r ++ digests s r

/-- the writes made by a pass that completes, or that a call ends after so many -/
def made : Option Nat → List Write
  | none => passWrites s r
  | some cut => (passWrites s r).take cut

end

/-! ## runs -/

inductive Action
  | upsert (subject project : String) (scope : Scope) (target : String) (events : List Event)
      (delivery : Delivery)
  | remove (subject : String) (id : Nat)
  | mute (subject : String) (id : Nat) (mutedUntil : Option Int)
  /-- a pass, and after how many writes a call of it failed -/
  | pass (r : Reading) (cut : Option Nat)

def Store.act (s : Store) : Action → Option Store
  | .upsert subject project scope target events delivery =>
    some (s.upsert subject project scope target events delivery)
  | .remove subject id => some (s.remove subject id)
  | .mute subject id mutedUntil => some (s.mute subject id mutedUntil)
  | .pass r cut => some (s.writes (made s r cut))

def writesOf (t : Trans Store Action) : List Write :=
  match t.act with
  | .pass r cut => made t.before r cut
  | _ => []

/-- the writes of a run, oldest first -/
def log (tr : List (Trans Store Action)) : List Write := tr.flatMap writesOf

/-! ## what opens and closes -/

namespace Store

def openKeys (s : Store) : List IncidentKey :=
  (s.incidents.filter fun row => row.2.isNone).map fun row => row.1.key

theorem get?_openIncidents {s : Store} {key : IncidentKey} {incident : Incident}
    (h : s.openIncidents.get? key = some incident) :
    incident.key = key ∧ (incident, none) ∈ s.incidents := by
  obtain ⟨⟨incident', recovered⟩, hrow, heq⟩ := List.mem_map.mp (OrdMap.mem_of_get?_ofList h)
  obtain ⟨rfl, rfl⟩ := Prod.mk.inj heq
  obtain ⟨hrow, hnone⟩ := List.mem_filter.mp hrow
  cases recovered with
  | none => exact ⟨rfl, hrow⟩
  | some _ => cases hnone

theorem isSome_openIncidents (s : Store) (key : IncidentKey) :
    (s.openIncidents.get? key).isSome = true ↔ key ∈ s.openKeys := by
  rw [openIncidents, OrdMap.isSome_get?_ofList, List.map_map]
  rfl

theorem mem_keys_openIncidents (s : Store) (key : IncidentKey) :
    key ∈ s.openIncidents.keys ↔ key ∈ s.openKeys := by
  rw [OrdMap.mem_keys, ← isSome_openIncidents, Option.isSome_iff_exists]

end Store

section
variable (s : Store) (r : Reading)

theorem signals_nodup : ((signals s r).map Signal.key).Nodup := by
  unfold signals addAgents
  have hdisjoint : ∀ found : List Signal, (∀ signal ∈ found, signal.key.event.isAgent = true) →
      (r.signals.map Signal.key).Disjoint (found.map Signal.key) := by
    intro found hfound key hkey hkey'
    obtain ⟨signal, hsignal, rfl⟩ := List.mem_map.mp hkey
    obtain ⟨signal', hsignal', heq⟩ := List.mem_map.mp hkey'
    have hagent := hfound signal' hsignal'
    rw [heq, r.ofPipelines signal hsignal] at hagent
    cases hagent
  split
  · exact r.distinct
  · rename_i found hfound
    rw [List.map_append]
    exact List.nodup_append'.mpr ⟨r.distinct, r.agentsDistinct found (by simp [hfound]),
      hdisjoint found (r.ofAgents found (by simp [hfound]))⟩
  · -- the open incidents stand under their own keys
    rw [List.map_append]
    have hown : ∀ p ∈ s.openIncidents.toList, p.2.key = p.1 := fun p hp =>
      (Store.get?_openIncidents ((OrdMap.mem_toList _ p.1 p.2).mp hp)).1
    refine List.nodup_append'.mpr ⟨r.distinct, ?_, hdisjoint _ ?_⟩
    · rw [List.map_map]
      have hkeys : (s.openIncidents.toList.filter fun p => p.1.event.isAgent).map
          (Signal.key ∘ fun p => ⟨p.2.key, p.2.detail⟩)
            = (s.openIncidents.toList.filter fun p => p.1.event.isAgent).map Prod.fst :=
        List.map_congr_left fun p hp => hown p (List.mem_filter.mp hp).1
      rw [hkeys]
      exact (s.openIncidents.keys_nodup).sublist (List.filter_sublist.map Prod.fst)
    · intro signal hsignal
      obtain ⟨p, hp, rfl⟩ := List.mem_map.mp hsignal
      obtain ⟨hp, hagent⟩ := List.mem_filter.mp hp
      rw [hown p hp]
      exact hagent

theorem opening_nodup : ((opening s r).map Signal.key).Nodup :=
  (signals_nodup s r).sublist (List.filter_sublist.map Signal.key)

theorem not_mem_openKeys_of_opening {signal : Signal} (h : signal ∈ opening s r) :
    signal.key ∉ s.openKeys := by
  have hnone := (List.mem_filter.mp h).2
  rw [← Store.isSome_openIncidents]
  simpa using hnone

theorem mem_closing {key : IncidentKey} :
    key ∈ closing s r ↔ key ∈ s.openKeys ∧ key ∉ (signals s r).map Signal.key := by
  unfold closing step
  rw [List.mem_filter, Store.mem_keys_openIncidents]
  simp

end
end Portal.Alerts
