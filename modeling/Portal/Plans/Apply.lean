import Portal.Plans.Store

/-!
# Applying a plan (`ops/plans.rs`: `apply`, `connector_admits`)

An apply takes the plan, holds each of its changes to the connector's scope, verbs and ceiling,
compares each object with what it was and asks for its verdict; only then it opens the changes, as
one change request or one after the other.

* `connectorAdmits`, `itemAdmitted`   the connector's checks on one change;
* `unchangedAndGated`                 the comparison and the gate, over all of them;
* `apply`                             what is opened, and what is left of the store;
* `applied_of_opened`                 what every check found of a change that is opened;
* `written_in_scope`                  a connector writes inside its scope.
-/

namespace Portal
namespace Plans

open Changes (Envelope)
open Connectors (Connector ConnectorVerb JcDelegation ScopeItem changeSpace)
open Access (spaceRef)

/-! ## the connector's checks -/

structure Caller where
  subject : String
  connector : Option Connector
  /-- the `/c/{id}` door, which alone carries the ceiling -/
  viaMcp : Bool

def denied (why : String) : OpError := .api (.denied why)

def throughConnector (caller : Caller) (project kind name : String) (space : Option String)
    (write : Bool) : Except OpError Unit :=
  match caller.connector with
  | none => .ok ()
  | some c => (c.mayChange project kind name space write).mapError denied

section
variable (x : JcDelegation) (d : Digest)

def verbThroughConnector (w : Sight) (caller : Caller) (project kind name : String)
    (verb : ConnectorVerb) : Except OpError Unit :=
  match caller.connector with
  | none => .ok ()
  | some c =>
    match c.mayVerb x.verbsAllow kind name verb with
    | .error why => .error (denied why)
    | .ok _ =>
      if !caller.viaMcp then .ok ()
      else if w.ceiling.honours c || w.ceiling.allowsChange x project kind name verb then .ok ()
      else .error (denied (w.ceiling.named ++ " does not let a connector " ++ verb.word ++ " "
        ++ kind ++ " " ++ name ++ " in project " ++ project
        ++ "; an administrator widens the policy"))

def connectorAdmits (w : Sight) (caller : Caller) (project kind name : String)
    (space : Option String) (write : Bool) (verb : ConnectorVerb) : Except OpError Unit :=
  match throughConnector caller project kind name space write with
  | .error e => .error e
  | .ok _ => verbThroughConnector x w caller project kind name verb

/-- the verb a change of a plan applies, from what the plan keeps of it -/
def Planned.verb (item : Planned) : ConnectorVerb := itemVerb item.manifest.isSome item.base

/-- the object of a change as the mirror holds it -/
def Planned.now (item : Planned) (w : Sight) : Option Value :=
  (w.get item.home item.kind item.name).map Envelope.toValue

/-- the connector's checks on one change, when it is applied -/
def itemAdmitted (w : Sight) (caller : Caller) (project : String) (item : Planned) :
    Except OpError Unit :=
  connectorAdmits x w caller project item.kind item.name (changeSpace (item.now w) item.manifest)
    true item.verb

def itemsAdmitted (w : Sight) (caller : Caller) (project : String) :
    List Planned → Except OpError Unit
  | [] => .ok ()
  | item :: items =>
    match itemAdmitted x w caller project item with
    | .error e => .error e
    | .ok _ => itemsAdmitted w caller project items

/-! ## the comparison and the gate -/

def movedItems (w : Sight) : List Planned → Except OpError (List String)
  | [] => .ok []
  | item :: items =>
    match moved d w item with
    | .error e => .error e
    | .ok away => (movedItems w items).map (fun rest => if away then item.label :: rest else rest)

def refusedItems (w : Sight) : List Planned → Except OpError (List String)
  | [] => .ok []
  | item :: items =>
    match gateRefusal w item with
    | .error e => .error e
    | .ok none => refusedItems w items
    | .ok (some why) =>
      (refusedItems w items).map (fun rest => (item.label ++ ": " ++ why) :: rest)

def unchangedAndGated (w : Sight) (items : List Planned) : Except OpError Unit :=
  match movedItems d w items with
  | .error e => .error e
  | .ok (l :: ls) => .error (movedConflict (l :: ls))
  | .ok [] =>
    match refusedItems w items with
    | .error e => .error e
    | .ok (r :: rs) => .error (gateConflict (r :: rs))
    | .ok [] => .ok ()

/-! ## apply -/

/-- the forge, which opens a change and answers a row for it -/
structure Forge (ρ : Type) where
  openOne : Planned → Option String → Except ApiError ρ
  openTogether : Plan → Except OpError ρ
  told : ApiError → String
  rows : List ρ → String

/-- whether a plan opens one change -/
def bundled (plan : Plan) : Bool :=
  plan.workspace.isNone && 1 < plan.items.length
    && plan.items.all (fun item => item.manifest.isSome && item.home = plan.project)

/-- the items opened one after the other, up to the first that is refused -/
def openEach {ρ : Type} (f : Forge ρ) (workspace : Option String) (rows : List ρ) :
    List Planned → List Planned × Except OpError (List ρ)
  | [] => ([], .ok rows)
  | item :: items =>
    match f.openOne item workspace with
    | .ok row =>
      let rest := openEach f workspace (rows ++ [row]) items
      (item :: rest.1, rest.2)
    | .error e =>
      ([], .error (if rows.isEmpty then .api e
        else .api (.conflict (item.label ++ " was not applied (" ++ f.told e ++ "); these were: "
          ++ f.rows rows))))

/-- opens the changes of a plan: those opened, and the answer -/
def openPlan {ρ : Type} (f : Forge ρ) (plan : Plan) : List Planned × Except OpError (List ρ) :=
  if bundled plan then
    match f.openTogether plan with
    | .ok row => (plan.items, .ok [row])
    | .error e => ([], .error e)
  else openEach f plan.workspace [] plan.items

/-- what an apply leaves: the store, the changes it opened and its answer -/
structure Applied (ρ : Type) where
  plans : PlanStore
  opened : List Planned
  answer : Except OpError (List ρ)

def planNotFound (planId : String) : OpError :=
  .api (.notFound ("plan '" ++ planId ++ "' is not there: it expired (30 minutes), was applied, or "
    ++ "was made by someone else. Call " ++ Connectors.planTool ++ " again"))

def writesOff (c : Connector) : OpError :=
  denied ("this connector has writes off: apply the plan in the Portal, or turn writes on for "
    ++ "connector " ++ c.name ++ " on the My connectors page")

/-- the checks between the take and the opening -/
def checks (w : Sight) (caller : Caller) (project : String) (plan : Plan) : Except OpError Unit :=
  match itemsAdmitted x w caller project plan.items with
  | .error e => .error e
  | .ok _ => unchangedAndGated d w plan.items

def apply {ρ : Type} (f : Forge ρ) (w : Sight) (plans : PlanStore) (caller : Caller)
    (project planId : String) (now : Int) : Applied ρ :=
  match caller.connector.filter (fun c => !c.writes) with
  | some c => ⟨plans, [], .error (writesOff c)⟩
  | none =>
    let (taken, plans) := plans.take planId caller.subject project
      (caller.connector.map Connector.id) now
    match taken with
    | none => ⟨plans, [], .error (planNotFound planId)⟩
    | some plan =>
      match checks x d w caller project plan with
      | .error e => ⟨plans, [], .error e⟩
      | .ok _ =>
        let (opened, answer) := openPlan f plan
        ⟨plans, opened, answer⟩

end

/-! ## what the checks found of a change that is opened -/

section
variable {x : JcDelegation} {d : Digest} {w : Sight} {caller : Caller} {project : String}

theorem itemsAdmitted_ok {items : List Planned}
    (h : itemsAdmitted x w caller project items = .ok ()) :
    ∀ item ∈ items, itemAdmitted x w caller project item = .ok () := by
  induction items with
  | nil => exact fun item hi => absurd hi List.not_mem_nil
  | cons a items ih =>
    unfold itemsAdmitted at h
    split at h
    · cases h
    · rename_i ha
      intro item hi
      rcases List.mem_cons.mp hi with rfl | hi
      · exact ha
      · exact ih h item hi

theorem movedItems_nil {items : List Planned} (h : movedItems d w items = .ok []) :
    ∀ item ∈ items, Unmoved d w item := by
  induction items with
  | nil => exact fun item hi => absurd hi List.not_mem_nil
  | cons a items ih =>
    unfold movedItems at h
    split at h
    · cases h
    · rename_i away ha
      cases hrest : movedItems d w items with
      | error e => rw [hrest] at h; cases h
      | ok rest =>
        rw [hrest] at h
        have hnil : (if away then a.label :: rest else rest) = [] := Except.ok.inj h
        split at hnil
        · cases hnil
        · rename_i hstill
          rw [eq_false_of_ne_true hstill] at ha
          intro item hi
          rcases List.mem_cons.mp hi with rfl | hi
          · exact moved_false.mp ha
          · exact ih (by rw [hrest, hnil]) item hi

theorem refusedItems_nil {items : List Planned} (h : refusedItems w items = .ok []) :
    ∀ item ∈ items, Green w item := by
  induction items with
  | nil => exact fun item hi => absurd hi List.not_mem_nil
  | cons a items ih =>
    unfold refusedItems at h
    split at h
    · cases h
    · rename_i ha
      intro item hi
      rcases List.mem_cons.mp hi with rfl | hi
      · exact ha
      · exact ih h item hi
    · cases hrest : refusedItems w items with
      | error e => rw [hrest] at h; cases h
      | ok rest => rw [hrest] at h; cases h

theorem unchangedAndGated_ok {items : List Planned} (h : unchangedAndGated d w items = .ok ()) :
    ∀ item ∈ items, Unmoved d w item ∧ Green w item := by
  unfold unchangedAndGated at h
  split at h
  · cases h
  · cases h
  · rename_i hmoved
    split at h
    · cases h
    · cases h
    · rename_i hrefused
      intro item hi
      exact ⟨movedItems_nil hmoved item hi, refusedItems_nil hrefused item hi⟩

theorem mem_of_openEach {ρ : Type} {f : Forge ρ} {workspace : Option String} {items : List Planned}
    {rows : List ρ} {item : Planned} (h : item ∈ (openEach f workspace rows items).1) :
    item ∈ items := by
  induction items generalizing rows with
  | nil => exact h
  | cons a items ih =>
    unfold openEach at h
    split at h
    · rcases List.mem_cons.mp h with rfl | h
      · exact List.mem_cons_self
      · exact List.mem_cons_of_mem _ (ih h)
    · exact absurd h List.not_mem_nil

theorem mem_of_openPlan {ρ : Type} {f : Forge ρ} {plan : Plan} {item : Planned}
    (h : item ∈ (openPlan f plan).1) : item ∈ plan.items := by
  unfold openPlan at h
  split at h
  · split at h
    · exact h
    · exact absurd h List.not_mem_nil
  · exact mem_of_openEach h

/-- **a change is opened after the checks passed on it**, and only of a plan its caller took -/
theorem applied_of_opened {ρ : Type} {f : Forge ρ} {plans : PlanStore} {planId : String} {now : Int}
    {item : Planned} (h : item ∈ (apply x d f w plans caller project planId now).opened) :
    ∃ plan, plans.get? planId = some plan ∧ item ∈ plan.items ∧
      itemAdmitted x w caller project item = .ok () ∧ Unmoved d w item ∧ Green w item := by
  unfold apply at h
  split at h
  · exact absurd h List.not_mem_nil
  · rcases plans.take_cases planId caller.subject project (caller.connector.map Connector.id) now
      with ⟨plan, hget, _, _, _, _, htake⟩ | htake
    · rw [htake] at h
      dsimp only at h
      split at h
      · exact absurd h List.not_mem_nil
      · rename_i hchecks
        have hmem : item ∈ plan.items := mem_of_openPlan h
        unfold checks at hchecks
        split at hchecks
        · cases hchecks
        · rename_i hadmitted
          obtain ⟨hunmoved, hgreen⟩ := unchangedAndGated_ok hchecks item hmem
          exact ⟨plan, hget, hmem, itemsAdmitted_ok hadmitted item hmem, hunmoved, hgreen⟩
    · rw [htake] at h
      exact absurd h List.not_mem_nil

theorem itemAdmitted_iff {c : Connector} (hc : caller.connector = some c) {item : Planned} :
    itemAdmitted x w caller project item = .ok () ↔
      c.mayChange project item.kind item.name (changeSpace (item.now w) item.manifest) true = .ok ()
      ∧ c.mayVerb x.verbsAllow item.kind item.name item.verb = .ok ()
      ∧ (caller.viaMcp = true → w.ceiling.honours c = true ∨
        w.ceiling.allowsChange x project item.kind item.name item.verb = true) := by
  unfold itemAdmitted connectorAdmits throughConnector verbThroughConnector
  rw [hc]
  dsimp only
  cases hchange : c.mayChange project item.kind item.name
    (changeSpace (item.now w) item.manifest) true with
  | error why => simp [Except.mapError]
  | ok u =>
    simp only [Except.mapError]
    cases hverb : c.mayVerb x.verbsAllow item.kind item.name item.verb with
    | error why => simp
    | ok u =>
      cases hvia : caller.viaMcp with
      | false => simp
      | true =>
        by_cases hceiling : (w.ceiling.honours c
            || w.ceiling.allowsChange x project item.kind item.name item.verb) = true
        · simp only [hceiling, Bool.not_true, Bool.false_eq_true, if_false, if_true, true_and,
            true_implies, true_iff]
          exact Bool.or_eq_true_iff.mp hceiling
        · simp only [hceiling, Bool.not_true, Bool.false_eq_true, if_false, reduceCtorEq, true_and,
            true_implies, false_iff]
          exact fun hor => hceiling (Bool.or_eq_true_iff.mpr hor)

end

/-! ## a connector writes inside its scope -/

/-- an item of the scope that reaches a change in the space of both its ends reaches each end, and
if it is narrowed to a space the two are in one -/
theorem reaches_ends {i : ScopeItem} {kind name : String} {now next : Option Value}
    (h : i.reaches kind name (changeSpace now next) = true) :
    (∀ v, now = some v → i.reaches kind name (spaceRef v) = true) ∧
    (∀ v, next = some v → i.reaches kind name (spaceRef v) = true) ∧
    (kind ≠ "ContextSpace" → ∀ named, i.narrowing = some ("ContextSpace", named) →
      ∃ space, Connectors.fits named space = true ∧ (∀ v, now = some v → spaceRef v = some space) ∧
        (∀ v, next = some v → spaceRef v = some space)) := by
  by_cases hspace : ∃ named, i.narrowing = some ("ContextSpace", named) ∧ kind ≠ "ContextSpace"
  · -- the item is a space's and the object is in it: the change has a space
    obtain ⟨named, hn, hk⟩ := hspace
    have hreach : ∀ space, i.reaches kind name space = space.any (Connectors.fits named) := by
      intro space
      unfold ScopeItem.reaches
      rw [hn]
      simp [hk]
    rw [hreach] at h
    cases hs : changeSpace now next with
    | none => rw [hs] at h; cases h
    | some space =>
    rw [hs] at h
    have hfits : Connectors.fits named space = true := h
    obtain ⟨hnow, hnext⟩ := Connectors.changeSpace_some hs
    refine ⟨fun v hv => ?_, fun v hv => ?_, fun _ named' hn' => ⟨space, ?_, hnow, hnext⟩⟩
    · rw [hreach, hnow v hv]
      exact hfits
    · rw [hreach, hnext v hv]
      exact hfits
    · rw [hn] at hn'
      cases hn'
      exact hfits
  · have hany : ∀ space, i.reaches kind name space = true := fun space => by
      refine Connectors.reaches_of_not_space (fun named hn => ?_) h
      by_contra hk
      exact hspace ⟨named, hn, hk⟩
    exact ⟨fun v _ => hany _, fun v _ => hany _,
      fun hk named hn => absurd ⟨named, hn, hk⟩ hspace⟩

/-- **a connector writes inside its scope**: every change an apply opens through it is of an object
that an item of the scope with write access, of the call's project, reaches where the mirror holds
it and where its manifest puts it; where that item is narrowed to a space, the object stays in it;
its kind is of the segments, and its verb is one of the kind's where the connector lists kinds -/
theorem written_in_scope {ρ : Type} (x : JcDelegation) (d : Digest) (f : Forge ρ) (w : Sight)
    (plans : PlanStore) (caller : Caller) (c : Connector) (project planId : String) (now : Int)
    (hc : caller.connector = some c) :
    ∀ item ∈ (apply x d f w plans caller project planId now).opened,
      (∃ i ∈ c.scope, i.project = project ∧ i.access = .write ∧
        (∀ v, item.now w = some v → i.reaches item.kind item.name (spaceRef v) = true) ∧
        (∀ v, item.manifest = some v → i.reaches item.kind item.name (spaceRef v) = true) ∧
        (item.kind ≠ "ContextSpace" → ∀ named, i.narrowing = some ("ContextSpace", named) →
          ∃ space, Connectors.fits named space = true ∧
            (∀ v, item.now w = some v → spaceRef v = some space) ∧
            (∀ v, item.manifest = some v → spaceRef v = some space))) ∧
      item.kind ∈ c.reach.2 ∧
      (∀ kinds, c.kinds = some kinds →
        x.verbsAllow (Connector.verbsOn kinds item.kind) item.verb = true) := by
  intro item hitem
  obtain ⟨_, _, _, hadmitted, _, _⟩ := applied_of_opened hitem
  obtain ⟨hchange, hverb, _⟩ := (itemAdmitted_iff hc).mp hadmitted
  obtain ⟨hkind, _, i, hi, hproject, hreach, haccess⟩ := Connectors.mayChange_write.mp hchange
  exact ⟨⟨i, hi, hproject, haccess, reaches_ends hreach⟩, hkind, Connectors.mayVerb_iff.mp hverb⟩

/-! ### an Endpoint edited in its space -/

/-- a policy's segments and verbs as it writes them -/
def plainDelegation : JcDelegation where
  verbsAllow verbs verb := verbs.contains verb
    || (verbs.contains .propose && [.create, .edit, .delete].contains verb)
  segments p := p.segments.getD ["data-read"]
  verbsFor p kind :=
    match p.kinds with
    | none => [.read]
    | some kinds => Connector.verbsOn kinds kind
  maxExpiryDays p := if p.maxExpiry = some "P90D" then 90 else 30
  allowsClient p client := p.allowedClients.all (fun l => l.contains client)

/-- digests that tell values apart by their spec, and texts by themselves -/
def plainDigest : Digest where
  ofValue v := "v:" ++ (((v.get? "spec").bind (fun s => s.get? "note")).bind Value.asStr).getD ""
  ofText t := "t:" ++ t

def plainForge : Forge Nat where
  openOne _ _ := .ok 7
  openTogether _ := .ok 7
  told _ := "refused"
  rows _ := "[]"

def endpointSpec (space : String) : Value := .object [("contextSpaceRef", .string space)]

def endpointEnvelope (space : String) : Envelope where
  apiVersion := "v1"
  kind := "Endpoint"
  name := "stops"
  ns := some "doprava"
  metadata := []
  spec := endpointSpec space
  status := none
  beside := Envelope.beside_nil

/-- the Endpoint `stops` in the space `air`, and no policy -/
def airSight : Sight where
  get home kind name :=
    if home = "doprava" && kind = "Endpoint" && name = "stops" then some (endpointEnvelope "air")
    else none
  readSource _ _ := .error (.notFound "")
  verdict _ _ := .ok ()
  ceiling := ⟨[], []⟩

/-- a connector of the space `air`, which edits Endpoints -/
def airConnector : Connector where
  id := "c1"
  name := "air"
  owner := "jana"
  segments := ["context"]
  scope := [⟨"doprava", some "air", none, none, .write, false⟩]
  kinds := some [⟨"Endpoint", [.read, .edit]⟩]
  writes := true
  autonomous := false
  expiresAt := 100
  allowedClients := []
  state := .active
  aboveCeiling := []
  approval := none
  grantedAt := 0

def stopsEdited : Planned where
  kind := "Endpoint"
  plural := "endpoints"
  home := "doprava"
  name := "stops"
  manifest := some (endpointEnvelope "air").toValue
  base := "v:"
  model := none

def planOf (connector : Option String) (items : List Planned) : Plan where
  owner := "jana"
  connector := connector
  project := "doprava"
  workspace := none
  items := items
  expiresAt := 30

/-- jana's plan `p1`, made through the connector -/
def airPlans : PlanStore := OrdMap.empty.insert "p1" (planOf (some "c1") [stopsEdited])

def janaThrough (c : Connector) : Caller := ⟨"jana", some c, false⟩

theorem written_in_scope_of_stops :
    stopsEdited ∈ (apply plainDelegation plainDigest plainForge airSight airPlans
      (janaThrough airConnector) "doprava" "p1" 0).opened ∧
    (∃ i ∈ airConnector.scope, i.project = "doprava" ∧ i.access = .write ∧
      (∀ v, stopsEdited.now airSight = some v → i.reaches "Endpoint" "stops" (spaceRef v) = true) ∧
      (∀ v, stopsEdited.manifest = some v → i.reaches "Endpoint" "stops" (spaceRef v) = true) ∧
      ("Endpoint" ≠ "ContextSpace" → ∀ named, i.narrowing = some ("ContextSpace", named) →
        ∃ space, Connectors.fits named space = true ∧
          (∀ v, stopsEdited.now airSight = some v → spaceRef v = some space) ∧
          (∀ v, stopsEdited.manifest = some v → spaceRef v = some space))) ∧
    "Endpoint" ∈ airConnector.reach.2 ∧
    (∀ kinds, airConnector.kinds = some kinds →
      plainDelegation.verbsAllow (Connector.verbsOn kinds "Endpoint") stopsEdited.verb = true) := by
  have hopened : stopsEdited ∈ (apply plainDelegation plainDigest plainForge airSight airPlans
      (janaThrough airConnector) "doprava" "p1" 0).opened := by decide +kernel
  exact ⟨hopened, written_in_scope plainDelegation plainDigest plainForge airSight airPlans
    (janaThrough airConnector) airConnector "doprava" "p1" 0 rfl stopsEdited hopened⟩

end Plans
end Portal
