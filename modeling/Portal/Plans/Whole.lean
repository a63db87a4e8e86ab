import Portal.Plans.Apply

/-!
# Half from one policy, half from another (`mcp/connector.rs`: `judge`; `connectors.rs`: `admits`,
`allows_change`)

A call that applies a plan through a connector's own address is admitted by a policy that has the
`writes` switch on; each change of the plan is then admitted by a policy that offers its verb on its
kind.  The two need not be the same policy, and the second is not asked what the connector carries.

* `callApply`           the call, past the connector's door;
* `GrantsWhole`         one policy gives a change all it needs;
* `Whole`               the condition on the policies and the connector;
* `granted_whole_iff`   every change opened is granted whole exactly where the condition holds;
* `halves_added`        two policies that add up.
-/

namespace Portal
namespace Plans

open Changes (Envelope)
open Connectors (Ceiling Connector ConnectorVerb DelegationPolicySpec JcDelegation ScopeItem
  allowsProject applyTool changeSpace listsObject policyOffers policyReaches policyVerb reachUnder)
open Access (spaceRef)

section
variable (x : JcDelegation) (d : Digest)

/-- the call of a person through a connector's own address that applies a plan -/
def callApply {ρ : Type} (f : Forge ρ) (w : Sight) (plans : PlanStore) (c : Connector)
    (project planId : String) (now : Int) : Applied ρ :=
  let refused := fun why => (⟨plans, [], .error (denied why)⟩ : Applied ρ)
  if !c.scope.any (fun i => i.project = project) then
    refused ("this connector does not reach project " ++ project ++ "; its scope names "
      ++ ", ".intercalate (c.scope.map ScopeItem.project).dedup)
  else
    match (if w.ceiling.honours c then .ok ()
      else w.ceiling.admits x c Connectors.applyOperation project (Connectors.applyArgs planId)) with
    | .error why => refused why
    | .ok _ => apply x d f w plans ⟨c.owner, some c, true⟩ project planId now

/-- one policy covers the project, has the switch on, reaches with the connector the tool and the
kind, and holds the verb and the Endpoint -/
def GrantsWhole (c : Connector) (project kind name : String) (verb : ConnectorVerb)
    (p : DelegationPolicySpec) : Prop :=
  allowsProject p project = true ∧ p.writes = true ∧ applyTool ∈ (reachUnder x p c).1 ∧
    kind ∈ (reachUnder x p c).2 ∧ policyVerb x p kind verb = true ∧ listsObject p kind name = true

instance (c : Connector) (project kind name : String) (verb : ConnectorVerb)
    (p : DelegationPolicySpec) : Decidable (GrantsWhole x c project kind name verb p) := by
  unfold GrantsWhole
  infer_instance

/-- the connector itself lets the change through, wherever the object sits -/
def OwnReach (c : Connector) (project kind name : String) (verb : ConnectorVerb) : Prop :=
  kind ∈ c.reach.2 ∧ c.writes = true ∧
    (∃ i ∈ c.scope, ∃ space, i.project = project ∧ i.access = .write ∧
      i.reaches kind name (some space) = true) ∧
    ∀ kinds, c.kinds = some kinds → x.verbsAllow (Connector.verbsOn kinds kind) verb = true

/-- of a change the connector lets through: where one policy over the project has the switch on and
one offers the verb, there is one that does both and shares with the connector a segment that
reaches the kind -/
def Whole (ceiling : Ceiling) (c : Connector) (project kind name : String) (verb : ConnectorVerb) :
    Prop :=
  OwnReach x c project kind name verb →
  (∃ p ∈ ceiling.each, allowsProject p project = true ∧ p.writes = true) →
  (∃ p ∈ ceiling.each, allowsProject p project = true ∧ policyOffers x p kind verb = true ∧
    listsObject p kind name = true) →
  ∃ p ∈ ceiling.each, allowsProject p project = true ∧ p.writes = true ∧
    policyVerb x p kind verb = true ∧ listsObject p kind name = true ∧
    ∃ segment ∈ Connectors.segments, c.carries segment.1 = true ∧
      Connectors.policySegment x p segment.1 = true ∧ kind ∈ segment.2.2

end

section
variable {x : JcDelegation} {d : Digest}

theorem reaches_some {i : ScopeItem} {kind name : String} {space : Option String}
    (h : i.reaches kind name space = true) : ∃ s, i.reaches kind name (some s) = true := by
  cases space with
  | some s => exact ⟨s, h⟩
  | none =>
    refine ⟨"", Connectors.reaches_of_not_space (fun named hn => ?_) h⟩
    by_contra hk
    unfold ScopeItem.reaches at h
    rw [hn] at h
    simp [hk] at h

theorem callApply_eq {ρ : Type} {f : Forge ρ} {w : Sight} {plans : PlanStore} {c : Connector}
    {project planId : String} {now : Int} (ha : c.approval = none)
    (hscope : ∃ i ∈ c.scope, i.project = project)
    (hadmits : w.ceiling.admits x c Connectors.applyOperation project
      (Connectors.applyArgs planId) = .ok ()) :
    callApply x d f w plans c project planId now
      = apply x d f w plans ⟨c.owner, some c, true⟩ project planId now := by
  obtain ⟨i, hi, hproject⟩ := hscope
  have hany : c.scope.any (fun i => i.project = project) = true :=
    List.any_eq_true.mpr ⟨i, hi, decide_eq_true hproject⟩
  have hhonours : w.ceiling.honours c = false := Connectors.honours_of_no_approval ha
  unfold callApply
  simp only [hany, hhonours, hadmits, Bool.not_true, Bool.false_eq_true, if_false]

theorem found_of_callApply {ρ : Type} {f : Forge ρ} {w : Sight} {plans : PlanStore} {c : Connector}
    {project planId : String} {now : Int} {item : Planned} (ha : c.approval = none)
    (h : item ∈ (callApply x d f w plans c project planId now).opened) :
    OwnReach x c project item.kind item.name item.verb ∧
    (∃ p ∈ w.ceiling.each, allowsProject p project = true ∧ p.writes = true) ∧
    (∃ p ∈ w.ceiling.each, allowsProject p project = true ∧
      policyOffers x p item.kind item.verb = true ∧ listsObject p item.kind item.name = true) := by
  have hhonours : w.ceiling.honours c = false := Connectors.honours_of_no_approval ha
  unfold callApply at h
  dsimp only at h
  split at h
  · exact absurd h List.not_mem_nil
  · rw [hhonours] at h
    split at h
    · exact absurd h List.not_mem_nil
    · rename_i hadmits
      obtain ⟨_, hwrites⟩ := Connectors.admits_apply.mp hadmits
      obtain ⟨_, _, _, hadmitted, _, _⟩ := applied_of_opened h
      obtain ⟨hchange, hverb, hceiling⟩ := (itemAdmitted_iff rfl).mp hadmitted
      obtain ⟨hkind, hw, i, hi, hproject, hreach, haccess⟩ := Connectors.mayChange_write.mp hchange
      obtain ⟨s, hs⟩ := reaches_some hreach
      refine ⟨⟨hkind, hw, ⟨i, hi, s, hproject, haccess, hs⟩, Connectors.mayVerb_iff.mp hverb⟩,
        hwrites, ?_⟩
      rcases hceiling rfl with hh | hallows
      · rw [hhonours] at hh
        cases hh
      · exact Connectors.allowsChange_iff.mp hallows

theorem grantsWhole_iff {c : Connector} {project kind name : String} {verb : ConnectorVerb}
    {p : DelegationPolicySpec} (hw : c.writes = true) :
    GrantsWhole x c project kind name verb p ↔
      allowsProject p project = true ∧ p.writes = true ∧
      policyVerb x p kind verb = true ∧ listsObject p kind name = true ∧
      ∃ segment ∈ Connectors.segments, c.carries segment.1 = true ∧
        Connectors.policySegment x p segment.1 = true ∧ kind ∈ segment.2.2 := by
  unfold GrantsWhole
  rw [Connectors.applyTool_mem_reachUnder, Connectors.reachUnder_kinds,
    Connectors.mem_reachOf_kinds]
  simp only [Bool.and_eq_true, and_assoc]
  constructor
  · rintro ⟨hproject, hpw, _, _, ⟨segment, hs, hcarries, hallows, hkind⟩, hverb, hlists⟩
    exact ⟨hproject, hpw, hverb, hlists, segment, hs, hcarries, hallows, hkind⟩
  · rintro ⟨hproject, hpw, hverb, hlists, segment, hs, hcarries, hallows, hkind⟩
    exact ⟨hproject, hpw, hw, hpw, ⟨segment, hs, hcarries, hallows, hkind⟩, hverb, hlists⟩

/-! ## a change that every half lets through is opened -/

def objectIn (kind name space : String) : Envelope where
  apiVersion := "joinedcontext.com/v1"
  kind := kind
  name := name
  ns := none
  metadata := []
  spec := .object [("contextSpaceRef", .string space)]
  status := none
  beside := Envelope.beside_nil

theorem spaceRef_objectIn (kind name space : String) :
    spaceRef (objectIn kind name space).toValue = some space := rfl

/-- a moment at which the mirror holds the object, unless the change creates it -/
def sightOf (ceiling : Ceiling) (verb : ConnectorVerb) (object : Envelope) : Sight where
  get _ _ _ := if verb = .create then none else some object
  readSource _ _ := .error (.notFound "")
  verdict _ _ := .ok ()
  ceiling := ceiling

def changeOf (d : Digest) (ceiling : Ceiling) (project kind name space : String)
    (verb : ConnectorVerb) : Planned where
  kind := kind
  plural := ""
  home := project
  name := name
  manifest := if verb = .delete then none else some (objectIn kind name space).toValue
  base := etag d (sightOf ceiling verb (objectIn kind name space)) project kind name
  model := none

/-- the verbs of the changes a plan makes -/
def changeVerbs : List ConnectorVerb := [.create, .edit, .delete]

variable {ceiling : Ceiling} {c : Connector} {project kind name space : String}
  {verb : ConnectorVerb}

theorem verb_changeOf (hd : ∀ v, d.ofValue v ≠ absent) (hv : verb ∈ changeVerbs) :
    (changeOf d ceiling project kind name space verb).verb = verb := by
  have hcases : verb = .create ∨ verb = .edit ∨ verb = .delete := by
    simpa [changeVerbs] using hv
  rcases hcases with rfl | rfl | rfl
  · rfl
  · have hbase : (changeOf d ceiling project kind name space .edit).base ≠ absent := hd _
    show (if _ then _ else _) = _
    rw [if_neg hbase]
  · rfl

theorem space_changeOf (hv : verb ∈ changeVerbs) :
    changeSpace ((changeOf d ceiling project kind name space verb).now
      (sightOf ceiling verb (objectIn kind name space)))
      (changeOf d ceiling project kind name space verb).manifest = some space := by
  have hcases : verb = .create ∨ verb = .edit ∨ verb = .delete := by
    simpa [changeVerbs] using hv
  rcases hcases with rfl | rfl | rfl
  · exact spaceRef_objectIn kind name space
  · show (if spaceRef _ = spaceRef _ then spaceRef _ else none) = _
    rw [if_pos rfl]
    exact spaceRef_objectIn kind name space
  · exact spaceRef_objectIn kind name space

theorem unmoved_changeOf : Unmoved d (sightOf ceiling verb (objectIn kind name space))
    (changeOf d ceiling project kind name space verb) :=
  ⟨rfl, fun _ hm => (nomatch hm)⟩

theorem green_changeOf : Green (sightOf ceiling verb (objectIn kind name space))
    (changeOf d ceiling project kind name space verb) := by
  unfold Green gateRefusal
  cases (changeOf d ceiling project kind name space verb).manifest <;> rfl

def openAll : Forge Unit where
  openOne _ _ := .ok ()
  openTogether _ := .ok ()
  told _ := ""
  rows _ := ""

def planBy (caller : Caller) (project : String) (item : Planned) : Plan where
  owner := caller.subject
  connector := caller.connector.map Connector.id
  project := project
  workspace := none
  items := [item]
  expiresAt := 1

theorem opened_of_checks {w : Sight} {caller : Caller} {item : Planned}
    (hwrites : caller.connector.filter (fun c => !c.writes) = none)
    (hadmitted : itemAdmitted x w caller project item = .ok ()) (hunmoved : Unmoved d w item)
    (hgreen : Green w item) :
    item ∈ (apply x d openAll w (OrdMap.empty.insert "p" (planBy caller project item)) caller
      project "p" 0).opened := by
  have hchecks : checks x d w caller project (planBy caller project item) = .ok () := by
    have hm : moved d w item = .ok false := moved_false.mpr hunmoved
    have hg : gateRefusal w item = .ok none := hgreen
    simp [checks, planBy, itemsAdmitted, hadmitted, unchangedAndGated, movedItems, hm, refusedItems,
      hg, Except.map]
  have htake : PlanStore.take (OrdMap.empty.insert "p" (planBy caller project item)) "p"
      caller.subject project (caller.connector.map Connector.id) 0
      = (some (planBy caller project item),
        (OrdMap.empty.insert "p" (planBy caller project item)).erase "p") := by
    unfold PlanStore.take
    rw [OrdMap.get?_insert]
    simp [planBy]
  unfold apply
  rw [hwrites, htake]
  dsimp only
  rw [hchecks]
  exact List.mem_cons_self

/-- a change that the connector, one policy's switch and one policy's offer let through is opened -/
theorem opened_of_halves (hd : ∀ v, d.ofValue v ≠ absent) (ha : c.approval = none)
    (hv : verb ∈ changeVerbs) {i : ScopeItem} (hi : i ∈ c.scope) (hproject : i.project = project)
    (haccess : i.access = .write) (hreach : i.reaches kind name (some space) = true)
    (hkind : kind ∈ c.reach.2) (hw : c.writes = true)
    (hverb : ∀ kinds, c.kinds = some kinds →
      x.verbsAllow (Connector.verbsOn kinds kind) verb = true)
    (hswitch : ∃ p ∈ ceiling.each, allowsProject p project = true ∧ p.writes = true)
    (hoffer : ∃ p ∈ ceiling.each, allowsProject p project = true ∧
      policyOffers x p kind verb = true ∧ listsObject p kind name = true) :
    ∃ plans, changeOf d ceiling project kind name space verb ∈
      (callApply x d openAll (sightOf ceiling verb (objectIn kind name space)) plans c project "p"
        0).opened := by
  have hadmitted : itemAdmitted x (sightOf ceiling verb (objectIn kind name space))
      ⟨c.owner, some c, true⟩ project (changeOf d ceiling project kind name space verb)
      = .ok () := by
    refine (itemAdmitted_iff rfl).mpr ⟨?_, ?_, fun _ => Or.inr ?_⟩
    · rw [space_changeOf hv]
      exact Connectors.mayChange_write.mpr ⟨hkind, hw, i, hi, hproject, hreach, haccess⟩
    · rw [verb_changeOf hd hv]
      exact Connectors.mayVerb_iff.mpr hverb
    · rw [verb_changeOf hd hv]
      exact Connectors.allowsChange_iff.mpr hoffer
  have hopened : changeOf d ceiling project kind name space verb ∈
      (apply x d openAll (sightOf ceiling verb (objectIn kind name space))
        (OrdMap.empty.insert "p" (planBy ⟨c.owner, some c, true⟩ project
          (changeOf d ceiling project kind name space verb))) ⟨c.owner, some c, true⟩ project "p"
        0).opened :=
    opened_of_checks (by simp [hw]) hadmitted unmoved_changeOf green_changeOf
  refine ⟨OrdMap.empty.insert "p" (planBy ⟨c.owner, some c, true⟩ project
    (changeOf d ceiling project kind name space verb)), ?_⟩
  rw [callApply_eq ha ⟨i, hi, hproject⟩ (Connectors.admits_apply.mpr ⟨hw, hswitch⟩)]
  exact hopened

theorem verb_mem_changeVerbs (item : Planned) : item.verb ∈ changeVerbs := by
  unfold Planned.verb itemVerb
  split
  · decide
  · split <;> decide

/-- **one policy grants each change whole exactly where no two must add up**: of every ceiling,
connector without an approval and project, each change opened through the connector is granted whole
by one policy, if and only if for every change the connector itself lets through, where one policy
over the project has the switch on and one offers the verb, one does both and shares with the
connector a segment that reaches the kind -/
theorem granted_whole_iff (x : JcDelegation) (d : Digest) (hd : ∀ v, d.ofValue v ≠ absent)
    (ceiling : Ceiling) (c : Connector) (ha : c.approval = none) (project : String) :
    (∀ (ρ : Type) (f : Forge ρ) (w : Sight) (plans : PlanStore) (planId : String) (now : Int),
      w.ceiling = ceiling → ∀ item ∈ (callApply x d f w plans c project planId now).opened,
        ∃ p ∈ ceiling.each, GrantsWhole x c project item.kind item.name item.verb p) ↔
    ∀ kind name, ∀ verb ∈ changeVerbs, Whole x ceiling c project kind name verb := by
  constructor
  · intro h kind name verb hv hown hswitch hoffer
    obtain ⟨hkind, hw, ⟨i, hi, space, hproject, haccess, hreach⟩, hverb⟩ := hown
    obtain ⟨plans, hopened⟩ := opened_of_halves hd ha hv hi hproject haccess hreach hkind hw hverb
      hswitch hoffer
    obtain ⟨p, hp, hwhole⟩ := h Unit openAll _ plans "p" 0 rfl _ hopened
    rw [verb_changeOf hd hv] at hwhole
    exact ⟨p, hp, (grantsWhole_iff hw).mp hwhole⟩
  · intro h ρ f w plans planId now hceiling item hitem
    subst hceiling
    obtain ⟨hown, hswitch, hoffer⟩ := found_of_callApply ha hitem
    obtain ⟨p, hp, hwhole⟩ := h item.kind item.name item.verb (verb_mem_changeVerbs item) hown
      hswitch hoffer
    exact ⟨p, hp, (grantsWhole_iff hown.2.1).mpr hwhole⟩

end

/-! ### one policy, and two -/

theorem plainDigest_ne_absent (v : Value) : plainDigest.ofValue v ≠ absent := by
  intro h
  have hhead := congrArg (fun s : String => s.toList.head?) h
  simp [plainDigest, absent] at hhead

def policyOf (segments : List String) (writes : Bool) : DelegationPolicySpec where
  projects := ["doprava"]
  segments := some segments
  kinds := none
  endpoints := none
  writes := writes
  maxExpiry := none
  allowedClients := none
  aboveCeiling := .refuse

/-- a connector that carries `context` over the whole project -/
def contextConnector : Connector :=
  { airConnector with scope := [⟨"doprava", none, none, none, .write, false⟩], kinds := none }

def openPolicy : Planned where
  kind := "Policy"
  plural := "policies"
  home := "doprava"
  name := "open"
  manifest := some (objectIn "Policy" "open" "air").toValue
  base := absent
  model := none

/-- jana's plan to create the Policy `open` -/
def policyPlans : PlanStore := OrdMap.empty.insert "p1" (planOf (some "c1") [openPolicy])

def sightUnder (policies : List (String × DelegationPolicySpec)) : Sight :=
  { airSight with ceiling := ⟨policies, []⟩ }

/-- one policy with the switch and the connector's own segment -/
def stewards : List (String × DelegationPolicySpec) := [("stewards", policyOf ["context"] true)]

theorem whole_stewards (kind name : String) (verb : ConnectorVerb) :
    Whole plainDelegation ⟨stewards, []⟩ contextConnector "doprava" kind name verb := by
  intro hown _ hoffer
  obtain ⟨p, hp, hproject, hoffers, hlists⟩ := hoffer
  have hone : p = policyOf ["context"] true := List.mem_singleton.mp hp
  subst hone
  -- the kind is of the one segment the connector carries, and the policy carries it too
  have hkind := Connectors.mem_reachOf_kinds.mp (Connector.reach_kinds _ ▸ hown.1)
  obtain ⟨segment, hs, hcarries, hk⟩ := hkind
  have hcontext : ∀ segment ∈ Connectors.segments, contextConnector.carries segment.1 = true →
      Connectors.policySegment plainDelegation (policyOf ["context"] true) segment.1 = true := by
    decide +kernel
  have hverb : policyVerb plainDelegation (policyOf ["context"] true) kind verb = true := rfl
  exact ⟨_, hp, hproject, rfl, hverb, hlists, segment, hs, hcarries, hcontext segment hs hcarries,
    hk⟩

theorem granted_whole_iff_of_stewards :
    openPolicy ∈ (callApply plainDelegation plainDigest plainForge (sightUnder stewards) policyPlans
      contextConnector "doprava" "p1" 0).opened ∧
    ∃ p ∈ (⟨stewards, []⟩ : Ceiling).each,
      GrantsWhole plainDelegation contextConnector "doprava" "Policy" "open" .create p := by
  have hopened : openPolicy ∈ (callApply plainDelegation plainDigest plainForge
      (sightUnder stewards) policyPlans contextConnector "doprava" "p1" 0).opened := by
    decide +kernel
  refine ⟨hopened, ?_⟩
  exact (granted_whole_iff plainDelegation plainDigest plainDigest_ne_absent ⟨stewards, []⟩
    contextConnector rfl "doprava").mpr (fun kind name verb _ => whole_stewards kind name verb)
    Nat plainForge (sightUnder stewards) policyPlans "p1" 0 rfl openPolicy hopened

/-- one policy with the switch, over another segment, and one that only reads -/
def writersAndReaders : List (String × DelegationPolicySpec) :=
  [("writers", policyOf ["data-read"] true), ("readers", policyOf ["context"] false)]

/-- **two policies add up**: the one lets the connector apply plans, the other offers the change, and
neither grants it -/
theorem halves_added :
    openPolicy ∈ (callApply plainDelegation plainDigest plainForge (sightUnder writersAndReaders)
      policyPlans contextConnector "doprava" "p1" 0).opened ∧ contextConnector.approval = none ∧
    ∀ p ∈ (sightUnder writersAndReaders).ceiling.each,
      ¬ GrantsWhole plainDelegation contextConnector "doprava" openPolicy.kind openPolicy.name
        openPolicy.verb p := by
  decide +kernel

end Plans
end Portal
