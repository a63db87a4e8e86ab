import Portal.Connectors.Grant

/-!
# The ceiling over a person's connectors (`connectors.rs`: `Ceiling`)

The delegation policies that bind a person bound each call through a connector of theirs.  A call
runs where some policy admits its tool, a change where some policy offers its verb.

* `reachUnder`, `policyOffers`   the tools and kinds under one policy, and the verbs it offers;
* `Ceiling.admits`               whether some policy admits a call;
* `Ceiling.allowsChange`         whether some policy offers the verb on an object;
* `admits_apply`                 what `admits` asks of the policy when the tool is the one that
                                 applies a plan.
-/

namespace Portal
namespace Connectors

/-! ## policies -/

inductive AboveCeiling where
  | refuse
  | queue
deriving DecidableEq

structure DelegationPolicySpec where
  /-- none: every project the person reads -/
  projects : List String
  segments : Option (List String)
  kinds : Option (List KindGrant)
  endpoints : Option (List String)
  writes : Bool
  maxExpiry : Option String
  allowedClients : Option (List String)
  aboveCeiling : AboveCeiling
deriving DecidableEq

/-- what the core library says of a policy and of lists of verbs -/
structure JcDelegation where
  /-- whether a list of verbs holds one -/
  verbsAllow : List ConnectorVerb → ConnectorVerb → Bool
  /-- the segments a policy allows, its default included, by their words -/
  segments : DelegationPolicySpec → List String
  verbsFor : DelegationPolicySpec → String → List ConnectorVerb
  maxExpiryDays : DelegationPolicySpec → Nat
  allowsClient : DelegationPolicySpec → String → Bool

/-- the policy of a person whom no policy names -/
def defaultPolicy : DelegationPolicySpec where
  projects := []
  segments := none
  kinds := none
  endpoints := none
  writes := false
  maxExpiry := none
  allowedClients := none
  aboveCeiling := .refuse

structure Operation where
  name : String
  /-- `*` for one whose arguments name the kind -/
  kind : String

def applyOperation : Operation := ⟨applyTool, "*"⟩

def resourceKind (op : Operation) (args : Value) : Option String :=
  if op.kind = "*" then
    if op.name = "jc_activity_list" then none else (args.get? "kind").bind Value.asStr
  else some op.kind

def objectNamed (op : Operation) (args : Value) : Option String :=
  let text := fun key => (args.get? key).bind Value.asStr
  if op.name = "jc_kpi_compute" then text "endpoint"
  else (text "name").orElse (fun _ => text "endpoint")

def buildEndpoints (args : Value) : List String :=
  ((args.get? "endpointName").bind Value.asStr).toList
    ++ (((args.get? "endpointNames").bind Value.asArray).getD []).filterMap Value.asStr

section
variable (x : JcDelegation)

def policySegment (policy : DelegationPolicySpec) (segment : String) : Bool :=
  (x.segments policy).any (fun s => s = admin || s = segment)

/-- the tools and kinds of a connector under one policy: the segments both allow, and the writing
tools when both let it write -/
def reachUnder (policy : DelegationPolicySpec) (c : Connector) : List String × List String :=
  let reached := reachOf (fun s => c.carries s && policySegment x policy s)
  if c.writes && policy.writes then (reached.1 ++ written reached.2, reached.2) else reached

@[simp] theorem reachUnder_kinds (policy : DelegationPolicySpec) (c : Connector) :
    (reachUnder x policy c).2 = (reachOf (fun s => c.carries s && policySegment x policy s)).2 := by
  unfold reachUnder
  dsimp only
  split <;> rfl

/-- whether a segment of the policy reaches the kind, with `plans` one that plans changes -/
def policyReaches (policy : DelegationPolicySpec) (kind : String) (plans : Bool) : Bool :=
  segments.any (fun segment => policySegment x policy segment.1 && segment.2.2.contains kind
    && (!plans || segment.2.1.contains planTool))

/-- whether the policy's list of kinds, where it has one, holds the verb -/
def policyVerb (policy : DelegationPolicySpec) (kind : String) (verb : ConnectorVerb) : Bool :=
  policy.kinds.isNone || x.verbsAllow (x.verbsFor policy kind) verb

/-- whether a policy lets a connector tick the verb on the kind -/
def policyOffers (policy : DelegationPolicySpec) (kind : String) (verb : ConnectorVerb) : Bool :=
  (match verb with
    | .read => true
    | .run => policy.writes && policyReaches x policy kind false
    | _ => policyReaches x policy kind true)
  && policyVerb x policy kind verb

/-- whether a policy lets a connector build -/
def policyBuilds (policy : DelegationPolicySpec) (args : Value) : Bool :=
  let named := buildEndpoints args
  policyVerb x policy "App" .create
    && policy.endpoints.all (fun listed => !named.isEmpty && named.all listed.contains)

def allowsProject (policy : DelegationPolicySpec) (project : String) : Bool :=
  policy.projects.isEmpty || policy.projects.contains project

/-- whether a policy's list of Endpoints, where it has one, holds the object -/
def listsObject (policy : DelegationPolicySpec) (kind name : String) : Bool :=
  kind ≠ "Endpoint" || policy.endpoints.all (fun listed => listed.contains name)

/-! ## the ceiling -/

/-- the policies that bind a person, by name, and those of them that fail their validation -/
structure Ceiling where
  policies : List (String × DelegationPolicySpec)
  broken : List String
deriving DecidableEq

namespace Ceiling

def each (c : Ceiling) : List DelegationPolicySpec :=
  if c.policies.isEmpty && !c.broken.isEmpty then []
  else if c.policies.isEmpty then [defaultPolicy]
  else c.policies.map Prod.snd

def named (c : Ceiling) : String :=
  if c.policies.isEmpty && !c.broken.isEmpty then
    "DelegationPolicy " ++ ", ".intercalate c.broken ++ ", which fails its kind's validation and "
      ++ "allows nothing until an administrator fixes it,"
  else if c.policies.isEmpty then "the organization default (no DelegationPolicy names you)"
  else "DelegationPolicy " ++ ", ".intercalate (c.policies.map Prod.fst)

def allowsSegment (c : Ceiling) (segment : String) : Bool :=
  c.each.any (fun p => policySegment x p segment)

/-- the segments some policy lets a connector carry -/
def allowedSegments (c : Ceiling) : List String :=
  (segments.map Prod.fst ++ [admin]).filter (c.allowsSegment x)

def allowsProjectName (c : Ceiling) (project : String) : Bool :=
  c.each.any (fun p => allowsProject p project)

/-- whether some policy over the project lets an item reach the Endpoint: `none` or `*` is every
one, which a policy listing Endpoints does not allow -/
def allowsEndpoint (c : Ceiling) (project : String) (endpoint : Option String) : Bool :=
  c.each.any (fun p => allowsProject p project
    && p.endpoints.all (fun listed => endpoint.any (fun e => e ≠ "*" && listed.contains e)))

/-- whether every binding policy lists the verbs per kind -/
def listsKinds (c : Ceiling) : Bool :=
  !c.each.isEmpty && c.each.all (fun p => p.kinds.isSome)

def writes (c : Ceiling) : Bool := c.each.any DelegationPolicySpec.writes

/-- whether some policy, over the project when named, lets a connector use the verb -/
def allowsVerb (c : Ceiling) (project : Option String) (kind : String) (verb : ConnectorVerb) :
    Bool :=
  c.each.any (fun p => project.all (allowsProject p) && policyOffers x p kind verb)

/-- whether one policy over the project offers the verb, and lists the object if an Endpoint -/
def allowsChange (c : Ceiling) (project kind name : String) (verb : ConnectorVerb) : Bool :=
  c.each.any (fun p => allowsProject p project && policyOffers x p kind verb
    && listsObject p kind name)

/-- the longest life some policy allows -/
def maxDays (c : Ceiling) : Nat :=
  match c.each.map x.maxExpiryDays with
  | [] => 30
  | days => days.foldl max 0

def allowsClient (c : Ceiling) (client : String) : Bool :=
  c.each.any (fun p => x.allowsClient p client)

/-- whether a connector naming no client fits -/
def anyClient (c : Ceiling) : Bool := c.each.any (fun p => p.allowedClients.isNone)

/-- whether a request above the ceiling waits for an administrator -/
def queues (c : Ceiling) : Bool := c.policies.any (fun p => p.2.aboveCeiling = .queue)

/-- whether an approval stands in for the ceiling -/
def honours (c : Ceiling) (connector : Connector) : Bool := connector.approval.isSome && c.queues

def policyAdmits (connector : Connector) (op : Operation) (project : String) (args : Value)
    (p : DelegationPolicySpec) : Bool :=
  let kind := resourceKind op args
  let endpoint := if kind = some "Endpoint" then objectNamed op args
    else (args.get? "endpoint").bind Value.asStr
  let reached := reachUnder x p connector
  allowsProject p project
    && reached.1.contains op.name
    && kind.all (fun k => op.name = "jc_schema_get"
      || (reached.2.contains k && (x.verbsFor p k).contains .read))
    && p.endpoints.all (fun listed =>
      !(kind = some "Endpoint" || endpoint.isSome) || endpoint.any listed.contains)
    && (op.name ≠ runTool || policyVerb x p "Pipeline" .run)
    && (op.name ≠ pauseTool || policyVerb x p "SyncSource" .edit)
    && (op.name ≠ buildTool || policyBuilds x p args)

def admits (c : Ceiling) (connector : Connector) (op : Operation) (project : String)
    (args : Value) : Except String Unit :=
  if c.each.any (policyAdmits x connector op project args) then .ok ()
  else
    .error (c.named ++ " does not let this connector run " ++ op.name ++ " on "
      ++ (match resourceKind op args with | some kind => kind ++ " " | none => "")
      ++ "in project " ++ project ++ "; an administrator widens the policy")

end Ceiling
end

/-! ## the call that applies a plan -/

section
variable {x : JcDelegation} {policy : DelegationPolicySpec} {c : Connector}

theorem applyTool_mem_reachUnder :
    applyTool ∈ (reachUnder x policy c).1 ↔ c.writes = true ∧ policy.writes = true := by
  unfold reachUnder
  dsimp only
  split
  · rename_i h
    simp only [Bool.and_eq_true] at h
    refine iff_of_true ?_ h
    exact List.mem_append_right _ (applyTool_mem_written _)
  · rename_i h
    simp only [Bool.and_eq_true] at h
    exact iff_of_false (applyTool_not_mem_reachOf _) h

/-- the arguments of an apply: the plan's id alone -/
def applyArgs (planId : String) : Value := .object [("planId", .string planId)]

/-- an apply names neither a kind nor an Endpoint: of one policy the call asks for the project and
the switch -/
theorem policyAdmits_apply {project planId : String} :
    Ceiling.policyAdmits x c applyOperation project (applyArgs planId) policy = true ↔
      allowsProject policy project = true ∧ c.writes = true ∧ policy.writes = true := by
  have hkind : resourceKind applyOperation (applyArgs planId) = none := rfl
  have hendpoint : (applyArgs planId).get? "endpoint" = none := rfl
  have hname : applyOperation.name = applyTool := rfl
  have hrun : applyTool ≠ runTool := by decide
  have hpause : applyTool ≠ pauseTool := by decide
  have hbuild : applyTool ≠ buildTool := by decide
  have hall : policy.endpoints.all (fun _ => true) = true := by
    cases policy.endpoints <;> rfl
  unfold Ceiling.policyAdmits
  simp only [hkind, hendpoint, hname, hrun, hpause, hbuild, ne_eq, not_false_eq_true, decide_true,
    Bool.true_or, Bool.and_true, Option.all_none, reduceCtorEq, if_false, Option.bind_none,
    decide_false, Option.isSome_none, Bool.or_self, Bool.not_false, hall, Bool.and_eq_true,
    List.contains_iff_mem, applyTool_mem_reachUnder]

/-- **the call that applies a plan asks one policy for the project and the switch** -/
theorem admits_apply {ceiling : Ceiling} {project planId : String} :
    ceiling.admits x c applyOperation project (applyArgs planId) = .ok () ↔
      c.writes = true ∧ ∃ p ∈ ceiling.each, allowsProject p project = true ∧ p.writes = true := by
  unfold Ceiling.admits
  split
  · rename_i h
    obtain ⟨p, hp, hadmits⟩ := List.any_eq_true.mp h
    obtain ⟨hproject, hw, hpw⟩ := policyAdmits_apply.mp hadmits
    exact iff_of_true rfl ⟨hw, p, hp, hproject, hpw⟩
  · rename_i h
    refine iff_of_false (by simp) ?_
    rintro ⟨hw, p, hp, hproject, hpw⟩
    exact h (List.any_eq_true.mpr ⟨p, hp, policyAdmits_apply.mpr ⟨hproject, hw, hpw⟩⟩)

theorem honours_of_no_approval {ceiling : Ceiling} (h : c.approval = none) :
    ceiling.honours c = false := by
  unfold Ceiling.honours
  rw [h]
  rfl

theorem allowsChange_iff {ceiling : Ceiling} {project kind name : String} {verb : ConnectorVerb} :
    ceiling.allowsChange x project kind name verb = true ↔
      ∃ p ∈ ceiling.each, allowsProject p project = true ∧ policyOffers x p kind verb = true ∧
        listsObject p kind name = true := by
  unfold Ceiling.allowsChange
  simp only [List.any_eq_true, Bool.and_eq_true, and_assoc]

end
end Connectors
end Portal
