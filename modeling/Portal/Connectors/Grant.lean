import Mathlib.Data.List.Sort
import Mathlib.Data.List.Dedup
import Portal.Access.Grants

/-!
# Connectors (`connectors.rs`: `SEGMENTS`, `ScopeItem`, `Connector`)

The grant one person gives one client: segments, which are presets of tools and kinds, a scope of
projects and objects in them, and verbs per kind.

* `reachOf`, `Connector.reach`      the tools and kinds of the segments carried;
* `ScopeItem.reaches`               whether an item of the scope names an object;
* `Connector.mayChange`, `mayVerb`  whether a change is within the scope and the verbs;
* `changeSpace`                     the space of a change: of both its ends, or of none.
-/

namespace Portal
namespace Connectors

open Access (spaceRef)

/-! ## segments -/

def planTool : String := "jc_change_plan"
def applyTool : String := "jc_change_apply"
def runTool : String := "jc_pipeline_run"
def pauseTool : String := "jc_syncsource_pause"
def dataWriteTool : String := "jc_data_write"
def buildTool : String := "jc_run_create"

def admin : String := "admin"

/-- the segments, each with its tools and kinds -/
def segments : List (String × List String × List String) :=
  [("data-read",
    ["jc_schema_get", "jc_resource_list", "jc_resource_get", "jc_kpi_compute", "jc_data_query",
      "jc_catalog_search", "jc_attribute_explain"],
    ["Endpoint", "ContextSpace", "DataModel"]),
   ("context",
    ["jc_change_plan", "jc_change_revert_plan", "jc_schema_get", "jc_resource_list",
      "jc_resource_get", "jc_model_source_get", "jc_model_sdm_search", "jc_model_sdm_import",
      "jc_model_generate", "jc_endpoint_preview", "jc_space_governance"],
    ["ContextSpace", "DataModel", "Endpoint", "Policy", "ModelProjection", "Subscription"]),
   ("pipeline",
    ["jc_change_plan", "jc_change_revert_plan", "jc_schema_get", "jc_resource_list",
      "jc_resource_get", "jc_pipeline_metrics", "jc_pipeline_logs", "jc_pipeline_sample_source",
      "jc_pipeline_try_mapping", "jc_pipeline_test", "jc_syncsource_status", "jc_mqtt_captured",
      "jc_mqtt_test_publish", "jc_pipeline_inspect", "jc_space_governance"],
    ["Pipeline", "DataSource", "MqttBroker", "SyncSource", "ContextSpace", "DataModel", "Endpoint",
      "Subscription"]),
   ("access",
    ["jc_change_plan", "jc_change_revert_plan", "jc_schema_get", "jc_resource_list",
      "jc_resource_get", "jc_member_list", "jc_access_simulate", "jc_access_explore"],
    ["Role", "RoleBinding", "ServiceAccount", "Policy", "Group"]),
   ("publish",
    ["jc_change_plan", "jc_change_revert_plan", "jc_schema_get", "jc_resource_list",
      "jc_resource_get", "jc_ckan_status", "jc_model_source_get", "jc_kpi_compute",
      "jc_catalogue_draft", "jc_endpoint_preview"],
    ["Endpoint", "CkanInstance", "DataModel"]),
   ("apps",
    ["jc_change_plan", "jc_change_revert_plan", "jc_schema_get", "jc_resource_list",
      "jc_resource_get", "jc_run_list", "jc_run_get"],
    ["App", "Dashboard", "Layer"]),
   ("operate",
    ["jc_change_plan", "jc_change_revert_plan", "jc_activity_list", "jc_pipeline_metrics",
      "jc_pipeline_logs", "jc_syncsource_status", "jc_change_list", "jc_change_get",
      "jc_change_history", "jc_pipeline_inspect"],
    ["Pipeline", "SyncSource"]),
   ("knowledge",
    ["jc_change_plan", "jc_change_revert_plan", "jc_schema_get", "jc_resource_list",
      "jc_resource_get", "jc_knowledge_status", "jc_knowledge_search"],
    ["KnowledgeSource", "AssistantDeployment"])]

/-- a list in order, each of its entries once -/
def sortedOnce (l : List String) : List String := (l.insertionSort (· ≤ ·)).dedup

@[simp] theorem mem_sortedOnce {l : List String} {s : String} : s ∈ sortedOnce l ↔ s ∈ l := by
  unfold sortedOnce
  rw [List.mem_dedup, List.mem_insertionSort]

/-- the tools and kinds of the segments carried -/
def reachOf (carries : String → Bool) : List String × List String :=
  let carried := segments.filter (fun segment => carries segment.1)
  (sortedOnce (carried.flatMap (fun segment => segment.2.1)),
    sortedOnce (carried.flatMap (fun segment => segment.2.2)))

theorem mem_reachOf_tools {carries : String → Bool} {tool : String} :
    tool ∈ (reachOf carries).1 ↔ ∃ segment ∈ segments, carries segment.1 = true ∧
      tool ∈ segment.2.1 := by
  unfold reachOf
  simp [List.mem_flatMap, List.mem_filter, and_assoc]

theorem mem_reachOf_kinds {carries : String → Bool} {kind : String} :
    kind ∈ (reachOf carries).2 ↔ ∃ segment ∈ segments, carries segment.1 = true ∧
      kind ∈ segment.2.2 := by
  unfold reachOf
  simp [List.mem_flatMap, List.mem_filter, and_assoc]

/-- the writing tools that come with the `writes` switch, by the kinds reached -/
def written (kinds : List String) : List String :=
  [applyTool] ++ (if kinds.contains "Pipeline" then [runTool] else [])
    ++ (if kinds.contains "SyncSource" then [pauseTool] else [])
    ++ (if kinds.contains "Endpoint" then [dataWriteTool] else [])
    ++ (if kinds.contains "App" then [buildTool] else [])

theorem applyTool_mem_written (kinds : List String) : applyTool ∈ written kinds := by
  simp [written]

theorem applyTool_not_mem_reachOf (carries : String → Bool) : applyTool ∉ (reachOf carries).1 := by
  rw [mem_reachOf_tools]
  rintro ⟨segment, hs, -, ht⟩
  have hnone : ∀ segment ∈ segments, applyTool ∉ segment.2.1 := by decide +kernel
  exact hnone segment hs ht

/-! ## the grant -/

inductive ConnectorVerb where
  | read
  | create
  | edit
  | delete
  | run
  /-- stands for create, edit and delete -/
  | propose
deriving DecidableEq

def ConnectorVerb.word : ConnectorVerb → String
  | .read => "read"
  | .create => "create"
  | .edit => "edit"
  | .delete => "delete"
  | .run => "run"
  | .propose => "propose"

inductive ItemAccess where
  | read
  | write
deriving DecidableEq

structure ScopeItem where
  project : String
  space : Option String
  endpoint : Option String
  pipeline : Option String
  access : ItemAccess
  personalData : Bool
deriving DecidableEq

def ScopeItem.narrowing (item : ScopeItem) : Option (String × String) :=
  [("ContextSpace", item.space), ("Endpoint", item.endpoint), ("Pipeline", item.pipeline)].findSome?
    (fun p => p.2.map (fun name => (p.1, name)))

def fits (item of : String) : Bool := item = "*" || item = of

/-- whether an item reaches an object of its project that sits in `space`: a space item reaches the
space and every object in it (`ScopeItem::names`) -/
def ScopeItem.reaches (item : ScopeItem) (kind name : String) (space : Option String) : Bool :=
  match item.narrowing with
  | none => true
  | some (narrowed, named) =>
    if narrowed = "ContextSpace" && kind ≠ "ContextSpace" then space.any (fits named)
    else narrowed = kind && fits named name

structure KindGrant where
  kind : String
  verbs : List ConnectorVerb
deriving DecidableEq

/-- who let a request above the ceiling through, and when -/
structure Approval where
  approver : String
  instant : Int
deriving DecidableEq

inductive ConnectorState where
  | active
  | pending
  | expired
  | revoked
deriving DecidableEq

structure Connector where
  id : String
  name : String
  owner : String
  segments : List String
  scope : List ScopeItem
  /-- absent: every change the segments reach -/
  kinds : Option (List KindGrant)
  writes : Bool
  autonomous : Bool
  expiresAt : Int
  allowedClients : List String
  state : ConnectorState
  aboveCeiling : List String
  approval : Option Approval
  grantedAt : Int
deriving DecidableEq

namespace Connector

def carries (c : Connector) (segment : String) : Bool :=
  c.segments.any (fun s => s = segment || s = admin)

/-- the tools and kinds the segments reach -/
def reach (c : Connector) : List String × List String :=
  let reached := reachOf c.carries
  if c.writes then ((reached.1 ++ written reached.2).insertionSort (· ≤ ·), reached.2) else reached

@[simp] theorem reach_kinds (c : Connector) : c.reach.2 = (reachOf c.carries).2 := by
  unfold reach
  dsimp only
  split <;> rfl

/-- whether a plan, or with `write` an apply, may name the object -/
def mayChange (c : Connector) (project kind name : String) (space : Option String)
    (write : Bool) : Except String Unit :=
  let kinds := c.reach.2
  let items := c.scope.filter (fun i => i.project = project && i.reaches kind name space)
  if !kinds.contains kind then
    .error ("this connector's segments (" ++ ", ".intercalate c.segments ++ ") change only "
      ++ ", ".intercalate kinds ++ ", not " ++ kind)
  else if items.isEmpty then
    .error ("this connector does not reach " ++ kind ++ " " ++ name ++ " of project " ++ project)
  else if !write then .ok ()
  else if !c.writes then
    .error ("this connector has writes off: apply the plan in the Portal, or turn writes on for "
      ++ "connector " ++ c.name ++ " on the My connectors page")
  else if items.any (fun i => i.access = .write) then .ok ()
  else
    .error ("this connector only reads " ++ kind ++ " " ++ name ++ " of project " ++ project
      ++ ": its scope gives no write there")

/-- the verbs a connector's list gives on a kind: one it leaves out is read only -/
def verbsOn (kinds : List KindGrant) (kind : String) : List ConnectorVerb :=
  match kinds.find? (fun k => k.kind = kind) with
  | some k => k.verbs
  | none => [.read]

/-- whether the verbs let a connector change the object; `verbsAllow` says whether a list of verbs
holds one -/
def mayVerb (verbsAllow : List ConnectorVerb → ConnectorVerb → Bool) (c : Connector)
    (kind name : String) (verb : ConnectorVerb) : Except String Unit :=
  match c.kinds with
  | none => .ok ()
  | some kinds =>
    let verbs := verbsOn kinds kind
    if verbsAllow verbs verb then .ok ()
    else
      .error ("this connector may not " ++ verb.word ++ " " ++ kind ++ " " ++ name
        ++ ": its verbs on " ++ kind ++ " are "
        ++ (if verbs.isEmpty then "none" else ", ".intercalate (verbs.map ConnectorVerb.word))
        ++ "; tick " ++ verb.word ++ " on " ++ kind ++ " for connector " ++ c.name
        ++ " on the My connectors page")

end Connector

/-- the space a change sits in, from the object now and its manifest: `none` where an end names no
space, or where the change moves the object -/
def changeSpace (now next : Option Value) : Option String :=
  match now, next with
  | some a, none => spaceRef a
  | none, some b => spaceRef b
  | some a, some b => if spaceRef a = spaceRef b then spaceRef a else none
  | none, none => none

/-! ## what the checks let through -/

/-- a write is let through where a kind of the segments, the switch and an item of the project with
write access reach the object -/
theorem mayChange_write {c : Connector} {project kind name : String} {space : Option String} :
    c.mayChange project kind name space true = .ok () ↔
      kind ∈ c.reach.2 ∧ c.writes = true ∧
      ∃ i ∈ c.scope, i.project = project ∧ i.reaches kind name space = true ∧
        i.access = .write := by
  unfold Connector.mayChange
  dsimp only
  constructor
  · intro h
    split at h
    · cases h
    rename_i hkind
    split at h
    · cases h
    split at h
    · rename_i hw
      exact absurd hw (by decide)
    split at h
    · cases h
    rename_i hwrites
    split at h
    · rename_i hitem
      obtain ⟨i, hi, haccess⟩ := List.any_eq_true.mp hitem
      obtain ⟨hscope, hat⟩ := List.mem_filter.mp hi
      simp only [Bool.and_eq_true, decide_eq_true_eq] at hat
      refine ⟨?_, by simpa using hwrites, i, hscope, hat.1, hat.2, of_decide_eq_true haccess⟩
      simpa using hkind
    · cases h
  · rintro ⟨hkind, hwrites, i, hi, hproject, hreach, haccess⟩
    have hmem : i ∈ c.scope.filter (fun i => i.project = project && i.reaches kind name space) :=
      List.mem_filter.mpr ⟨hi, by simp [hproject, hreach]⟩
    have hany : (c.scope.filter (fun i => i.project = project && i.reaches kind name space)).any
        (fun i => i.access = .write) = true :=
      List.any_eq_true.mpr ⟨i, hmem, decide_eq_true haccess⟩
    have hne := List.isEmpty_eq_false_iff.mpr (List.ne_nil_of_mem hmem)
    have hk : (!c.reach.2.contains kind) = false := by simpa using hkind
    simp only [hk, hne, hwrites, hany, Bool.not_true, if_true, if_false, Bool.false_eq_true]

theorem mayVerb_iff {verbsAllow : List ConnectorVerb → ConnectorVerb → Bool} {c : Connector}
    {kind name : String} {verb : ConnectorVerb} :
    c.mayVerb verbsAllow kind name verb = .ok () ↔
      ∀ kinds, c.kinds = some kinds → verbsAllow (Connector.verbsOn kinds kind) verb = true := by
  unfold Connector.mayVerb
  cases c.kinds with
  | none => simp
  | some kinds =>
    dsimp only
    split
    · rename_i h
      simp [h]
    · rename_i h
      simp [h]

theorem reaches_of_not_space {item : ScopeItem} {kind name : String} {space space' : Option String}
    (hspace : ∀ named, item.narrowing = some ("ContextSpace", named) → kind = "ContextSpace")
    (h : item.reaches kind name space = true) : item.reaches kind name space' = true := by
  unfold ScopeItem.reaches at h ⊢
  split
  · rfl
  · rename_i narrowed named hn
    rw [hn] at h
    dsimp only at h
    have hc : ¬ (narrowed = "ContextSpace" && kind ≠ "ContextSpace") = true := by
      intro hc
      simp only [Bool.and_eq_true, decide_eq_true_eq] at hc
      exact hc.2 (hspace named (by rw [hn, hc.1]))
    rw [if_neg hc] at h ⊢
    exact h

theorem changeSpace_some {now next : Option Value} {space : String}
    (h : changeSpace now next = some space) :
    (∀ v, now = some v → spaceRef v = some space) ∧
      (∀ v, next = some v → spaceRef v = some space) := by
  unfold changeSpace at h
  split at h
  · exact ⟨fun v hv => by cases hv; exact h, fun v hv => (nomatch hv)⟩
  · exact ⟨fun v hv => (nomatch hv), fun v hv => by cases hv; exact h⟩
  · split at h
    · rename_i heq
      exact ⟨fun v hv => by cases hv; exact h, fun v hv => by cases hv; exact heq ▸ h⟩
    · cases h
  · cases h

end Connectors
end Portal
