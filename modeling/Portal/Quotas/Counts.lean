import Portal.Deployer.Sources

/-!
# What a project may hold (`quotas.rs`: `effective`, `counts`, `usage`, `limits`, `beyond`)

Four dimensions of a quota are counted from the manifests of a project: its context spaces, the
pipelines the runner keeps loaded, its public endpoints and its live apps.  The limit of each comes
from the project's own quota, else from the organization's default, else there is none.

* `counts`      whether a manifest counts against a dimension;
* `usage`, `limits`, `effective`;
* `beyond`      the names past the limit: `beyond_eq`, the last of those counted.

A count is a `Nat`: the `u32` of the source would take more manifests than a mirror can hold.
-/

namespace Portal

/-- the dimensions that are counted, and the kind each one counts -/
def counted : List (String × String) :=
  [("contextSpaces", "ContextSpace"), ("residentPipelines", "Pipeline"),
    ("publicEndpoints", "Endpoint"), ("apps", "App")]

/-- a quota: what `dimensions()` lists of it, whether it sets any of them, and the two runtime
limits that a write is held to -/
structure Quotas where
  dimensions : List (String × Option Nat)
  setsDimensions : Bool
  requestsPerMinute : Option Nat
  minPipelinePeriodSeconds : Option Nat
deriving DecidableEq

/-- what the quotas take from jc-core: a quota as it parses one, the default one, and the seconds of
a pipeline's clocks -/
structure JcQuotas extends JcCore where
  quotas : Value → Option Quotas
  noQuotas : Quotas
  shortestClockSeconds : PipelineSpec → Option Nat
  periodSeconds : PipelineSpec → Option Nat

section
variable (x : JcQuotas) (m : Mirror) (project : String)

/-- the quota a project's own manifest carries -/
def ownQuotas : Option Quotas := do
  x.quotas (← (← m.get orgNamespace "Project" project).get? "quotas")

/-- what the first organization with a default gives every project -/
def organizationDefault : Quotas :=
  ((organizations m).findSome? (fun p =>
    (valueAt (some p.2) ["projects", "quota"]).bind x.quotas)).getD x.noQuotas

/-- the quota in force: the project's own when it sets a dimension, else the default -/
def effective : Quotas :=
  ((ownQuotas x m project).filter Quotas.setsDimensions).getD (organizationDefault x m)

/-- whether one manifest counts against a dimension -/
def counts (dimension kind : String) (spec : Value) : Bool :=
  match dimension with
  | "contextSpaces" => kind = "ContextSpace"
  | "apps" =>
    kind = "App" && (textAt spec "lifecycle" = some "preview"
      || textAt spec "lifecycle" = some "published")
  | "publicEndpoints" => kind = "Endpoint" && textAt spec "audience" = some "public"
  | "residentPipelines" =>
    kind = "Pipeline" &&
      match x.pipelineSpec spec with
      | .ok spec => isStreamPipeline spec && staysResident x.toJcCore m project spec
      | .error _ => false
  | _ => false

/-- how many manifests of a kind count against a dimension -/
def held (dimension kind : String) : Nat :=
  (m.list project kind).count (counts x m project dimension kind)

/-- what the project holds now, a count for each dimension -/
def usage : OrdMap String Nat :=
  OrdMap.ofList (counted.map (fun c => (c.1, held x m project c.1 c.2)))

/-- the limit of each counted dimension that the quota does not leave open -/
def limits (quotas : Quotas) : OrdMap String Nat :=
  OrdMap.ofList ((quotas.dimensions.filter (fun d => counted.any (fun c => c.1 = d.1))).filterMap
    (fun d => d.2.map (fun limit => (d.1, limit))))

def limitOf (dimension : String) : Option Nat := (limits (effective x m project)).get? dimension

/-- the names of the manifests of a kind that count against a dimension -/
def countedNames (dimension kind : String) : List String :=
  ((m.list project kind).toList.filter (fun p => counts x m project dimension kind p.2)).map
    Prod.fst

/-- the manifests that stand beyond the quota for a dimension, by name -/
def beyond (dimension : String) : List String :=
  match counted.find? (fun c => c.1 = dimension) with
  | none => []
  | some (_, kind) =>
    match limitOf x m project dimension with
    | none => []
    | some limit =>
      let names := (countedNames x m project dimension kind).insertionSort (· ≤ ·)
      names.drop (min limit names.length)

end

section
variable {x : JcQuotas} {m : Mirror} {project : String}

theorem counts_resident (document : Value) :
    counts x m project "residentPipelines" "Pipeline" document =
      match x.pipelineSpec document with
      | .ok spec => isStreamPipeline spec && staysResident x.toJcCore m project spec
      | .error _ => false := by
  unfold counts
  simp

theorem countedNames_sorted (dimension kind : String) :
    (countedNames x m project dimension kind).Pairwise (· < ·) :=
  List.pairwise_map.mpr ((m.list project kind).sorted.filter _)

theorem mem_countedNames (dimension kind name : String) :
    name ∈ countedNames x m project dimension kind ↔
      ∃ spec, m.get project kind name = some spec ∧ counts x m project dimension kind spec := by
  unfold countedNames
  simp only [List.mem_map, List.mem_filter, Prod.exists, exists_and_right, exists_eq_right,
    OrdMap.mem_toList, Mirror.list_get?]

/-- **Beyond a quota stand the last of those counted**, in the order of their names. -/
theorem beyond_eq {dimension kind : String}
    (hk : counted.find? (fun c => c.1 = dimension) = some (dimension, kind)) {limit : Nat}
    (hl : limitOf x m project dimension = some limit) :
    beyond x m project dimension = (countedNames x m project dimension kind).drop limit := by
  unfold beyond
  rw [hk]
  simp only [hl]
  -- the list is in order, so sorting it changes nothing
  rw [((countedNames_sorted dimension kind).imp le_of_lt).insertionSort_eq]
  rcases Nat.le_total limit (countedNames x m project dimension kind).length with h | h
  · rw [Nat.min_eq_left h]
  · rw [Nat.min_eq_right h, List.drop_length, List.drop_of_length_le h]

theorem usage_get? (dimension : String) (used : Nat) :
    (usage x m project).get? dimension = some used ↔
      ∃ kind, (dimension, kind) ∈ counted ∧ used = held x m project dimension kind := by
  unfold usage counted
  simp only [OrdMap.ofList, List.map_cons, List.map_nil, List.foldl_cons, List.foldl_nil,
    OrdMap.get?_insert, OrdMap.get?_empty, List.mem_cons, List.not_mem_nil, Prod.mk.injEq]
  split
  · simp_all [eq_comm]
  · split
    · simp_all [eq_comm]
    · split
      · simp_all [eq_comm]
      · split
        · simp_all [eq_comm]
        · simp_all

end

/-! ## a project that reads a broker -/

namespace Sample

/-- a pipeline that reads the DataSource `feed` -/
def airSpec : Value := .object [
  ("class", .string "auto"),
  ("compute", .object [("bloblang", .string "root = this"), ("kind", .string "bloblang")]),
  ("period", .string "60s"),
  ("source", .object [("dataSourceRef",
    .object [("kind", .string "DataSource"), ("name", .string "feed")])]),
  ("targetEndpoint", .string "urn:ngsi-ld:Endpoint:bb.sk:ovzdusie:air")]

def airPipeline : PipelineSpec where
  enabled := true
  sources := [⟨some ⟨"feed", none⟩, none, none, none⟩]
  steps := [.compute ⟨true, false, none, some "root = this"⟩]
  ownSteps := []
  routes := []
  outputs := ["air"]
  period := some "60s"
  schedule := none
  body := airSpec

def feedSpec (type : String) : Value := .object [("type", .string type)]

def organizationSpec (residentPipelines : Int) : Value := .object [
  ("domain", .string "bb.sk"),
  ("projects", .object [("quota",
    .object [("residentPipelines", .number (.int residentPipelines))])])]

/-- a quota of resident pipelines and nothing else -/
def residentQuota (limit : Nat) : Quotas :=
  ⟨[("contextSpaces", none), ("residentPipelines", some limit), ("publicEndpoints", none),
    ("apps", none)], true, none, none⟩

def jc : JcQuotas where
  pipelineSpec v := if v = airSpec then .ok airPipeline else .error "missing field"
  dataSourceSpec v :=
    match textAt v "type" with
    | some "mqtt" => .ok ⟨.mqtt, v⟩
    | some "http" => .ok ⟨.http, v⟩
    | _ => .error "unknown variant"
  quotas v :=
    match v.get? "residentPipelines" with
    | some (.number (.int n)) => some (residentQuota n.toNat)
    | _ => none
  noQuotas := ⟨[("residentPipelines", none)], false, none, none⟩
  shortestClockSeconds _ := some 60
  periodSeconds _ := some 60

/-- the project `ovzdusie`: its feed, its endpoint and three pipelines that read the feed -/
def mirror (limit : Int) (type : String) : Mirror :=
  ((((((⟨OrdMap.empty⟩ : Mirror).write "org" "Organization" "bb" (organizationSpec limit)).write
    "ovzdusie" "DataSource" "feed" (feedSpec type)).write
    "ovzdusie" "Endpoint" "air" (.object [("slug", .string "air")])).write
    "ovzdusie" "Pipeline" "one" airSpec).write "ovzdusie" "Pipeline" "three" airSpec).write
    "ovzdusie" "Pipeline" "two" airSpec

end Sample

end Portal
