import Portal.Base.Text
import Portal.Store.Mirror

/-!
# What a pipeline reads (`reconciler/streams.rs`: `eligible`, `is_stream_pipeline`,
`stays_resident`; `reconciler/streams/render.rs`: `resolve_source`, `is_merged`;
`reconciler/run_queue.rs`: `is_resident`)

A source of a pipeline is a DataSource of its project or an Endpoint, its own project's or one that
admits it.  A DataSource that waits for pushes and an Endpoint read with a change trigger keep the
pipeline loaded in the runner; every other source is read by a run.

* `PipelineSpec`, `DataSourceSpec`   what the modelled code reads of a manifest's spec, as jc-core
                                     (`JcCore`) parses it;
* `resolveSource`, `sourceEndpoint`  a source found in the mirror;
* `eligible`, `isStreamPipeline`, `isMerged`, `staysResident`;
* `staysResident_of_resolved`        the sources resolved say what `stays_resident` says.
-/

namespace Portal

namespace Value

def asStr : Value → Option String
  | .string text => some text
  | _ => none

def asArray : Value → Option (List Value)
  | .array items => some items
  | _ => none

end Value

/-- the text a member of an object holds -/
def textAt (v : Value) (key : String) : Option String := (v.get? key).bind Value.asStr

/-! ## specs -/

inductive DataSourceType where
  | http
  | gtfsRt
  | mqtt
  | webSocket
  /-- an input of the runner by name -/
  | runner (name : String)
deriving DecidableEq

/-- the runner inputs that wait for pushes: servers and broker subscribers -/
def residentInputs : List String :=
  ["http_server", "socket_server", "kafka", "kafka_franz", "nats", "nats_jetstream", "nats_stream",
    "amqp_0_9", "amqp_1", "redis_streams", "redis_pubsub", "gcp_pubsub", "mqtt", "websocket"]

/-- whether a source of this type waits for pushes -/
def isResident : DataSourceType → Bool
  | .mqtt | .webSocket => true
  | .http | .gtfsRt => false
  | .runner name => residentInputs.contains name

structure DataSourceSpec where
  sourceType : DataSourceType
  /-- the fields that only the renderers read -/
  body : Value
deriving DecidableEq

/-- a reference to a manifest, of another namespace when it names one -/
structure Ref where
  name : String
  ns : Option String
deriving DecidableEq

structure PipelineSource where
  dataSourceRef : Option Ref
  endpointRef : Option Ref
  query : Option Value
  trigger : Option Value
deriving DecidableEq

structure Compute where
  /-- `kind.is_mapping()` -/
  isMapping : Bool
  /-- `kind == ComputeKind::Kpi` -/
  isKpi : Bool
  kpi : Option Value
  bloblang : Option String
deriving DecidableEq

inductive PipelineStep where
  | processor (config : Value)
  | compute (c : Compute)
deriving DecidableEq

structure PipelineSpec where
  enabled : Bool
  /-- `sources()`, one `source` of the older form included -/
  sources : List PipelineSource
  /-- `steps()`, a `compute` of the older form included -/
  steps : List PipelineStep
  /-- the field `steps` -/
  ownSteps : List PipelineStep
  /-- the steps of each route -/
  routes : List (List PipelineStep)
  /-- the local id of each output's `target_endpoint`, of `outputs()` -/
  outputs : List String
  period : Option String
  schedule : Option String
  /-- the fields that only the renderers read -/
  body : Value
deriving DecidableEq

structure JcCore where
  pipelineSpec : Value → Except String PipelineSpec
  dataSourceSpec : Value → Except String DataSourceSpec

/-! ## organizations -/

/-- the name a reference field holds, a text or an object with a name -/
def referenceName (reference : Value) : Option String :=
  reference.asStr <|> textAt reference "name"

def organizations (m : Mirror) : List (String × Value) :=
  (m.list orgNamespace "Organization").toList

/-- the only organization, else the only one that claims the installation -/
def installationOrganization (m : Mirror) : Option String :=
  match organizations m with
  | [(only, _)] => some only
  | all =>
    match all.filter (fun p => p.2.get? "installation" = some (.bool true)) with
    | [(one, _)] => some one
    | _ => none

def organizationOf (m : Mirror) (project : String) : Option String :=
  (do referenceName (← (← m.get orgNamespace "Project" project).get? "organizationRef"))
    <|> installationOrganization m

/-! ## sources in the mirror -/

/-- whether an Endpoint of project `owner` admits a reader from project `reader` -/
def admits (m : Mirror) (spec : Value) (owner reader : String) : Bool :=
  match textAt spec "audience" with
  | some "public" => true
  | some "organization" => organizationOf m owner = organizationOf m reader
  | some "project-list" =>
    (((spec.get? "allowedProjects").bind Value.asArray).getD []).any
      (fun p => p.asStr = some reader)
  | _ => false

def sourceEndpoint (m : Mirror) (ns : String) (reference : Ref) : Except String Value :=
  let name := reference.name
  let owner := reference.ns.getD ns
  match m.get owner "Endpoint" name with
  | none =>
    if owner = ns then .error ("source endpoint " ++ name ++ " is not in the mirror")
    else .error ("source endpoint " ++ owner ++ "/" ++ name ++ " is not in the mirror")
  | some spec =>
    if owner ≠ ns && !admits m spec owner ns then
      .error ("source endpoint " ++ owner ++ "/" ++ name ++ " does not admit project " ++ ns
        ++ ": ask its owner for access (PL-90)")
    else .ok spec

/-- whether an Endpoint is read without a token -/
def servesPublic (spec : Value) : Bool :=
  match textAt spec "audience" with
  | none => true
  | some audience => audience = "public"

/-- one source of a pipeline, found in the mirror -/
inductive ResolvedSource where
  | data (spec : DataSourceSpec) (name : String)
  | endpoint (source : PipelineSource) (slug : String) (isPublic : Bool)
deriving DecidableEq

def dataSource (x : JcCore) (m : Mirror) (ns name : String) : Except String DataSourceSpec :=
  match m.get ns "DataSource" name with
  | none => .error ("data source " ++ name ++ " is not in the mirror")
  | some spec => (x.dataSourceSpec spec).mapError (fun err => "invalid data source spec: " ++ err)

/-- the slug of the Endpoint a source reads and whether it serves the public -/
def endpointSlug (m : Mirror) (ns : String) (reference : Ref) : Except String (String × Bool) :=
  (sourceEndpoint m ns reference).bind (fun spec =>
    match textAt spec "slug" with
    | none => .error ("source endpoint " ++ reference.name ++ " has no slug")
    | some slug => .ok (slug, servesPublic spec))

def resolveSource (x : JcCore) (m : Mirror) (ns : String) (source : PipelineSource) :
    Except String ResolvedSource :=
  match source.dataSourceRef with
  | some reference =>
    (dataSource x m ns reference.name).map (fun spec => .data spec reference.name)
  | none =>
    match source.endpointRef with
    | none => .error "a source names neither a DataSource nor an Endpoint"
    | some reference => (endpointSlug m ns reference).map (fun p => .endpoint source p.1 p.2)

/-! ## what a pipeline is -/

def PipelineSpec.allSteps (spec : PipelineSpec) : List PipelineStep :=
  spec.steps ++ spec.routes.flatten

/-- whether a step maps: a processor, a kpi or a mapping that says something -/
def PipelineStep.maps : PipelineStep → Bool
  | .processor _ => true
  | .compute c =>
    c.kpi.isSome || c.bloblang.any (fun text => !(Text.trim text.toList).isEmpty)

def PipelineStep.streams : PipelineStep → Bool
  | .processor _ => true
  | .compute c => c.isMapping || c.isKpi

/-- whether a pipeline may be deployed into the runner -/
def eligible (spec : PipelineSpec) : Bool :=
  spec.enabled && spec.allSteps.all PipelineStep.streams && !spec.sources.isEmpty
    && spec.sources.all (fun source => source.dataSourceRef.isSome
      || (source.endpointRef.isSome && source.query.isSome && spec.allSteps.any PipelineStep.maps))

def isStreamPipeline (spec : PipelineSpec) : Bool :=
  spec.sources.any (fun source => source.dataSourceRef.isSome
    || (source.endpointRef.isSome && source.query.isSome))

/-- the kpi step among the written ones -/
def kpiStep (spec : PipelineSpec) : Option Value :=
  spec.ownSteps.findSome? (fun
    | .compute c => c.kpi
    | .processor _ => none)

def firstCompute (spec : PipelineSpec) : Option Compute :=
  spec.steps.findSome? (fun
    | .compute c => some c
    | .processor _ => none)

/-- whether a pipeline needs the general renderer -/
def isMerged (spec : PipelineSpec) : Bool :=
  spec.sources.length > 1 || spec.outputs.length > 1 || spec.steps.length > 1
    || (kpiStep spec).isSome
    || spec.steps.any (fun
      | .processor _ => true
      | .compute _ => false)

/-- whether one source keeps its pipeline loaded -/
def sourceStays (x : JcCore) (m : Mirror) (ns : String) (source : PipelineSource) : Bool :=
  if source.dataSourceRef.isNone then source.endpointRef.isSome && source.trigger.isSome
  else
    match resolveSource x m ns source with
    | .ok (.data spec _) => isResident spec.sourceType
    | _ => false

/-- whether the runner keeps a pipeline loaded between runs -/
def staysResident (x : JcCore) (m : Mirror) (ns : String) (spec : PipelineSpec) : Bool :=
  spec.sources.any (sourceStays x m ns)

/-! ## resolved sources -/

namespace ResolvedSource

/-- whether a resolved source waits for pushes or for changes -/
def waits : ResolvedSource → Bool
  | .data spec _ => isResident spec.sourceType
  | .endpoint source _ _ => source.trigger.isSome

end ResolvedSource

section
variable {x : JcCore} {m : Mirror} {ns : String}

theorem sourceStays_of_data {source : PipelineSource} {reference : Ref} {spec : DataSourceSpec}
    (hr : source.dataSourceRef = some reference)
    (hs : dataSource x m ns reference.name = .ok spec) :
    sourceStays x m ns source = isResident spec.sourceType := by
  unfold sourceStays resolveSource
  rw [hr]
  simp only [hs]
  rfl

theorem sourceStays_of_endpoint {source : PipelineSource} {reference : Ref}
    (hd : source.dataSourceRef = none) (he : source.endpointRef = some reference) :
    sourceStays x m ns source = source.trigger.isSome := by
  unfold sourceStays
  rw [hd, he]
  rfl

/-- **A source resolved waits exactly when it keeps its pipeline loaded.** -/
theorem waits_of_resolved {source : PipelineSource} {r : ResolvedSource}
    (h : resolveSource x m ns source = .ok r) : r.waits = sourceStays x m ns source := by
  unfold resolveSource at h
  cases hd : source.dataSourceRef with
  | some reference =>
    rw [hd] at h
    cases hs : dataSource x m ns reference.name with
    | error err =>
      simp only [hs] at h
      cases h
    | ok spec =>
      simp only [hs] at h
      cases h
      exact (sourceStays_of_data hd hs).symm
  | none =>
    rw [hd] at h
    cases he : source.endpointRef with
    | none =>
      rw [he] at h
      cases h
    | some reference =>
      rw [he] at h
      cases hp : endpointSlug m ns reference with
      | error err =>
        simp only [hp] at h
        cases h
      | ok p =>
        simp only [hp] at h
        cases h
        exact (sourceStays_of_endpoint hd he).symm

/-- **The sources resolved one by one say what `stays_resident` says.** -/
theorem staysResident_of_resolved {sources : List PipelineSource} {rs : List ResolvedSource}
    (h : sources.mapM (resolveSource x m ns) = .ok rs) :
    rs.any ResolvedSource.waits = sources.any (sourceStays x m ns) := by
  induction sources generalizing rs with
  | nil =>
    cases h
    rfl
  | cons source sources ih =>
    rw [List.mapM_cons] at h
    cases hr : resolveSource x m ns source with
    | error err =>
      rw [hr] at h
      cases h
    | ok r =>
      cases hrs : sources.mapM (resolveSource x m ns) with
      | error err =>
        rw [hr, hrs] at h
        cases h
      | ok rs' =>
        rw [hr, hrs] at h
        cases h
        rw [List.any_cons, List.any_cons, ih hrs, waits_of_resolved hr]

end

theorem eligible_sources {spec : PipelineSpec} (h : eligible spec = true) :
    spec.sources ≠ [] ∧ ∀ source ∈ spec.sources, source.dataSourceRef.isSome
      || (source.endpointRef.isSome && source.query.isSome) := by
  unfold eligible at h
  simp only [Bool.and_eq_true, Bool.not_eq_true', List.isEmpty_eq_false_iff, List.all_eq_true] at h
  refine ⟨h.1.2, fun source hs => ?_⟩
  have hsource := h.2 source hs
  simp only [Bool.or_eq_true, Bool.and_eq_true] at hsource ⊢
  exact hsource.imp_right (fun h => h.1)

theorem isStreamPipeline_of_eligible {spec : PipelineSpec} (h : eligible spec = true) :
    isStreamPipeline spec = true := by
  obtain ⟨hne, hall⟩ := eligible_sources h
  obtain ⟨source, rest, he⟩ := List.exists_cons_of_ne_nil hne
  exact List.any_eq_true.mpr ⟨source, by simp [he], hall source (by simp [he])⟩

theorem sources_of_not_merged {spec : PipelineSpec} (h : isMerged spec = false) :
    spec.sources.length ≤ 1 := by
  unfold isMerged at h
  simp only [Bool.or_eq_false_iff, decide_eq_false_iff_not, not_lt] at h
  exact h.1.1.1.1

end Portal
