import Portal.Deployer.Handover
import Portal.Quotas.Counts

/-!
# Where a pass places the pipelines (`reconciler/streams.rs`: `StreamDeployer::converge`)

A pass goes through the pipelines of every project by name.  One whose credential did not resolve or
that stands beyond the project's quota is left out; any other is checked, its sources and targets
are found in the mirror and its stream is rendered, and `place` sends it to the runner when it waits
for pushes and queues it when it runs on a clock.

* `renderPipeline`    one pipeline, up to its placing: merged, from a DataSource, from an Endpoint;
* `placement`         the loop over the projects;
* `resident_eq`       the residency of each branch is the one the quotas count;
* `resident_quota`    no project has more resident streams than its quota, and the names left out
                      are the last of those counted.
-/

namespace Portal

inductive StreamOutcome where
  | live
  | skipped (why : String)
  | error (reason : String)
  | scheduled (reason text : String)
deriving DecidableEq

/-- the renderers, each with the reporting, the identity and the spaces of the stream put in, the
check of what a pipeline's texts read, a stream made to run once, and whether any output replaces -/
structure Renderer extends JcQuotas where
  readsOnlyItsOwn : PipelineSpec → Except String Unit
  renderMerged : PipelineSpec → String → String → List ResolvedSource → List String →
    Except String Value
  renderStream : PipelineSpec → String → String → DataSourceSpec → String → String →
    Option String → Except String Value
  renderEndpointStream : PipelineSpec → String → String → String → Bool → String →
    Except String Value
  oneRun : String → Value → Value
  replacesAny : PipelineSpec → Bool

/-! ## one pipeline -/

def notEligible (spec : PipelineSpec) : String :=
  if !spec.enabled then "pipeline is disabled"
  else
    match firstCompute spec with
    | some compute =>
      if !compute.isMapping then "compute is not bloblang"
      else "endpoint pipeline requires bloblang mapping"
    | none => "not eligible for streams mode"

def targetSlugs (m : Mirror) (ns : String) (spec : PipelineSpec) : Except String (List String) :=
  spec.outputs.mapM (fun name =>
    match m.get ns "Endpoint" name with
    | none => .error ("target endpoint " ++ name ++ " is not in the mirror")
    | some endpoint =>
      match textAt endpoint "slug" with
      | none => .error ("target endpoint " ++ name ++ " has no slug")
      | some slug => .ok slug)

section
variable (x : Renderer) (m : Mirror)

/-- the stream of a merged pipeline, and whether it stays loaded -/
def mergedStream (ns name : String) (spec : PipelineSpec) (slugs : List String) :
    Except String (Value × Bool) :=
  (spec.sources.mapM (resolveSource x.toJcCore m ns)).bind (fun sources =>
    (x.renderMerged spec name ns sources slugs).map (fun stream =>
      (stream, sources.any ResolvedSource.waits)))

/-- the stream of a pipeline with one source, and whether it stays loaded -/
def singleStream (bento : Option String) (ns name : String) (spec : PipelineSpec) (slug : String) :
    Except String (Value × Bool) :=
  match spec.sources.head?.bind PipelineSource.dataSourceRef with
  | some reference =>
    (dataSource x.toJcCore m ns reference.name).bind (fun ds =>
      (x.renderStream spec name ns ds reference.name slug bento).map (fun stream =>
        (stream, isResident ds.sourceType)))
  | none =>
    match spec.sources.head?.bind PipelineSource.endpointRef with
    | some reference =>
      (endpointSlug m ns reference).bind (fun p =>
        (x.renderEndpointStream spec ns (ns ++ "/" ++ name) p.1 p.2 slug).map (fun stream =>
          -- a change trigger watches its source; a clock polls it
          (stream, (spec.sources.head?.bind PipelineSource.trigger).isSome)))
    | none => .error "unreachable"

/-- a pipeline that passes its checks as the pass renders it -/
def renderPipeline (bento : Option String) (ns name : String) (document : Value) :
    Except StreamOutcome Rendered :=
  match (x.pipelineSpec document).bind
      (fun spec => (x.readsOnlyItsOwn spec).map (fun _ => spec)) with
  | .error err => .error (.error ("invalid pipeline spec: " ++ err))
  | .ok spec =>
    if (spec.sources.head?.bind PipelineSource.dataSourceRef).isNone
        && (spec.sources.head?.bind PipelineSource.endpointRef).isNone then
      .error (.skipped "not a supported stream pipeline")
    else if !eligible spec then .error (.skipped (notEligible spec))
    else
      match targetSlugs m ns spec with
      | .error reason => .error (.error reason)
      | .ok [] => .error (.error "the pipeline names no target endpoint")
      | .ok (slug :: slugs) =>
        match if isMerged spec then mergedStream x m ns name spec (slug :: slugs)
          else singleStream x m bento ns name spec slug with
        | .error reason => .error (.error reason)
        | .ok (stream, resident) =>
          .ok ⟨Key.of ns name, x.oneRun ns stream, resident, Clock.of spec.period spec.schedule,
            x.replacesAny spec⟩

/-! ## the pass -/

def placePipeline (bentos refused : OrdMap Key String) (ns name : String) (document : Value) :
    Except StreamOutcome Rendered :=
  match refused.get? (Key.of ns name) with
  | some reason => .error (.error reason)
  | none =>
    if (beyond x.toJcQuotas m ns "residentPipelines").contains name then
      .error (.skipped ("the project's resident pipeline quota is used up, so this one is not "
        ++ "scheduled (PF-73, PF-74)"))
    else renderPipeline x m (bentos.get? (Key.of ns name)) ns name document

end

/-- what a pass has placed: the outcome of every pipeline, the streams to send and the queued -/
structure Placement where
  outcomes : List (Key × StreamOutcome)
  sends : List Key
  queued : OrdMap Key Planned

namespace Placement

def empty : Placement := ⟨[], [], OrdMap.empty⟩

/-- the outcome a rendered pipeline is placed with -/
def outcome (r : Rendered) : StreamOutcome :=
  if r.resident then .live else
    match r.clock with
    | .ok _ => .scheduled "Waiting" ""
    | .error reason => .error reason

def add (p : Placement) (key : Key) : Except StreamOutcome Rendered → Placement
  | .error said => { p with outcomes := p.outcomes ++ [(key, said)] }
  | .ok r =>
    ⟨p.outcomes ++ [(key, outcome r)], (place r p.sends p.queued).1, (place r p.sends p.queued).2⟩

end Placement

section
variable (x : Renderer) (m : Mirror) (bentos refused : OrdMap Key String)

def placeProject (p : Placement) (ns : String) : Placement :=
  (m.list ns "Pipeline").toList.foldl (fun p q =>
    p.add (Key.of ns q.1) (placePipeline x m bentos refused ns q.1 q.2)) p

def placement : Placement := m.namespaces.foldl (placeProject x m bentos refused) Placement.empty

end

/-! ## residency -/

section
variable {x : Renderer} {m : Mirror}

theorem mergedStream_stays {ns name : String} {spec : PipelineSpec} {slugs : List String}
    {stream : Value} {resident : Bool}
    (h : mergedStream x m ns name spec slugs = .ok (stream, resident)) :
    resident = staysResident x.toJcCore m ns spec := by
  unfold mergedStream at h
  cases hs : spec.sources.mapM (resolveSource x.toJcCore m ns) with
  | error err =>
    rw [hs] at h
    cases h
  | ok sources =>
    rw [hs] at h
    cases hr : x.renderMerged spec name ns sources slugs with
    | error err =>
      simp only [Except.bind, hr] at h
      cases h
    | ok rendered =>
      simp only [Except.bind, hr] at h
      cases h
      exact staysResident_of_resolved hs

theorem singleStream_stays {bento : Option String} {ns name slug : String} {spec : PipelineSpec}
    {stream : Value} {resident : Bool} (hone : spec.sources.length ≤ 1)
    (h : singleStream x m bento ns name spec slug = .ok (stream, resident)) :
    resident = staysResident x.toJcCore m ns spec := by
  unfold singleStream at h
  -- the first source is the only one
  obtain ⟨source, hsource⟩ : ∃ source, spec.sources = [source] := by
    cases hl : spec.sources with
    | nil =>
      rw [hl] at h
      cases h
    | cons source rest =>
      rw [hl, List.length_cons] at hone
      exact ⟨source, by rw [List.eq_nil_of_length_eq_zero (by omega : rest.length = 0)]⟩
  have hstays : staysResident x.toJcCore m ns spec = sourceStays x.toJcCore m ns source := by
    unfold staysResident
    rw [hsource, List.any_cons, List.any_nil, Bool.or_false]
  rw [hsource, List.head?_cons] at h
  simp only [Option.bind_some] at h
  rw [hstays]
  cases hd : source.dataSourceRef with
  | some reference =>
    simp only [hd] at h
    cases hs : dataSource x.toJcCore m ns reference.name with
    | error err =>
      simp only [hs] at h
      cases h
    | ok ds =>
      simp only [hs, Except.bind] at h
      cases hr : x.renderStream spec name ns ds reference.name slug bento with
      | error err =>
        simp only [hr] at h
        cases h
      | ok rendered =>
        simp only [hr] at h
        cases h
        exact (sourceStays_of_data hd hs).symm
  | none =>
    simp only [hd] at h
    cases he : source.endpointRef with
    | none =>
      simp only [he] at h
      cases h
    | some reference =>
      simp only [he] at h
      cases hp : endpointSlug m ns reference with
      | error err =>
        simp only [hp] at h
        cases h
      | ok p =>
        simp only [hp, Except.bind] at h
        cases hr : x.renderEndpointStream spec ns (ns ++ "/" ++ name) p.1 p.2 slug with
        | error err =>
          simp only [hr] at h
          cases h
        | ok rendered =>
          simp only [hr] at h
          cases h
          exact (sourceStays_of_endpoint hd he).symm

/-- **The residency a pass gives a pipeline is the one the quotas count**, whichever branch
rendered it. -/
theorem resident_eq {bento : Option String} {ns name : String} {document : Value} {r : Rendered}
    (h : renderPipeline x m bento ns name document = .ok r) :
    r.key = Key.of ns name ∧
      r.resident = counts x.toJcQuotas m ns "residentPipelines" "Pipeline" document := by
  unfold renderPipeline at h
  cases hp : x.pipelineSpec document with
  | error err =>
    rw [hp] at h
    cases h
  | ok spec =>
    cases ho : x.readsOnlyItsOwn spec with
    | error err =>
      simp only [hp, Except.bind, ho, Except.map] at h
      cases h
    | ok _ =>
      simp only [hp, Except.bind, ho, Except.map] at h
      split at h
      · cases h
      · split at h
        · cases h
        · rename_i hel
          have hel : eligible spec = true := by simpa using hel
          have hcounts : counts x.toJcQuotas m ns "residentPipelines" "Pipeline" document
              = staysResident x.toJcCore m ns spec := by
            rw [counts_resident, hp]
            simp only [isStreamPipeline_of_eligible hel, Bool.true_and]
          rw [hcounts]
          split at h
          · cases h
          · cases h
          · rename_i slug slugs _
            split at h
            · cases h
            · rename_i stream resident hstream
              cases h
              refine ⟨rfl, ?_⟩
              split at hstream
              · exact mergedStream_stays hstream
              · rename_i hmerged
                exact singleStream_stays (sources_of_not_merged (by simpa using hmerged)) hstream

theorem placePipeline_ok {bentos refused : OrdMap Key String} {ns name : String}
    {document : Value} {r : Rendered}
    (h : placePipeline x m bentos refused ns name document = .ok r) :
    name ∉ beyond x.toJcQuotas m ns "residentPipelines" ∧ r.key = Key.of ns name ∧
      r.resident = counts x.toJcQuotas m ns "residentPipelines" "Pipeline" document := by
  unfold placePipeline at h
  split at h
  · cases h
  · split at h
    · cases h
    · rename_i hb
      exact ⟨by simpa using hb, resident_eq h⟩

end

/-! ## the loop -/

/-- every pipeline of every project, in order -/
def pipelines (m : Mirror) : List (Key × Value) :=
  m.namespaces.flatMap (fun ns =>
    (m.list ns "Pipeline").toList.map (fun q => (Key.of ns q.1, q.2)))

theorem mem_pipelines {m : Mirror} {q : Key × Value} (h : q ∈ pipelines m) :
    m.get q.1.project "Pipeline" q.1.name = some q.2 := by
  obtain ⟨ns, _, hq⟩ := List.mem_flatMap.mp h
  obtain ⟨⟨name, document⟩, hmem, rfl⟩ := List.mem_map.mp hq
  rw [OrdMap.mem_toList, Mirror.list_get?] at hmem
  exact hmem

theorem pipelines_nodup (m : Mirror) : ((pipelines m).map Prod.fst).Nodup := by
  unfold pipelines
  rw [List.map_flatMap, List.nodup_flatMap]
  constructor
  · intro ns _
    rw [List.map_map]
    have hkeys : ((m.list ns "Pipeline").keys.map (Key.of ns)).Nodup :=
      (m.list ns "Pipeline").keys_nodup.map (fun a b h => congrArg Key.name h)
    rw [OrdMap.keys, List.map_map] at hkeys
    exact hkeys
  · refine m.namespaces_sorted.imp (fun {ns ns'} hlt => ?_)
    intro key h h'
    obtain ⟨q, hq, rfl⟩ := List.mem_map.mp h
    obtain ⟨q', hq', he⟩ := List.mem_map.mp h'
    obtain ⟨p, _, rfl⟩ := List.mem_map.mp hq
    obtain ⟨p', _, rfl⟩ := List.mem_map.mp hq'
    exact ne_of_gt hlt (congrArg Key.project he)

section
variable (x : Renderer) (m : Mirror) (bentos refused : OrdMap Key String)

def answer (q : Key × Value) : Except StreamOutcome Rendered :=
  placePipeline x m bentos refused q.1.project q.1.name q.2

theorem placement_eq : placement x m bentos refused =
    (pipelines m).foldl (fun p q => p.add q.1 (answer x m bentos refused q)) Placement.empty := by
  unfold placement pipelines
  rw [List.foldl_flatMap]
  congr 1
  funext p ns
  unfold placeProject
  rw [List.foldl_map]
  rfl

end

/-- whether a pipeline is sent to the runner on this pass -/
def isSent : Except StreamOutcome Rendered → Bool
  | .ok r => r.resident
  | .error _ => false

theorem foldl_add {f : Key × Value → Except StreamOutcome Rendered} (l : List (Key × Value))
    (hkey : ∀ q ∈ l, ∀ r, f q = .ok r → r.key = q.1) (p : Placement) :
    (l.foldl (fun p q => p.add q.1 (f q)) p).sends
      = p.sends ++ (l.filter (fun q => isSent (f q))).map Prod.fst ∧
    ∀ k, (l.foldl (fun p q => p.add q.1 (f q)) p).queued.get? k ≠ none →
      p.queued.get? k ≠ none ∨ ∃ q ∈ l, q.1 = k ∧ ∃ r, f q = .ok r ∧ r.resident = false := by
  induction l generalizing p with
  | nil => exact ⟨by simp, fun k h => Or.inl h⟩
  | cons q l ih =>
    obtain ⟨h1, h2⟩ := ih (fun q' hq' => hkey q' (List.mem_cons_of_mem _ hq')) (p.add q.1 (f q))
    have hlift : ∀ k, (∃ q' ∈ l, q'.1 = k ∧ ∃ r, f q' = .ok r ∧ r.resident = false) →
        ∃ q' ∈ q :: l, q'.1 = k ∧ ∃ r, f q' = .ok r ∧ r.resident = false :=
      fun k ⟨q', hq', h⟩ => ⟨q', List.mem_cons_of_mem _ hq', h⟩
    rw [List.foldl_cons, h1]
    cases hf : f q with
    | error said =>
      rw [hf] at h2
      refine ⟨?_, fun k hk => (h2 k hk).imp_right (hlift k)⟩
      rw [List.filter_cons_of_neg (by simp [hf, isSent])]
      rfl
    | ok r =>
      rw [hf] at h2
      have hk : r.key = q.1 := hkey q List.mem_cons_self r hf
      have hadd : (p.add q.1 (.ok r)).sends = (place r p.sends p.queued).1 ∧
          (p.add q.1 (.ok r)).queued = (place r p.sends p.queued).2 := ⟨rfl, rfl⟩
      rw [hadd.2] at h2
      rw [hadd.1]
      cases hres : r.resident with
      | true =>
        unfold place at h2 ⊢
        rw [if_pos hres] at h2 ⊢
        refine ⟨?_, fun k hk => (h2 k hk).imp_right (hlift k)⟩
        rw [List.filter_cons_of_pos (by simp [hf, isSent, hres]), List.map_cons, hk]
        simp
      | false =>
        have hsends : (place r p.sends p.queued).1 = p.sends := by
          unfold place
          rw [if_neg (by simp [hres])]
          split <;> rfl
        rw [hsends, List.filter_cons_of_neg (by simp [hf, isSent, hres])]
        refine ⟨rfl, fun k hq => ?_⟩
        rcases h2 k hq with hq | hq
        · -- the pipeline itself, or queued before it
          by_cases hkk : q.1 = k
          · exact Or.inr ⟨q, List.mem_cons_self, hkk, r, hf, hres⟩
          · refine Or.inl (fun hnone => hq ?_)
            unfold place
            rw [if_neg (by simp [hres])]
            split
            · show (p.queued.insert r.key _).get? k = none
              rw [OrdMap.get?_insert, if_neg (fun h => hkk (by rw [h, hk]))]
              exact hnone
            · exact hnone
        · exact Or.inr (hlift k hq)

/-! ## the quota of resident pipelines -/

section
variable {x : Renderer} {m : Mirror} {bentos refused : OrdMap Key String}

theorem answer_key {q : Key × Value} {r : Rendered} (h : answer x m bentos refused q = .ok r) :
    r.key = q.1 :=
  (placePipeline_ok h).2.1

theorem placement_sends : (placement x m bentos refused).sends =
    ((pipelines m).filter (fun q => isSent (answer x m bentos refused q))).map Prod.fst := by
  rw [placement_eq]
  exact (foldl_add (pipelines m) (fun q _ r => answer_key) Placement.empty).1

theorem sent_counted {key : Key} (h : key ∈ (placement x m bentos refused).sends) :
    key.name ∉ beyond x.toJcQuotas m key.project "residentPipelines" ∧
      key.name ∈ countedNames x.toJcQuotas m key.project "residentPipelines" "Pipeline" := by
  rw [placement_sends] at h
  obtain ⟨q, hq, rfl⟩ := List.mem_map.mp h
  obtain ⟨hmem, hsent⟩ := List.mem_filter.mp hq
  cases ha : answer x m bentos refused q with
  | error said =>
    rw [ha] at hsent
    exact absurd hsent (by simp [isSent])
  | ok r =>
    rw [ha] at hsent
    obtain ⟨hb, _, hres⟩ := placePipeline_ok ha
    refine ⟨hb, (mem_countedNames _ _ _).mpr ⟨q.2, mem_pipelines hmem, ?_⟩⟩
    rw [← hres]
    exact hsent

theorem queued_not_counted {key : Key}
    (h : (placement x m bentos refused).queued.get? key ≠ none) :
    key.name ∉ beyond x.toJcQuotas m key.project "residentPipelines" ∧
      key.name ∉ countedNames x.toJcQuotas m key.project "residentPipelines" "Pipeline" := by
  rw [placement_eq] at h
  rcases (foldl_add (pipelines m) (fun q _ r => answer_key) Placement.empty).2 key h with h | h
  · exact absurd rfl h
  · obtain ⟨q, hmem, rfl, r, ha, hres⟩ := h
    obtain ⟨hb, _, heq⟩ := placePipeline_ok ha
    refine ⟨hb, fun hc => ?_⟩
    obtain ⟨spec, hget, hspec⟩ := (mem_countedNames _ _ _).mp hc
    rw [mem_pipelines hmem] at hget
    obtain rfl := Option.some.inj hget
    rw [← heq, hres] at hspec
    exact absurd hspec (by simp)

end

/-- **The resident quota holds in the runner.**  Whatever a pass renders is resident exactly when
the quotas count it, so what it sends is counted and what it queues is not; of a project with a
limit it sends no more than the limit, all of them among the first counted names, and the names
past the limit are neither sent nor queued. -/
theorem resident_quota (x : Renderer) (m : Mirror) (bentos refused : OrdMap Key String)
    (project : String) :
    (∀ bento name document r, renderPipeline x m bento project name document = .ok r →
      r.resident = counts x.toJcQuotas m project "residentPipelines" "Pipeline" document) ∧
    (∀ name, (Key.of project name ∈ (placement x m bentos refused).sends →
        name ∈ countedNames x.toJcQuotas m project "residentPipelines" "Pipeline") ∧
      ((placement x m bentos refused).queued.get? (Key.of project name) ≠ none →
        name ∉ countedNames x.toJcQuotas m project "residentPipelines" "Pipeline")) ∧
    (countedNames x.toJcQuotas m project "residentPipelines" "Pipeline").Pairwise (· < ·) ∧
    ∀ n, limitOf x.toJcQuotas m project "residentPipelines" = some n →
      ((placement x m bentos refused).sends.filter (fun key => key.project = project)).length ≤ n ∧
      (∀ name, Key.of project name ∈ (placement x m bentos refused).sends →
        name ∈ (countedNames x.toJcQuotas m project "residentPipelines" "Pipeline").take n) ∧
      ∀ name ∈ (countedNames x.toJcQuotas m project "residentPipelines" "Pipeline").drop n,
        Key.of project name ∉ (placement x m bentos refused).sends ∧
        (placement x m bentos refused).queued.get? (Key.of project name) = none := by
  refine ⟨fun bento name document r h => (resident_eq h).2,
    fun name => ⟨fun h => (sent_counted h).2, fun h => (queued_not_counted h).2⟩,
    countedNames_sorted _ _, fun n hn => ?_⟩
  have hbeyond : beyond x.toJcQuotas m project "residentPipelines" =
      (countedNames x.toJcQuotas m project "residentPipelines" "Pipeline").drop n :=
    beyond_eq rfl hn
  -- a counted name that is not past the limit is one of the first
  have hfirst : ∀ name, Key.of project name ∈ (placement x m bentos refused).sends →
      name ∈ (countedNames x.toJcQuotas m project "residentPipelines" "Pipeline").take n := by
    intro name h
    obtain ⟨hb, hc⟩ := sent_counted h
    rw [← List.take_append_drop n (countedNames _ _ _ _ _)] at hc
    refine (List.mem_append.mp hc).resolve_right (fun hd => hb ?_)
    show name ∈ beyond x.toJcQuotas m project "residentPipelines"
    rw [hbeyond]
    exact hd
  refine ⟨?_, hfirst, fun name h => ⟨fun hs => ?_, ?_⟩⟩
  · have hnodup : ((placement x m bentos refused).sends.filter
        (fun key => key.project = project)).Nodup := by
      rw [placement_sends]
      exact ((pipelines_nodup m).sublist (List.filter_sublist.map _)).filter _
    have hsub : (placement x m bentos refused).sends.filter (fun key => key.project = project) ⊆
        ((countedNames x.toJcQuotas m project "residentPipelines" "Pipeline").take n).map
          (Key.of project) := by
      intro key hkey
      obtain ⟨hmem, hproject⟩ := List.mem_filter.mp hkey
      have hproject : key.project = project := by simpa using hproject
      have hof : Key.of project key.name = key := by rw [← hproject]; rfl
      exact List.mem_map.mpr ⟨key.name, hfirst key.name (hof ▸ hmem), hof⟩
    calc _ ≤ _ := (List.subperm_of_subset hnodup hsub).length_le
      _ = min n _ := by rw [List.length_map, List.length_take]
      _ ≤ n := Nat.min_le_left _ _
  · exact (sent_counted hs).1 (hbeyond ▸ h)
  · by_contra hq
    exact (queued_not_counted hq).1 (hbeyond ▸ h)

namespace Sample

def renderer : Renderer where
  toJcQuotas := jc
  readsOnlyItsOwn _ := .ok ()
  renderMerged spec _ _ _ _ := .ok spec.body
  renderStream spec _ _ _ _ _ _ := .ok spec.body
  renderEndpointStream spec _ _ _ _ _ := .ok spec.body
  oneRun _ stream := stream
  replacesAny _ := false

end Sample

/-- three pipelines read a broker and two may: the last by name is left out -/
theorem resident_quota_of_three :
    limitOf Sample.jc (Sample.mirror 2 "mqtt") "ovzdusie" "residentPipelines" = some 2 ∧
    (placement Sample.renderer (Sample.mirror 2 "mqtt") OrdMap.empty OrdMap.empty).sends =
      [Key.of "ovzdusie" "one", Key.of "ovzdusie" "three"] ∧
    (placement Sample.renderer (Sample.mirror 2 "mqtt") OrdMap.empty OrdMap.empty).queued.get?
      (Key.of "ovzdusie" "two") = none := by
  have hlimit :
      limitOf Sample.jc (Sample.mirror 2 "mqtt") "ovzdusie" "residentPipelines" = some 2 := by
    decide +kernel
  exact ⟨hlimit, by decide +kernel,
    (((resident_quota Sample.renderer (Sample.mirror 2 "mqtt") OrdMap.empty OrdMap.empty
      "ovzdusie").2.2.2 2 hlimit).2.2 "two" (by decide +kernel)).2⟩

end Portal
