import Portal.AccessRequests.Request
import Portal.Base.Pieces

/-!
# Grants of different requesters (`access_requests.rs`: `policy_name`, `revoke_bundle`)

The Policy of a pipeline's request is named by its Endpoint, its project and its pipeline, joined by
hyphens that each of them may hold itself, and whether the project still has another grant on the
Endpoint is read off the beginning of such names.

* `parts`                  the hyphenated parts of the three names in turn: `policyName_eq_iff`;
* `planned_name`           an import that replaces writes the manifests of its bundle, by name;
* `GrantedOn`              a Policy that a pipeline of a project was granted on an Endpoint;
* `grants_apart_iff`       **when one request leaves another's Policy and the Endpoint's list alone**.
-/

namespace Portal

namespace AccessRequests

open Changes Import Access

/-! ## names -/

/-- the parts of a name between its hyphens -/
def hyphenated (name : String) : List (List Char) := Text.split (· = '-') name.toList

/-- the parts of the names a pipeline's Policy is named by, in turn -/
def parts (r : AccessRequest) (pipeline : String) : List (List Char) :=
  hyphenated r.endpoint ++ hyphenated r.project ++ hyphenated pipeline

theorem hyphenated_join (a b : String) :
    hyphenated (a ++ "-" ++ b) = hyphenated a ++ hyphenated b := by
  have hsep := Text.split_append_sep (p := (· = '-')) (c := '-') (by simp) a.toList b.toList
  simpa [hyphenated] using hsep

theorem hyphenated_policyName {r : AccessRequest} {pipeline : String}
    (hr : r.requester = .pipeline pipeline) : hyphenated r.policyName = parts r pipeline := by
  unfold AccessRequest.policyName parts
  rw [hr]
  dsimp only
  rw [hyphenated_join, hyphenated_join]

/-- **Two Policies have one name exactly where the parts of the names in it are the same.** -/
theorem policyName_eq_iff {r q : AccessRequest} {pipeline pipeline' : String}
    (hr : r.requester = .pipeline pipeline) (hq : q.requester = .pipeline pipeline') :
    r.policyName = q.policyName ↔ parts r pipeline = parts q pipeline' := by
  rw [← hyphenated_policyName hr, ← hyphenated_policyName hq]
  constructor
  · intro h
    rw [h]
  · intro h
    exact String.toList_inj.mp (Text.split_inj h)

/-- two requests of pipelines on Endpoints of one owning project that differ in Endpoint, project or
pipeline -/
structure Rivals (r q : AccessRequest) (pipeline pipeline' : String) : Prop where
  mine : r.requester = .pipeline pipeline
  other : q.requester = .pipeline pipeline'
  owner : r.endpointProject = q.endpointProject
  differ : (r.endpoint, r.project, pipeline) ≠ (q.endpoint, q.project, pipeline')

/-! ## what an import that replaces writes -/

/-- **An import that replaces keeps the names**: each manifest it plans is one of its bundle's. -/
theorem planned_name {x : JcAccess} {s : Served} {c : Caller} {project domain : String}
    {incoming : List Incoming} {report : ImportReport} {files : List (String × Content)}
    (h : planImport x s c project domain (importWith .replace) incoming = .ok (report, files))
    {f : String × Content} (hf : f ∈ files) {w : Envelope} (hw : f.2 = .manifest w) :
    ∃ e ∈ imported incoming, w.kind = e.kind ∧ w.name = e.name := by
  obtain ⟨judged, groups, filed, groupFiles, -, hjudged, -, hgroups, hfiled, hgroupFiles, rfl, -⟩ :=
    planImport_ok h
  rcases List.mem_append.mp hf with hf | hf
  · rcases List.mem_append.mp hf with hf | hf
    · obtain ⟨e, he, w', hew, -, hcontent⟩ :=
        Gate.exists_of_forall₂ (filed_ok hgroups hfiled).flip hf
      have hsame : w = annotated s.importedFrom ((sourceOf incoming).getD "upload") w' := by
        simpa [hw] using hcontent
      rw [kept_eq hjudged] at he
      obtain ⟨e', he', hgoes⟩ := List.mem_filterMap.mp he
      refine ⟨e', he', ?_⟩
      subst hsame
      have hkeeps : e.kind = e'.kind ∧ e.name = e'.name := by
        unfold goesIn at hgoes
        dsimp only at hgoes
        split at hgoes
        · exact Option.some.inj hgoes ▸ ⟨rfl, rfl⟩
        · exact Option.some.inj hgoes ▸ ⟨rfl, rfl⟩
      exact ⟨hew.kind.trans hkeeps.1, hew.name.trans hkeeps.2⟩
    · obtain ⟨e, -, he⟩ := Gate.exists_of_forall₂ (Gate.mapM_eq_ok.mp hgroupFiles).flip hf
      rw [(groupFile_ok he).1] at hw
      cases hw
  · obtain ⟨n, -, rfl⟩ := List.mem_map.mp hf
    cases hw

def Leaves (name : String) (files : List (String × Content)) : Prop :=
  ∀ f ∈ files, ∀ w, f.2 = .manifest w → w.kind = "Policy" → w.name ≠ name

/-- an import of a bundle, as deciding a request proposes it, leaves a Policy alone -/
def Spares (owner : String) (bundle : List Envelope) (name : String) : Prop :=
  ∀ x s c domain report files,
    planImport x s c owner domain (importWith .replace) (bundle.map uploaded) = .ok (report, files) →
    Leaves name files

theorem spares_of_names {owner name : String} {bundle : List Envelope}
    (h : ∀ e ∈ bundle, e.kind = "Policy" → e.name ≠ name) : Spares owner bundle name := by
  intro x s c domain report files hplan f hf w hw hkind
  obtain ⟨e, he, hek, hen⟩ := planned_name hplan hf hw
  have hmem : e ∈ bundle := by
    have hall : e ∈ manifestsOf (bundle.map uploaded) := (List.mem_filter.mp he).1
    simpa [uploaded, List.filterMap_map] using (List.mem_filter.mp hall).1
  rw [hen]
  exact h e hmem (hek ▸ hkind)

section
variable (t : Rfc3339) (apiVersion : String)

/-- **A request keeps off another's Policy**: their names differ, and approving, replacing or
revoking the one never writes the Policy of the other. -/
structure KeepsOff (r q : AccessRequest) : Prop where
  names : r.policyName ≠ q.policyName
  approve : ∀ endpoint, Spares r.endpointProject (grantBundle t apiVersion r endpoint) q.policyName
  revoke : ∀ endpoint policies now,
    Spares r.endpointProject (revokeBundle t r endpoint policies now) q.policyName

variable {t apiVersion} in
theorem keepsOff_of_names {r q : AccessRequest} (h : r.policyName ≠ q.policyName) :
    KeepsOff t apiVersion r q where
  names := h
  approve endpoint := spares_of_names (fun e he hkind => by
    rw [grantBundle_policy he hkind]
    exact h)
  revoke endpoint policies now := spares_of_names (fun e he hkind => by
    obtain ⟨p, hp, rfl⟩ := revokeBundle_policy he hkind
    have hname : (ended t now p.val).name = r.policyName := name_ownPolicy hp
    rw [hname]
    exact h)

/-! ## the Endpoint's list -/

def assignee (policy : Envelope) : Option (String × String) := do
  let a ← policy.spec.get? "assignee"
  return (← textAt a "kind", ← textAt a "id")

def GrantedOn (endpoint project : String) (policy : Envelope) : Prop :=
  ∃ pipeline, policy.name = endpoint ++ "-" ++ project ++ "-" ++ pipeline ∧
    assignee policy = some ("serviceAccount", project ++ "/pl-" ++ pipeline)

def GrantRemains (r : AccessRequest) (policies : List (Of "Policy")) (now : Int) : Prop :=
  ∃ p ∈ policies, p.val.name ≠ r.policyName ∧ inForce t now p.val = true ∧
    GrantedOn r.endpoint r.project p.val

def TakesOut (r : AccessRequest) (endpoint : Of "Endpoint") (policies : List (Of "Policy"))
    (now : Int) : Prop :=
  ∃ w ∈ revokeBundle t r (some endpoint) policies now, w.kind = "Endpoint" ∧
    Value.string r.project ∉ allowedProjects w.spec

variable {t}

theorem mem_allowedProjects_without (endpoint : Envelope) (project : String) :
    Value.string project ∉ allowedProjects (without endpoint project).spec := by
  unfold allowedProjects without
  dsimp only
  rw [get?_mapMember]
  simp only [if_true]
  cases hlist : endpoint.spec.get? "allowedProjects" with
  | none => simp
  | some list => cases list <;> simp [Value.asArray]

theorem takesOut_iff {r : AccessRequest} {endpoint : Of "Endpoint"} {policies : List (Of "Policy")}
    {now : Int} (hlisted : listed r (some endpoint) = true) :
    TakesOut t r endpoint policies now ↔ othersRemain t r policies now = false := by
  constructor
  · rintro ⟨w, hw, hkind, -⟩
    rcases List.mem_append.mp hw with hendpoint | hpolicy
    · split at hendpoint
      · rename_i hgoes
        simpa [hlisted] using hgoes
      · cases hendpoint
    · obtain ⟨p, -, rfl⟩ := List.mem_map.mp hpolicy
      have hkind' : p.val.kind = "Endpoint" := hkind
      rw [p.property] at hkind'
      exact absurd hkind' (by decide)
  · intro hothers
    refine ⟨without endpoint.val r.project, List.mem_append_left _ ?_, endpoint.property,
      mem_allowedProjects_without _ _⟩
    simp [hlisted, hothers]

theorem shares_of_grantedOn {r : AccessRequest} {policy : Envelope}
    (h : GrantedOn r.endpoint r.project policy) : shares r policy.name = true := by
  obtain ⟨pipeline, hname, -⟩ := h
  have hstarts : Text.startsWith (share r ++ "-") policy.name = true := by
    rw [hname]
    exact startsWith_append _ _
  simp [shares, hstarts]

theorem othersRemain_of_grantRemains {r : AccessRequest} {policies : List (Of "Policy")} {now : Int}
    (h : GrantRemains t r policies now) : othersRemain t r policies now = true := by
  obtain ⟨p, hp, hother, hforce, hgranted⟩ := h
  refine List.any_eq_true.mpr ⟨p, hp, ?_⟩
  simp [hother, hforce, shares_of_grantedOn hgranted]

/-- **Grants of different requesters keep apart exactly where names do not run together**: the
hyphenated parts of the two requests' names differ in their sequence, and where the Endpoint lists
the project and another Policy in force is named as its grants are, one of its grants is in force. -/
theorem grants_apart_iff (t : Rfc3339) (apiVersion : String) (r q : AccessRequest)
    (pipeline pipeline' : String) (endpoint : Of "Endpoint") (policies : List (Of "Policy"))
    (now : Int) :
    ((Rivals r q pipeline pipeline' → KeepsOff t apiVersion r q) ∧
      (listed r (some endpoint) = true →
        (TakesOut t r endpoint policies now ↔ ¬ GrantRemains t r policies now))) ↔
    ((Rivals r q pipeline pipeline' → parts r pipeline ≠ parts q pipeline') ∧
      (listed r (some endpoint) = true → othersRemain t r policies now = true →
        GrantRemains t r policies now)) := by
  refine and_congr ?_ ?_
  · refine forall_congr' (fun hrivals => ?_)
    have hname := policyName_eq_iff hrivals.mine hrivals.other
    exact ⟨fun h hparts => h.names (hname.mpr hparts),
      fun h => keepsOff_of_names (fun hsame => h (hname.mp hsame))⟩
  · refine forall_congr' (fun hlisted => ?_)
    rw [takesOut_iff hlisted]
    constructor
    · intro h hothers
      by_contra hnone
      rw [h.mpr hnone] at hothers
      cases hothers
    · intro h
      constructor
      · intro hothers hremains
        rw [othersRemain_of_grantRemains hremains] at hothers
        cases hothers
      · intro hnone
        cases hothers : othersRemain t r policies now with
        | false => rfl
        | true => exact absurd (h hothers) hnone

end

/-! ### two splits of one name -/

def asks (endpoint project pipeline : String) : AccessRequest where
  id := "ar-0a1b2c3d4e5f"
  project
  requester := .pipeline pipeline
  endpointProject := "helsinki"
  endpoint
  space := "air"
  operations := .read
  types := [⟨"AirQualityObserved", ["pm10"]⟩]
  until? := none
  reason := "air index"
  state := .approved
  requestedBy := "jana"
  decidedBy := none
  decidedAt := none
  decisionReason := none
  change := none

def airEndpoint : Of "Endpoint" :=
  ⟨⟨"joinedcontext.com/v1", "Endpoint", "air", some "helsinki", [],
    .object [("audience", .string "project-list"), ("allowedProjects", .array [.string "city"])],
    none, Envelope.beside_nil⟩, rfl⟩

def noTime : Rfc3339 := ⟨fun _ => "", fun _ => none⟩

/-- **Names run together**: the Policy of `kpis/pm` on `air-city` is that of `city-kpis/pm` on `air`,
and it keeps the project `city` on the list of `air` when the grant of `city/pm` is revoked. -/
theorem names_run_together :
    ¬ ((Rivals (asks "air" "city-kpis" "pm") (asks "air-city" "kpis" "pm") "pm" "pm" →
        KeepsOff noTime "v1" (asks "air" "city-kpis" "pm") (asks "air-city" "kpis" "pm")) ∨
      (listed (asks "air" "city" "pm") (some airEndpoint) = true →
        (TakesOut noTime (asks "air" "city" "pm") airEndpoint
            [⟨grant noTime "v1" (asks "air" "city-kpis" "pm"), rfl⟩] 0 ↔
          ¬ GrantRemains noTime (asks "air" "city" "pm")
            [⟨grant noTime "v1" (asks "air" "city-kpis" "pm"), rfl⟩] 0))) := by
  rintro (h | h)
  · have hrivals : Rivals (asks "air" "city-kpis" "pm") (asks "air-city" "kpis" "pm") "pm" "pm" :=
      ⟨rfl, rfl, rfl, by decide⟩
    exact (h hrivals).names (by decide +kernel)
  · have hlisted : listed (asks "air" "city" "pm") (some airEndpoint) = true := by decide +kernel
    have hothers : othersRemain noTime (asks "air" "city" "pm")
        [⟨grant noTime "v1" (asks "air" "city-kpis" "pm"), rfl⟩] 0 = true := by decide +kernel
    have hstays := (h hlisted).not.mp (by rw [takesOut_iff hlisted, hothers]; simp)
    obtain ⟨p, hp, -, -, pipeline, -, hassignee⟩ := not_not.mp hstays
    obtain rfl := List.mem_singleton.mp hp
    -- the Policy is assigned to an account of another project
    have haccount : ("city-kpis/pl-pm" : String) = "city" ++ "/pl-" ++ pipeline := by
      have hpair := Option.some.inj (hassignee : some ("serviceAccount", "city-kpis/pl-pm") = _)
      exact congrArg Prod.snd hpair
    have hchars := congrArg (fun text => text.toList.take 5) haccount
    simp at hchars

end AccessRequests
end Portal
