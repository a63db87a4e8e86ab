import Portal.Import.Frame

/-!
# Access requests (`access_requests.rs`)

A pipeline asks for its account's read or write on an Endpoint of another space, a person for their
own read.  Approving proposes the Endpoint admitting the pipeline's project and one Policy for the
account, under a name made of the Endpoint's, the project's and the pipeline's; revoking proposes that
Policy ended, and the Endpoint without the project when no other Policy with such a name is in force.

* `AccessRequest`, `policyName`   a stored request, and the Policy that carries its grant;
* `grantBundle`, `revokeBundle`   what approving and revoking propose;
* `grantBundle_policy`, `revokeBundle_policy`   the one Policy each of them writes.
-/

namespace Portal
namespace AccessRequests

open Changes Import

/-! ## requests -/

inductive Operations where
  | read
  | write
  | history
deriving DecidableEq

def Operations.policyOperations : Operations → Value
  | .read => .array [.string "retrieveOps"]
  | .history => .array [.string "retrieveOps", .string "queryTemporal"]
  | .write => .array [.string "upsertBatch", .string "createBatch", .string "queryBatch"]

/-- one entity type and the attributes asked for on it; none for all of them -/
structure TypeGrant where
  entityType : String
  attrs : List String
deriving DecidableEq

inductive Requester where
  | pipeline (name : String)
  | person (id : String)
deriving DecidableEq

inductive State where
  | pending
  | approved
  | declined
  | revoked
deriving DecidableEq

structure AccessRequest where
  id : String
  /-- the pipeline's project; for a person's request the Endpoint's own -/
  project : String
  requester : Requester
  endpointProject : String
  endpoint : String
  space : String
  operations : Operations
  types : List TypeGrant
  until? : Option Int
  reason : String
  state : State
  requestedBy : String
  decidedBy : Option String
  decidedAt : Option Int
  decisionReason : Option String
  change : Option String
deriving DecidableEq

/-- the `time` crate's RFC 3339 -/
structure Rfc3339 where
  format : Int → String
  parse : String → Option Int

namespace AccessRequest
variable (r : AccessRequest)

def account : String :=
  match r.requester with
  | .pipeline pipeline => r.project ++ "/pl-" ++ pipeline
  | .person person => person

def policyName : String :=
  match r.requester with
  | .pipeline pipeline => r.endpoint ++ "-" ++ r.project ++ "-" ++ pipeline
  | .person _ => if r.endpoint.utf8ByteSize ≤ 47 then r.endpoint ++ "-" ++ r.id else "access-" ++ r.id

def pipeline : Option String :=
  match r.requester with
  | .pipeline pipeline => some pipeline
  | .person _ => none

end AccessRequest

/-! ## manifests -/

abbrev Of (kind : String) := {e : Envelope // e.kind = kind}

/-- a manifest as the import takes it back: without the status the platform computed -/
def writable (e : Envelope) : Envelope := { e with status := none }

/-- `value[key] = v`, which makes null an object -/
def setMember (key : String) (v : Value) : Value → Value
  | .object fields => .object (insertMember key v fields)
  | .null => .object [(key, v)]
  | other => other

/-- the projects an Endpoint's list admits -/
def allowedProjects (spec : Value) : List Value :=
  ((spec.get? "allowedProjects").bind Value.asArray).getD []

def isListed (endpoint : Envelope) : Bool :=
  let audience := (textAt endpoint.spec "audience").getD "project"
  audience ≠ "organization" && audience ≠ "public"

def admitting (endpoint : Envelope) (project : String) : Envelope :=
  let allowed := (allowedProjects endpoint.spec).filterMap Value.asStr
  let allowed := if allowed.contains project then allowed else allowed ++ [project]
  { writable endpoint with
    spec := setMember "allowedProjects" (.array (allowed.map Value.string))
      (setMember "audience" (.string "project-list") endpoint.spec) }

def without (endpoint : Envelope) (project : String) : Envelope :=
  { writable endpoint with
    spec := mapMember "allowedProjects"
      (fun list => match list with
        | .array items => .array (items.filter (fun p => p ≠ .string project))
        | other => other) endpoint.spec }

/-- the information a Policy of the request covers -/
def information (types : List TypeGrant) : Value :=
  .array (types.map fun grant =>
    .object ([("entities", .array [.object [("type", .string grant.entityType)]])]
      ++ if grant.attrs.isEmpty then []
        else [("propertyNames", .array (grant.attrs.map Value.string))]))

/-- what the description of a request's Policy says -/
def description (r : AccessRequest) : String := "Access request " ++ r.id ++ ": " ++ r.reason

section
variable (t : Rfc3339) (apiVersion : String)

def grant (r : AccessRequest) : Envelope where
  apiVersion
  kind := "Policy"
  name := r.policyName
  ns := some r.endpointProject
  metadata := [("description", .object [("en", .string (description r))])]
  spec := .object ([
    ("contextSpaceRef", .object [("kind", .string "ContextSpace"), ("name", .string r.space)]),
    ("assigner", .string ownAssigner),
    ("assignee", .object [
      ("kind", .string (if r.pipeline.isSome then "serviceAccount" else "user")),
      ("id", .string r.account)]),
    ("operations", r.operations.policyOperations),
    ("information", information r.types)]
    ++ (r.until?.map fun u => ("validity", Value.object [("to", .string (t.format u))])).toList)
  status := none
  beside := by simp

def grantBundle (r : AccessRequest) (endpoint : Of "Endpoint") : List Envelope :=
  (if r.pipeline.isSome && isListed endpoint.val then [admitting endpoint.val r.project] else [])
    ++ [grant t apiVersion r]

def endsAt (policy : Envelope) : Option Int :=
  (((policy.spec.get? "validity").bind (textAt · "to"))).bind t.parse

def inForce (now : Int) (policy : Envelope) : Bool := (endsAt t policy).all (fun ends => now < ends)

def ended (now : Int) (policy : Envelope) : Envelope :=
  { writable policy with
    spec := setMember "validity"
      (setMember "to" (.string (t.format now)) ((policy.spec.get? "validity").getD .null))
      policy.spec }

/-- the name every Policy of the Endpoint for the requesting project begins with -/
def share (r : AccessRequest) : String := r.endpoint ++ "-" ++ r.project

/-- whether a Policy goes by a name of that kind -/
def shares (r : AccessRequest) (name : String) : Bool :=
  name = share r || Text.startsWith (share r ++ "-") name

/-- whether another Policy with such a name is in force -/
def othersRemain (r : AccessRequest) (policies : List (Of "Policy")) (now : Int) : Bool :=
  policies.any fun p =>
    p.val.name ≠ r.policyName && shares r p.val.name && inForce t now p.val

/-- whether the Endpoint admits the requesting project by its list -/
def listed (r : AccessRequest) (endpoint : Option (Of "Endpoint")) : Bool :=
  r.pipeline.isSome &&
    endpoint.any fun e => (allowedProjects e.val.spec).contains (.string r.project)

def ownPolicy (r : AccessRequest) (policies : List (Of "Policy")) : Option (Of "Policy") :=
  policies.find? fun p => p.val.name = r.policyName

def revokeBundle (r : AccessRequest) (endpoint : Option (Of "Endpoint"))
    (policies : List (Of "Policy")) (now : Int) : List Envelope :=
  (if listed r endpoint && !othersRemain t r policies now then
    endpoint.toList.map fun e => without e.val r.project
  else [])
    ++ (ownPolicy r policies).toList.map fun p => ended t now p.val

/-! ## the Policy a bundle writes -/

variable {t apiVersion}

theorem grantBundle_policy {r : AccessRequest} {endpoint : Of "Endpoint"} {e : Envelope}
    (he : e ∈ grantBundle t apiVersion r endpoint) (hkind : e.kind = "Policy") :
    e = grant t apiVersion r := by
  rcases List.mem_append.mp he with hendpoint | hgrant
  · split at hendpoint
    · obtain rfl := List.mem_singleton.mp hendpoint
      have hkind' : endpoint.val.kind = "Policy" := hkind
      rw [endpoint.property] at hkind'
      exact absurd hkind' (by decide)
    · cases hendpoint
  · exact List.mem_singleton.mp hgrant

theorem revokeBundle_policy {r : AccessRequest} {endpoint : Option (Of "Endpoint")}
    {policies : List (Of "Policy")} {now : Int} {e : Envelope}
    (he : e ∈ revokeBundle t r endpoint policies now) (hkind : e.kind = "Policy") :
    ∃ p, ownPolicy r policies = some p ∧ e = ended t now p.val := by
  rcases List.mem_append.mp he with hendpoint | hpolicy
  · split at hendpoint
    · obtain ⟨w, -, rfl⟩ := List.mem_map.mp hendpoint
      have hkind' : w.val.kind = "Policy" := hkind
      rw [w.property] at hkind'
      exact absurd hkind' (by decide)
    · cases hendpoint
  · obtain ⟨p, hp, rfl⟩ := List.mem_map.mp hpolicy
    exact ⟨p, by simpa using hp, rfl⟩

theorem name_ownPolicy {r : AccessRequest} {policies : List (Of "Policy")} {p : Of "Policy"}
    (h : ownPolicy r policies = some p) : p.val.name = r.policyName := by
  simpa using List.find?_some h

end

end AccessRequests
end Portal
