import Portal.Base.Machine
import Portal.Base.OrdMap
import Portal.Connectors.Above

/-!
# Approvals above the ceiling (`api/connectors.rs`: `edit_connector`, `approve_connector`,
`within_own_rights`; `connectors.rs`: `ConnectorStore`)

A connector that asks above its owner's ceiling waits for another person, who reads it, is held to
their own rights over all it asks, and lets it through by its id.  An edit keeps the approval where
every line above the ceiling stood there before.

* `Record`, `State`, `step`   the store, and the calls between their read and their write;
* `withinOwnRights`           the rights an approver is held to;
* `Covered`                   what a connector holds above the ceiling was part of what was read;
* `Plain`                     the condition on a step;
* `covered_edit`              an edit that keeps its approval asks nothing that was not approved;
* `approved_as_read`          an approval covers what its approver read;
* `unread_approved`           an edit between the read and the write.
-/

namespace Portal
namespace Connectors

/-! ## the store -/

structure GrantDoc extends Asked where
  pending : Bool
  above : List String
  approval : Option Approval
  /-- when an edit last judged it; absent: at its creation -/
  grantedAt : Option Int
deriving DecidableEq

structure Record where
  owner : String
  name : String
  grant : GrantDoc
  createdAt : Int
  revokedAt : Option Int
deriving DecidableEq

def Record.judgedAt (r : Record) : Int := r.grant.grantedAt.getD r.createdAt

def Record.state (r : Record) (now : Int) : ConnectorState :=
  if r.revokedAt.isSome then .revoked
  else if r.grant.pending then .pending
  else if r.grant.expiresAt ≤ now then .expired
  else .active

def Record.view (id : String) (r : Record) (now : Int) : Connector where
  id := id
  name := r.name
  owner := r.owner
  segments := r.grant.segments
  scope := r.grant.scope
  kinds := r.grant.kinds
  writes := r.grant.writes
  autonomous := r.grant.autonomous
  expiresAt := r.grant.expiresAt
  allowedClients := r.grant.allowedClients
  state := r.state now
  aboveCeiling := r.grant.above
  approval := r.grant.approval
  grantedAt := r.judgedAt

def Connector.asked (c : Connector) : Asked where
  segments := c.segments
  scope := c.scope
  kinds := c.kinds
  writes := c.writes
  autonomous := c.autonomous
  expiresAt := c.expiresAt
  allowedClients := c.allowedClients

/-! ## the approver's rights -/

/-- whether a person holds a right on a kind in a namespace -/
abbrev Rights := String → String → String → Access.Verb → Bool

def verbDebug : Access.Verb → String
  | .read => "Read"
  | .propose => "Propose"
  | .approve => "Approve"
  | .delete => "Delete"

section
variable (x : JcDelegation) (home : String → String → String)

def rightsAsked (c : Connector) (item : ScopeItem) (kind : String) : List Access.Verb :=
  .read :: (if item.access = .write then
    .propose :: (if (c.mayVerb x.verbsAllow kind "" .delete).isOk then [.delete] else [])
  else [])

def withinOwnRights (may : Rights) (approver : String) (c : Connector) : Except ApiError Unit :=
  match c.scope.zipIdx.findSome? (fun p => c.reach.2.findSome? (fun kind =>
      ((rightsAsked x c p.1 kind).find? (fun v => !may approver (home kind p.1.project) kind v)).map
        (fun v => (p, kind, v)))) with
  | none => .ok ()
  | some (p, kind, verb) =>
    .error (.denied ("scope[" ++ toString p.2 ++ "]: the connector asks " ++ verbDebug verb ++ " on "
      ++ kind ++ " in " ++ home kind p.1.project ++ " (project " ++ p.1.project
      ++ "), which you do not hold; nobody approves above their own rights (PF-51)"))

end

/-! ## the calls -/

/-- the fields an edit changes -/
structure ConnectorPatch where
  segments : Option (List String)
  scope : Option (List ScopeItem)
  kinds : Option (List KindGrant)
  writes : Option Bool
  autonomous : Option Bool
  expiresAt : Option Int
  allowedClients : Option (List String)

def Asked.patched (current : Asked) (patch : ConnectorPatch) : Asked where
  segments := patch.segments.getD current.segments
  scope := patch.scope.getD current.scope
  kinds := patch.kinds.orElse (fun _ => current.kinds)
  writes := patch.writes.getD current.writes
  autonomous := patch.autonomous.getD current.autonomous
  expiresAt := patch.expiresAt.getD current.expiresAt
  allowedClients := patch.allowedClients.getD current.allowedClients

/-- an edit between its checks and its write -/
structure Edit where
  id : String
  owner : String
  asked : Asked
  above : List String
  approval : Option Approval
  /-- when it was judged -/
  now : Int

/-- an approval between its read and its write -/
structure Approving where
  approver : String
  /-- the connector as it was read -/
  connector : Connector
  checked : Bool

structure Read where
  approver : String
  connector : Connector
  rights : Rights

structure State where
  records : OrdMap String Record
  /-- the rights of everyone, now -/
  rights : Rights
  edits : Nat → Option Edit
  approvals : Nat → Option Approving
  /-- what approvers read and were found to hold, the last first -/
  reads : List Read

def State.start (rights : Rights) : State :=
  ⟨OrdMap.empty, rights, fun _ => none, fun _ => none, []⟩

inductive Act where
  | rights (may : Rights)
  | create (id owner name : String) (asked : Asked) (now : Int)
  | editRead (k : Nat) (id owner : String) (patch : ConnectorPatch) (now : Int)
  | editStore (k : Nat) (now : Int)
  | approveRead (k : Nat) (id approver : String) (now : Int)
  | approveCheck (k : Nat)
  | approveStore (k : Nat) (now : Int)
  | revoke (id owner : String) (now : Int)

def maxPerPerson : Nat := 20

def State.live (s : State) (owner : String) : List Record :=
  (s.records.toList.map Prod.snd).filter (fun r => r.owner = owner && r.revokedAt.isNone)

def newGrant (asked : Asked) (above : List String) (approval : Option Approval)
    (grantedAt : Option Int) : GrantDoc :=
  { asked with
    pending := !above.isEmpty && approval.isNone
    above := above
    approval := approval
    grantedAt := grantedAt }

/-- the approval an edit keeps: one whose lines cover every line of the edit -/
def keptApproval (current : GrantDoc) (lines : List String) : Option Approval :=
  current.approval.filter (fun _ => !lines.isEmpty && lines.all current.above.contains)

section
variable (x : JcDelegation) (y : Shapes) (home : String → String → String)
  (ceil : String → Ceiling)

def step (s : State) (a : Act) : Option State :=
  match a with
  | .rights may => some { s with rights := may }
  | .create id owner name asked now =>
    match validate x y (ceil owner) asked name now with
    | .error _ => some s
    | .ok lines =>
      -- an id is 26 random characters: one that is there is not given again
      if (s.records.get? id).isSome || maxPerPerson ≤ (s.live owner).length
          || (s.live owner).any (fun r => r.name = name) then some s
      else some { s with
        records := s.records.insert id ⟨owner, name, newGrant asked lines none none, now, none⟩ }
  | .editRead k id owner patch now =>
    match s.records.get? id with
    | none => some s
    | some r =>
      if r.owner ≠ owner then some s
      else
        let asked := r.grant.toAsked.patched patch
        match validate x y (ceil owner) asked r.name now with
        | .error _ => some s
        | .ok lines =>
          let edit := some ⟨id, owner, asked, lines, keptApproval r.grant lines, now⟩
          some { s with edits := Function.update s.edits k edit }
  | .editStore k now =>
    match s.edits k with
    | none => none
    | some e =>
      -- the clock does not run back during a call
      if now < e.now then none
      else
        let s := { s with edits := Function.update s.edits k none }
        match s.records.get? e.id with
        | none => some s
        | some r =>
          if r.owner ≠ e.owner || r.revokedAt.isSome then some s
          else
            let r := { r with grant := newGrant e.asked e.above e.approval (some now) }
            some { s with records := s.records.insert e.id r }
  | .approveRead k id approver now =>
    match s.records.get? id with
    | none => some s
    | some r =>
      if r.state now ≠ .pending || r.owner = approver then some s
      else
        let approval := some ⟨approver, r.view id now, false⟩
        some { s with approvals := Function.update s.approvals k approval }
  | .approveCheck k =>
    match s.approvals k with
    | none => none
    | some a =>
      match withinOwnRights x home s.rights a.approver a.connector with
      | .error _ => some { s with approvals := Function.update s.approvals k none }
      | .ok _ => some { s with
          approvals := Function.update s.approvals k (some { a with checked := true })
          reads := ⟨a.approver, a.connector, s.rights⟩ :: s.reads }
  | .approveStore k now =>
    match s.approvals k with
    | none => none
    | some a =>
      if !a.checked then none
      else
        let s := { s with approvals := Function.update s.approvals k none }
        match s.records.get? a.connector.id with
        | none => some s
        | some r =>
          if r.revokedAt.isSome || !r.grant.pending then some s
          else
            let grant := { r.grant with pending := false, approval := some ⟨a.approver, now⟩ }
            some { s with records := s.records.insert a.connector.id { r with grant := grant } }
  | .revoke id owner now =>
    match s.records.get? id with
    | none => some s
    | some r =>
      if r.owner ≠ owner || r.revokedAt.isSome then some s
      else some { s with records := s.records.insert id { r with revokedAt := some now } }

end

/-! ## what an approval covers -/

/-- the verbs a request holds on kinds: those of its list, or without one every change of a kind its
segments reach -/
def held (asked : Asked) : List (String × ConnectorVerb) :=
  match asked.kinds with
  | some kinds => kinds.flatMap (fun e => (e.verbs.flatMap wanted).map (fun v => (e.kind, v)))
  | none => (reachOf (fun segment => asked.segments.any (fun s => s = segment || s = admin))).2.flatMap
      (fun kind => [ConnectorVerb.create, .edit, .delete, .run].map (fun v => (kind, v)))

/-- the verbs a request's list names, `propose` not taken apart -/
def ticked (asked : Asked) : List (String × ConnectorVerb) :=
  (asked.kinds.getD []).flatMap (fun e => e.verbs.map (fun v => (e.kind, v)))

section
variable (x : JcDelegation) (ceiling : Ceiling)

/-- every segment, project, Endpoint, verb, client, switch and expiry that `asked`, judged at `now`,
holds above the ceiling is part of `read` -/
structure Covered (now : Int) (asked read : Asked) : Prop where
  segments : ∀ segment ∈ asked.segments, ceiling.allowsSegment x segment = false →
    segment ∈ read.segments
  projects : ∀ item ∈ asked.scope, ceiling.allowsProjectName item.project = false →
    ∃ item' ∈ read.scope, item'.project = item.project
  endpoints : ∀ item ∈ asked.scope, ceiling.allowsEndpoint item.project item.endpoint = false →
    ∃ item' ∈ read.scope, item'.project = item.project ∧ item'.endpoint = item.endpoint
  verbs : ∀ p ∈ held asked, ceiling.allowsVerb x none p.1 p.2 = false → p ∈ held read
  writes : asked.writes = true → ceiling.writes = false → read.writes = true
  clients : ∀ client ∈ asked.allowedClients, ceiling.allowsClient x client = false →
    client ∈ read.allowedClients
  anyClient : asked.allowedClients = [] → ceiling.anyClient = false → read.allowedClients = []
  expiry : now + ceiling.maxDays x * day < asked.expiresAt → asked.expiresAt ≤ read.expiresAt

/-- an edit asks nothing above the ceiling that its lines do not name: a segment above it is one of
the current grant's, an item of a project above it names an Endpoint that an item of the current
grant names there, a verb above it is ticked by its name or held, and an expiry above it is no later
-/
structure PlainEdit (now : Int) (asked current : Asked) : Prop where
  segments : ∀ segment ∈ asked.segments, ceiling.allowsSegment x segment = false →
    segment ∈ current.segments
  endpoints : ∀ item ∈ asked.scope, ceiling.allowsProjectName item.project = false →
    ∃ item' ∈ current.scope, item'.project = item.project ∧ item'.endpoint = item.endpoint
  verbs : ∀ p ∈ held asked, ceiling.allowsVerb x none p.1 p.2 = false →
    p ∈ ticked asked ∨ p ∈ held current
  expiry : now + ceiling.maxDays x * day < asked.expiresAt → asked.expiresAt ≤ current.expiresAt

instance (now : Int) (asked read : Asked) : Decidable (Covered x ceiling now asked read) :=
  decidable_of_iff
    ((∀ segment ∈ asked.segments, ceiling.allowsSegment x segment = false →
      segment ∈ read.segments) ∧
    (∀ item ∈ asked.scope, ceiling.allowsProjectName item.project = false →
      ∃ item' ∈ read.scope, item'.project = item.project) ∧
    (∀ item ∈ asked.scope, ceiling.allowsEndpoint item.project item.endpoint = false →
      ∃ item' ∈ read.scope, item'.project = item.project ∧ item'.endpoint = item.endpoint) ∧
    (∀ p ∈ held asked, ceiling.allowsVerb x none p.1 p.2 = false → p ∈ held read) ∧
    (asked.writes = true → ceiling.writes = false → read.writes = true) ∧
    (∀ client ∈ asked.allowedClients, ceiling.allowsClient x client = false →
      client ∈ read.allowedClients) ∧
    (asked.allowedClients = [] → ceiling.anyClient = false → read.allowedClients = []) ∧
    (now + ceiling.maxDays x * day < asked.expiresAt → asked.expiresAt ≤ read.expiresAt))
    ⟨fun ⟨h1, h2, h3, h4, h5, h6, h7, h8⟩ => ⟨h1, h2, h3, h4, h5, h6, h7, h8⟩,
      fun ⟨h1, h2, h3, h4, h5, h6, h7, h8⟩ => ⟨h1, h2, h3, h4, h5, h6, h7, h8⟩⟩

instance (now : Int) (asked current : Asked) : Decidable (PlainEdit x ceiling now asked current) :=
  decidable_of_iff
    ((∀ segment ∈ asked.segments, ceiling.allowsSegment x segment = false →
      segment ∈ current.segments) ∧
    (∀ item ∈ asked.scope, ceiling.allowsProjectName item.project = false →
      ∃ item' ∈ current.scope, item'.project = item.project ∧ item'.endpoint = item.endpoint) ∧
    (∀ p ∈ held asked, ceiling.allowsVerb x none p.1 p.2 = false →
      p ∈ ticked asked ∨ p ∈ held current) ∧
    (now + ceiling.maxDays x * day < asked.expiresAt → asked.expiresAt ≤ current.expiresAt))
    ⟨fun ⟨h1, h2, h3, h4⟩ => ⟨h1, h2, h3, h4⟩, fun ⟨h1, h2, h3, h4⟩ => ⟨h1, h2, h3, h4⟩⟩

theorem Covered.refl (now : Int) (asked : Asked) : Covered x ceiling now asked asked where
  segments := fun _ h _ => h
  projects := fun item h _ => ⟨item, h, rfl⟩
  endpoints := fun item h _ => ⟨item, h, rfl, rfl⟩
  verbs := fun _ h _ => h
  writes := fun h _ => h
  clients := fun _ h _ => h
  anyClient := fun h _ => h
  expiry := fun _ => le_refl _

end

section
variable {x : JcDelegation} {y : Shapes} {ceiling : Ceiling} {asked current : Asked}
  {now later : Int}

theorem stands_of_ticked {kind : String} {verb : ConnectorVerb} (hh : (kind, verb) ∈ held asked)
    (ht : (kind, verb) ∈ ticked asked) (hnot : ceiling.allowsVerb x none kind verb = false) :
    Stands x y ceiling asked now kind (.verb verb) := by
  unfold ticked at ht
  obtain ⟨entry, hentry, hverb⟩ := List.mem_flatMap.mp ht
  obtain ⟨v, hv, heq⟩ := List.mem_map.mp hverb
  cases heq
  cases hk : asked.kinds with
  | none => rw [hk] at hentry; cases hentry
  | some kinds =>
    rw [hk] at hentry
    refine ⟨kinds, hk, entry, hentry, verb, hv, ?_, rfl⟩
    -- what a request holds is never `propose`, which stands for three verbs
    have hpropose : verb ≠ .propose := by
      rintro rfl
      unfold held at hh
      rw [hk] at hh
      obtain ⟨e, _, hmem⟩ := List.mem_flatMap.mp hh
      obtain ⟨w, hw, heq⟩ := List.mem_map.mp hmem
      obtain ⟨u, _, hu⟩ := List.mem_flatMap.mp hw
      have hw' : w = .propose := (Prod.mk.inj heq).2
      subst hw'
      cases u <;> simp [wanted] at hu
    have hwanted : wanted verb = [verb] := by cases verb <;> first | rfl | exact absurd rfl hpropose
    unfold refusedVerb
    rw [hwanted, List.find?_cons_of_pos (by simp [hnot])]

theorem held_of_stands {kind : String} {verb : ConnectorVerb}
    (h : Stands x y ceiling asked now kind (.verb verb)) : (kind, verb) ∈ held asked := by
  obtain ⟨kinds, hk, entry, hentry, v, hv, hrefused, rfl⟩ := h
  have hwanted : verb ∈ wanted v := List.mem_of_find?_eq_some hrefused
  unfold held
  rw [hk]
  exact List.mem_flatMap.mpr ⟨entry, hentry, List.mem_map.mpr
    ⟨verb, List.mem_flatMap.mpr ⟨v, hv, hwanted⟩, rfl⟩⟩

/-- the names of a request's projects and Endpoints are labels -/
def Shaped (y : Shapes) (asked : Asked) : Prop :=
  ∀ item ∈ asked.scope, y.isDns1123 item.project = true ∧
    ∀ e, item.endpoint = some e → e = "*" ∨ y.isDns1123 e = true

theorem endpointRest_inj (hy : y.Labels) {item item' : ScopeItem}
    (hp : y.isDns1123 item.project = true) (hp' : y.isDns1123 item'.project = true)
    (he : ∀ e, item.endpoint = some e → e = "*" ∨ y.isDns1123 e = true)
    (he' : ∀ e, item'.endpoint = some e → e = "*" ∨ y.isDns1123 e = true)
    (h : endpointRest item.project item.endpoint = endpointRest item'.project item'.endpoint) :
    item.project = item'.project ∧ item.endpoint = item'.endpoint := by
  have hlist := congrArg String.toList h
  unfold endpointRest at hlist
  simp only [String.toList_append, List.append_assoc] at hlist
  have hasked : (": name one (asked " : String).toList = ':' :: " name one (asked ".toList := by
    decide +kernel
  rw [hasked, List.cons_append, List.cons_append] at hlist
  obtain ⟨hproject, hrest⟩ := Text.cut_first (hy _ hp).1 (hy _ hp').1 hlist
  refine ⟨String.toList_inj.mp hproject, ?_⟩
  have htext : item.endpoint.getD "every Endpoint" = item'.endpoint.getD "every Endpoint" :=
    String.toList_inj.mp (List.append_cancel_right (List.append_cancel_left hrest))
  -- a name has no blank, so it is not the words for every Endpoint
  have hname : ∀ e : String, (e = "*" ∨ y.isDns1123 e = true) → e ≠ "every Endpoint" := by
    rintro e (rfl | hdns) heq
    · exact absurd heq (by decide)
    · exact (hy e hdns).2 (heq ▸ by decide)
  cases hi : item.endpoint with
  | none =>
    cases hi' : item'.endpoint with
    | none => rfl
    | some e =>
      rw [hi, hi'] at htext
      exact absurd htext.symm (hname e (he' e hi'))
  | some e =>
    cases hi' : item'.endpoint with
    | none =>
      rw [hi, hi'] at htext
      exact absurd htext (hname e (he e hi))
    | some e' =>
      rw [hi, hi'] at htext
      exact congrArg some htext

/-- **an edit whose lines stood there before, and that asks nothing its lines do not name, asks
nothing that was not read** -/
theorem covered_edit (hy : y.Labels) {read : Asked} (hshaped : Shaped y asked)
    (hshaped' : Shaped y current)
    (hsub : ∀ line ∈ aboveLines x y ceiling asked now, line ∈ aboveLines x y ceiling current later)
    (hplain : PlainEdit x ceiling now asked current) (hcov : Covered x ceiling later current read) :
    Covered x ceiling now asked read := by
  have hend : ∀ item ∈ asked.scope, ceiling.allowsEndpoint item.project item.endpoint = false →
      ∃ item' ∈ current.scope, item'.project = item.project ∧ item'.endpoint = item.endpoint := by
    intro item hi hnot
    cases hproject : ceiling.allowsProjectName item.project with
    | false => exact hplain.endpoints item hi hproject
    | true =>
      have hstands : Stands x y ceiling asked now (endpointRest item.project item.endpoint)
          .endpoint := ⟨item, hi, hproject, hnot, rfl⟩
      obtain ⟨item', hi', _, _, hrest⟩ := stands_of_lines hstands hsub
      obtain ⟨hp, he⟩ := hshaped item hi
      obtain ⟨hp', he'⟩ := hshaped' item' hi'
      obtain ⟨hpp, hee⟩ := endpointRest_inj hy hp hp' he he' hrest
      exact ⟨item', hi', hpp.symm, hee.symm⟩
  have hverbs : ∀ p ∈ held asked, ceiling.allowsVerb x none p.1 p.2 = false → p ∈ held current := by
    rintro ⟨kind, verb⟩ hh hnot
    rcases hplain.verbs (kind, verb) hh hnot with ht | hc
    · exact held_of_stands (stands_of_lines (stands_of_ticked hh ht hnot) hsub)
    · exact hc
  refine ⟨?_, ?_, ?_, ?_, ?_, ?_, ?_, ?_⟩
  · exact fun s hs hnot => hcov.segments s (hplain.segments s hs hnot) hnot
  · intro item hi hnot
    obtain ⟨item', hi', hp, _⟩ := hplain.endpoints item hi hnot
    obtain ⟨item'', hi'', hp'⟩ := hcov.projects item' hi' (by rw [hp]; exact hnot)
    exact ⟨item'', hi'', by rw [hp', hp]⟩
  · intro item hi hnot
    obtain ⟨item', hi', hp, he⟩ := hend item hi hnot
    obtain ⟨item'', hi'', hp', he'⟩ := hcov.endpoints item' hi' (by rw [hp, he]; exact hnot)
    exact ⟨item'', hi'', by rw [hp', hp], by rw [he', he]⟩
  · exact fun p hp hnot => hcov.verbs p (hverbs p hp hnot) hnot
  · intro hw hnot
    have hstands : Stands x y ceiling asked now "" .writes := ⟨rfl, hw, hnot⟩
    obtain ⟨_, hw', _⟩ := stands_of_lines hstands hsub
    exact hcov.writes hw' hnot
  · intro client hc hnot
    have hstands : Stands x y ceiling asked now client .client := ⟨hc, hnot⟩
    exact hcov.clients client (stands_of_lines hstands hsub).1 hnot
  · intro hnone hnot
    have hstands : Stands x y ceiling asked now "" .clients := ⟨rfl, hnone, hnot⟩
    exact hcov.anyClient (stands_of_lines hstands hsub).2.1 hnot
  · intro hlate
    have hstands : Stands x y ceiling asked now (toString (ceiling.maxDays x)
        ++ " days; asked until " ++ y.rfc3339 asked.expiresAt) .expiry := ⟨hlate, rfl⟩
    have hlate' := (stands_of_lines hstands hsub).1
    exact le_trans (hplain.expiry hlate) (hcov.expiry hlate')

end

/-! ## runs -/

section
variable (x : JcDelegation) (y : Shapes) (home : String → String → String)
  (ceil : String → Ceiling)

/-- the condition on a step: what an approval is written on is what was read, and an edit that keeps
its approval is plain -/
def Plain (t : Trans State Act) : Prop :=
  match t.act with
  | .approveStore k _ => ∀ a ∈ t.before.approvals k,
      ∀ r ∈ t.before.records.get? a.connector.id, r.grant.toAsked = a.connector.asked
  | .editRead _ id owner patch now => ∀ r ∈ t.before.records.get? id,
      (keptApproval r.grant (aboveLines x y (ceil owner) (r.grant.toAsked.patched patch) now)).isSome →
      PlainEdit x (ceil owner) now (r.grant.toAsked.patched patch) r.grant.toAsked
  | _ => True

instance (t : Trans State Act) : Decidable (Plain x y ceil t) := by
  unfold Plain
  split <;> infer_instance

/-- someone else read all this holds above the ceiling, and held every right of what they read -/
def Approved (s : State) (id owner : String) (now : Int) (asked : Asked) (a : Approval) : Prop :=
  ∃ read ∈ s.reads, read.connector.id = id ∧ read.approver = a.approver ∧ read.approver ≠ owner ∧
    withinOwnRights x home read.rights read.approver read.connector = .ok () ∧
    Covered x (ceil owner) now asked read.connector.asked

def RecordOk (s : State) (id : String) (r : Record) : Prop :=
  ∃ now ≤ r.judgedAt, r.grant.above = aboveLines x y (ceil r.owner) r.grant.toAsked now ∧
    Shaped y r.grant.toAsked ∧
    ∀ a, r.grant.approval = some a → Approved x home ceil s id r.owner now r.grant.toAsked a

def EditOk (s : State) (e : Edit) : Prop :=
  e.above = aboveLines x y (ceil e.owner) e.asked e.now ∧ Shaped y e.asked ∧
  ∀ a, e.approval = some a → Approved x home ceil s e.id e.owner e.now e.asked a

def ApprovingOk (s : State) (a : Approving) : Prop :=
  (∃ r, s.records.get? a.connector.id = some r ∧ r.owner = a.connector.owner) ∧
  a.approver ≠ a.connector.owner ∧
  (a.checked = true → ∃ read ∈ s.reads, read.approver = a.approver ∧
    read.connector = a.connector ∧
    withinOwnRights x home read.rights read.approver read.connector = .ok ())

structure Sound (s : State) : Prop where
  records : ∀ id r, s.records.get? id = some r → RecordOk x y home ceil s id r
  edits : ∀ k e, s.edits k = some e → EditOk x y home ceil s e
  approvals : ∀ k a, s.approvals k = some a → ApprovingOk x home s a

end

section
variable {x : JcDelegation} {y : Shapes} {home : String → String → String}
  {ceil : String → Ceiling} {s s' : State}

theorem Approved.mono {id owner : String} {now : Int} {asked : Asked} {a : Approval}
    (h : Approved x home ceil s id owner now asked a) (hreads : ∀ r ∈ s.reads, r ∈ s'.reads) :
    Approved x home ceil s' id owner now asked a := by
  obtain ⟨read, hread, hrest⟩ := h
  exact ⟨read, hreads read hread, hrest⟩

theorem RecordOk.mono {id : String} {r : Record} (h : RecordOk x y home ceil s id r)
    (hreads : ∀ r ∈ s.reads, r ∈ s'.reads) : RecordOk x y home ceil s' id r := by
  obtain ⟨now, hle, habove, hshaped, happ⟩ := h
  exact ⟨now, hle, habove, hshaped, fun a ha => (happ a ha).mono hreads⟩

theorem EditOk.mono {e : Edit} (h : EditOk x y home ceil s e)
    (hreads : ∀ r ∈ s.reads, r ∈ s'.reads) : EditOk x y home ceil s' e :=
  ⟨h.1, h.2.1, fun a ha => (h.2.2 a ha).mono hreads⟩

theorem ApprovingOk.mono {a : Approving} (h : ApprovingOk x home s a)
    (hreads : ∀ r ∈ s.reads, r ∈ s'.reads)
    (hown : ∀ id r, s.records.get? id = some r →
      ∃ r', s'.records.get? id = some r' ∧ r'.owner = r.owner) : ApprovingOk x home s' a := by
  obtain ⟨⟨r, hr, howner⟩, hother, hchecked⟩ := h
  obtain ⟨r', hr', howner'⟩ := hown _ r hr
  refine ⟨⟨r', hr', howner'.trans howner⟩, hother, fun hc => ?_⟩
  obtain ⟨read, hread, hrest⟩ := hchecked hc
  exact ⟨read, hreads read hread, hrest⟩

theorem Sound.insert (h : Sound x y home ceil s) {id : String} {r : Record}
    (hown : ∀ r', s.records.get? id = some r' → r.owner = r'.owner)
    (hr : RecordOk x y home ceil s id r) (hs' : s' = { s with records := s.records.insert id r }) :
    Sound x y home ceil s' := by
  subst hs'
  refine ⟨fun id' r' hget => ?_, fun k e he => h.edits k e he, fun k a ha => ?_⟩
  · have hget' : (s.records.insert id r).get? id' = some r' := hget
    rw [OrdMap.get?_insert] at hget'
    split at hget'
    · rename_i heq
      cases hget'
      exact heq ▸ hr
    · exact h.records id' r' hget'
  · refine (h.approvals k a ha).mono (fun _ hm => hm) (fun id' r' hget => ?_)
    show ∃ r'', (s.records.insert id r).get? id' = some r'' ∧ _
    rw [OrdMap.get?_insert]
    split
    · rename_i heq
      subst heq
      exact ⟨r, rfl, hown r' hget⟩
    · exact ⟨r', hget, rfl⟩

theorem Sound.setEdit (h : Sound x y home ceil s) {k : Nat} {e : Option Edit}
    (he : ∀ edit, e = some edit → EditOk x y home ceil s edit) :
    Sound x y home ceil { s with edits := Function.update s.edits k e } := by
  refine ⟨fun id r hget => h.records id r hget, fun k' edit hedit => ?_,
    fun k' a ha => h.approvals k' a ha⟩
  have hedit' : Function.update s.edits k e k' = some edit := hedit
  by_cases hk : k' = k
  · subst hk
    rw [Function.update_self] at hedit'
    exact he edit hedit'
  · rw [Function.update_of_ne hk] at hedit'
    exact h.edits k' edit hedit'

theorem Sound.setApproval (h : Sound x y home ceil s) {k : Nat} {a : Option Approving}
    (ha : ∀ app, a = some app → ApprovingOk x home s app) :
    Sound x y home ceil { s with approvals := Function.update s.approvals k a } := by
  refine ⟨fun id r hget => h.records id r hget, fun k' edit hedit => h.edits k' edit hedit,
    fun k' app happ => ?_⟩
  have happ' : Function.update s.approvals k a k' = some app := happ
  by_cases hk : k' = k
  · subst hk
    rw [Function.update_self] at happ'
    exact ha app happ'
  · rw [Function.update_of_ne hk] at happ'
    exact h.approvals k' app happ'

theorem sound_start (rights : Rights) : Sound x y home ceil (State.start rights) where
  records := fun _ _ h => (nomatch h)
  edits := fun _ _ h => (nomatch h)
  approvals := fun _ _ h => (nomatch h)

theorem editOk_read (hy : y.Labels) (h : Sound x y home ceil s) {id : String} {r : Record}
    {patch : ConnectorPatch} {now : Int} {lines : List String} (hget : s.records.get? id = some r)
    (hvalid : validate x y (ceil r.owner) (r.grant.toAsked.patched patch) r.name now = .ok lines)
    (hplain : (keptApproval r.grant lines).isSome →
      PlainEdit x (ceil r.owner) now (r.grant.toAsked.patched patch) r.grant.toAsked) :
    EditOk x y home ceil s ⟨id, r.owner, r.grant.toAsked.patched patch, lines,
      keptApproval r.grant lines, now⟩ := by
  obtain ⟨hlines, hshaped⟩ := validate_ok hvalid
  refine ⟨hlines, hshaped, fun a ha => ?_⟩
  dsimp only at ha
  obtain ⟨later, _, habove, hshaped', happ⟩ := h.records id r hget
  have hpl := hplain (by rw [ha]; rfl)
  unfold keptApproval at ha
  obtain ⟨happroval, hcovers⟩ := Option.filter_eq_some_iff.mp ha
  simp only [Bool.and_eq_true, List.all_eq_true, List.contains_iff_mem] at hcovers
  obtain ⟨read, hread, hid, hby, hother, hrights, hcov⟩ := happ a happroval
  refine ⟨read, hread, hid, hby, hother, hrights, ?_⟩
  refine covered_edit hy hshaped hshaped' (fun line hl => ?_) hpl hcov
  rw [← habove]
  exact hcovers.2 line (hlines ▸ hl)

/-- **Step**: a connector is created: it has no approval. -/
theorem sound_create {id owner name : String} {asked : Asked} {now : Int}
    (hs : step x y home ceil s (.create id owner name asked now) = some s') (h : Sound x y home ceil s) :
    Sound x y home ceil s' := by
  unfold step at hs
  dsimp only at hs
  split at hs
  · cases hs
    exact h
  · rename_i lines hvalid
    split at hs
    · cases hs
      exact h
    · rename_i hfree
      simp only [Bool.or_eq_true, not_or, Option.not_isSome_iff_eq_none] at hfree
      obtain ⟨hlines, hshaped⟩ := validate_ok hvalid
      refine h.insert (fun r' hr' => ?_) ?_ (Option.some.inj hs).symm
      · rw [hfree.1.1] at hr'
        cases hr'
      · exact ⟨now, le_refl _, hlines, hshaped, fun a ha => (nomatch ha)⟩

/-- **Step**: an edit is judged. -/
theorem sound_editRead (hy : y.Labels) {k : Nat} {id owner : String} {patch : ConnectorPatch} {now : Int}
    (hs : step x y home ceil s (.editRead k id owner patch now) = some s')
    (hplain : Plain x y ceil ⟨s, .editRead k id owner patch now, s'⟩) (h : Sound x y home ceil s) :
    Sound x y home ceil s' := by
  unfold step at hs
  dsimp only at hs
  split at hs
  · cases hs
    exact h
  · rename_i r hget
    split at hs
    · cases hs
      exact h
    · rename_i howner
      rw [not_not] at howner
      subst howner
      split at hs
      · cases hs
        exact h
      · rename_i lines hvalid
        cases hs
        refine h.setEdit (fun edit he => ?_)
        cases he
        refine editOk_read hy h hget hvalid (fun hk => hplain r hget ?_)
        rw [← (validate_ok hvalid).1]
        exact hk

/-- **Step**: an edit is written. -/
theorem sound_editStore {k : Nat} {now : Int}
    (hs : step x y home ceil s (.editStore k now) = some s') (h : Sound x y home ceil s) :
    Sound x y home ceil s' := by
  unfold step at hs
  dsimp only at hs
  split at hs
  · cases hs
  · rename_i e he
    split at hs
    · cases hs
    · rename_i hclock
      obtain ⟨habove, hshaped, happ⟩ := h.edits k e he
      have hended : Sound x y home ceil { s with edits := Function.update s.edits k none } :=
        h.setEdit (fun _ hnone => (nomatch hnone))
      split at hs
      · cases hs
        exact hended
      · rename_i r hget
        split at hs
        · cases hs
          exact hended
        · rename_i howner
          simp only [Bool.or_eq_true, decide_eq_true_eq, not_or, not_not] at howner
          refine hended.insert (fun r' hr' => ?_) ?_ (Option.some.inj hs).symm
          · rw [hget] at hr'
            cases hr'
            rfl
          · refine ⟨e.now, not_lt.mp hclock, ?_, hshaped, fun a ha => ?_⟩
            · show e.above = aboveLines x y (ceil r.owner) e.asked e.now
              rw [howner.1]
              exact habove
            · show Approved x home ceil _ e.id r.owner e.now e.asked a
              rw [howner.1]
              exact (happ a ha).mono (fun _ hm => hm)

/-- **Step**: an approver reads. -/
theorem sound_approveRead {k : Nat} {id approver : String} {now : Int}
    (hs : step x y home ceil s (.approveRead k id approver now) = some s') (h : Sound x y home ceil s) :
    Sound x y home ceil s' := by
  unfold step at hs
  dsimp only at hs
  split at hs
  · cases hs
    exact h
  · rename_i r hget
    split at hs
    · cases hs
      exact h
    · rename_i hpending
      simp only [Bool.or_eq_true, decide_eq_true_eq, not_or] at hpending
      cases hs
      refine h.setApproval (fun app happ => ?_)
      cases happ
      exact ⟨⟨r, hget, rfl⟩, fun heq => hpending.2 heq.symm, fun hc => (nomatch hc)⟩

/-- **Step**: an approver is held to their rights. -/
theorem sound_approveCheck {k : Nat}
    (hs : step x y home ceil s (.approveCheck k) = some s') (h : Sound x y home ceil s) :
    Sound x y home ceil s' := by
  unfold step at hs
  dsimp only at hs
  split at hs
  · cases hs
  · rename_i a ha
    split at hs
    · cases hs
      exact h.setApproval (fun _ hnone => (nomatch hnone))
    · rename_i u hrights
      cases hs
      have hmono : ∀ r ∈ s.reads, r ∈ (⟨a.approver, a.connector, s.rights⟩ :: s.reads : List Read) :=
        fun r hr => List.mem_cons_of_mem _ hr
      have hlogged : Sound x y home ceil
          { s with reads := ⟨a.approver, a.connector, s.rights⟩ :: s.reads } :=
        ⟨fun id r hget => (h.records id r hget).mono hmono,
          fun k e he => (h.edits k e he).mono hmono,
          fun k b hb => (h.approvals k b hb).mono hmono (fun id r hr => ⟨r, hr, rfl⟩)⟩
      refine hlogged.setApproval (fun app happ => ?_)
      cases happ
      obtain ⟨hrecord, hother, _⟩ := h.approvals k a ha
      exact ⟨hrecord, hother, fun _ => ⟨_, List.mem_cons_self, rfl, rfl, hrights⟩⟩

/-- **Step**: an approval is written. -/
theorem sound_approveStore {k : Nat} {now : Int}
    (hs : step x y home ceil s (.approveStore k now) = some s')
    (hplain : Plain x y ceil ⟨s, .approveStore k now, s'⟩) (h : Sound x y home ceil s) :
    Sound x y home ceil s' := by
  unfold step at hs
  dsimp only at hs
  split at hs
  · cases hs
  · rename_i a ha
    split at hs
    · cases hs
    · rename_i hchecked
      obtain ⟨⟨r₀, hget₀, howner₀⟩, hother, hread⟩ := h.approvals k a ha
      obtain ⟨read, hmem, hby, hconn, hrights⟩ := hread (by simpa using hchecked)
      have hended : Sound x y home ceil
          { s with approvals := Function.update s.approvals k none } :=
        h.setApproval (fun _ hnone => (nomatch hnone))
      split at hs
      · cases hs
        exact hended
      · rename_i r hget
        split at hs
        · cases hs
          exact hended
        · refine hended.insert (fun r' hr' => ?_) ?_ (Option.some.inj hs).symm
          · rw [hget] at hr'
            cases hr'
            rfl
          · have hasked : r.grant.toAsked = a.connector.asked := hplain a ha r hget
            have hr₀ : r₀ = r := Option.some.inj (hget₀.symm.trans hget)
            obtain ⟨t, hle, habove, hshaped, _⟩ := h.records _ r hget
            refine ⟨t, hle, habove, hshaped, fun b hb => ?_⟩
            cases hb
            refine ⟨read, hmem, by rw [hconn], hby, ?_, hrights, ?_⟩
            · show read.approver ≠ r.owner
              rw [hby, ← hr₀, howner₀]
              exact hother
            · show Covered x (ceil r.owner) t r.grant.toAsked read.connector.asked
              rw [hconn, ← hasked]
              exact Covered.refl x _ t _

/-- **Step**: a connector is revoked. -/
theorem sound_revoke {id owner : String} {now : Int}
    (hs : step x y home ceil s (.revoke id owner now) = some s') (h : Sound x y home ceil s) :
    Sound x y home ceil s' := by
  unfold step at hs
  dsimp only at hs
  split at hs
  · cases hs
    exact h
  · rename_i r hget
    split at hs
    · cases hs
      exact h
    · refine h.insert (fun r' hr' => ?_) ?_ (Option.some.inj hs).symm
      · rw [hget] at hr'
        cases hr'
        rfl
      · exact h.records id r hget

/-- **one step keeps what is true of the store and the calls** -/
theorem step_sound (hy : y.Labels) {a : Act} (hs : step x y home ceil s a = some s')
    (hplain : Plain x y ceil ⟨s, a, s'⟩) (h : Sound x y home ceil s) : Sound x y home ceil s' := by
  cases a with
  | rights may =>
    cases hs
    exact ⟨h.records, h.edits, h.approvals⟩
  | create id owner name asked now => exact sound_create hs h
  | editRead k id owner patch now => exact sound_editRead hy hs hplain h
  | editStore k now => exact sound_editStore hs h
  | approveRead k id approver now => exact sound_approveRead hs h
  | approveCheck k => exact sound_approveCheck hs h
  | approveStore k now => exact sound_approveStore hs hplain h
  | revoke id owner now => exact sound_revoke hs h

/-- **an approval covers no more than its approver read**: in every interleaving of creating,
editing, approving and revoking in which an approval is written on what was read, and an edit that
keeps its approval asks nothing above the ceiling that its lines do not name, what an active connector
with an approval holds above the ceiling was part of a connector that its approver, not its owner,
read and held every right of -/
theorem approved_as_read (x : JcDelegation) (y : Shapes) (hy : y.Labels)
    (home : String → String → String) (ceil : String → Ceiling) {rights : Rights}
    {tr : List (Trans State Act)} {s : State}
    (hr : Run (step x y home ceil) (State.start rights) tr s)
    (hplain : ∀ t ∈ tr, Plain x y ceil t) :
    ∀ id r now a, s.records.get? id = some r → (r.view id now).state = .active →
      r.grant.approval = some a →
      ∃ read ∈ s.reads, read.connector.id = id ∧ read.approver = a.approver ∧
        read.approver ≠ r.owner ∧
        withinOwnRights x home read.rights read.approver read.connector = .ok () ∧
        Covered x (ceil r.owner) r.judgedAt (r.view id now).asked read.connector.asked := by
  have hsound : Sound x y home ceil s :=
    Run.invariant (C := Plain x y ceil) (sound_start rights)
      (fun _ _ _ hs hp h => step_sound hy hs hp h) hr hplain
  intro id r now a hget _ ha
  obtain ⟨t, hle, _, _, happ⟩ := hsound.records id r hget
  obtain ⟨read, hread, hid, hby, hother, hrights, hcov⟩ := happ a ha
  refine ⟨read, hread, hid, hby, hother, hrights, ?_⟩
  refine { hcov with expiry := fun hlate => hcov.expiry ?_ }
  -- what is late for the moment it was kept is late for the earlier one it was judged
  have hlate' : r.judgedAt + (ceil r.owner).maxDays x * day < r.grant.expiresAt := hlate
  omega

end

/-! ### a renewal, a swapped segment and an edit under an approver's eyes -/

def plainJc : JcDelegation where
  verbsAllow verbs verb := verbs.contains verb
    || (verbs.contains .propose && [.create, .edit, .delete].contains verb)
  segments p := p.segments.getD ["data-read"]
  verbsFor _ _ := [.read]
  maxExpiryDays _ := 30
  allowsClient p client := p.allowedClients.all (fun l => l.contains client)

def isLabelChar (c : Char) : Bool := ('a' ≤ c && c ≤ 'z') || ('0' ≤ c && c ≤ '9') || c = '-'

def plainShapes : Shapes where
  isDns1123 name := name ≠ "" && name.toList.all isLabelChar
  kindVerbs _ := none
  rfc3339 n := toString (n / 1000000000)

theorem plainShapes_labels : plainShapes.Labels := by
  intro name h
  simp only [plainShapes, Bool.and_eq_true, List.all_eq_true] at h
  exact ⟨fun hc => absurd (h.2 _ hc) (by decide), fun hc => absurd (h.2 _ hc) (by decide)⟩

/-- one policy over project `d`: reads of `data-read`, requests above it queued -/
def readers : Ceiling where
  policies := [("r", { defaultPolicy with projects := ["d"], aboveCeiling := .queue })]
  broken := []

def everyRight : Rights := fun _ _ _ _ => true

def inProject (_ project : String) : String := project

/-- a request over project `d` -/
def askFor (segments : List String) : Asked where
  segments := segments
  scope := [⟨"d", none, none, none, .read, false⟩]
  kinds := none
  writes := false
  autonomous := false
  expiresAt := 20 * day
  allowedClients := []

def noPatch : ConnectorPatch := ⟨none, none, none, none, none, none, none⟩

def approvedThen (patch : ConnectorPatch) : List Act :=
  [.create "c" "ana" "c" (askFor ["apps"]) 0, .approveRead 1 "c" "bob" 1, .approveCheck 1,
    .approveStore 1 2, .editRead 2 "c" "ana" patch 3, .editStore 2 4]

def editedBetween (patch : ConnectorPatch) : List Act :=
  [.create "c" "ana" "c" (askFor ["apps"]) 0, .approveRead 1 "c" "bob" 1, .approveCheck 1,
    .editRead 2 "c" "ana" patch 2, .editStore 2 3, .approveStore 1 4]

def acted (as : List Act) : Option (List (Trans State Act) × State) :=
  exec (step plainJc plainShapes inProject (fun _ => readers)) (State.start everyRight) as

def renewed : List Act := approvedThen { noPatch with expiresAt := some (10 * day) }

def stateAfter (as : List Act) : State :=
  final (step plainJc plainShapes inProject (fun _ => readers)) (State.start everyRight) as

def traceOf (as : List Act) : List (Trans State Act) :=
  trace (step plainJc plainShapes inProject (fun _ => readers)) (State.start everyRight) as

def isApproved (as : List Act) : Bool :=
  ((stateAfter as).records.get? "c").any (fun r =>
    (r.view "c" 5).state = .active && r.grant.approval.isSome)

theorem approved_as_read_of_renewed :
    isApproved renewed = true ∧ ∀ r, (stateAfter renewed).records.get? "c" = some r →
      ∃ read ∈ (stateAfter renewed).reads, read.approver ≠ r.owner ∧
        Covered plainJc readers r.judgedAt r.grant.toAsked read.connector.asked := by
  have hruns : (acted renewed).isSome ∧ isApproved renewed = true ∧
      ∀ t ∈ traceOf renewed, Plain plainJc plainShapes (fun _ => readers) t := by
    decide +kernel
  obtain ⟨hsome, happroved, hplain⟩ := hruns
  refine ⟨happroved, fun r hr => ?_⟩
  have hboth : (r.view "c" 5).state = .active ∧ r.grant.approval.isSome := by
    unfold isApproved at happroved
    rw [hr] at happroved
    simpa using happroved
  obtain ⟨a, ha⟩ := Option.isSome_iff_exists.mp hboth.2
  obtain ⟨read, hread, _, _, hother, _, hcov⟩ := approved_as_read plainJc plainShapes
    plainShapes_labels inProject (fun _ => readers) (run_trace hsome) hplain "c" r 5 a hr hboth.1 ha
  exact ⟨read, hread, hother, hcov⟩

def Unread (as : List Act) : Prop :=
  (acted as).isSome ∧ isApproved as = true ∧
    ∀ r ∈ (stateAfter as).records.get? "c", ∀ read ∈ (stateAfter as).reads,
      ¬ Covered plainJc readers r.judgedAt r.grant.toAsked read.connector.asked

instance (as : List Act) : Decidable (Unread as) := inferInstanceAs (Decidable (_ ∧ _ ∧ _))

/-- **an approval of one segment covers another**: after the approval of `apps` ana asks for `admin`,
whose line reads the same, and keeps the approval; and what she asks between bob's read and bob's
write is approved unread -/
theorem unread_approved :
    Unread (approvedThen { noPatch with segments := some ["admin"] }) ∧
      Unread (editedBetween { noPatch with segments := some ["admin"] }) := by
  decide +kernel

end Connectors
end Portal
