import Portal.Base.Gate
import Portal.Changes.Request

/-!
# The approval of a change (`changes.rs`: `approve_change_for`, `approve_every_file`,
`changed_files`, `lane_of_paths`)

An approval holds the caller to `approve` on the headline and on every file of the merge request, a
file that is deleted to `delete` as well, and takes the riskiest lane among them.  The page of the
change shows the lanes of the same files, its list a lane read off their paths.

* `approveFile`, `approveEveryFile`   the walk over the files, each judged by the side it leaves;
* `approveChangeFor`   the approval up to the merge, with every check it made;
* `changedFiles`, `laneOfPaths`, `detailLane`, `listLane`   the lanes shown;
* `approveFile_ok`, `approveEveryFile_ok`, `approveChangeFor_ok`   what an approval says of each.
-/

namespace Portal
namespace Changes

open Access

/-! ## what is checked -/

/-- one question to the caller's permissions -/
structure Check where
  project : String
  kind : String
  verb : Verb
  target : Option Value
deriving DecidableEq

/-- what else an approval asks; no law here depends on the answers -/
structure Further where
  /-- `require_second_factor` -/
  secondFactor : Except ApiError Unit
  /-- `require_change` -/
  isChange : Except ApiError Unit
  /-- `merges_after` of the changes it waits on -/
  mergesAfter : Except ApiError Unit
  /-- `pipeline_rights::check`, of the project and the manifest -/
  pipelineRights : String → Value → Except ApiError Unit
  organizationWithinBounds : String → Value → Except ApiError Unit
  publicAppAllowed : String → Envelope → Except ApiError Unit
  grantsItsCaller : Envelope → Bool

inductive ApprovedBy where
  | person
  | operation
  | connector (name : String)
deriving DecidableEq

def ApprovedBy.isConnector : ApprovedBy → Bool
  | .connector _ => true
  | _ => false

/-- the approver, and what the Portal knows -/
structure Caller where
  repository : Repository
  bootstrapGroup : String
  identity : Identity
  now : Int

/-! ## encrypted files -/

mutual

def encrypted : Value → Bool
  | .object fields => encryptedFields fields
  | .array items => encryptedItems items
  | .string s => Text.startsWith "ENC[AES256_GCM," s && Text.endsWith "]" s
  | _ => false

def encryptedItems : List Value → Bool
  | [] => true
  | v :: items => encrypted v && encryptedItems items

def encryptedFields : List (String × Value) → Bool
  | [] => true
  | (_, v) :: fields => encrypted v && encryptedFields fields

end

/-- a text whose every value but the `sops` block is encrypted -/
def sealedText (y : Reads) (text : String) : Bool :=
  match y.mapping text with
  | none => false
  | some fields =>
    (fields.find? (fun p => p.1 = some "sops")).any (fun p => p.2.asObject.isSome)
      && (fields.filter (fun p => p.1 ≠ some "sops")).all (fun p => encrypted p.2)

/-! ## kinds -/

def isAccessKind (kind : String) : Bool :=
  ["Role", "RoleBinding", "Group", "ServiceAccount"].contains kind

def needsSecondPerson (kind : String) : Bool := isAccessKind kind || kind = "DataModel"

/-- kinds whose change a connector leaves for a person's click -/
def keepsItsClick (kind : String) : Bool :=
  isAccessKind kind || ["Policy", "DelegationPolicy", "Organization"].contains kind

/-- kinds that grant, whose approver is held to what they grant -/
def grantsRights (kind : String) : Bool := ["Role", "RoleBinding", "ServiceAccount"].contains kind

/-- the kind whose grants decide a change of a headline's kind -/
def gateKind (kind : String) : String := if kind = secretKind then "DataSource" else kind

def appIsPublic (kind : String) (spec : Value) : Bool :=
  kind = "App" && textAt spec "visibility" = some "public"

/-- an Endpoint put in the open-data catalogue -/
def publishesPublicly (e : Envelope) : Bool :=
  e.kind = "Endpoint" && textAt e.spec "audience" = some "public"
    && (valueAt (some e.spec) ["publish", "ckan"]).any (fun ckan => ckan ≠ .null)

/-! ## the walk over the files -/

structure FileRead where
  file : ChangedFile
  envelope : Option Envelope
  encrypted : Bool

structure Verdict where
  lane : Lane
  /-- whether the caller may delete its kind too -/
  deletes : Bool
  changesAccess : Bool
  publishes : Bool
  grantsApprover : Bool
  grantsAccess : Bool

def Verdict.start : Verdict := ⟨.green, true, false, false, false, false⟩

/-- the flags of a walk after one more file -/
def Verdict.and (v w : Verdict) : Verdict :=
  ⟨riskiest v.lane w.lane, v.deletes && w.deletes, v.changesAccess || w.changesAccess,
    v.publishes || w.publishes, v.grantsApprover || w.grantsApprover,
    v.grantsAccess || w.grantsAccess⟩

section
variable (x : JcAccess) (y : Reads) (z : Further) (c : Caller) (mr : MergeRequest)
  (project : String)

def answer (k : Check) : Except ApiError Unit :=
  (effective x c.repository c.bootstrapGroup c.identity k.project c.now).check x k.kind k.verb
    k.target

def allowed (k : Check) : Bool := (answer x c k).isOk

def readFile (file : ChangedFile) : Except ApiError FileRead :=
  match (sideOf mr file).getFile file.path with
  | none => .error (.internal ("'" ++ file.path ++ "' is in change proposal " ++ toString mr.number
      ++ " but not on " ++ if file.deleted then mr.baseBranch else mr.headRef))
  | some content =>
    let secret := (secretPath file.path).isSome
    let sealedFile := secret && (file.deleted || sealedText y content)
    if secret && !sealedFile then
      .error (.denied ("'" ++ file.path ++ "' is under secrets/ but holds a value SOPS did not "
        ++ "encrypt; enter the credential in the project's Secrets form instead (CC-06)"))
    else .ok ⟨file, y.envelope content, sealedFile⟩

def ownerOf (files : List FileRead) (path kind : String) : Option Envelope :=
  files.findSome? (fun other => other.envelope.filter (fun manifest =>
    manifest.kind = kind && ownsNative path other.file.path manifest.name))

/-- what a native file is judged as: its owner, else what its path says of its space -/
def nativeTarget (files : List FileRead) (path kind : String) : Option Value :=
  match ownerOf files path kind with
  | some manifest => some manifest.toValue
  | none => (spaceInPath path).map (fun space =>
      .object [("spec", .object [("contextSpaceRef", .string space)])])

/-- a file without a manifest: approved under the kind its directory names, a secret's file on
`DataSource` -/
def approveNative (files : List FileRead) (f : FileRead) : Gate ApiError Check Verdict :=
  let home := (projectOfPath f.file.path).getD project
  match nativeKind x f.file.path <|> (if f.encrypted then some "DataSource" else none) with
  | none => Gate.refuse (.denied ("'" ++ f.file.path ++ "' belongs to no kind this platform serves, "
      ++ "so no role grants approving it (PF-50)"))
  | some kind => do
    let target := nativeTarget files f.file.path kind
    Gate.hold (answer x c) ⟨home, kind, .approve, target⟩
    if f.file.deleted then Gate.hold (answer x c) ⟨home, kind, .delete, target⟩
    return ⟨.green, allowed x c ⟨home, kind, .delete, target⟩, false, false, false, false⟩

def publicPublication (file : ChangedFile) (e : Envelope) (wasPublic : Bool) :
    Except ApiError Bool :=
  let app := !wasPublic && appIsPublic e.kind e.spec
  let isPublic := !file.deleted && (publishesPublicly e || app)
  if isPublic && c.identity.client.isSome then
    .error (.denied ("'" ++ file.path ++ "' " ++ (if app then "makes an App public (AP-175)"
      else "publishes an Endpoint in the public catalogue (EP-142)")
      ++ ", which a person approves in the Portal, never a service account"))
  else .ok isPublic

def approveManifest (file : ChangedFile) (e : Envelope) : Gate ApiError Check Verdict := do
  let home := (projectOfPath file.path).getD project
  let manifest := e.toValue
  if e.kind = "DataModel" && e.ns = some orgNamespace && c.identity.client.isSome then
    Gate.refuse (.denied ("'" ++ file.path ++ "' changes an organization data model, which a person "
      ++ "approves in the Portal, never a service account (PF-58, DM-77)"))
  else
    Gate.hold (answer x c) ⟨home, e.kind, .approve, some manifest⟩
    let ns := e.ns.getD home
    let stored := c.repository.get ns "App" e.name
    let isPublic ← Gate.ask (publicPublication c file e (stored.any (appIsPublic "App")))
    let verdict : Verdict := ⟨classifyManifest e .create,
      allowed x c ⟨home, e.kind, .delete, some manifest⟩, isPublic || needsSecondPerson e.kind,
      isPublic, !file.deleted && z.grantsItsCaller e, keepsItsClick e.kind⟩
    if file.deleted then
      Gate.hold (answer x c) ⟨home, e.kind, .delete, some manifest⟩
      return { verdict with lane := .red }
    else
      if grantsRights e.kind then
        let replaced := (c.repository.get ns e.kind e.name).map
          (c.repository.manifest (ResourceKey.of ns e.kind e.name))
        Gate.ask (withinOwnRights x c.repository c.bootstrapGroup c.identity c.now manifest replaced
          "approver")
      Gate.ask (z.pipelineRights home manifest)
      Gate.ask (z.organizationWithinBounds e.kind e.spec)
      Gate.ask (z.publicAppAllowed (e.ns.getD "") e)
      return verdict

def approveFile (files : List FileRead) (f : FileRead) : Gate ApiError Check Verdict :=
  match f.envelope with
  | none => approveNative x c project files f
  | some e => approveManifest x z c project f.file e

/-- every file of a merge request, read and judged -/
def approveEveryFile : Gate ApiError Check Verdict := do
  let files ← Gate.each (fun file => Gate.ask (readFile y mr file)) mr.pullRequestFiles
  let verdicts ← Gate.each (approveFile x z c project files) files
  return verdicts.foldl Verdict.and Verdict.start

/-! ## the author -/

/-- who proposed the change: the head commit's author, or the forge account that opened it when the
branch is a writer's own or its head says nobody -/
def headAuthor : Commit :=
  let poster : Commit := ⟨mr.authorName, mr.authorEmail⟩
  if !isChangeBranch mr.headBranch then poster
  else
    match mr.commits with
    | none => poster
    | some commits =>
      match commits.head? with
      | some commit => if Text.trimmed commit.author = "" then poster else commit
      | none => poster

def isAuthor (author : Commit) (identity : Identity) : Bool :=
  let byName :=
    Text.eqIgnoreAsciiCase author.author (identity.name.getD identity.username)
      || Text.eqIgnoreAsciiCase author.author identity.username
  match author.email, identity.email with
  | some prEmail, some userEmail =>
    if Text.trimmed prEmail ≠ "" then Text.eqIgnoreAsciiCase prEmail (Text.trimmed userEmail)
    else byName
  | _, _ => byName

/-! ## the approval -/

/-- a bearer token decides nothing, but for the Portal's own connectors -/
def refuseBearerDecision (via : ApprovedBy) (identity : Identity) : Except ApiError Unit :=
  if !via.isConnector && identity.client.isSome then
    .error (.denied ("a change is approved or rejected by a person in the Portal, never with a "
      ++ "service account's or an agent's token (PF-58, AG-11)"))
  else .ok ()

def mayApproveAnything : Except ApiError Unit :=
  let e := effective x c.repository c.bootstrapGroup c.identity project c.now
  if e.bootstrap || e.grants.any (fun grant => grant.rule.verbs.contains .approve) then .ok ()
  else .error (.denied ("no role grants approve in project " ++ project ++ " (PF-50)"))

def ManifestData.target (data : ManifestData) : Option Value :=
  (data.headEnvelope <|> data.baseEnvelope).map Envelope.toValue

/-- an administrator of the headline's kind; the bootstrap group is none -/
def administers (data : ManifestData) : Bool :=
  !(effective x c.repository c.bootstrapGroup c.identity project c.now).bootstrap
    && allowed x c ⟨project, gateKind data.kind, .approve, data.target⟩
    && allowed x c ⟨project, gateKind data.kind, .delete, data.target⟩

/-- a headline that grants holds its approver to what it grants, its removal to `delete` -/
def approveHeadline (data : ManifestData) : Gate ApiError Check Unit :=
  if !grantsRights data.kind then return ()
  else if data.operation = .delete then do
    Gate.hold (answer x c) ⟨project, data.kind, .delete, data.baseEnvelope.map Envelope.toValue⟩
    match data.baseEnvelope with
    | none => return ()
    | some base => Gate.ask (keepsAnAdministratorAfter x c.repository.toMirror
        [.remove data.kind (base.ns.getD project) base.name] c.now)
  else
    match data.headEnvelope with
    | none => return ()
    | some head => Gate.ask (withinOwnRights x c.repository c.bootstrapGroup c.identity c.now
        head.toValue (data.baseEnvelope.map Envelope.toValue) "approver")

/-- nobody decides alone on access, a model or a change of their own -/
def secondPerson (data : ManifestData) (via : ApprovedBy) (verdict : Verdict) (author : Bool) :
    Except ApiError Unit :=
  let connector := via.isConnector
  if author && verdict.grantsApprover then
    .error (.selfApproval ("this change grants access to its own author (a Policy naming them, a "
      ++ "Group they are in, or a Group adding them), so a second person approves it, never its "
      ++ "author (PF-58)"))
  else if author && !connector && (verdict.changesAccess || needsSecondPerson data.kind) then
    .error (.selfApproval ("a change to " ++ data.kind ++ " is approved by a second administrator, "
      ++ "never by its proposer (PF-58)"))
  else if author && !((connector || via = .person) && verdict.deletes
      && administers x c project data) then
    .error (.selfApproval ("proposal author cannot approve their own change (AG-11); an "
      ++ "administrator of its kind may, in the Portal (PF-58)"))
  else .ok ()

def needsClick (via : ApprovedBy) (verdict : Verdict) : Except ApiError Unit :=
  match via with
  | .connector _ =>
    if verdict.publishes || verdict.grantsAccess then
      .error (.denied ("a change that grants access or publishes publicly waits for a person's "
        ++ "approval in the Portal, even through an autonomous connector (T-6552, PF-58, EP-142)"))
    else .ok ()
  | .operation =>
    if verdict.publishes then
      .error (.denied ("a public publication or a public App is approved by a person in the Portal, "
        ++ "never by the assistant, an agent or MCP (EP-142, AP-175)"))
    else .ok ()
  | .person => .ok ()

/-- the name a red change is typed back by -/
def confirmed (data : ManifestData) (lane : Lane) (confirm : Option String) : Except ApiError Unit :=
  if lane = .red && confirm ≠ some data.name then
    .error (.badRequest ("red lane change requires confirm to be '" ++ data.name
      ++ "' (CC-19, CC-39)"))
  else .ok ()

def headlineFor (files : Option (List ChangedFile)) (id : String) : Except ApiError ManifestData :=
  match loadManifestData x y mr project files with
  | .error e => .error e
  | .ok none => .error (.notFound ("change proposal '" ++ id ++ "' not found in project '" ++ project
      ++ "'"))
  | .ok (some data) => .ok data

/-- an approval up to its merge: the lane it enforced, and the checks it made -/
def approveChangeFor (id : String) (confirm : Option String) (via : ApprovedBy) :
    Gate ApiError Check Lane := do
  Gate.ask (refuseBearerDecision via c.identity)
  Gate.ask (mayApproveAnything x c project)
  Gate.ask z.secondFactor
  Gate.ask z.isChange
  let data ← Gate.ask (headlineFor x y mr project none id)
  Gate.hold (answer x c) ⟨project, gateKind data.kind, .approve, data.target⟩
  approveHeadline x c project data
  let verdict ← approveEveryFile x y z c mr project
  Gate.ask (needsClick via verdict)
  Gate.ask z.mergesAfter
  Gate.ask (secondPerson x c project data via verdict (isAuthor (headAuthor mr) c.identity))
  let lane := riskiest data.lane verdict.lane
  Gate.ask (confirmed data lane confirm)
  return lane

/-! ## the lanes shown -/

def shownLane (file : ChangedFile) : Lane :=
  let head := if file.deleted then none else (mr.head.getFile file.path).bind y.envelope
  let base := if file.added then none else (mr.base.getFile file.path).bind y.envelope
  if file.deleted then .red
  else
    match head <|> base with
    | some e => classifyManifest e .create
    | none => .green

def changedFiles : List Lane := mr.pullRequestFiles.map (shownLane y mr)

def pathLane (file : ChangedFile) : Lane :=
  match nativeKind x file.path with
  | some kind => classify kind (if file.deleted then .delete else .create) .null
  | none => .green

def laneOfPaths : Lane := riskiestOf (mr.pullRequestFiles.map (pathLane x))

def detailLane (data : ManifestData) : Lane := riskiest data.lane (riskiestOf (changedFiles y mr))

def listLane (data : ManifestData) : Lane := riskiest data.lane (laneOfPaths x mr)

/-- the lane a change's page answers with -/
def changeForLane (id : String) : Except ApiError Lane :=
  (headlineFor x y mr project (some mr.pullRequestFiles) id).map (detailLane y mr)

/-- the lane the list of changes answers with -/
def listedLane (id : String) : Except ApiError Lane :=
  (headlineFor x y mr project (some mr.pullRequestFiles) id).map (listLane x mr)

/-- the lane an approval enforces, once the walk over the files refuses nothing -/
def approvedLane (id : String) : Gate ApiError Check Lane := do
  let data ← Gate.ask (headlineFor x y mr project none id)
  let verdict ← approveEveryFile x y z c mr project
  return riskiest data.lane verdict.lane

/-! ## what each file is judged by -/

/-- the lane of a file by the manifest it holds -/
def laneOf (deleted : Bool) : Option Envelope → Lane
  | none => .green
  | some e => if deleted then .red else classifyManifest e .create

/-- the manifest a file holds on the side the change leaves -/
def manifestOf (file : ChangedFile) : Option Envelope :=
  ((sideOf mr file).getFile file.path).bind y.envelope

/-- the lane the approval takes from a file -/
def enforcedLane (file : ChangedFile) : Lane := laneOf file.deleted (manifestOf y mr file)

def checksOf (files : List FileRead) (f : FileRead) : List Check :=
  let home := (projectOfPath f.file.path).getD project
  let checks := fun kind target => ⟨home, kind, .approve, target⟩
    :: if f.file.deleted then [(⟨home, kind, .delete, target⟩ : Check)] else []
  match f.envelope with
  | some e => checks e.kind (some e.toValue)
  | none =>
    match nativeKind x f.file.path <|> (if f.encrypted then some "DataSource" else none) with
    | none => []
    | some kind => checks kind (nativeTarget files f.file.path kind)

end

section
variable {x : JcAccess} {y : Reads} {z : Further} {c : Caller} {mr : MergeRequest}
  {project : String}

theorem readFile_ok {file : ChangedFile} {f : FileRead} (h : readFile y mr file = .ok f) :
    f.file = file ∧ f.envelope = manifestOf y mr file := by
  unfold readFile at h
  unfold manifestOf
  split at h
  · exact absurd h (by simp)
  · rename_i content hcontent
    simp only at h
    split at h
    · exact absurd h (by simp)
    · cases h
      rw [hcontent]
      exact ⟨rfl, rfl⟩

theorem approveNative_ok {files : List FileRead} {f : FileRead} {v : Verdict} {log : List Check}
    (he : f.envelope = none) (h : approveNative x c project files f = Gate.ok v log) :
    log = checksOf x project files f ∧ v.lane = .green := by
  unfold approveNative at h
  unfold checksOf
  rw [he]
  simp only at h ⊢
  split at h
  · exact absurd h (by simp)
  · rename_i kind hkind
    cases hd : f.file.deleted with
    | true =>
      simp only [hd, if_true, Gate.bind_eq_ok, Gate.hold_eq_ok, Gate.pure_eq_ok] at h ⊢
      obtain ⟨_, _, _, ⟨-, rfl⟩, ⟨_, _, _, ⟨-, rfl⟩, ⟨rfl, rfl⟩, rfl⟩, rfl⟩ := h
      exact ⟨rfl, rfl⟩
    | false =>
      simp only [hd, Bool.false_eq_true, if_false, Gate.bind_eq_ok, Gate.hold_eq_ok,
        Gate.pure_eq_ok] at h ⊢
      obtain ⟨_, _, _, ⟨-, rfl⟩, ⟨rfl, rfl⟩, rfl⟩ := h
      exact ⟨rfl, rfl⟩

theorem approveManifest_ok {files : List FileRead} {f : FileRead} {e : Envelope} {v : Verdict}
    {log : List Check} (he : f.envelope = some e)
    (h : approveManifest x z c project f.file e = Gate.ok v log) :
    log = checksOf x project files f ∧
      v.lane = (if f.file.deleted then .red else classifyManifest e .create) ∧
      (needsSecondPerson e.kind = true → v.changesAccess = true) := by
  unfold approveManifest at h
  unfold checksOf
  rw [he]
  simp only at h ⊢
  split at h
  · exact absurd h (by simp)
  · simp only [Gate.bind_eq_ok, Gate.hold_eq_ok, Gate.ask_eq_ok] at h
    obtain ⟨_, _, _, ⟨-, rfl⟩, ⟨isPublic, _, _, ⟨-, rfl⟩, hrest, rfl⟩, rfl⟩ := h
    cases hd : f.file.deleted with
    | true =>
      simp only [hd, if_true, Gate.bind_eq_ok, Gate.hold_eq_ok, Gate.pure_eq_ok] at hrest ⊢
      obtain ⟨_, _, _, ⟨-, rfl⟩, ⟨rfl, rfl⟩, rfl⟩ := hrest
      exact ⟨rfl, rfl, fun hk => by simp [hk]⟩
    | false =>
      simp only [hd, Bool.false_eq_true, if_false] at hrest ⊢
      split at hrest
      · simp only [Gate.bind_eq_ok, Gate.ask_eq_ok, Gate.pure_eq_ok] at hrest
        obtain ⟨_, _, _, ⟨-, rfl⟩, ⟨_, _, _, ⟨-, rfl⟩, ⟨_, _, _, ⟨-, rfl⟩, ⟨_, _, _, ⟨-, rfl⟩,
          ⟨rfl, rfl⟩, rfl⟩, rfl⟩, rfl⟩, rfl⟩ := hrest
        exact ⟨rfl, rfl, fun hk => by simp [hk]⟩
      · simp only [Gate.bind_eq_ok, Gate.ask_eq_ok, Gate.pure_eq_ok] at hrest
        obtain ⟨_, _, _, ⟨-, rfl⟩, ⟨_, _, _, ⟨-, rfl⟩, ⟨_, _, _, ⟨-, rfl⟩, ⟨rfl, rfl⟩, rfl⟩, rfl⟩,
          rfl⟩ := hrest
        exact ⟨rfl, rfl, fun hk => by simp [hk]⟩

/-- **One file approved**: the checks made of it, its lane, and whether it takes two. -/
theorem approveFile_ok {files : List FileRead} {f : FileRead} {v : Verdict} {log : List Check}
    (h : approveFile x z c project files f = Gate.ok v log) :
    log = checksOf x project files f ∧ v.lane = laneOf f.file.deleted f.envelope ∧
      ∀ e, f.envelope = some e → needsSecondPerson e.kind = true → v.changesAccess = true := by
  unfold approveFile at h
  cases he : f.envelope with
  | none =>
    rw [he] at h
    obtain ⟨h1, h2⟩ := approveNative_ok he h
    exact ⟨h1, h2, fun e hc => absurd hc (by simp)⟩
  | some e =>
    rw [he] at h
    obtain ⟨h1, h2, h3⟩ := approveManifest_ok (f := f) he h
    refine ⟨h1, h2, fun e' he' => ?_⟩
    cases he'
    exact h3

theorem foldl_and_lane (vs : List Verdict) (v : Verdict) :
    (vs.foldl Verdict.and v).lane = (vs.map Verdict.lane).foldl riskiest v.lane := by
  induction vs generalizing v with
  | nil => rfl
  | cons w vs ih =>
    rw [List.foldl_cons, ih]
    rfl

theorem foldl_and_access (vs : List Verdict) (v : Verdict) :
    (vs.foldl Verdict.and v).changesAccess = (v.changesAccess || vs.any Verdict.changesAccess) := by
  induction vs generalizing v with
  | nil => simp
  | cons w vs ih =>
    rw [List.foldl_cons, ih, List.any_cons, ← Bool.or_assoc]
    rfl

/-- **Every file approved**: the files as they were read, the checks made of each, the lane they are
taken in. -/
theorem approveEveryFile_ok {v : Verdict} {log : List Check}
    (h : approveEveryFile x y z c mr project = Gate.ok v log) :
    v.lane = riskiestOf (mr.pullRequestFiles.map (enforcedLane y mr)) ∧
      (∀ file ∈ mr.pullRequestFiles, ∀ e, manifestOf y mr file = some e →
        needsSecondPerson e.kind = true → v.changesAccess = true) ∧
      ∃ files : List FileRead,
        List.Forall₂ (fun file f => f.file = file ∧ f.envelope = manifestOf y mr file)
          mr.pullRequestFiles files ∧ log = files.flatMap (checksOf x project files) := by
  simp only [approveEveryFile, Gate.bind_eq_ok, Gate.pure_eq_ok, Gate.each_eq_ok,
    Gate.ask_eq_ok] at h
  obtain ⟨files, l1, l2, ⟨rs, hrs, rfl, rfl⟩, ⟨vs, l3, l4, ⟨rs', hrs', rfl, rfl⟩, ⟨rfl, rfl⟩, rfl⟩,
    rfl⟩ := h
  have hread : List.Forall₂ (fun file f => f.file = file ∧ f.envelope = manifestOf y mr file)
      mr.pullRequestFiles (rs.map Prod.fst) :=
    List.forall₂_map_right_iff.mpr (hrs.imp (fun _ _ hr => readFile_ok hr.1))
  -- what the walk found of a file is what its approval says
  have hboth : List.Forall₂ (fun file (r : Verdict × List Check) =>
      r.1.lane = enforcedLane y mr file ∧ ∀ e, manifestOf y mr file = some e →
        needsSecondPerson e.kind = true → r.1.changesAccess = true) mr.pullRequestFiles rs' :=
    (Gate.forall₂_trans hread hrs').imp (fun file r hr => by
      obtain ⟨f, ⟨hfile, hmanifest⟩, hv⟩ := hr
      have hok := (approveFile_ok hv).2
      rwa [hfile, hmanifest] at hok)
  refine ⟨?_, ?_, rs.map Prod.fst, hread, ?_⟩
  · rw [foldl_and_lane, List.map_map]
    exact congrArg riskiestOf (Gate.map_eq_of_forall₂ hboth (fun _ _ hr => hr.1.symm)).symm
  · intro file hfile e he hk
    obtain ⟨r, hr, -, haccess⟩ := Gate.exists_of_forall₂ hboth hfile
    rw [foldl_and_access]
    exact Bool.or_eq_true_iff.mpr (.inr (List.any_eq_true.mpr
      ⟨r.1, List.mem_map_of_mem hr, haccess e he hk⟩))
  · have hreads : rs.flatMap Prod.snd = [] := by
      rw [List.flatMap_eq_nil_iff]
      intro r hr
      obtain ⟨file, -, hfile⟩ := Gate.exists_of_forall₂ hrs.flip hr
      exact hfile.2
    have hlogs : rs'.map Prod.snd = (rs.map Prod.fst).map (checksOf x project (rs.map Prod.fst)) :=
      (Gate.map_eq_of_forall₂ hrs' (fun _ _ hr => (approveFile_ok hr).1.symm)).symm
    rw [hreads, List.nil_append, List.append_nil, List.flatMap_def, hlogs, List.flatMap_def]

/-- the check a headline adds to the approval's own -/
def headlineChecks (project : String) (data : ManifestData) : List Check :=
  if grantsRights data.kind && data.operation = .delete then
    [⟨project, data.kind, .delete, data.baseEnvelope.map Envelope.toValue⟩]
  else []

theorem approveHeadline_ok {data : ManifestData} {u : Unit} {log : List Check}
    (h : approveHeadline x c project data = Gate.ok u log) : log = headlineChecks project data := by
  unfold approveHeadline at h
  unfold headlineChecks
  cases hg : grantsRights data.kind with
  | false =>
    simp only [hg, Bool.not_false, if_true, Gate.pure_eq_ok] at h
    simp [h.2]
  | true =>
    simp only [hg, Bool.not_true, Bool.false_eq_true, if_false] at h
    by_cases hd : data.operation = .delete
    · simp only [hd, if_true, Gate.bind_eq_ok, Gate.hold_eq_ok] at h
      obtain ⟨_, _, rest, ⟨-, rfl⟩, hrest, rfl⟩ := h
      have hnil : rest = [] := by
        split at hrest
        · exact (Gate.pure_eq_ok.mp hrest).2
        · exact (Gate.ask_eq_ok.mp hrest).2
      simp [hd, hnil]
    · simp only [hd, if_false] at h
      have hnil : log = [] := by
        split at h
        · exact (Gate.pure_eq_ok.mp h).2
        · exact (Gate.ask_eq_ok.mp h).2
      simp [hd, hnil]

/-- **A change approved**: its headline, the walk over its files, the lane it was held to, and every
check that was made. -/
theorem approveChangeFor_ok {id : String} {confirm : Option String} {via : ApprovedBy} {lane : Lane}
    {log : List Check}
    (h : approveChangeFor x y z c mr project id confirm via = Gate.ok lane log) :
    ∃ data verdict fileLog, loadManifestData x y mr project none = .ok (some data) ∧
      approveEveryFile x y z c mr project = Gate.ok verdict fileLog ∧
      lane = riskiest data.lane verdict.lane ∧
      secondPerson x c project data via verdict (isAuthor (headAuthor mr) c.identity) = .ok () ∧
      log = ⟨project, gateKind data.kind, .approve, data.target⟩
        :: headlineChecks project data ++ fileLog := by
  unfold approveChangeFor at h
  obtain ⟨_, l1, r1, h1, g1, rfl⟩ := Gate.bind_eq_ok.mp h
  obtain ⟨_, l2, r2, h2, g2, rfl⟩ := Gate.bind_eq_ok.mp g1
  obtain ⟨_, l3, r3, h3, g3, rfl⟩ := Gate.bind_eq_ok.mp g2
  obtain ⟨_, l4, r4, h4, g4, rfl⟩ := Gate.bind_eq_ok.mp g3
  obtain ⟨data, l5, r5, h5, g5, rfl⟩ := Gate.bind_eq_ok.mp g4
  obtain ⟨_, l6, r6, h6, g6, rfl⟩ := Gate.bind_eq_ok.mp g5
  obtain ⟨_, l7, r7, hheadline, g7, rfl⟩ := Gate.bind_eq_ok.mp g6
  obtain ⟨verdict, fileLog, r8, hfiles, g8, rfl⟩ := Gate.bind_eq_ok.mp g7
  obtain ⟨_, l9, r9, h9, g9, rfl⟩ := Gate.bind_eq_ok.mp g8
  obtain ⟨_, l10, r10, h10, g10, rfl⟩ := Gate.bind_eq_ok.mp g9
  obtain ⟨_, l11, r11, h11, g11, rfl⟩ := Gate.bind_eq_ok.mp g10
  obtain ⟨_, l12, r12, h12, g12, rfl⟩ := Gate.bind_eq_ok.mp g11
  obtain ⟨rfl, rfl⟩ := Gate.pure_eq_ok.mp g12
  obtain ⟨hdata, rfl⟩ := Gate.ask_eq_ok.mp h5
  obtain ⟨hsecond, rfl⟩ := Gate.ask_eq_ok.mp h11
  -- what leaves no record
  rw [(Gate.ask_eq_ok.mp h1).2, (Gate.ask_eq_ok.mp h2).2, (Gate.ask_eq_ok.mp h3).2,
    (Gate.ask_eq_ok.mp h4).2, (Gate.hold_eq_ok.mp h6).2, (Gate.ask_eq_ok.mp h9).2,
    (Gate.ask_eq_ok.mp h10).2, (Gate.ask_eq_ok.mp h12).2]
  refine ⟨data, verdict, fileLog, ?_, hfiles, rfl, hsecond, ?_⟩
  · unfold headlineFor at hdata
    split at hdata
    · exact absurd hdata (by simp)
    · exact absurd hdata (by simp)
    · rename_i data' hload
      cases hdata
      exact hload
  · rw [approveHeadline_ok hheadline]
    simp

end

end Changes
end Portal
