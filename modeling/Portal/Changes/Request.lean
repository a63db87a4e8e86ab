import Portal.Changes.Lane

/-!
# A merge request and its headline (`changes.rs`: `load_manifest_data`, `bundle_headline`,
`secret_headline`, `parse_branch_name`; `gitea.rs`: `pull_request_files`)

A change is a merge request of the forge.  Its list and its page are headed by one manifest: the one
its branch names, or for a branch that names none the first of its files that holds one.

* `MergeRequest`       the branch, the files the forge lists, both sides' trees and the commits;
* `MergeRequest.after` what a path holds once the change is merged;
* `loadManifestData`   the headline, found with the list of files at hand or without it.
-/

namespace Portal
namespace Changes

open Access

/-! ## the forge -/

/-- the files of one commit, in the forge's order -/
abbrev Tree := List (String × String)

def Tree.getFile (t : Tree) (path : String) : Option String := t.lookup path

/-- a changed file as the forge lists it -/
structure ChangedFileDto where
  filename : String
  status : String
  /-- where a renamed file was; the Portal does not read it -/
  previous : Option String
deriving DecidableEq

/-- a changed file as the Portal keeps it -/
structure ChangedFile where
  path : String
  deleted : Bool
  added : Bool
deriving DecidableEq

structure Commit where
  author : String
  email : Option String
deriving DecidableEq

structure MergeRequest where
  number : Nat
  headBranch : String
  /-- the head commit, empty when the forge did not say -/
  headSha : String
  baseBranch : String
  listed : List ChangedFileDto
  /-- the head commit's files -/
  head : Tree
  /-- the base branch's files -/
  base : Tree
  /-- the branch's commits, newest first; none when the forge says the head is not there -/
  commits : Option (List Commit)
  /-- the forge account that opened it -/
  authorName : String
  authorEmail : Option String
  /-- whether the repository is one project's -/
  isProjectRepository : Bool

/-- the ref a review reads the change's files at -/
def MergeRequest.headRef (mr : MergeRequest) : String :=
  if mr.headSha = "" then mr.headBranch else mr.headSha

def MergeRequest.pullRequestFiles (mr : MergeRequest) : List ChangedFile :=
  mr.listed.map (fun dto => ⟨dto.filename, dto.status = "deleted", dto.status = "added"⟩)

/-- what a path holds once the change is merged: what the head holds of a file listed and not
deleted, nothing of one deleted or renamed away, what the base holds of any other -/
def MergeRequest.after (mr : MergeRequest) (path : String) : Option String :=
  if mr.pullRequestFiles.any (fun f => f.path = path && !f.deleted) then mr.head.getFile path
  else if mr.pullRequestFiles.any (fun f => f.path = path)
      || mr.listed.any (fun dto => dto.status = "renamed" && dto.previous = some path) then none
  else mr.base.getFile path

/-- what the Portal takes from serde and jc-core to read files -/
structure Reads where
  /-- a text as a manifest, or what serde says -/
  parse : String → Except String Envelope
  json : String → Option Value
  /-- the members of a text that is a mapping, each with its key where that is a text -/
  mapping : String → Option (List (Option String × Value))
  /-- `KindInfo::repo_path`, of project, space and name -/
  repoPath : KindInfo → String → String → String → String
  /-- whether the path template of a kind holds `{space}` -/
  hasSpace : KindInfo → Bool

/-- a text as a manifest, where it is one -/
def Reads.envelope (y : Reads) (content : String) : Option Envelope := (y.parse content).toOption

/-! ## branch names -/

structure BranchInfo where
  operation : Operation
  kindLower : String
  resourceName : String

def bundlePrefixes : List String :=
  ["flow-", "import-", "delete-project-", "remove-person-", "rename-app-shapes-", "restore-",
    "adopt-"]

/-- a branch without `refs/heads/` -/
def cleanBranch (branch : String) : String := (Text.after "refs/heads/" branch).getD branch

/-- whether a pull request on a branch is a change of the Portal's own -/
def isChangeBranch (branch : String) : Bool :=
  Text.startsWith "portal/" (cleanBranch branch)
    || Text.startsWith "workspace/" (cleanBranch branch)

/-- a branch name without the nonce of a retry, `_` and eight hex digits -/
def withoutNonce (rest : List Char) : List Char :=
  let parts := Text.split (· = '_') rest
  match parts.getLast? with
  | some nonce =>
    if 1 < parts.length && nonce.length = 8 && nonce.all Text.isHexDigit then rest.take (rest.length - 9)
    else rest
  | none => rest

def operationOf : String → Option Operation
  | "create" => some .create
  | "update" => some .update
  | "delete" => some .delete
  | _ => none

/-- the operation, kind and resource a branch names -/
def parseBranchName (branch : String) : Option BranchInfo := do
  let rest ← Text.after "portal/" (cleanBranch branch)
  if bundlePrefixes.any (fun start => Text.startsWith start rest) then none
  else
    let parts := (Text.split (· = '-') (withoutNonce rest.toList)).map String.ofList
    if parts.length < 4 then none
    else
      let operation ← operationOf (parts.headD "")
      let name := "-".intercalate (parts.dropLast.drop 2)
      if name = "" then none else some ⟨operation, (parts[1]?).getD "", name⟩

/-! ## the headline -/

structure ManifestData where
  kind : String
  name : String
  operation : Operation
  baseEnvelope : Option Envelope
  headEnvelope : Option Envelope
deriving DecidableEq

/-- whether a path is the manifest of a resource in a project -/
def namesManifest (path project name : String) : Bool :=
  match Text.after ("projects/" ++ project ++ "/") path with
  | none => false
  | some rest => [".yaml", ".yml", "/space.yaml", "/pipeline.yaml", "/app.yaml"].any
      (fun tail => Text.endsWith ("/" ++ name ++ tail) ("/" ++ rest))

def manifestInFiles (files : Option (List ChangedFile)) (project name : String) (deleted : Bool) :
    Option String :=
  files.bind (fun files => (files.find? (fun file =>
    file.deleted = deleted && namesManifest file.path project name)).map ChangedFile.path)

def findManifestInTree (t : Tree) (project name : String) : Option String :=
  (t.map Prod.fst).find? (fun path => namesManifest path project name)

/-- the namespaces a kind's manifests live in for a call inside a project -/
def homes (info : KindInfo) (project : String) : List String :=
  match info.scope with
  | .organization => [orgNamespace]
  | .project => [project]
  | .organizationOrProject => if project = orgNamespace then [orgNamespace] else [project, orgNamespace]

section
variable (x : JcAccess) (y : Reads) (mr : MergeRequest) (project : String)
  (files : Option (List ChangedFile))

def repositoryPath (info : KindInfo) (home space name : String) : Option String :=
  if y.hasSpace info && space = "" then none else some (y.repoPath info home space name)

/-- the Portal's own kind of secrets, which is no manifest's -/
def secretKind : String := "Secret"

def operationIn (file : ChangedFile) : Operation :=
  if file.deleted then .delete else if file.added then .create else .update

def isSecretBranch (branch : String) : Bool := Text.startsWith "portal/secret-" (cleanBranch branch)

def secretHeadline : Option ManifestData :=
  (files.getD mr.pullRequestFiles).findSome? (fun file =>
    match secretPath file.path with
    | some (home, name) =>
      if home = project then some ⟨secretKind, name, operationIn file, none, none⟩ else none
    | none => none)

/-- which file of a bundle heads it, lowest first -/
def headlineRank (path : String) : Nat :=
  if Text.endsWith "/project.yaml" path then 0
  else if Text.endsWith "/space.yaml" path then 1
  else 2

def seedEnvelope (path content : String) : Option Envelope :=
  match segments path with
  | ["projects", project, "spaces", space, "entities", "seed", file] => do
    let name ← Text.before ".json" file
    if name = "" then none
    else
      let spec ← y.json content
      return ⟨"joinedcontext.com/v1", "Entity", name, some project,
        [("labels", .object [("joinedcontext.com/space", .string space)])], spec, none, by simp⟩
  | _ => none

def sideOf (file : ChangedFile) : Tree := if file.deleted then mr.base else mr.head

/-- the headline a file of a bundle makes, when it holds a manifest -/
def fileHeadline (file : ChangedFile) : Option ManifestData := do
  let envelope ← y.envelope (← (sideOf mr file).getFile file.path)
  return if file.deleted then ⟨envelope.kind, envelope.name, .delete, some envelope, none⟩
    else if file.added then ⟨envelope.kind, envelope.name, .create, none, some envelope⟩
    else ⟨envelope.kind, envelope.name, .update, (mr.base.getFile file.path).bind y.envelope,
      some envelope⟩

def seedHeadline (file : ChangedFile) : Option ManifestData := do
  let head ← seedEnvelope y file.path (← mr.head.getFile file.path)
  let base := (mr.base.getFile file.path).bind (seedEnvelope y file.path)
  return ⟨head.kind, head.name, if base.isSome then .update else .create, base, some head⟩

/-- whether a branch that names no resource carries several: a bundle of the Portal's, a workspace
or a writer's own -/
def isBundleBranch (branch : String) : Bool :=
  match Text.after "portal/" (cleanBranch branch) with
  | some rest => bundlePrefixes.any (fun start => Text.startsWith start rest)
  | none => true

def bundleHeadline : Option ManifestData :=
  if !isBundleBranch mr.headBranch then none
  else
    let home := if project = orgNamespace then "users/" else "projects/" ++ project ++ "/"
    let own := (files.getD mr.pullRequestFiles).filter (fun file => Text.startsWith home file.path)
    let ranked := own.insertionSort (fun a b => headlineRank a.path ≤ headlineRank b.path)
    ranked.findSome? (fileHeadline y mr) <|>
      (ranked.filter (fun file => !file.deleted)).findSome? (seedHeadline y mr)

def deleteHeadline (info : Option KindInfo) (branch : BranchInfo) :
    Except ApiError (Option ManifestData) :=
  let candidates := (info.map (fun info => (homes info project).filterMap (fun home =>
    repositoryPath y info home project branch.resourceName))).getD []
  let path := manifestInFiles files project branch.resourceName true
    <|> candidates.find? (fun path => (mr.base.getFile path).isSome)
    <|> findManifestInTree mr.base project branch.resourceName
  match path with
  | none => .ok none
  | some path =>
    match mr.base.getFile path with
    | none => .error (.notFound ("manifest file '" ++ path ++ "' not found on base branch"))
    | some content =>
      match y.parse content with
      | .error e => .error (.internal ("failed to parse base manifest: " ++ e))
      | .ok envelope => .ok (some ⟨envelope.kind, envelope.name, .delete, some envelope, none⟩)

def writeHeadline (info : Option KindInfo) (branch : BranchInfo) :
    Except ApiError (Option ManifestData) :=
  let direct := info.bind (fun info =>
    repositoryPath y info project project branch.resourceName)
  let registry := "projects/" ++ branch.resourceName ++ ".yaml"
  let path := manifestInFiles files project branch.resourceName false
    <|> direct.filter (fun path => (mr.head.getFile path).isSome)
    <|> (if branch.kindLower = "project" && !mr.isProjectRepository
          && (mr.head.getFile registry).isSome then some registry
        else findManifestInTree mr.head project branch.resourceName)
  match path with
  | none => .ok none
  | some path =>
    match mr.head.getFile path with
    | none => .error (.notFound ("manifest file '" ++ path ++ "' not found on head branch"))
    | some content =>
      match y.parse content with
      | .error e => .error (.internal ("failed to parse head manifest: " ++ e))
      | .ok head =>
        let base := if branch.operation = .update then
            (mr.base.getFile path).bind y.envelope
          else none
        .ok (some ⟨head.kind, head.name, branch.operation, base, some head⟩)

/-- the headline of a merge request, found in the list of its files where that is at hand -/
def loadManifestData : Except ApiError (Option ManifestData) :=
  if isSecretBranch mr.headBranch then .ok (secretHeadline mr project files)
  else
    match parseBranchName mr.headBranch with
    | none => .ok (bundleHeadline y mr project files)
    | some branch =>
      let info := (kinds x).find? (fun info =>
        info.kind.toList.map Char.toLower = branch.kindLower.toList)
      if branch.operation = .delete then deleteHeadline y mr project files info branch
      else writeHeadline y mr project files info branch

def ManifestData.lane (data : ManifestData) : Lane :=
  if data.operation = .delete then .red
  else
    match data.headEnvelope with
    | some e => classifyManifest e data.operation
    | none => .yellow

end

/-! ## what a headline is -/

section
variable {x : JcAccess} {y : Reads} {mr : MergeRequest} {project : String}

def ManifestData.Removes (data : ManifestData) : Prop :=
  data.operation = .delete → data.headEnvelope = none

theorem removes_secretHeadline {files : Option (List ChangedFile)} {data : ManifestData}
    (h : secretHeadline mr project files = some data) : data.Removes := by
  obtain ⟨file, -, hfile⟩ := List.exists_of_findSome?_eq_some h
  split at hfile
  · split at hfile
    · cases hfile
      exact fun _ => rfl
    · exact absurd hfile (by simp)
  · exact absurd hfile (by simp)

theorem removes_fileHeadline {file : ChangedFile} {data : ManifestData}
    (h : fileHeadline y mr file = some data) : data.Removes := by
  unfold fileHeadline at h
  simp only [bind, Option.bind_eq_some_iff, pure, Option.some.injEq] at h
  obtain ⟨content, -, e, -, rfl⟩ := h
  intro hop
  split_ifs at hop ⊢
  rfl

theorem removes_seedHeadline {file : ChangedFile} {data : ManifestData}
    (h : seedHeadline y mr file = some data) : data.Removes := by
  unfold seedHeadline at h
  simp only [bind, Option.bind_eq_some_iff, pure, Option.some.injEq] at h
  obtain ⟨content, -, head, -, rfl⟩ := h
  intro hop
  simp only at hop
  split_ifs at hop

theorem removes_bundleHeadline {files : Option (List ChangedFile)} {data : ManifestData}
    (h : bundleHeadline y mr project files = some data) : data.Removes := by
  unfold bundleHeadline at h
  simp only at h
  split at h
  · exact absurd h (by simp)
  · rw [Option.orElse_eq_orElse, Option.orElse_eq_or, Option.or_eq_some_iff] at h
    rcases h with h | ⟨-, h⟩
    · obtain ⟨file, -, hfile⟩ := List.exists_of_findSome?_eq_some h
      exact removes_fileHeadline hfile
    · obtain ⟨file, -, hfile⟩ := List.exists_of_findSome?_eq_some h
      exact removes_seedHeadline hfile

/-- **A headline that removes has no manifest on the side the change leaves.** -/
theorem loadManifestData_removes {files : Option (List ChangedFile)} {data : ManifestData}
    (h : loadManifestData x y mr project files = .ok (some data)) : data.Removes := by
  unfold loadManifestData at h
  split at h
  · exact removes_secretHeadline (Except.ok.inj h)
  · split at h
    · exact removes_bundleHeadline (Except.ok.inj h)
    · rename_i branch hbranch
      simp only at h
      split at h
      · unfold deleteHeadline at h
        simp only at h
        split at h
        · exact absurd h (by simp)
        · split at h
          · exact absurd h (by simp)
          · split at h
            · exact absurd h (by simp)
            · cases h
              exact fun _ => rfl
      · rename_i hop
        unfold writeHeadline at h
        simp only at h
        split at h
        · exact absurd h (by simp)
        · split at h
          · exact absurd h (by simp)
          · split at h
            · exact absurd h (by simp)
            · cases h
              exact fun hc => absurd hc hop

end

end Changes
end Portal
