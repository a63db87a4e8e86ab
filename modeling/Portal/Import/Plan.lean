import Portal.Import.Bundle

/-!
# The plan of an import (`api/import.rs`: `plan_import`, `renamed`, `reassign_policies`, `annotate`;
`apps/default_groups.rs`: `plan`)

What an import would write.  Every manifest lands in the project, meets the conflict policy where
the mirror holds it already, and is filed by its kind, home, space and name; the native files of the
bundle follow under the paths they had.

* `Verdict`, `judge`       what the policy makes of a manifest;
* `freshName`              the first free name of a renamed one;
* `renamePass`             the references moved, one rename after another;
* `planImport`             the report and the files;
* `planImport_ok`          what an import that is planned is made of.
-/

namespace Portal
namespace Import

open Access Changes

/-! ## conflicts -/

/-- the name a renamed resource takes: its own, and where it came from -/
def renamed (name origin : String) : String :=
  let suffix := origin.toList.filter (fun c => Text.isAsciiLetter c || Text.isDigit c || c = '-')
  if suffix.isEmpty then name ++ "-imported" else name ++ "-" ++ String.ofList suffix

/-- the names tried in turn: the stem, then numbered from two -/
def candidates (stem : String) (count : Nat) : List String :=
  stem :: (List.range count).map (fun i => stem ++ "-" ++ toString (i + 2))

/-- the first name tried that no manifest of the mirror has; there are more than the mirror holds -/
def freshName (m : Mirror) (ns kind stem : String) : String :=
  ((candidates stem m.resources.size).find? (fun name => (m.get ns kind name).isNone)).getD stem

/-- what the conflict policy makes of a manifest -/
inductive Verdict where
  | create
  | skip
  | replace
  | rename (new : String)
deriving DecidableEq

section
variable (x : JcAccess) (s : Served) (m : Mirror) (project : String)

def storedIn (e : Envelope) : String := namespaceOf x e.kind e.ns project

/-- the manifest of the mirror a manifest would be written over -/
def existing (e : Envelope) : Option Value := m.get (storedIn x project e) e.kind e.name

def judge (policy : ConflictPolicy) (origin : String) (e : Envelope) : Except ApiError Verdict :=
  if (existing x m project e).isNone then .ok .create
  else
    match policy with
    | .fail => .error (.conflict (e.kind ++ " '" ++ e.name ++ "' already exists in project '"
        ++ project ++ "'; choose skip, replace or rename (MF-23)"))
    | .skip => .ok .skip
    | .replace => .ok .replace
    | .rename =>
      let new := freshName m (storedIn x project e) e.kind (renamed e.name origin)
      if s.isDns1123 new then .ok (.rename new)
      else .error (.badRequest ("renaming '" ++ e.name ++ "' would produce '" ++ new ++ "', which is "
        ++ "not a name this platform can store; rename it in the source project first (MF-23)"))

end

/-- the manifest a verdict keeps, under the name it gives it -/
def Verdict.keeps (e : Envelope) : Verdict → Option Envelope
  | .create => some e
  | .skip => none
  | .replace => some e
  | .rename new => some { e with name := new }

/-- the old and new name of a renamed manifest -/
def Verdict.rename? (e : Envelope) : Verdict → Option (String × String)
  | .rename new => some (e.name, new)
  | _ => none

/-- the references of every manifest kept, after one rename; its kind is that of the first manifest
with the new name -/
def renamePass (keep : List Envelope) (r : String × String) : List Envelope :=
  match keep.find? (fun e => e.name = r.2) with
  | none => keep
  | some renamed => keep.map (fun e =>
      let spec := rewriteReference renamed.kind r.1 r.2 e.spec
      { e with spec := if renamed.kind = "ContextSpace" then rewriteSpace r.1 r.2 spec else spec })

/-! ## what the platform writes itself -/

section
variable (x : JcAccess) (s : Served) (m : Mirror) (project : String)

/-- an Endpoint's slug: the one this instance gave it, or a new one -/
def withSlug (e : Envelope) (call : Nat) : Envelope :=
  if e.kind ≠ "Endpoint" then e
  else
    let held := (m.get (storedIn x project e) "Endpoint" e.name).bind (textAt · "slug")
    match e.spec with
    | .object fields =>
      { e with spec := .object (insertMember "slug" (.string (held.getD (s.generateSlug call))) fields) }
    | _ => e

end

/-- the assigner every Policy of this repository writes -/
def ownAssigner : String := "did:web:\x7borgDomain\x7d"

/-- whether a Policy names another assigner -/
def foreignAssigner (e : Envelope) : Bool :=
  e.kind = "Policy" && (e.spec.get? "assigner").any (fun v => v.asStr ≠ some ownAssigner)

def reassign (e : Envelope) : Envelope :=
  if foreignAssigner e then { e with spec := mapMember "assigner" (fun _ => .string ownAssigner) e.spec }
  else e

/-! ## default groups -/

/-- one more subject of an entry of an App's access -/
def addSubject (group : String) (entry : Value) : Value :=
  let subject := Value.object [("group", .string group)]
  match entry with
  | .object fields =>
    match (fields.lookup "subjects").getD (.array []) with
    | .array subjects => .object (insertMember "subjects"
        (.array (if subjects.contains subject then subjects else subjects ++ [subject])) fields)
    | _ => entry
  | _ => entry

def giveIn (role group : String) : List Value → List Value
  | [] => [.object [("role", .string role),
      ("subjects", .array [.object [("group", .string group)]])]]
  | entry :: entries =>
    if textAt entry "role" = some role then addSubject group entry :: entries
    else entry :: giveIn role group entries

/-- a role given to a group in `spec.access` -/
def give (spec : Value) (role group : String) : Value :=
  match spec with
  | .object fields =>
    match (fields.lookup "access").getD (.array []) with
    | .array entries => .object (insertMember "access" (.array (giveIn role group entries)) fields)
    | _ => spec
  | _ => spec

section
variable (x : JcAccess) (s : Served) (c : Caller) (project : String)

def appRoles (spec : Value) : List String :=
  if textAt spec "lifecycle" = some "retired" then []
  else (((spec.get? "roles").bind Value.asArray).getD []).filterMap (textAt · "name")

def groupName (app role : String) : String := app ++ "-" ++ role

def groupMetadata (app : String) : List (String × Value) :=
  [("annotations", .object [(appLabel, .string (project ++ "/" ++ app))])]

/-- the default group of a role, where the mirror holds none yet -/
def defaultGroup (app role : String) : Except ApiError (Option Envelope) :=
  let group := groupName app role
  if !s.isDns1123 group then
    .error (.badRequest ("the default group of role '" ++ role ++ "' would be named '" ++ group
      ++ "', longer than the 63 characters a name may have (AP-118); shorten the App or the role "
      ++ "name"))
  else
    match checkGroup x s c "Group" group (groupMetadata project app) with
    | .error e => .error e
    | .ok () =>
      if (c.repository.get orgNamespace "Group" group).isSome then .ok none
      else .ok (some ⟨s.apiVersion, "Group", group, some orgNamespace, groupMetadata project app,
        .object [("members", .array [])], none, by simp [groupMetadata]⟩)

/-- an App with its default groups in its access, and the groups it needs -/
def withGroups (e : Envelope) : Except ApiError (Envelope × List Envelope) :=
  if e.kind ≠ "App" then .ok (e, [])
  else do
    let groups ← (appRoles e.spec).mapM (defaultGroup x s c project e.name)
    let spec := (appRoles e.spec).foldl (fun spec role => give spec role (groupName e.name role)) e.spec
    return ({ e with spec := spec }, groups.filterMap id)

end

/-! ## the plan -/

structure ImportReport where
  created : List String
  replaced : List String
  skipped : List String
  renamed : OrdMap String String
  reassigned : OrdMap String String
  nativeFiles : Nat
  lane : Changes.Lane
  source : Option String

/-- what a planned file holds: the text of a manifest of the bundle, of a default group, or of a
native file -/
inductive Content where
  | manifest (e : Envelope)
  | group (e : Envelope)
  | native (text : String)
deriving DecidableEq

/-- the manifests of an upload, but for the index -/
def manifestsOf (incoming : List Incoming) : List Envelope :=
  (incoming.filterMap Incoming.envelope).filter (fun e => e.kind ≠ bundleKind)

/-- the native files of an upload, with their paths -/
def nativesOf (incoming : List Incoming) : List (String × String) :=
  incoming.filterMap (fun item =>
    if item.envelope.isNone then item.path.map (fun path => (path, item.content)) else none)

def sourceOf (incoming : List Incoming) : Option String :=
  (((incoming.filterMap Incoming.envelope).filter (fun e => e.kind = bundleKind)).getLast?).map
    (fun index => (textAt index.spec "project").getD index.name ++ "@"
      ++ (((index.spec.get? "sourceRevision") <|> (index.spec.get? "revision")).bind
        Value.asStr).getD "unknown")

/-- the manifests that are imported: the target's own Project describes it already -/
def imported (incoming : List Incoming) : List Envelope :=
  (manifestsOf incoming).filter (fun e => e.kind ≠ "Project")

/-- a manifest with where it came from noted, as it is committed -/
def annotated (key value : String) (e : Envelope) : Envelope :=
  { e with
    status := none
    metadata := insertMember "annotations" (.object (insertMember key (.string value)
      (((e.metadata.lookup "annotations").bind Value.asObject).getD []))) e.metadata
    beside := by
      intro p hp
      rcases mem_putMember hp with rfl | hp
      · exact ⟨by simp, by simp⟩
      · exact e.beside p (List.mem_filter.mp hp).1 }

section
variable (x : JcAccess) (s : Served) (c : Caller) (project domain : String)
  (options : ImportOptions) (incoming : List Incoming)

/-- a manifest of the bundle in the project -/
def arrives (e : Envelope) : Envelope :=
  landed x s c.repository.toMirror project domain (ownSpaces (imported incoming))
    options.spaceMapping e

/-- every manifest as it arrives, with what the conflict policy makes of it -/
def judgements : Except ApiError (List (Envelope × Verdict)) :=
  (imported incoming).mapM (fun e =>
    (judge x s c.repository.toMirror project options.conflictPolicy (originOf project e)
      (arrives x s c project domain options incoming e)).map
      (fun verdict => (arrives x s c project domain options incoming e, verdict)))

/-- the manifests kept, under their new names -/
def kept (judged : List (Envelope × Verdict)) : List Envelope :=
  judged.filterMap (fun j => j.2.keeps j.1)

/-- the new names by the old ones -/
def renames (judged : List (Envelope × Verdict)) : OrdMap String String :=
  OrdMap.ofList (judged.filterMap (fun j => j.2.rename? j.1))

/-- the manifests kept, with the references that the renames move -/
def referring (judged : List (Envelope × Verdict)) : List Envelope :=
  (renames judged).toList.foldl renamePass (kept judged)

/-- the same with the Endpoints' slugs -/
def slugged (judged : List (Envelope × Verdict)) : List Envelope :=
  (referring judged).zipIdx.map (fun p => withSlug x s c.repository.toMirror project p.1 p.2)

/-- the same with the Policies' assigners -/
def settled (judged : List (Envelope × Verdict)) : List Envelope :=
  (slugged x s c project judged).map reassign

/-- the Policies whose assigner was rewritten, with what they carried -/
def reassigned (judged : List (Envelope × Verdict)) : OrdMap String String :=
  OrdMap.ofList (((slugged x s c project judged).filter foreignAssigner).map (fun e =>
    let assigner := (e.spec.get? "assigner").getD .null
    ("Policy/" ++ e.name, assigner.asStr.getD (s.jsonText assigner))))

/-- every manifest with its App's groups; a project with a repository of its own carries none -/
def grouped (manifests : List Envelope) : Except ApiError (List (Envelope × List Envelope)) :=
  if (s.repositoryOf project).isSome then .ok (manifests.map (fun e => (e, [])))
  else manifests.mapM (withGroups x s c project)

/-- the default groups the bundle does not carry itself -/
def defaultGroups (manifests : List Envelope) (groups : List (Envelope × List Envelope)) :
    List Envelope :=
  (groups.flatMap Prod.snd).filter (fun group =>
    !manifests.any (fun e => e.kind = "Group" && e.name = group.name))

def pathOf (info : KindInfo) (home space name : String) : Except ApiError String :=
  match repositoryPath s.reads info home space name with
  | some path => .ok path
  | none => .error (.badRequest ("space is required for kind '" ++ info.kind ++ "' ("
      ++ s.template info ++ ")"))

/-- a manifest of the bundle as it is committed, under its path -/
def fileOf (e : Envelope) : Except ApiError (String × Content) :=
  match kindInfo x e.kind with
  | none => .error (.internal ("kind '" ++ e.kind ++ "' vanished"))
  | some info =>
    (pathOf s info (storedIn x project e) ((spaceOf e).getD "") e.name).map (fun path =>
      (path, .manifest (annotated s.importedFrom ((sourceOf incoming).getD "upload") e)))

def groupFile (e : Envelope) : Except ApiError (String × Content) :=
  match kindInfo x "Group" with
  | none => .error (.internal "no catalogue entry for Group")
  | some info => (pathOf s info orgNamespace "" e.name).map (fun path => (path, .group e))

/-- the lane of a manifest: an update where the mirror holds it, a creation elsewhere -/
def laneOfKept (e : Envelope) : Changes.Lane :=
  classify e.kind (if (existing x c.repository.toMirror project e).isSome then .update else .create)
    e.spec

/-- what the import would do, and the files it would write -/
def planImport : Except ApiError (ImportReport × List (String × Content)) := do
  let refused := (manifestsOf incoming).flatMap (refusals x s)
  if !refused.isEmpty then throw (.badRequest ("; ".intercalate refused))
  if (manifestsOf incoming).isEmpty && (nativesOf incoming).isEmpty then
    throw (.badRequest "the upload holds no manifest this platform serves")
  let judged ← judgements x s c project domain options incoming
  let manifests := settled x s c project judged
  let missing := unresolved x c.repository.toMirror project manifests
  if !missing.isEmpty then throw (.badRequest ("; ".intercalate missing))
  let groups ← grouped x s c project manifests
  let defaults := defaultGroups manifests groups
  let files ← (groups.map Prod.fst).mapM (fileOf x s project incoming)
  let groupFiles ← defaults.mapM (groupFile x s)
  let natives := (nativesOf incoming).map (fun n => (reproject n.1 project, Content.native n.2))
  let named := fun verdict => (judged.filter (fun j => j.2 = verdict)).map (fun j => j.1.name)
  return (⟨named .create ++ defaults.map Envelope.name, named .replace, named .skip, renames judged,
    reassigned x s c project judged, natives.length,
    riskiestOf ((groups.map Prod.fst).map (laneOfKept x c project)), sourceOf incoming⟩,
    files ++ groupFiles ++ natives)

end

/-! ## free names -/

/-! ## what a plan is made of -/

section
variable {x : JcAccess} {s : Served} {c : Caller} {project domain : String}
  {options : ImportOptions} {incoming : List Incoming}

/-- **A planned import**: no manifest is refused, every one is judged, no reference is left
dangling, and the files are the manifests', the default groups' and the native ones. -/
theorem planImport_ok {report : ImportReport} {files : List (String × Content)}
    (h : planImport x s c project domain options incoming = .ok (report, files)) :
    ∃ judged groups filed groupFiles,
      (∀ e ∈ manifestsOf incoming, refusals x s e = []) ∧
      judgements x s c project domain options incoming = .ok judged ∧
      unresolved x c.repository.toMirror project (settled x s c project judged) = [] ∧
      grouped x s c project (settled x s c project judged) = .ok groups ∧
      (groups.map Prod.fst).mapM (fileOf x s project incoming) = .ok filed ∧
      (defaultGroups (settled x s c project judged) groups).mapM (groupFile x s) = .ok groupFiles ∧
      files = filed ++ groupFiles
        ++ (nativesOf incoming).map (fun n => (reproject n.1 project, Content.native n.2)) ∧
      report.renamed = renames judged := by
  unfold planImport at h
  simp only [bind, Except.bind, throw, throwThe, MonadExceptOf.throw, pure, Except.pure] at h
  split at h
  · exact absurd h (by simp)
  rename_i hrefused
  split at h
  · exact absurd h (by simp)
  split at h
  · exact absurd h (by simp)
  rename_i judged hjudged
  split at h
  · exact absurd h (by simp)
  rename_i hmissing
  split at h
  · exact absurd h (by simp)
  rename_i groups hgroups
  split at h
  · exact absurd h (by simp)
  rename_i filed hfiled
  split at h
  · exact absurd h (by simp)
  rename_i groupFiles hgroupFiles
  simp only [Except.ok.injEq, Prod.mk.injEq] at h
  obtain ⟨rfl, rfl⟩ := h
  refine ⟨judged, groups, filed, groupFiles, ?_, hjudged, ?_, hgroups, hfiled, hgroupFiles, rfl, rfl⟩
  · intro e he
    simp only [Bool.not_eq_true', Bool.not_eq_false, List.isEmpty_iff, List.flatMap_eq_nil_iff]
      at hrefused
    exact hrefused e he
  · simpa using hmissing

theorem judgements_ok {judged : List (Envelope × Verdict)}
    (h : judgements x s c project domain options incoming = .ok judged) :
    List.Forall₂ (fun e j => j.1 = arrives x s c project domain options incoming e ∧
      judge x s c.repository.toMirror project options.conflictPolicy (originOf project e) j.1
        = .ok j.2) (imported incoming) judged := by
  refine (Gate.mapM_eq_ok.mp h).imp (fun e j hj => ?_)
  cases hv : judge x s c.repository.toMirror project options.conflictPolicy (originOf project e)
      (arrives x s c project domain options incoming e) with
  | error err =>
    rw [hv] at hj
    exact absurd hj (by simp [Except.map])
  | ok verdict =>
    rw [hv] at hj
    simp only [Except.map, Except.ok.injEq] at hj
    subst hj
    exact ⟨rfl, hv⟩

theorem judge_ok {m : Mirror} {policy : ConflictPolicy} {origin : String} {e : Envelope}
    {verdict : Verdict} (h : judge x s m project policy origin e = .ok verdict) :
    (existing x m project e = none ∧ verdict = .create) ∨
    ((existing x m project e).isSome = true ∧
      ((policy = .skip ∧ verdict = .skip) ∨ (policy = .replace ∧ verdict = .replace) ∨
        policy = .rename ∧ verdict
          = .rename (freshName m (storedIn x project e) e.kind (renamed e.name origin)))) := by
  unfold judge at h
  split at h
  · rename_i hnone
    cases h
    exact .inl ⟨by simpa using hnone, rfl⟩
  · rename_i hsome
    refine .inr ⟨Option.isSome_iff_ne_none.mpr (by simpa using hsome), ?_⟩
    cases policy with
    | fail => exact absurd h (by simp)
    | skip =>
      cases h
      exact .inl ⟨rfl, rfl⟩
    | replace =>
      cases h
      exact .inr (.inl ⟨rfl, rfl⟩)
    | rename =>
      simp only at h
      split at h
      · cases h
        exact .inr (.inr ⟨rfl, rfl⟩)
      · exact absurd h (by simp)

end

end Import
end Portal
