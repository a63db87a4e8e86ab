import Portal.Base.OrdMap
import Portal.Changes.Redacted
import Portal.Plan.Merge

/-!
# Comparing a workspace (`workspaces.rs`: `compare_workspace`, `document`, `recheck`; `gitea.rs`:
`get_file`, `committed_text`)

A workspace is a branch with the revision of `main` it was last brought up to.  Its comparison walks
the files that differ between the two: each with the kind its manifest or its directory names, and
where `main` changed the same file with what a person has to choose.

* `Site`               the branch, its base and `main`, as the forge and the registry hold them;
* `committedText`      the text a write commits;
* `compareWorkspace`   the files changed and the conflicts;
* `compareFile_ok`, `compareWorkspace_ok`   what a comparison lists;
* `recheck`            a manifest checked again as its proposal would be.
-/

namespace Portal

namespace Workspaces

open Access Changes

/-! ## files -/

inductive Blob where
  | text (content : String)
  /-- not valid UTF-8 -/
  | bytes (content : List Nat)
deriving DecidableEq

abbrev Files := OrdMap String Blob

/-- what the Portal takes from serde and jc-core to read and write a file -/
structure Texts where
  /-- a YAML text as a value -/
  document : String → Option Value
  /-- a value as a manifest -/
  envelope : Value → Option Envelope
  /-- a value as YAML -/
  toText : Value → Except String String
  /-- the one layout of a manifest, where the formatter takes it -/
  format : String → Option String

/-- a repository as a workspace sees it -/
structure Site where
  /-- the files of a revision -/
  revision : String → Files
  /-- the head of `main` -/
  head : String
  /-- the workspace's branch, none when the forge has it no more -/
  branch : Option Files
  /-- the revision of `main` the workspace was last brought up to -/
  baseRevision : String

/-- the three trees a comparison reads -/
structure Trees where
  ours : Files
  base : Files
  theirs : Files

def Site.trees (s : Site) : Option Trees :=
  s.branch.map (fun ours => ⟨ours, s.revision s.baseRevision, s.revision s.head⟩)

def isManifest (path : String) : Bool := isYaml path

def getFile (files : Files) (path : String) : Except ApiError (Option String) :=
  match files.get? path with
  | none => .ok none
  | some (.text content) => .ok (some content)
  | some (.bytes _) => .error (.ofGit (.transport "content is not valid utf-8"))

section
variable (x : Texts)

def document (files : Files) (path : String) : Except ApiError (Option Value) :=
  if isManifest path then (getFile files path).map (fun content => content.bind x.document)
  else .ok none

/-- a manifest file's document, none for a file that is absent, no manifest or no YAML -/
def docOf (path : String) (files : Files) : Option Value :=
  if isManifest path then
    match files.get? path with
    | some (.text content) => x.document content
    | _ => none
  else none

def committedText (path content : String) : String :=
  Changes.committedText (fun content => (x.document content).any (fun doc =>
    (textAt doc "apiVersion").isSome && (textAt doc "kind").isSome)) x.format path content

end

/-! ## the comparison -/

structure ChangeFile where
  path : String
  lane : Changes.Lane
  kind : String
  operation : Operation
deriving DecidableEq

/-- a file that `main` changed too, with the fields a person has to choose -/
structure FileConflict where
  path : String
  fields : List FieldConflict
deriving DecidableEq

structure Comparison where
  files : List ChangeFile
  conflicts : List FileConflict
deriving DecidableEq

/-- the conflicts, with the values of credentials hidden -/
def masked (conflicts : List FieldConflict) : List FieldConflict :=
  conflicts.map (fun conflict =>
    if Redact.isSensitivePath conflict.path then
      ⟨conflict.path, .string "[REDACTED]", .string "[REDACTED]", .string "[REDACTED]"⟩
    else conflict)

/-- the one choice of a file that is removed on one side, or is no manifest -/
def wholeFile (ours theirs : Option Blob) : FieldConflict :=
  let side := fun blob : Option Blob => Value.string (if blob.isSome then "changed" else "removed")
  ⟨"", side ours, side theirs, .null⟩

section
variable (x : Texts) (j : JcAccess) (t : Trees)

/-- the files that differ between the branch and its base -/
def touched : List String :=
  OrdMap.keySet ((t.ours.keys ++ t.base.keys).filter (fun path =>
    t.ours.get? path ≠ t.base.get? path))

def operationAt (path : String) : Operation :=
  if (t.base.get? path).isNone then .create
  else if (t.ours.get? path).isNone then .delete
  else .update

/-- the kind a file is compared as: of the manifest it holds or held, else of its directory -/
def kindOf (path : String) (ours base : Option Value) : Option String :=
  ((ours.bind x.envelope <|> base.bind x.envelope).map Envelope.kind) <|> nativeKind j path

/-- a file changed, and what it conflicts with; neither where it has no kind -/
def compareFile (path : String) : Except ApiError (Option ChangeFile × Option FileConflict) := do
  let oursDoc ← document x t.ours path
  let baseDoc ← document x t.base path
  match kindOf x j path oursDoc baseDoc with
  | none => .ok (none, none)
  | some kind =>
    let spec := ((oursDoc.bind x.envelope).map Envelope.spec).getD .null
    let operation := operationAt t path
    let file : ChangeFile := ⟨path, classify kind operation spec, kind, operation⟩
    let theirs := t.theirs.get? path
    if theirs = t.base.get? path || theirs = t.ours.get? path then .ok (some file, none)
    else
      let theirsDoc ← document x t.theirs path
      let fields :=
        match oursDoc, theirsDoc with
        | some ours, some theirs =>
          match merge3 baseDoc ours theirs (fun _ => none) with
          | .ok _ => []
          | .error conflicts => masked conflicts
        | _, _ => [wholeFile (t.ours.get? path) theirs]
      .ok (some file, some ⟨path, fields⟩)

end

section
variable (x : Texts) (j : JcAccess)

def compareWorkspace (s : Site) : Except ApiError Comparison :=
  match s.trees with
  | none => .ok ⟨[], []⟩
  | some t => do
    let rows ← (touched t).mapM (compareFile x j t)
    return ⟨rows.filterMap Prod.fst, rows.filterMap Prod.snd⟩

end

section
variable {x : Texts} {j : JcAccess} {t : Trees}

theorem document_ok {path : String} {files : Files} {doc : Option Value}
    (h : document x files path = .ok doc) :
    doc = docOf x path files := by
  unfold document getFile at h
  unfold docOf
  split at h
  · cases hf : files.get? path with
    | none =>
      rw [hf] at h
      cases h
      simp
    | some blob =>
      cases blob with
      | text content =>
        rw [hf] at h
        cases h
        rename_i hp
        rw [if_pos hp]
        rfl
      | bytes content =>
        rw [hf] at h
        exact absurd h (by simp [Except.map])
  · rename_i hp
    rw [if_neg hp]
    exact (Except.ok.inj h).symm

/-- **What is compared**: exactly the paths whose blobs differ. -/
theorem mem_touched {path : String} :
    path ∈ touched t ↔ t.ours.get? path ≠ t.base.get? path := by
  unfold touched
  rw [OrdMap.mem_keySet, List.mem_filter, decide_eq_true_eq, List.mem_append, OrdMap.mem_keys,
    OrdMap.mem_keys]
  refine ⟨fun h => h.2, fun h => ⟨?_, h⟩⟩
  cases ho : t.ours.get? path with
  | some blob => exact .inl ⟨blob, rfl⟩
  | none =>
    cases hb : t.base.get? path with
    | some blob => exact .inr ⟨blob, rfl⟩
    | none => exact absurd (ho.trans hb.symm) h

/-- one file compared: listed under its kind, left out without one, in no conflict where `main`
holds what the base does -/
theorem compareFile_ok {path : String} {row : Option ChangeFile × Option FileConflict}
    (h : compareFile x j t path = .ok row) :
    ∃ oursDoc baseDoc, document x t.ours path = .ok oursDoc ∧
      document x t.base path = .ok baseDoc ∧
      (kindOf x j path oursDoc baseDoc = none → row = (none, none)) ∧
      (∀ kind, kindOf x j path oursDoc baseDoc = some kind →
        ∃ lane, row.1 = some ⟨path, lane, kind, operationAt t path⟩) ∧
      (t.theirs.get? path = t.base.get? path → row.2 = none) := by
  unfold compareFile at h
  cases ho : document x t.ours path with
  | error e => exact absurd h (by simp [ho, bind, Except.bind])
  | ok oursDoc =>
    cases hb : document x t.base path with
    | error e => exact absurd h (by simp [ho, hb, bind, Except.bind])
    | ok baseDoc =>
      simp only [ho, hb, bind, Except.bind] at h
      refine ⟨oursDoc, baseDoc, rfl, rfl, ?_⟩
      cases hk : kindOf x j path oursDoc baseDoc with
      | none =>
        rw [hk] at h
        cases h
        exact ⟨fun _ => rfl, fun kind hc => absurd hc (by simp), fun _ => rfl⟩
      | some kind =>
        rw [hk] at h
        refine ⟨fun hc => absurd hc (by simp), ?_⟩
        simp only at h
        split at h
        · cases h
          exact ⟨fun kind' hk' => ⟨_, by rw [Option.some.inj hk']⟩, fun _ => rfl⟩
        · rename_i hne
          cases ht : document x t.theirs path with
          | error e => exact absurd h (by simp [ht])
          | ok theirsDoc =>
            rw [ht] at h
            cases h
            refine ⟨fun kind' hk' => ⟨_, by rw [Option.some.inj hk']⟩, fun hc => absurd ?_ hne⟩
            rw [Bool.or_eq_true, decide_eq_true_eq]
            exact .inl hc

theorem compareWorkspace_ok {s : Site} {c : Comparison} (h : compareWorkspace x j s = .ok c)
    (ht : s.trees = some t) :
    ∃ rows, List.Forall₂ (fun path row => compareFile x j t path = .ok row) (touched t) rows ∧
      c = ⟨rows.filterMap Prod.fst, rows.filterMap Prod.snd⟩ := by
  unfold compareWorkspace at h
  rw [ht] at h
  simp only [bind, Except.bind] at h
  cases hrows : (touched t).mapM (compareFile x j t) with
  | error e => exact absurd h (by simp [hrows])
  | ok rows =>
    rw [hrows] at h
    exact ⟨rows, Gate.mapM_eq_ok.mp hrows, (Except.ok.inj h).symm⟩

/-- **No conflict at the base**: where `main` is the base, nothing is left to choose. -/
theorem no_conflicts {s : Site} {c : Comparison} (h : compareWorkspace x j s = .ok c)
    (hbase : s.baseRevision = s.head) : c.conflicts = [] := by
  cases ht : s.trees with
  | none =>
    unfold compareWorkspace at h
    rw [ht] at h
    cases h
    rfl
  | some t =>
    obtain ⟨rows, hrows, rfl⟩ := compareWorkspace_ok h ht
    have htheirs : t.theirs = t.base := by
      obtain ⟨ours, -, rfl⟩ := Option.map_eq_some_iff.mp ht
      rw [hbase]
    rw [List.filterMap_eq_nil_iff]
    intro row hrow
    obtain ⟨path, -, hfile⟩ := Gate.exists_of_forall₂ hrows.flip hrow
    obtain ⟨-, -, -, -, -, -, hnone⟩ := compareFile_ok hfile
    exact hnone (by rw [htheirs])

end

/-! ## checking again -/

/-- a person's refusal of an operation -/
inductive OpError where
  | conflict (detail : String) (conflicts : List FileConflict)
  | api (error : ApiError)
deriving DecidableEq

def OpError.lift {α : Type} (r : Except ApiError α) : Except OpError α := r.mapError .api

theorem lift_eq_ok {α : Type} {r : Except ApiError α} {a : α} :
    OpError.lift r = .ok a ↔ r = .ok a := by
  unfold OpError.lift
  cases r with
  | error e => exact ⟨fun h => absurd h (by simp [Except.mapError]), fun h => absurd h (by simp)⟩
  | ok b =>
    show Except.ok b = Except.ok a ↔ _
    rw [Except.ok.injEq, Except.ok.injEq]

/-- what else the operations on a workspace ask -/
structure Asks where
  /-- `owned`: the live workspace of this name, the caller's own -/
  owned : Except ApiError Unit
  /-- a proposal without writing it: of plural, name, operation and document; whether it is valid -/
  dryRun : String → Option String → Operation → Value → Except ApiError Bool
  /-- the forge's answer to the commit -/
  changeFiles : Except ApiError Unit
  setBaseRevision : Except ApiError Unit
  live : Except ApiError Unit
  /-- `open_change_on` the branch, by its name -/
  openChange : Except ApiError (Option String)
  createPullRequest : Except ApiError Unit

/-- everything is allowed and answered -/
def plainAsks : Asks where
  owned := .ok ()
  dryRun _ _ _ _ := .ok true
  changeFiles := .ok ()
  setBaseRevision := .ok ()
  live := .ok ()
  openChange := .ok none
  createPullRequest := .ok ()

/-- one question a workspace's operation asked and had answered -/
inductive Asked where
  | check (question : Check)
  | recheck (path : String) (doc : Value) (operation : Operation)
deriving DecidableEq

/-- a manifest checked again as its proposal would be -/
def recheck (x : Texts) (j : JcAccess) (z : Asks) (path : String) (doc : Value)
    (operation : Operation) : Except ApiError Unit :=
  match x.envelope doc with
  | none => .error (.badRequest (path ++ ": not a manifest"))
  | some env =>
    match (kinds j).find? (fun info => info.kind = env.kind) with
    | none => .error (.badRequest (path ++ ": kind '" ++ env.kind ++ "' is not served"))
    | some info =>
      match z.dryRun info.plural (if operation = .update then some env.name else none) operation doc
        with
      | .error (.badRequest msg) => .error (.badRequest (path ++ ": " ++ msg))
      | .error e => .error e
      | .ok true => .ok ()
      | .ok false => .error (.badRequest (path
          ++ ": its check found problems; fix them in the workspace"))

end Workspaces
end Portal
