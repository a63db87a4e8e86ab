import Portal.Changes.Approval

/-!
# Removals (`changes.rs`: `approve_every_file`, `approve_change_for`)

A change removes a resource when a file of the base branch declares it and no file does once the
change is merged.  The walk over the files judges each by the side the change leaves, so it meets
the manifest that goes only where the forge lists its file as deleted; a file renamed, or written
over with a manifest of another kind or name, takes a resource away unseen.

* `Vanishes`            a manifest of the base branch whose resource nothing declares afterwards;
* `Checked`             `approve` and `delete` were asked against it;
* `Covered`             its file is listed as deleted, or it heads the removal of an access kind;
* `removals_checked`    every removal was checked and held to the red lane exactly when every
                        manifest that vanishes is covered.
-/

namespace Portal
namespace Changes

open Access

section
variable (x : JcAccess) (y : Reads) (mr : MergeRequest) (project : String)

/-- a manifest of the base branch whose resource no file declares once the change is merged -/
def Vanishes (path : String) (e : Envelope) : Prop :=
  (mr.base.getFile path).bind y.envelope = some e ∧
    ∀ path' e', (mr.after path').bind y.envelope = some e' → e'.key ≠ e.key

/-- the caller's rights to approve and to delete were asked against a manifest -/
def Checked (log : List Check) (e : Envelope) : Prop :=
  (∃ home, ⟨home, e.kind, .approve, some e.toValue⟩ ∈ log) ∧
    ∃ home, ⟨home, e.kind, .delete, some e.toValue⟩ ∈ log

/-- a manifest the approval meets on its way: of a file listed as deleted, or of the headline that
removes an access kind -/
def Covered (e : Envelope) : Prop :=
  (∃ file ∈ mr.pullRequestFiles, file.deleted = true ∧
    ∃ e', (mr.base.getFile file.path).bind y.envelope = some e' ∧ e'.toValue = e.toValue) ∨
  ∃ data, loadManifestData x y mr project none = .ok (some data) ∧ data.operation = .delete ∧
    grantsRights data.kind = true ∧ data.kind = e.kind ∧
    data.baseEnvelope.map Envelope.toValue = some e.toValue

end

section
variable {x : JcAccess} {y : Reads} {z : Further} {c : Caller} {mr : MergeRequest}
  {project : String}

theorem kind_of_toValue {e e' : Envelope} (h : e.toValue = e'.toValue) : e.kind = e'.kind :=
  congrArg (fun k => k.2.1) (Envelope.key_of_toValue h)

theorem after_of_listed {file : ChangedFile} (hfile : file ∈ mr.pullRequestFiles)
    (hd : file.deleted = false) : mr.after file.path = mr.head.getFile file.path := by
  unfold MergeRequest.after
  rw [if_pos]
  exact List.any_eq_true.mpr ⟨file, hfile, by simp [hd]⟩

theorem not_head_of_vanishes {path : String} {e e' : Envelope} (hv : Vanishes y mr path e)
    {file : ChangedFile} (hfile : file ∈ mr.pullRequestFiles) (hd : file.deleted = false)
    (he' : manifestOf y mr file = some e') : e'.toValue ≠ e.toValue := by
  intro hsame
  refine hv.2 file.path e' ?_ (Envelope.key_of_toValue hsame)
  rw [after_of_listed hfile hd]
  simpa [manifestOf, sideOf, hd] using he'

theorem manifestOf_deleted {file : ChangedFile} (hd : file.deleted = true) :
    manifestOf y mr file = (mr.base.getFile file.path).bind y.envelope := by
  simp [manifestOf, sideOf, hd]

theorem exists_of_ownerOf {files : List FileRead} {path kind : String} {e : Envelope}
    (h : ownerOf files path kind = some e) : ∃ f ∈ files, f.envelope = some e := by
  obtain ⟨f, hf, he⟩ := List.exists_of_findSome?_eq_some h
  exact ⟨f, hf, (Option.filter_eq_some_iff.mp he).1⟩

/-- a removal asked for is of a manifest of the walk: the file's own, or its owner's -/
theorem exists_of_delete_mem {files : List FileRead} {e : Envelope} {home : String}
    (h : ⟨home, e.kind, .delete, some e.toValue⟩ ∈ files.flatMap (checksOf x project files)) :
    ∃ f ∈ files, ∃ e', f.envelope = some e' ∧ e'.toValue = e.toValue := by
  obtain ⟨f, hf, hmem⟩ := List.mem_flatMap.mp h
  unfold checksOf at hmem
  simp only at hmem
  cases he : f.envelope with
  | some e' =>
    rw [he] at hmem
    simp only [List.mem_cons, Check.mk.injEq, reduceCtorEq, false_and, and_false, false_or] at hmem
    split at hmem
    · simp only [List.mem_singleton, Check.mk.injEq, true_and, Option.some.injEq] at hmem
      exact ⟨f, hf, e', he, hmem.2.2.symm⟩
    · exact absurd hmem List.not_mem_nil
  | none =>
    rw [he] at hmem
    simp only at hmem
    split at hmem
    · exact absurd hmem List.not_mem_nil
    · simp only [List.mem_cons, Check.mk.injEq, reduceCtorEq, false_and, and_false, false_or] at hmem
      split at hmem
      · simp only [List.mem_singleton, Check.mk.injEq, true_and] at hmem
        have htarget := hmem.2.2
        unfold nativeTarget at htarget
        split at htarget
        · rename_i owner howner
          obtain ⟨g, hg, hge⟩ := exists_of_ownerOf howner
          exact ⟨g, hg, owner, hge, (Option.some.inj htarget).symm⟩
        · obtain ⟨space, -, hspace⟩ := Option.map_eq_some_iff.mp htarget.symm
          exact absurd hspace (by simp [Envelope.toValue])
      · exact absurd hmem List.not_mem_nil

theorem checked_of_deleted {files : List FileRead} {f : FileRead} (hf : f ∈ files)
    (hd : f.file.deleted = true) {e e' : Envelope} (he : f.envelope = some e')
    (hsame : e'.toValue = e.toValue) : Checked (files.flatMap (checksOf x project files)) e := by
  have hchecks : checksOf x project files f
      = [⟨(projectOfPath f.file.path).getD project, e.kind, .approve, some e.toValue⟩,
        ⟨(projectOfPath f.file.path).getD project, e.kind, .delete, some e.toValue⟩] := by
    simp [checksOf, he, hd, hsame, kind_of_toValue hsame]
  refine ⟨⟨(projectOfPath f.file.path).getD project, ?_⟩,
    (projectOfPath f.file.path).getD project, ?_⟩
  · refine List.mem_flatMap.mpr ⟨f, hf, ?_⟩
    rw [hchecks]
    exact List.mem_cons_self
  · refine List.mem_flatMap.mpr ⟨f, hf, ?_⟩
    rw [hchecks]
    exact List.mem_cons_of_mem _ List.mem_cons_self

theorem enforcedLane_deleted {file : ChangedFile} (hd : file.deleted = true) {e : Envelope}
    (he : manifestOf y mr file = some e) : enforcedLane y mr file = .red := by
  simp [enforcedLane, laneOf, he, hd]

/-- **Every removal is checked and red exactly when each manifest that vanishes is covered.** -/
theorem removals_checked {id : String} {confirm : Option String} {via : ApprovedBy} {lane : Lane}
    {log : List Check}
    (h : approveChangeFor x y z c mr project id confirm via = Gate.ok lane log) :
    (∀ path e, Vanishes y mr path e → Checked log e ∧ lane = .red) ↔
      ∀ path e, Vanishes y mr path e → Covered x y mr project e := by
  obtain ⟨data, verdict, fileLog, hdata, hfiles, rfl, -, rfl⟩ := approveChangeFor_ok h
  obtain ⟨hlane, -, files, hread, rfl⟩ := approveEveryFile_ok hfiles
  constructor
  · intro hall path e hv
    obtain ⟨⟨-, home, hdelete⟩, -⟩ := hall path e hv
    rw [List.cons_append, List.mem_cons, List.mem_append] at hdelete
    rcases hdelete with hdelete | hdelete | hdelete
    · exact absurd hdelete (by simp)
    · -- the headline's own check
      unfold headlineChecks at hdelete
      split at hdelete
      · rename_i hcond
        simp only [Bool.and_eq_true, decide_eq_true_eq] at hcond
        simp only [List.mem_singleton, Check.mk.injEq, true_and] at hdelete
        exact .inr ⟨data, hdata, hcond.2, hcond.1, hdelete.2.1.symm, hdelete.2.2.symm⟩
      · exact absurd hdelete List.not_mem_nil
    · obtain ⟨f, hf, e', he', hsame⟩ := exists_of_delete_mem hdelete
      obtain ⟨file, hfile, hff, hfe⟩ := Gate.exists_of_forall₂ hread.flip hf
      cases hd : file.deleted with
      | true =>
        refine .inl ⟨file, hfile, hd, e', ?_, hsame⟩
        rw [← manifestOf_deleted hd, ← hfe, he']
      | false => exact absurd hsame (not_head_of_vanishes hv hfile hd (hfe.symm.trans he'))
  · intro hall path e hv
    rcases hall path e hv with ⟨file, hfile, hd, e', he', hsame⟩ | ⟨data', hdata', hop, hgrants,
      hkind, hbase⟩
    · rw [← manifestOf_deleted hd] at he'
      obtain ⟨f, hf, hff, hfe⟩ := Gate.exists_of_forall₂ hread hfile
      obtain ⟨⟨home, happrove⟩, home', hdelete⟩ :=
        checked_of_deleted hf (hff ▸ hd) (hfe.trans he') hsame
      refine ⟨⟨⟨home, ?_⟩, home', ?_⟩, ?_⟩
      · exact List.mem_cons_of_mem _ (List.mem_append_right _ happrove)
      · exact List.mem_cons_of_mem _ (List.mem_append_right _ hdelete)
      · refine Lane.eq_red_of_le (le_trans ?_ (le_riskiest_right _ _))
        rw [hlane, le_riskiestOf]
        exact .inr ⟨_, List.mem_map_of_mem hfile, le_of_eq (enforcedLane_deleted hd he').symm⟩
    · obtain rfl : data = data' := Option.some.inj (Except.ok.inj (hdata.symm.trans hdata'))
      have hgate : gateKind data.kind = e.kind := by
        rw [← hkind]
        unfold gateKind
        rw [if_neg]
        intro hsecret
        rw [hsecret] at hgrants
        exact absurd hgrants (by decide)
      have htarget : data.target = some e.toValue := by
        unfold ManifestData.target
        rw [loadManifestData_removes hdata hop]
        exact hbase
      refine ⟨⟨⟨project, ?_⟩, project, ?_⟩, ?_⟩
      · rw [hgate, htarget]
        exact List.mem_cons_self
      · refine List.mem_cons_of_mem _ (List.mem_append_left _ ?_)
        rw [hkind] at hgrants
        simp [headlineChecks, hgrants, hop, hbase, hkind]
      · refine Lane.eq_red_of_le (le_trans ?_ (le_riskiest_left _ _))
        simp [ManifestData.lane, hop]

end

/-! ## a dashboard removed -/

/-- a manifest with an empty spec, as the repository writes it -/
def manifestText (kind ns name : String) : String :=
  "apiVersion: joinedcontext.com/v1\nkind: " ++ kind ++ "\nmetadata:\n  name: " ++ name
    ++ "\n  namespace: " ++ ns ++ "\nspec: \x7b\x7d\n"

def plainEnvelope (kind ns name : String) : Envelope :=
  ⟨"joinedcontext.com/v1", kind, name, some ns, [], .object [], none, Envelope.beside_nil⟩

def plainReads (l : List (String × String × String)) : Reads where
  parse content := ((l.find? (fun k => manifestText k.1 k.2.1 k.2.2 = content)).map
    (fun k => plainEnvelope k.1 k.2.1 k.2.2)).elim (.error "missing field") .ok
  json _ := none
  mapping _ := none
  repoPath info home _ name := "projects/" ++ home ++ "/" ++ info.plural ++ "/" ++ name ++ ".yaml"
  hasSpace _ := false

/-- nothing else is asked -/
def noFurther : Further where
  secondFactor := .ok ()
  isChange := .ok ()
  mergesAfter := .ok ()
  pipelineRights _ _ := .ok ()
  organizationWithinBounds _ _ := .ok ()
  publicAppAllowed _ _ := .ok ()
  grantsItsCaller _ := false

def anaWith (verbs : List String) : Caller where
  repository := repositoryOf [("org", "Organization", "acme", .object []),
    ("org", "Role", "editor", roleValue [ruleValue ["Dashboard"] verbs]),
    ("org", "RoleBinding", "ana", bindingValue "editor" "project" "p" "ana")]
  bootstrapGroup := "bootstrap"
  identity := personOf "ana"
  now := 0

def bobsRequest (listed : List ChangedFileDto) (head base : Tree) : MergeRequest where
  number := 7
  headBranch := "workspace/bob"
  headSha := "c0ffee"
  baseBranch := "main"
  listed := listed
  head := head
  base := base
  commits := some [⟨"Bob", some "bob@example.com"⟩]
  authorName := "portal"
  authorEmail := none
  isProjectRepository := false

def dashboards : Reads := plainReads [("Dashboard", "p", "a"), ("Dashboard", "p", "b")]

def dashboardPath (name : String) : String := "projects/p/dashboards/" ++ name ++ ".yaml"

/-- the files of a branch that holds one dashboard -/
def dashboardTree (name : String) : Tree :=
  [(dashboardPath name, manifestText "Dashboard" "p" name)]

theorem getFile_dashboardTree (name path : String) : (dashboardTree name).getFile path
    = if path = dashboardPath name then some (manifestText "Dashboard" "p" name) else none := by
  show List.lookup path [(dashboardPath name, manifestText "Dashboard" "p" name)] = _
  rw [List.lookup_cons]
  by_cases hp : path = dashboardPath name
  · rw [if_pos hp, hp, beq_self_eq_true]
  · rw [if_neg hp, beq_false_of_ne hp]
    rfl

theorem envelope_dashboardTree {name path : String} {e e' : Envelope}
    (hread : dashboards.envelope (manifestText "Dashboard" "p" name) = some e')
    (h : ((dashboardTree name).getFile path).bind dashboards.envelope = some e) : e = e' := by
  rw [getFile_dashboardTree] at h
  split_ifs at h with hp
  · exact Option.some.inj (h.symm.trans hread)
  · exact absurd h (by simp)

theorem dashboards_a : dashboards.envelope (manifestText "Dashboard" "p" "a")
    = some (plainEnvelope "Dashboard" "p" "a") := by decide +kernel

theorem dashboards_b : dashboards.envelope (manifestText "Dashboard" "p" "b")
    = some (plainEnvelope "Dashboard" "p" "b") := by decide +kernel

def fileDeleted : MergeRequest :=
  bobsRequest [⟨dashboardPath "a", "deleted", none⟩] [] (dashboardTree "a")

theorem removals_checked_of_deletion : ∃ lane log,
    approveChangeFor plainJc dashboards noFurther (anaWith ["approve", "delete"]) fileDeleted "p"
      "chg-00000007" (some "a") .person = Gate.ok lane log ∧
    ∀ path e, Vanishes dashboards fileDeleted path e → Checked log e ∧ lane = .red := by
  let manifest := some (plainEnvelope "Dashboard" "p" "a").toValue
  have hok : approveChangeFor plainJc dashboards noFurther (anaWith ["approve", "delete"])
      fileDeleted "p" "chg-00000007" (some "a") .person = Gate.ok .red
        [⟨"p", "Dashboard", .approve, manifest⟩, ⟨"p", "Dashboard", .approve, manifest⟩,
          ⟨"p", "Dashboard", .delete, manifest⟩] := by
    decide +kernel
  refine ⟨_, _, hok, (removals_checked hok).mpr (fun path e hv => .inl ?_)⟩
  rw [envelope_dashboardTree dashboards_a hv.1]
  exact ⟨⟨dashboardPath "a", true, false⟩, by decide +kernel, rfl, plainEnvelope "Dashboard" "p" "a",
    by decide +kernel, rfl⟩

example : (dashboardTree "b").getFile (dashboardPath "a") = none := by decide +kernel

def fileRenamed : MergeRequest :=
  bobsRequest [⟨dashboardPath "b", "renamed", some (dashboardPath "a")⟩] (dashboardTree "b")
    (dashboardTree "a")

theorem after_fileRenamed (path : String) :
    fileRenamed.after path = (dashboardTree "b").getFile path := by
  have hfiles : fileRenamed.pullRequestFiles = [⟨dashboardPath "b", false, false⟩] := by
    decide +kernel
  unfold MergeRequest.after
  rw [hfiles]
  by_cases hb : path = dashboardPath "b"
  · rw [if_pos (by simp [hb])]
    rfl
  · rw [if_neg (by simp [Ne.symm hb]), getFile_dashboardTree, if_neg hb]
    split_ifs with ha
    · rfl
    · have hp : path ≠ dashboardPath "a" := by
        intro hp
        refine ha (Bool.or_eq_true_iff.mpr (.inr ?_))
        simp [fileRenamed, bobsRequest, hp]
      show (dashboardTree "a").getFile path = none
      rw [getFile_dashboardTree, if_neg hp]

/-- **A removal unseen**: the dashboard `a` is gone once the change is merged, and its approver, who
may delete nothing, was asked about `b` alone. -/
theorem removal_unseen : ∃ log : List Check,
    approveChangeFor plainJc dashboards noFurther (anaWith ["approve"]) fileRenamed "p"
      "chg-00000007" none .person = Gate.ok .green log ∧
    Vanishes dashboards fileRenamed (dashboardPath "a") (plainEnvelope "Dashboard" "p" "a") ∧
    ¬ Checked log (plainEnvelope "Dashboard" "p" "a") := by
  let manifest := some (plainEnvelope "Dashboard" "p" "b").toValue
  have hok : approveChangeFor plainJc dashboards noFurther (anaWith ["approve"]) fileRenamed "p"
      "chg-00000007" none .person = Gate.ok .green [⟨"p", "Dashboard", .approve, manifest⟩,
        ⟨"p", "Dashboard", .approve, manifest⟩] := by
    decide +kernel
  refine ⟨_, hok, ⟨by decide +kernel, fun path e he hkey => ?_⟩, ?_⟩
  · rw [after_fileRenamed] at he
    rw [envelope_dashboardTree dashboards_b he] at hkey
    exact absurd hkey (by decide +kernel)
  · rintro ⟨-, home, hdelete⟩
    simp only [List.mem_cons, Check.mk.injEq, reduceCtorEq, false_and, and_false, or_self,
      List.not_mem_nil] at hdelete

end Changes
end Portal
