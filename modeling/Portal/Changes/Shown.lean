import Portal.Changes.Removals

/-!
# The lane shown and the lane enforced (`changes.rs`: `changed_files`, `lane_of_paths`,
`build_proposal`, `approve_every_file`)

The page of a change takes the riskiest of the lanes of its headline and of its files as it lists
them, the list of changes that of its headline and of the files' paths; the approval takes that of
its headline and of the files as it judges them.  The page counts a file removed as red and a file
that lost its manifest by the manifest it had, the list counts a path by the kind its directory
names, and the approval counts manifests alone.

* `Backed`             a lane no riskier than the approval's own;
* `ShownBacked`        each lane shown is backed;
* `shownLane_le`, `enforcedLane_le`   the lanes of one file, side by side;
* `shown_is_enforced`  the page shows the lane that is enforced, and the list none riskier, exactly
                       when each lane shown is backed.
-/

namespace Portal
namespace Changes

open Access

section
variable (x : JcAccess) (y : Reads) (mr : MergeRequest) (shown enforced : ManifestData)

/-- no riskier than the headline the approval read, or than a manifest of the change -/
def Backed (l : Lane) : Prop :=
  l = .green ∨ l ≤ enforced.lane ∨ ∃ file ∈ mr.pullRequestFiles, l ≤ enforcedLane y mr file

structure ShownBacked : Prop where
  /-- a file is removed without a manifest in it only where something of the change is red -/
  removed : ∀ file ∈ mr.pullRequestFiles, file.deleted = true → manifestOf y mr file = none →
    Backed y mr enforced .red
  /-- a file loses its manifest only where something of the change is as risky as that -/
  emptied : ∀ file ∈ mr.pullRequestFiles, file.deleted = false → file.added = false →
    manifestOf y mr file = none → ∀ e, (mr.base.getFile file.path).bind y.envelope = some e →
    Backed y mr enforced (classifyManifest e .create)
  /-- a directory names a kind only where something of the change is as risky as that -/
  paths : ∀ file ∈ mr.pullRequestFiles, ∀ kind, nativeKind x file.path = some kind →
    Backed y mr enforced (classify kind (if file.deleted then .delete else .create) .null)
  /-- the headline found in the list of files is no riskier than what is enforced -/
  headline : Backed y mr enforced shown.lane
  /-- the headline the approval read is no riskier than what is shown -/
  enforced : enforced.lane ≤ shown.lane ∨
    ∃ file ∈ mr.pullRequestFiles, enforced.lane ≤ shownLane y mr file

end

section
variable {x : JcAccess} {y : Reads} {z : Further} {c : Caller} {mr : MergeRequest}
  {project : String} {shown enforced : ManifestData}

theorem backed_iff {l : Lane} :
    l ≤ riskiest enforced.lane (riskiestOf (mr.pullRequestFiles.map (enforcedLane y mr))) ↔
      Backed y mr enforced l := by
  unfold Backed
  rw [le_riskiest, le_riskiestOf]
  simp only [List.mem_map, exists_exists_and_eq_and]
  tauto

theorem shownLane_of_head {file : ChangedFile} (hd : file.deleted = false) {e : Envelope}
    (he : manifestOf y mr file = some e) : shownLane y mr file = classifyManifest e .create := by
  have hhead : (mr.head.getFile file.path).bind y.envelope = some e := by
    simpa [manifestOf, sideOf, hd] using he
  unfold shownLane
  simp [hd, hhead]

theorem shownLane_of_none {file : ChangedFile} (hd : file.deleted = false)
    (he : manifestOf y mr file = none) : shownLane y mr file
      = match (if file.added then none else (mr.base.getFile file.path).bind y.envelope) with
        | some e => classifyManifest e .create
        | none => .green := by
  have hhead : (mr.head.getFile file.path).bind y.envelope = none := by
    simpa [manifestOf, sideOf, hd] using he
  unfold shownLane
  simp only [hd, Bool.false_eq_true, if_false, hhead]
  rfl

/-- **The page never shows a file in a lower lane than it is judged in.** -/
theorem enforcedLane_le (file : ChangedFile) : enforcedLane y mr file ≤ shownLane y mr file := by
  unfold enforcedLane
  cases he : manifestOf y mr file with
  | none => exact Lane.green_le _
  | some e =>
    cases hd : file.deleted with
    | true =>
      have hred : shownLane y mr file = .red := by simp [shownLane, hd]
      rw [hred]
      exact Lane.le_red _
    | false =>
      rw [shownLane_of_head hd he]
      exact le_rfl

/-- **A file shown in a higher lane than it is judged in** is removed without a manifest, or has
lost the one it had. -/
theorem backed_shownLane (h : ShownBacked x y mr shown enforced) {file : ChangedFile}
    (hfile : file ∈ mr.pullRequestFiles) : Backed y mr enforced (shownLane y mr file) := by
  cases hd : file.deleted with
  | true =>
    have hred : shownLane y mr file = .red := by simp [shownLane, hd]
    rw [hred]
    cases he : manifestOf y mr file with
    | none => exact h.removed file hfile hd he
    | some e => exact .inr (.inr ⟨file, hfile, le_of_eq (enforcedLane_deleted hd he).symm⟩)
  | false =>
    cases he : manifestOf y mr file with
    | some e =>
      refine .inr (.inr ⟨file, hfile, ?_⟩)
      rw [shownLane_of_head hd he]
      simp [enforcedLane, laneOf, he, hd]
    | none =>
      rw [shownLane_of_none hd he]
      cases ha : file.added with
      | true => exact .inl rfl
      | false =>
        simp only [Bool.false_eq_true, if_false]
        cases hb : (mr.base.getFile file.path).bind y.envelope with
        | none => exact .inl rfl
        | some e => exact h.emptied file hfile hd ha he e hb

theorem laneOfPaths_le {l : Lane} :
    laneOfPaths x mr ≤ l ↔ ∀ file ∈ mr.pullRequestFiles, pathLane x file ≤ l := by
  unfold laneOfPaths
  rw [riskiestOf_le]
  simp

theorem lanes_backed_iff {verdict : Verdict} {log : List Check}
    (hfiles : approveEveryFile x y z c mr project = Gate.ok verdict log) :
    (detailLane y mr shown = riskiest enforced.lane verdict.lane ∧
      listLane x mr shown ≤ riskiest enforced.lane verdict.lane) ↔
      ShownBacked x y mr shown enforced := by
  rw [(approveEveryFile_ok hfiles).1]
  have hdetail : ∀ {l : Lane}, detailLane y mr shown ≤ l ↔
      shown.lane ≤ l ∧ ∀ file ∈ mr.pullRequestFiles, shownLane y mr file ≤ l := by
    intro l
    unfold detailLane changedFiles
    rw [riskiest_le, riskiestOf_le]
    simp
  have hlist : ∀ {l : Lane}, listLane x mr shown ≤ l ↔
      shown.lane ≤ l ∧ ∀ file ∈ mr.pullRequestFiles, pathLane x file ≤ l := by
    intro l
    unfold listLane
    rw [riskiest_le, laneOfPaths_le]
  constructor
  · rintro ⟨heq, hpaths⟩
    obtain ⟨hhead, hshown⟩ := hdetail.mp (le_of_eq heq)
    refine ⟨?_, ?_, ?_, backed_iff.mp hhead, ?_⟩
    · intro file hfile hd _
      have hred : shownLane y mr file = .red := by simp [shownLane, hd]
      exact backed_iff.mp (hred ▸ hshown file hfile)
    · intro file hfile hd ha he e hb
      have hlane : shownLane y mr file = classifyManifest e .create := by
        rw [shownLane_of_none hd he, ha]
        simp [hb]
      exact backed_iff.mp (hlane ▸ hshown file hfile)
    · intro file hfile kind hkind
      have hpath := (hlist.mp hpaths).2 file hfile
      unfold pathLane at hpath
      rw [hkind] at hpath
      exact backed_iff.mp hpath
    · have hle : enforced.lane ≤ detailLane y mr shown := by
        rw [heq]
        exact le_riskiest_left _ _
      unfold detailLane changedFiles at hle
      rw [le_riskiest, le_riskiestOf] at hle
      rcases hle with hle | hle | ⟨l, hl, hle⟩
      · exact .inl hle
      · exact .inl (hle ▸ Lane.green_le _)
      · obtain ⟨file, hfile, rfl⟩ := List.mem_map.mp hl
        exact .inr ⟨file, hfile, hle⟩
  · intro h
    have hhead := backed_iff.mpr h.headline
    refine ⟨le_antisymm ?_ ?_, ?_⟩
    · exact hdetail.mpr ⟨hhead, fun file hfile => backed_iff.mpr (backed_shownLane h hfile)⟩
    · obtain ⟨hs, hf⟩ := hdetail.mp (le_refl (detailLane y mr shown))
      rw [riskiest_le, riskiestOf_le]
      refine ⟨?_, fun l hl => ?_⟩
      · rcases h.enforced with hle | ⟨file, hfile, hle⟩
        · exact le_trans hle hs
        · exact le_trans hle (hf file hfile)
      · obtain ⟨file, hfile, rfl⟩ := List.mem_map.mp hl
        exact le_trans (enforcedLane_le file) (hf file hfile)
    · refine hlist.mpr ⟨hhead, fun file hfile => backed_iff.mpr ?_⟩
      unfold pathLane
      cases hkind : nativeKind x file.path with
      | none => exact .inl rfl
      | some kind => exact h.paths file hfile kind hkind

/-- **The page shows the lane that is enforced, and the list none riskier, exactly when every lane
shown is backed by the headline or by a manifest of the change.** -/
theorem shown_is_enforced {id : String} {detail listed lane : Lane} {log : List Check}
    (hdetail : changeForLane x y mr project id = .ok detail)
    (hlisted : listedLane x y mr project id = .ok listed)
    (happroved : approvedLane x y z c mr project id = Gate.ok lane log) :
    (detail = lane ∧ listed ≤ lane) ↔ ∀ shown enforced,
      headlineFor x y mr project (some mr.pullRequestFiles) id = .ok shown →
      headlineFor x y mr project none id = .ok enforced → ShownBacked x y mr shown enforced := by
  unfold changeForLane at hdetail
  unfold listedLane at hlisted
  cases hshown : headlineFor x y mr project (some mr.pullRequestFiles) id with
  | error e => rw [hshown] at hdetail; exact absurd hdetail (by simp [Except.map])
  | ok shown =>
    rw [hshown] at hdetail hlisted
    obtain rfl : detailLane y mr shown = detail := Except.ok.inj hdetail
    obtain rfl : listLane x mr shown = listed := Except.ok.inj hlisted
    unfold approvedLane at happroved
    obtain ⟨enforced, l1, r1, h1, g1, -⟩ := Gate.bind_eq_ok.mp happroved
    obtain ⟨verdict, l2, r2, hfiles, g2, -⟩ := Gate.bind_eq_ok.mp g1
    obtain ⟨rfl, -⟩ := Gate.pure_eq_ok.mp g2
    obtain ⟨henforced, -⟩ := Gate.ask_eq_ok.mp h1
    rw [lanes_backed_iff hfiles]
    constructor
    · intro h shown' enforced' hs he
      cases hs
      cases henforced.symm.trans he
      exact h
    · intro h
      exact h shown enforced rfl henforced

end

/-! ## a file beside the dashboards removed -/

/-- a native file in the directory of the dashboards -/
def notesPath : String := "projects/p/dashboards/notes.txt"

def dashboardChanged : MergeRequest :=
  bobsRequest [⟨dashboardPath "a", "modified", none⟩] (dashboardTree "a") (dashboardTree "a")

theorem dashboardChanged_files :
    dashboardChanged.pullRequestFiles = [⟨dashboardPath "a", false, false⟩] := by decide +kernel

def dashboardHeadline : ManifestData :=
  ⟨"Dashboard", "a", .update, some (plainEnvelope "Dashboard" "p" "a"),
    some (plainEnvelope "Dashboard" "p" "a")⟩

theorem shown_is_enforced_of_dashboard : ∃ detail listed lane log,
    changeForLane plainJc dashboards dashboardChanged "p" "chg-00000007" = .ok detail ∧
    listedLane plainJc dashboards dashboardChanged "p" "chg-00000007" = .ok listed ∧
    approvedLane plainJc dashboards noFurther (anaWith ["approve"]) dashboardChanged "p"
      "chg-00000007" = Gate.ok lane log ∧ detail = lane ∧ listed ≤ lane := by
  have hdetail : changeForLane plainJc dashboards dashboardChanged "p" "chg-00000007" = .ok .green :=
    by decide +kernel
  have hlisted : listedLane plainJc dashboards dashboardChanged "p" "chg-00000007" = .ok .green := by
    decide +kernel
  have happroved : approvedLane plainJc dashboards noFurther (anaWith ["approve"]) dashboardChanged
      "p" "chg-00000007" = Gate.ok .green
        [⟨"p", "Dashboard", .approve, some (plainEnvelope "Dashboard" "p" "a").toValue⟩] := by
    decide +kernel
  refine ⟨_, _, _, _, hdetail, hlisted, happroved,
    (shown_is_enforced hdetail hlisted happroved).mpr ?_⟩
  intro shown enforced hshown henforced
  have hs : headlineFor plainJc dashboards dashboardChanged "p"
      (some dashboardChanged.pullRequestFiles) "chg-00000007" = .ok dashboardHeadline := by
    decide +kernel
  have he : headlineFor plainJc dashboards dashboardChanged "p" none "chg-00000007"
      = .ok dashboardHeadline := by decide +kernel
  cases hs.symm.trans hshown
  cases he.symm.trans henforced
  have hlane : dashboardHeadline.lane = .green := by decide
  refine ⟨?_, ?_, ?_, .inl hlane, .inl le_rfl⟩
  · intro file hfile hd
    rw [dashboardChanged_files, List.mem_singleton] at hfile
    rw [hfile] at hd
    exact absurd hd (by decide)
  · intro file hfile _ _ hnone
    rw [dashboardChanged_files, List.mem_singleton] at hfile
    rw [hfile] at hnone
    exact absurd hnone (by decide +kernel)
  · intro file hfile kind hkind
    rw [dashboardChanged_files, List.mem_singleton] at hfile
    rw [hfile] at hkind ⊢
    have hdir : nativeKind plainJc (dashboardPath "a") = some "Dashboard" := by decide +kernel
    cases hdir.symm.trans hkind
    exact .inl (by decide)

/-- the dashboard changed, and the file beside it removed -/
def notesRemoved : MergeRequest :=
  bobsRequest [⟨dashboardPath "a", "modified", none⟩, ⟨notesPath, "deleted", none⟩]
    (dashboardTree "a") ((notesPath, "notes") :: dashboardTree "a")

/-- **A lane shown and not enforced**: the page and the list say red, so the approver is asked to
type the name back, and the approval takes the change as green. -/
theorem shown_not_enforced :
    changeForLane plainJc dashboards notesRemoved "p" "chg-00000007" = .ok .red ∧
    listedLane plainJc dashboards notesRemoved "p" "chg-00000007" = .ok .red ∧
    ∃ log, approvedLane plainJc dashboards noFurther (anaWith ["approve", "delete"]) notesRemoved "p"
      "chg-00000007" = Gate.ok .green log := by
  have happroved : approvedLane plainJc dashboards noFurther (anaWith ["approve", "delete"])
      notesRemoved "p" "chg-00000007" = Gate.ok .green
        [⟨"p", "Dashboard", .approve, some (plainEnvelope "Dashboard" "p" "a").toValue⟩,
          ⟨"p", "Dashboard", .approve, none⟩, ⟨"p", "Dashboard", .delete, none⟩] := by
    decide +kernel
  exact ⟨by decide +kernel, by decide +kernel, _, happroved⟩

end Changes
end Portal
