import Portal.Workspaces.Compare

/-!
# Updating a workspace from `main` (`workspaces.rs`: `update_from_main`)

What only `main` changed is taken, what both changed is merged field by field under the picks of the
person, or taken whole from the side picked, and every merged manifest is checked again.  Nothing is
written before every file is settled; then one commit writes them all, and the base moves to `main`.

* `outcome`, `updateFromMain`   one file, and the whole update;
* `Settled`                     what a file of the branch holds afterwards;
* `Stuck`                       a conflict without a pick, or a merge that fails its check;
* `update_loses_nothing`        a success settles every file, what is stuck changes nothing;
* `update_takes_the_layout`     where a file taken is not byte for byte what `main` holds.
-/

namespace Portal
namespace Workspaces

open Access Changes

/-- the side a person kept of one field of one file, of the whole file for an empty field -/
structure Resolution where
  path : String
  field : String
  keep : Side
deriving DecidableEq

def pick (resolutions : List Resolution) (path field : String) : Option Side :=
  (resolutions.find? (fun r => r.path = path && r.field = field)).map Resolution.keep

inductive Outcome where
  | keep
  /-- only `main` changed it: its text, or its removal -/
  | take (content : Option String)
  /-- both did, and a person picked `main`'s -/
  | pickTheirs (content : Option String)
  | merge (text : String)
  | unresolved (conflict : FileConflict)
deriving DecidableEq

/-- the text a file is written with, or its removal -/
def Outcome.write : Outcome → Option (Option String)
  | .take content | .pickTheirs content => some content
  | .merge text => some (some text)
  | .keep | .unresolved _ => none

structure UpdateReport where
  taken : List String
  merged : List String
  baseRevision : String
  comparison : Comparison
deriving DecidableEq

section
variable (x : Texts) (j : JcAccess) (z : Asks)

/-- a merged document, checked again and written out -/
def mergedText (path : String) (doc : Value) : Except OpError Outcome :=
  match recheck x j z path doc .update with
  | .error e => .error (.api e)
  | .ok () =>
    match x.toText doc with
    | .error e => .error (.api (.internal e))
    | .ok text => .ok (.merge text)

/-- a file both changed: merged field by field, or the whole side picked -/
def mergeBoth (t : Trees) (resolutions : List Resolution) (path : String)
    (theirsText : Option String) : Except OpError Outcome := do
  let oursDoc ← OpError.lift (document x t.ours path)
  let theirsDoc := if isManifest path then theirsText.bind x.document else none
  match oursDoc, theirsDoc with
  | some ours, some theirs => do
    let baseDoc ← OpError.lift (document x t.base path)
    match merge3 baseDoc ours theirs (pick resolutions path) with
    | .ok doc => mergedText x j z path doc
    | .error conflicts => .ok (.unresolved ⟨path, masked conflicts⟩)
  | _, _ =>
    match pick resolutions path "" with
    | some .ours => .ok .keep
    | some .theirs => .ok (.pickTheirs theirsText)
    | none => .ok (.unresolved ⟨path, [wholeFile (t.ours.get? path) (t.theirs.get? path)]⟩)

def outcome (t : Trees) (resolutions : List Resolution) (path : String) :
    Except OpError Outcome := do
  if t.theirs.get? path = t.base.get? path ∨ t.ours.get? path = t.theirs.get? path then .ok .keep
  else
    let theirsText ← OpError.lift (getFile t.theirs path)
    if t.ours.get? path = t.base.get? path then .ok (.take theirsText)
    else mergeBoth x j z t resolutions path theirsText

def allPaths (t : Trees) : List String :=
  OrdMap.keySet (t.ours.keys ++ t.base.keys ++ t.theirs.keys)

def uploadsOf (rows : List (String × Outcome)) : List (String × String) :=
  rows.filterMap (fun row => (row.2.write.bind id).map (fun content => (row.1, content)))

/-- the removals, each with the blob it removes -/
def deletesOf (ours : Files) (rows : List (String × Outcome)) : List (String × Blob) :=
  rows.filterMap (fun row =>
    if row.2.write = some none then (ours.get? row.1).map (fun blob => (row.1, blob)) else none)

/-- one commit on a branch: every upload in the layout a write commits, every removal -/
def changeFiles (ours : Files) (uploads : List (String × String)) (deletes : List (String × Blob)) :
    Files :=
  deletes.foldl (fun m d => m.erase d.1)
    (uploads.foldl (fun m u => m.insert u.1 (.text (committedText x u.1 u.2))) ours)

def unresolvedOf (rows : List (String × Outcome)) : List FileConflict :=
  rows.filterMap (fun row => match row.2 with
    | .unresolved conflict => some conflict
    | _ => none)

def takenOf (rows : List (String × Outcome)) : List String :=
  (rows.filter (fun row => match row.2 with
    | .take _ => true
    | _ => false)).map Prod.fst

def mergedOf (rows : List (String × Outcome)) : List String :=
  (rows.filter (fun row => match row.2 with
    | .pickTheirs _ | .merge _ => true
    | _ => false)).map Prod.fst

/-- every file settled, or the refusal that leaves them all as they are -/
def settle (t : Trees) (resolutions : List Resolution) :
    Except OpError (List (String × Outcome)) := do
  let rows ← (allPaths t).mapM (fun path =>
    (outcome x j z t resolutions path).map (fun out => (path, out)))
  if unresolvedOf rows ≠ [] then
    .error (.conflict ("Main changed the same fields; choose ours or theirs for each, then update "
      ++ "again (CC-80).") (unresolvedOf rows))
  else .ok rows

/-- the commit of the files settled; none is made where nothing is to write -/
def commit (s : Site) (ours : Files) (rows : List (String × Outcome)) : Except OpError Site :=
  if uploadsOf rows = [] ∧ deletesOf ours rows = [] then .ok s
  else
    match z.changeFiles with
    | .error e => .error (.api e)
    | .ok () => .ok { s with
        branch := some (changeFiles x ours (uploadsOf rows) (deletesOf ours rows)) }

/-- the base moved to the head `main` had when the update began, and the comparison with it -/
def rebase (rows : List (String × Outcome)) (s : Site) : Except OpError UpdateReport × Site :=
  match z.setBaseRevision with
  | .error e => (.error (.api e), s)
  | .ok () =>
    let s' := { s with baseRevision := s.head }
    match z.live with
    | .error e => (.error (.api e), s')
    | .ok () => ((OpError.lift (compareWorkspace x j s')).map (fun comparison =>
        ⟨takenOf rows, mergedOf rows, s.head, comparison⟩), s')

def updateFromMain (s : Site) (resolutions : List Resolution) :
    Except OpError UpdateReport × Site :=
  match z.owned with
  | .error e => (.error (.api e), s)
  | .ok () =>
    match s.trees with
    | none => rebase x j z [] s
    | some t =>
      match settle x j z t resolutions with
      | .error e => (.error e, s)
      | .ok rows =>
        match commit x z s t.ours rows with
        | .error e => (.error e, s)
        | .ok s' => rebase x j z rows s'

end

/-! ## what a file holds afterwards -/

section
variable (x : Texts) (t : Trees) (path : String)

def asCommitted : Option Blob → Option Blob
  | some (.text content) => some (.text (committedText x path content))
  | blob => blob

def Outcome.after (out : Outcome) (ours : Option Blob) : Option Blob :=
  match out.write with
  | none => ours
  | some content => content.map (fun text => .text (committedText x path text))

/-- what a file of the branch holds once `main` is merged in: ours where `main` did not change it or
agrees, `main`'s where only it did, else the two documents merged, or the whole side picked -/
def Settled (pick : String → Option Side) (after : Option Blob) : Prop :=
  if t.theirs.get? path = t.base.get? path ∨ t.ours.get? path = t.theirs.get? path then
    after = t.ours.get? path
  else if t.ours.get? path = t.base.get? path then after = asCommitted x path (t.theirs.get? path)
  else
    match docOf x path t.ours, docOf x path t.theirs with
    | some ours, some theirs => ∃ doc text,
        merge3 (docOf x path t.base) ours theirs pick = .ok doc ∧ x.toText doc = .ok text
          ∧ after = some (.text (committedText x path text))
    | _, _ =>
      match pick "" with
      | some .ours => after = t.ours.get? path
      | some .theirs => after = asCommitted x path (t.theirs.get? path)
      | none => False

/-- a file that both changed, and whose merge is left without a pick or fails its check -/
def Stuck (j : JcAccess) (z : Asks) (pick : String → Option Side) : Prop :=
  ¬ (t.theirs.get? path = t.base.get? path ∨ t.ours.get? path = t.theirs.get? path) ∧
    t.ours.get? path ≠ t.base.get? path ∧
    match docOf x path t.ours, docOf x path t.theirs with
    | some ours, some theirs =>
      ∀ doc, merge3 (docOf x path t.base) ours theirs pick = .ok doc →
        ∃ e, recheck x j z path doc .update = .error e
    | _, _ => pick "" = none

end

section
variable {x : Texts} {j : JcAccess} {z : Asks} {t : Trees} {path : String}

/-- the text of `main`'s file is what a document is read from and what is written -/
theorem getFile_ok {files : Files} {content : Option String}
    (h : getFile files path = .ok content) :
    (if isManifest path then content.bind x.document else none) = docOf x path files ∧
      content.map (fun text => .text (committedText x path text))
        = asCommitted x path (files.get? path) := by
  unfold getFile at h
  unfold docOf
  cases hf : files.get? path with
  | none =>
    rw [hf] at h
    cases h
    exact ⟨rfl, rfl⟩
  | some blob =>
    cases blob with
    | text text =>
      rw [hf] at h
      cases h
      exact ⟨rfl, rfl⟩
    | bytes bytes =>
      rw [hf] at h
      exact absurd h (by simp)

theorem mergedText_ok {doc : Value} {out : Outcome} (h : mergedText x j z path doc = .ok out) :
    recheck x j z path doc .update = .ok () ∧
      ∃ text, x.toText doc = .ok text ∧ out = .merge text := by
  unfold mergedText at h
  split at h
  · exact absurd h (by simp)
  · rename_i hrecheck
    split at h
    · exact absurd h (by simp)
    · rename_i text htext
      exact ⟨hrecheck, text, htext, (Except.ok.inj h).symm⟩

/-- a file both changed and somebody settled: its merge was checked, or a side was picked -/
theorem mergeBoth_ok {resolutions : List Resolution} {theirsText : Option String} {out : Outcome}
    (htext : getFile t.theirs path = .ok theirsText)
    (h : mergeBoth x j z t resolutions path theirsText = .ok out)
    (hres : ∀ c, out ≠ .unresolved c) :
    match docOf x path t.ours, docOf x path t.theirs with
    | some ours, some theirs => ∃ doc text,
        merge3 (docOf x path t.base) ours theirs (pick resolutions path) = .ok doc ∧
        recheck x j z path doc .update = .ok () ∧ x.toText doc = .ok text ∧ out = .merge text
    | _, _ => (pick resolutions path "" = some .ours ∧ out = .keep) ∨
        (pick resolutions path "" = some .theirs ∧ out = .pickTheirs theirsText) := by
  unfold mergeBoth at h
  cases hours : OpError.lift (document x t.ours path) with
  | error e => exact absurd h (by simp [hours, bind, Except.bind])
  | ok oursDoc =>
    simp only [hours, bind, Except.bind, document_ok (lift_eq_ok.mp hours),
      (getFile_ok (x := x) htext).1] at h
    split at h
    · cases hbase : OpError.lift (document x t.base path) with
      | error e => exact absurd h (by simp [hbase])
      | ok baseDoc =>
        simp only [hbase, document_ok (lift_eq_ok.mp hbase)] at h
        split at h
        · rename_i doc hmerge
          obtain ⟨hrecheck, text, htoText, hout⟩ := mergedText_ok h
          exact ⟨doc, text, hmerge, hrecheck, htoText, hout⟩
        · exact absurd (Except.ok.inj h).symm (hres _)
    · split at h
      · rename_i hpick
        exact .inl ⟨hpick, (Except.ok.inj h).symm⟩
      · rename_i hpick
        exact .inr ⟨hpick, (Except.ok.inj h).symm⟩
      · exact absurd (Except.ok.inj h).symm (hres _)

/-- **One file settled**: it holds what the update says, and nothing of it was stuck. -/
theorem outcome_ok {resolutions : List Resolution} {out : Outcome}
    (h : outcome x j z t resolutions path = .ok out) (hres : ∀ c, out ≠ .unresolved c) :
    Settled x t path (pick resolutions path) (out.after x path (t.ours.get? path)) ∧
      ¬ Stuck x t path j z (pick resolutions path) := by
  unfold outcome at h
  unfold Settled Stuck
  split at h
  · rename_i hkeep
    cases h
    rw [if_pos hkeep]
    exact ⟨rfl, fun hstuck => hstuck.1 hkeep⟩
  · rename_i hboth
    rw [if_neg hboth]
    cases htext : OpError.lift (getFile t.theirs path) with
    | error e => exact absurd h (by simp [htext, bind, Except.bind])
    | ok theirsText =>
      simp only [htext, bind, Except.bind] at h
      have hread := lift_eq_ok.mp htext
      have hcommitted := (getFile_ok (x := x) hread).2
      split at h
      · rename_i hbase
        cases h
        rw [if_pos hbase]
        exact ⟨hcommitted, fun hstuck => hstuck.2.1 hbase⟩
      · rename_i hbase
        rw [if_neg hbase]
        have hsettled := mergeBoth_ok hread h hres
        split at hsettled
        · rename_i ours theirs ho ht
          obtain ⟨doc, text, hmerge, hrecheck, htoText, rfl⟩ := hsettled
          refine ⟨⟨doc, text, hmerge, htoText, rfl⟩, fun hstuck => ?_⟩
          obtain ⟨e, he⟩ := hstuck.2.2 doc hmerge
          exact absurd (hrecheck.symm.trans he) (by simp)
        · rename_i hdocs
          rcases hsettled with ⟨hpick, rfl⟩ | ⟨hpick, rfl⟩
          · rw [hpick]
            exact ⟨rfl, fun hstuck => absurd hstuck.2.2 (by simp)⟩
          · rw [hpick]
            exact ⟨hcommitted, fun hstuck => absurd hstuck.2.2 (by simp)⟩

/-! ## every file -/

/-- **Every file settled**: one outcome for each path, none of them a conflict. -/
theorem settle_ok {resolutions : List Resolution} {rows : List (String × Outcome)}
    (h : settle x j z t resolutions = .ok rows) :
    rows.map Prod.fst = allPaths t ∧ ∀ row ∈ rows,
      outcome x j z t resolutions row.1 = .ok row.2 ∧ ∀ c, row.2 ≠ .unresolved c := by
  unfold settle at h
  cases hrows : (allPaths t).mapM (fun path =>
      (outcome x j z t resolutions path).map (fun out => (path, out))) with
  | error e => exact absurd h (by simp [hrows, bind, Except.bind])
  | ok rows' =>
    simp only [hrows, bind, Except.bind] at h
    split at h
    · exact absurd h (by simp)
    · rename_i hnone
      cases h
      have hall : List.Forall₂ (fun path row => row.1 = path ∧
          outcome x j z t resolutions row.1 = .ok row.2) (allPaths t) rows := by
        refine (Gate.mapM_eq_ok.mp hrows).imp (fun path row hrow => ?_)
        cases hout : outcome x j z t resolutions path with
        | error e => exact absurd hrow (by simp [hout, Except.map])
        | ok out =>
          rw [hout] at hrow
          cases hrow
          exact ⟨rfl, hout⟩
      refine ⟨(Gate.map_eq_of_forall₂ hall (f := id) (fun _ _ hr => hr.1.symm)).symm.trans
        (List.map_id _), fun row hrow => ?_⟩
      obtain ⟨path, -, -, hout⟩ := Gate.exists_of_forall₂ hall.flip hrow
      refine ⟨hout, fun c hc => ?_⟩
      rw [ne_eq, not_not, unresolvedOf, List.filterMap_eq_nil_iff] at hnone
      exact absurd (hnone row hrow) (by simp [hc])

theorem outcome_unique {rows : List (String × Outcome)} (hnodup : (rows.map Prod.fst).Nodup)
    {out out' : Outcome} (h : (path, out) ∈ rows) (h' : (path, out') ∈ rows) : out = out' :=
  congrArg Prod.snd (List.inj_on_of_nodup_map hnodup h h' rfl)

theorem mem_uploadsOf {rows : List (String × Outcome)} {content : String} :
    (path, content) ∈ uploadsOf rows ↔
      ∃ out, (path, out) ∈ rows ∧ out.write = some (some content) := by
  unfold uploadsOf
  rw [List.mem_filterMap]
  constructor
  · intro h
    obtain ⟨⟨path', out⟩, hrow, hout⟩ := h
    obtain ⟨text, htext, hpair⟩ := Option.map_eq_some_iff.mp hout
    obtain ⟨w, hw, hid⟩ := Option.bind_eq_some_iff.mp htext
    cases hpair
    exact ⟨out, hrow, hw.trans (congrArg some hid)⟩
  · intro h
    obtain ⟨out, hrow, hw⟩ := h
    exact ⟨(path, out), hrow, by simp [hw]⟩

theorem mem_deletesOf {ours : Files} {rows : List (String × Outcome)} {blob : Blob} :
    (path, blob) ∈ deletesOf ours rows ↔
      ∃ out, (path, out) ∈ rows ∧ out.write = some none ∧ ours.get? path = some blob := by
  unfold deletesOf
  rw [List.mem_filterMap]
  constructor
  · intro h
    obtain ⟨⟨path', out⟩, hrow, hout⟩ := h
    split at hout
    · rename_i hw
      obtain ⟨blob', hblob, hpair⟩ := Option.map_eq_some_iff.mp hout
      cases hpair
      exact ⟨out, hrow, hw, hblob⟩
    · exact absurd hout (by simp)
  · intro h
    obtain ⟨out, hrow, hw, hblob⟩ := h
    exact ⟨(path, out), hrow, by simp [hw, hblob]⟩

theorem keys_filterMap_sublist {α β : Type} (f : String × α → Option (String × β))
    (hf : ∀ row r, f row = some r → r.1 = row.1) (rows : List (String × α)) :
    ((rows.filterMap f).map Prod.fst).Sublist (rows.map Prod.fst) := by
  induction rows with
  | nil => exact List.Sublist.slnil
  | cons row rows ih =>
    rw [List.filterMap_cons, List.map_cons]
    cases hrow : f row with
    | none => exact ih.cons _
    | some r =>
      rw [List.map_cons, hf row r hrow]
      exact ih.cons_cons _

theorem changeFiles_at (x : Texts) (path : String) (ours : Files) {uploads : List (String × String)}
    {deletes : List (String × Blob)} (huploads : (uploads.map Prod.fst).Nodup)
    (hdeletes : (deletes.map Prod.fst).Nodup) :
    (∀ blob, (path, blob) ∈ deletes → (changeFiles x ours uploads deletes).get? path = none) ∧
    (path ∉ deletes.map Prod.fst →
      (∀ content, (path, content) ∈ uploads → (changeFiles x ours uploads deletes).get? path
        = some (.text (committedText x path content))) ∧
      (path ∉ uploads.map Prod.fst →
        (changeFiles x ours uploads deletes).get? path = ours.get? path)) := by
  obtain ⟨hup, hkept⟩ := OrdMap.get?_foldl_alter Prod.fst
    (fun (u : String × String) _ => some (Blob.text (committedText x u.1 u.2))) uploads
    huploads ours path
  obtain ⟨hdel, hleft⟩ := OrdMap.get?_foldl_alter Prod.fst (fun (_ : String × Blob) _ => none)
    deletes hdeletes
    (uploads.foldl (fun m u => m.insert u.1 (.text (committedText x u.1 u.2))) ours) path
  refine ⟨fun blob hd => hdel (path, blob) hd rfl, fun hd => ⟨fun content hu => ?_, fun hu => ?_⟩⟩
  · exact (hleft hd).trans (hup (path, content) hu rfl)
  · exact (hleft hd).trans (hkept hu)

theorem uploadsOf_nodup {rows : List (String × Outcome)} (hnodup : (rows.map Prod.fst).Nodup) :
    ((uploadsOf rows).map Prod.fst).Nodup := by
  refine (keys_filterMap_sublist _ ?_ rows).nodup hnodup
  intro row r hr
  obtain ⟨content, -, rfl⟩ := Option.map_eq_some_iff.mp hr
  rfl

theorem deletesOf_nodup (ours : Files) {rows : List (String × Outcome)}
    (hnodup : (rows.map Prod.fst).Nodup) : ((deletesOf ours rows).map Prod.fst).Nodup := by
  refine (keys_filterMap_sublist _ ?_ rows).nodup hnodup
  intro row r hr
  split at hr
  · obtain ⟨blob, -, rfl⟩ := Option.map_eq_some_iff.mp hr
    rfl
  · exact absurd hr (by simp)

theorem exists_upload {rows : List (String × Outcome)} (h : path ∈ (uploadsOf rows).map Prod.fst) :
    ∃ out content, (path, out) ∈ rows ∧ out.write = some (some content) := by
  obtain ⟨⟨_, content⟩, hu, rfl⟩ := List.mem_map.mp h
  obtain ⟨out, hrow, hw⟩ := mem_uploadsOf.mp hu
  exact ⟨out, content, hrow, hw⟩

theorem exists_delete {ours : Files} {rows : List (String × Outcome)}
    (h : path ∈ (deletesOf ours rows).map Prod.fst) :
    ∃ out blob, (path, out) ∈ rows ∧ out.write = some none ∧ ours.get? path = some blob := by
  obtain ⟨⟨_, blob⟩, hd, rfl⟩ := List.mem_map.mp h
  obtain ⟨out, hrow, hw, hblob⟩ := mem_deletesOf.mp hd
  exact ⟨out, blob, hrow, hw, hblob⟩

/-- **The commit**: every file holds what its outcome says, every other is left as it was. -/
theorem get?_changeFiles (x : Texts) (path : String) (ours : Files) {rows : List (String × Outcome)}
    (hnodup : (rows.map Prod.fst).Nodup) :
    (∀ out, (path, out) ∈ rows →
      (changeFiles x ours (uploadsOf rows) (deletesOf ours rows)).get? path
        = out.after x path (ours.get? path)) ∧
    (path ∉ rows.map Prod.fst →
      (changeFiles x ours (uploadsOf rows) (deletesOf ours rows)).get? path = ours.get? path) := by
  obtain ⟨hdel, hrest⟩ := changeFiles_at x path ours (uploadsOf_nodup hnodup)
    (deletesOf_nodup ours hnodup)
  constructor
  · intro out hrow
    unfold Outcome.after
    -- the outcome of a path is the only one that can write it
    have hwrite : ∀ out', (path, out') ∈ rows → out'.write = out.write := fun out' hrow' => by
      rw [outcome_unique hnodup hrow' hrow]
    have hnoUpload : (∀ content, out.write ≠ some (some content)) →
        path ∉ (uploadsOf rows).map Prod.fst := by
      intro hw hmem
      obtain ⟨out', content, hrow', hw'⟩ := exists_upload hmem
      exact hw content ((hwrite out' hrow').symm.trans hw')
    have hnoDelete : (out.write = some none → ours.get? path = none) →
        path ∉ (deletesOf ours rows).map Prod.fst := by
      intro hw hmem
      obtain ⟨out', blob, hrow', hw', hblob⟩ := exists_delete hmem
      exact absurd ((hw ((hwrite out' hrow').symm.trans hw')).symm.trans hblob) (by simp)
    cases hw : out.write with
    | none => exact (hrest (hnoDelete (by simp [hw]))).2 (hnoUpload (by simp [hw]))
    | some content =>
      cases content with
      | some text =>
        exact (hrest (hnoDelete (by simp [hw]))).1 text (mem_uploadsOf.mpr ⟨out, hrow, hw⟩)
      | none =>
        cases hblob : ours.get? path with
        | some blob => exact hdel blob (mem_deletesOf.mpr ⟨out, hrow, hw, hblob⟩)
        | none =>
          exact ((hrest (hnoDelete (fun _ => hblob))).2 (hnoUpload (by simp [hw]))).trans hblob
  · intro hout
    refine (hrest (fun hmem => ?_)).2 (fun hmem => ?_)
    · obtain ⟨out, -, hrow, -⟩ := exists_delete hmem
      exact hout (List.mem_map_of_mem hrow)
    · obtain ⟨out, -, hrow, -⟩ := exists_upload hmem
      exact hout (List.mem_map_of_mem hrow)

theorem commit_ok {s s' : Site} {ours : Files} {rows : List (String × Outcome)}
    (hours : s.branch = some ours) (h : commit x z s ours rows = .ok s') :
    s' = { s with branch := some (changeFiles x ours (uploadsOf rows) (deletesOf ours rows)) } := by
  unfold commit at h
  split at h
  · rename_i hempty
    cases h
    rw [hempty.1, hempty.2]
    show s = { s with branch := some ours }
    rw [← hours]
  · split at h
    · exact absurd h (by simp)
    · exact (Except.ok.inj h).symm

/-- the base is `main` once the comparison is answered -/
theorem rebase_ok {rows : List (String × Outcome)} {s s' : Site} {report : UpdateReport}
    (h : rebase x j z rows s = (.ok report, s')) :
    s' = { s with baseRevision := s.head } ∧ compareWorkspace x j s' = .ok report.comparison ∧
      report.comparison.conflicts = [] := by
  unfold rebase at h
  split at h
  · exact absurd h (by simp)
  · simp only at h
    split at h
    · exact absurd h (by simp)
    · obtain ⟨hreport, rfl⟩ := Prod.mk.inj h
      cases hc : compareWorkspace x j { s with baseRevision := s.head } with
      | error e => exact absurd hreport (by simp [hc, OpError.lift, Except.mapError, Except.map])
      | ok comparison =>
        rw [hc] at hreport
        cases hreport
        exact ⟨rfl, rfl, no_conflicts hc rfl⟩

theorem rebase_conflict {rows : List (String × Outcome)} {s s' : Site} {detail : String}
    {conflicts : List FileConflict} :
    rebase x j z rows s ≠ (.error (.conflict detail conflicts), s') := by
  intro h
  unfold rebase at h
  split at h
  · exact absurd h (by simp)
  · simp only at h
    split at h
    · exact absurd h (by simp)
    · have hreport := (Prod.mk.inj h).1
      unfold OpError.lift at hreport
      cases hc : compareWorkspace x j { s with baseRevision := s.head } with
      | error e => exact absurd hreport (by simp [hc, Except.mapError, Except.map])
      | ok comparison => exact absurd hreport (by simp [hc, Except.mapError, Except.map])

theorem mem_allPaths {path : String} : path ∈ allPaths t ↔
    (∃ blob, t.ours.get? path = some blob) ∨ (∃ blob, t.base.get? path = some blob) ∨
      ∃ blob, t.theirs.get? path = some blob := by
  unfold allPaths
  rw [OrdMap.mem_keySet, List.mem_append, List.mem_append, OrdMap.mem_keys, OrdMap.mem_keys,
    OrdMap.mem_keys, or_assoc]

theorem absent_of_not_mem {path : String} (h : path ∉ allPaths t) :
    t.ours.get? path = none ∧ t.base.get? path = none ∧ t.theirs.get? path = none := by
  rw [mem_allPaths, not_or, not_or] at h
  exact ⟨Option.eq_none_iff_forall_ne_some.mpr (fun b hb => h.1 ⟨b, hb⟩),
    Option.eq_none_iff_forall_ne_some.mpr (fun b hb => h.2.1 ⟨b, hb⟩),
    Option.eq_none_iff_forall_ne_some.mpr (fun b hb => h.2.2 ⟨b, hb⟩)⟩

theorem settled_of_settle {resolutions : List Resolution} {rows : List (String × Outcome)}
    (h : settle x j z t resolutions = .ok rows) (path : String) :
    Settled x t path (pick resolutions path)
        ((changeFiles x t.ours (uploadsOf rows) (deletesOf t.ours rows)).get? path) ∧
      ¬ Stuck x t path j z (pick resolutions path) := by
  obtain ⟨hkeys, hrows⟩ := settle_ok h
  have hnodup : (rows.map Prod.fst).Nodup := by
    rw [hkeys]
    exact (OrdMap.keySet_sorted _).imp ne_of_lt
  obtain ⟨hin, hout⟩ := get?_changeFiles x path t.ours hnodup
  by_cases hpath : path ∈ allPaths t
  · rw [← hkeys] at hpath
    obtain ⟨⟨_, out⟩, hrow, rfl⟩ := List.mem_map.mp hpath
    obtain ⟨houtcome, hres⟩ := hrows _ hrow
    rw [hin out hrow]
    exact outcome_ok houtcome hres
  · obtain ⟨ho, hb, ht⟩ := absent_of_not_mem hpath
    rw [hout (hkeys ▸ hpath)]
    have hkeep : t.theirs.get? path = t.base.get? path ∨ t.ours.get? path = t.theirs.get? path :=
      .inl (ht.trans hb.symm)
    unfold Settled Stuck
    rw [if_pos hkeep]
    exact ⟨rfl, fun hstuck => hstuck.1 hkeep⟩

/-- what an update can be: a refusal that leaves everything, or the commit of the files settled and
the base moved -/
theorem updateFromMain_cases (x : Texts) (j : JcAccess) (z : Asks) (s : Site)
    (resolutions : List Resolution) :
    (∃ e, updateFromMain x j z s resolutions = (.error e, s)) ∨
    ∃ rows s1, updateFromMain x j z s resolutions = rebase x j z rows s1 ∧ s1.head = s.head ∧
      ∀ t, s.trees = some t → settle x j z t resolutions = .ok rows ∧
        s1.branch = some (changeFiles x t.ours (uploadsOf rows) (deletesOf t.ours rows)) := by
  unfold updateFromMain
  cases z.owned with
  | error e => exact .inl ⟨_, rfl⟩
  | ok u =>
    cases ht : s.trees with
    | none => exact .inr ⟨[], s, rfl, rfl, fun t hc => absurd hc (by simp)⟩
    | some t =>
      obtain ⟨ours, hours, rfl⟩ := Option.map_eq_some_iff.mp ht
      simp only
      cases hrows : settle x j z _ resolutions with
      | error e => exact .inl ⟨_, rfl⟩
      | ok rows =>
        simp only
        cases hcommit : commit x z s ours rows with
        | error e => exact .inl ⟨_, rfl⟩
        | ok s1 =>
          obtain rfl := commit_ok hours hcommit
          refine .inr ⟨rows, _, rfl, rfl, fun t' he => ?_⟩
          cases he
          exact ⟨hrows, rfl⟩

/-- **Updating from `main` loses nothing**: a success leaves every file of the branch settled, the
base at `main` and no conflict; a file that is stuck, or a conflict answered, changes nothing. -/
theorem update_loses_nothing (x : Texts) (j : JcAccess) (z : Asks) (s : Site)
    (resolutions : List Resolution) :
    (∀ report s', updateFromMain x j z s resolutions = (.ok report, s') →
      (∀ t, s.trees = some t → ∃ ours, s'.branch = some ours ∧
        ∀ path, Settled x t path (pick resolutions path) (ours.get? path)) ∧
      s'.baseRevision = s.head ∧ compareWorkspace x j s' = .ok report.comparison ∧
      report.comparison.conflicts = []) ∧
    (∀ t path, s.trees = some t → Stuck x t path j z (pick resolutions path) →
      ∃ e, updateFromMain x j z s resolutions = (.error e, s)) ∧
    ∀ detail conflicts s',
      updateFromMain x j z s resolutions = (.error (.conflict detail conflicts), s') → s' = s := by
  rcases updateFromMain_cases x j z s resolutions with ⟨e, hrefused⟩ | ⟨rows, s1, hrebase, hhead, hall⟩
  · rw [hrefused]
    refine ⟨fun report s' h => absurd h (by simp), fun t path _ _ => ⟨e, rfl⟩, ?_⟩
    intro detail conflicts s' h
    exact (Prod.mk.inj h).2.symm
  · rw [hrebase]
    refine ⟨?_, ?_, ?_⟩
    · intro report s' h
      obtain ⟨rfl, hcompare, hnone⟩ := rebase_ok h
      refine ⟨fun t ht => ?_, hhead, hcompare, hnone⟩
      obtain ⟨hsettle, hbranch⟩ := hall t ht
      exact ⟨_, hbranch, fun path => (settled_of_settle hsettle path).1⟩
    · intro t path ht hstuck
      exact absurd hstuck (settled_of_settle (hall t ht).1 path).2
    · intro detail conflicts s' h
      exact absurd h rebase_conflict

end

/-! ## a policy added on `main` -/

def policyPath : String := "projects/p/policies/a.yaml"

/-- a policy as a hand writes it, and in the one layout -/
def messyPolicy : String :=
  "kind: Policy\napiVersion: joinedcontext.com/v1alpha1\nspec:\n  actions:\n  - read\n"

def tidyPolicy : String :=
  "apiVersion: joinedcontext.com/v1alpha1\nkind: Policy\nspec:\n  actions: [read]\n"

def policyDoc : Value :=
  .object [("apiVersion", .string "joinedcontext.com/v1alpha1"), ("kind", .string "Policy"),
    ("spec", .object [("actions", .array [.string "read"])])]

/-- the reading and writing of that policy -/
def policyTexts : Texts where
  document content := if content = messyPolicy || content = tidyPolicy then some policyDoc else none
  envelope _ := none
  toText doc := if doc = policyDoc then .ok tidyPolicy else .error "unexpected document"
  format content := if content = messyPolicy || content = tidyPolicy then some tidyPolicy else none

/-- a workspace of an empty `main`, to which the policy was added since -/
def policyAdded : Site where
  revision sha := if sha = "r1" then OrdMap.ofList [(policyPath, .text messyPolicy)] else .empty
  head := "r1"
  branch := some OrdMap.empty
  baseRevision := "r0"

theorem update_loses_nothing_of_policy : ∃ report s',
    updateFromMain policyTexts plainJc plainAsks policyAdded [] = (.ok report, s') ∧
    report.taken = [policyPath] ∧ report.comparison.conflicts = [] ∧
    ∃ ours, s'.branch = some ours ∧ ∀ path, Settled policyTexts
      ⟨OrdMap.empty, policyAdded.revision "r0", policyAdded.revision "r1"⟩ path (pick [] path)
      (ours.get? path) := by
  let result := updateFromMain policyTexts plainJc plainAsks policyAdded []
  have hok : result.1.toOption.map UpdateReport.taken = some [policyPath] := by decide +kernel
  obtain ⟨report, hreport, htaken⟩ := Option.map_eq_some_iff.mp hok
  have hresult : result = (.ok report, result.2) := by
    refine Prod.ext ?_ rfl
    cases hr : result.1 with
    | error e => exact absurd hreport (by simp [hr, Except.toOption])
    | ok r =>
      rw [hr] at hreport
      exact congrArg Except.ok (Option.some.inj hreport)
  obtain ⟨hsettled, -, -, hnone⟩ :=
    (update_loses_nothing policyTexts plainJc plainAsks policyAdded []).1 report result.2 hresult
  exact ⟨report, result.2, hresult, htaken, hnone, hsettled _ rfl⟩

/-- **A manifest is taken in the layout**: not byte for byte what `main` holds, and so a file the
workspace is said to change. -/
theorem update_takes_the_layout :
    let after := (updateFromMain policyTexts plainJc plainAsks policyAdded []).2
    (updateFromMain policyTexts plainJc plainAsks policyAdded []).1.isOk = true ∧
    (policyAdded.branch.bind (OrdMap.get? · policyPath))
      = (policyAdded.revision policyAdded.baseRevision).get? policyPath ∧
    (policyAdded.revision policyAdded.head).get? policyPath = some (.text messyPolicy) ∧
    (after.branch.bind (OrdMap.get? · policyPath)) = some (.text tidyPolicy) ∧
    (after.branch.bind (OrdMap.get? · policyPath))
      ≠ (policyAdded.revision policyAdded.head).get? policyPath := by
  intro after
  decide +kernel

end Workspaces
end Portal
