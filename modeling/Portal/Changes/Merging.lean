import Portal.Base.Machine
import Portal.Base.ThreeWay
import Portal.Changes.Request

/-!
# What merges (`changes.rs`: `merge_when_ready`, `bring_up_to_date`, `merge_if_only`)

An approved change is merged at the commit its approval read.  When another merge overtook it, the
forge first merges `main` into its branch, and the call compares the files the pull request lists
with what they were at the approved commit.  Meanwhile others merge into `main`, push to the branch,
and the forge brings the pull request's own head up to date in the background.

* `Forge`, `World`         commits by their ids, and the heads of `main`, the branch and the pull
                           request, beside the call;
* `afterMerge`, `afterUpdate`, `afterFiles`   what the call makes of each answer;
* `step`                   every interleaving of the call with the others;
* `Carries`, `Clear`       a commit that holds the approved change and nothing else, and the steps
                           that bring no other under the call's hands;
* `what_merges`            every merge of such a run changes `main` by the approved change.
-/

namespace Portal

namespace Text

/-- whether a text holds another -/
def contains (part s : String) : Bool := s.toList.tails.any (fun t => part.toList.isPrefixOf t)

end Text

namespace Changes

/-! ## the forge -/

/-- a commit: its files by blob id, and the commit of `main` it was last brought up to -/
structure Revision where
  tree : Tree
  fork : String
deriving DecidableEq

structure Forge where
  /-- the commits, by their ids -/
  revision : String → Revision
  /-- git's merge of one file, by blob ids -/
  merge : ThreeWay (Option String)
  /-- a file one side removed stays removed or as the other side has it -/
  removed : ∀ b t r, merge.merge b none t = some r → r = none ∨ r = t
  /-- a file both sides keep is kept -/
  kept : ∀ b o t, merge.merge b o t = some none → o = none ∨ t = none
  /-- whether the branch rule refuses a branch behind its base -/
  blocksOutdated : Bool

section
variable (g : Forge)

def Forge.files (sha : String) (path : String) : Option String := (g.revision sha).tree.getFile path

/-- the files of the commit of `main` that a commit contains -/
def Forge.forkFiles (sha : String) : String → Option String := g.files (g.revision sha).fork

def Forge.paths (shas : List String) : List String :=
  shas.flatMap (fun sha => (g.revision sha).tree.map Prod.fst)

/-- whether `r` is `theirs` merged into `ours` over `base` -/
def Forge.merges (base ours theirs r : String) : Bool :=
  (g.paths [base, ours, theirs, r]).all (fun path =>
    g.merge.merge (g.files base path) (g.files ours path) (g.files theirs path)
      = some (g.files r path))

/-- whether the forge may list these files of a pull request at this head: every file that differs
from the base, but for one that is gone, which a rename lists under its new path only -/
def Forge.lists (head : String) (files : List ChangedFile) : Bool :=
  (g.paths [head, (g.revision head).fork]).all (fun path =>
    g.files head path = g.forkFiles head path || g.files head path = none
      || files.any (fun file => file.path = path))

end

/-! ## the call -/

/-- where a call of `merge_when_ready` is -/
inductive Call where
  /-- `merge_if_only` asks for the files first -/
  | checking (paths : List String)
  | merging (attempt : Nat) (head : String)
  | updating (attempt : Nat)
  | opening (attempt : Nat)
  | reading (attempt : Nat)
  | before (attempt : Nat) (head : String)
  | after (attempt : Nat) (head : String) (before : Tree)
  | listing (attempt : Nat) (head : String) (before after : Tree)
  | done (result : Except ApiError Unit)
  /-- `merge_if_only` leaves the change to a person -/
  | waits
deriving DecidableEq

/-- the forge's refusal of a branch that is behind its base -/
def behindBase : GitError → Bool
  | .api 405 message => Text.contains "behind the base branch" message
  | _ => false

def movedOn (id : String) : ApiError :=
  .conflict ("change proposal '" ++ id ++ "' is not what it was when it was reviewed: its branch "
    ++ "has moved past the commit this approval read, or it no longer merges into the base branch. "
    ++ "Open the change again, read what it says now, and approve that (PF-57).")

def fellBehind (id : String) (changed : List String) : ApiError :=
  .conflict ("change proposal '" ++ id ++ "' fell behind main, and main has changed "
    ++ ", ".intercalate changed ++ " since it was reviewed. Open the change again, read what it "
    ++ "says now, and approve that (PF-57, PF-105).")

/-- the next of the call once the merge is answered -/
def afterMerge (id : String) (attempt : Nat) (head : String) : Except GitError Unit → Call
  | .ok () => .done (.ok ())
  | .error (.conflict _) => .done (.error (movedOn id))
  | .error (.api 405 message) =>
    if attempt < 15 then
      if behindBase (.api 405 message) then .updating (attempt + 1) else .merging (attempt + 1) head
    else .done (.error (.ofGit (.api 405 message)))
  | .error e => .done (.error (.ofGit e))

def afterUpdate (id : String) (attempt : Nat) : Except GitError Unit → Call
  | .ok () => .opening attempt
  | .error (.conflict _) => .done (.error (movedOn id))
  | .error e => .done (.error (.ofGit e))

/-- the files listed that do not read the same at both commits -/
def changedSince (before after : Tree) (files : List ChangedFile) : List String :=
  (files.filter (fun file => before.getFile file.path ≠ after.getFile file.path)).map
    ChangedFile.path

def afterFiles (id : String) (attempt : Nat) (head : String) (before after : Tree)
    (files : List ChangedFile) : Call :=
  match changedSince before after files with
  | [] => .merging attempt head
  | changed => .done (.error (fellBehind id changed))

/-- `merge_if_only` merges when every file listed is one of these and none is deleted -/
def onlyThese (paths : List String) (files : List ChangedFile) : Bool :=
  files ≠ [] && files.all (fun file => !file.deleted && paths.contains file.path)

/-! ## the interleavings -/

structure World where
  main : String
  /-- the branch's head -/
  head : String
  /-- the head the pull request shows -/
  pull : String
  call : Call
deriving DecidableEq

inductive Event where
  /-- another change is merged into `main` -/
  | land (sha : String)
  /-- someone pushes to the branch -/
  | push (sha : String)
  /-- the pull request shows the branch's head -/
  | refresh
  /-- the forge refuses what the call asks, and does nothing -/
  | refuse (error : GitError)
  /-- the forge merges; its answer may be lost -/
  | merge (sha : String) (lost : Option String)
  /-- the forge merges `main` into the branch -/
  | update (sha : String) (lost : Option String)
  /-- the forge answers a read of the pull request, of a head or of a tree -/
  | answer
  /-- the forge lists the pull request's files -/
  | list (files : List ChangedFile)
deriving DecidableEq

def answered (lost : Option String) : Except GitError Unit :=
  match lost with
  | none => .ok ()
  | some text => .error (.transport text)

section
variable (g : Forge) (headSha id : String)

def refused (e : GitError) : Call → Option Call
  | .checking _ => some .waits
  | .merging attempt head => some (afterMerge id attempt head (.error e))
  | .updating attempt => some (afterUpdate id attempt (.error e))
  | .opening _ | .reading _ | .before _ _ | .after _ _ _ | .listing _ _ _ _ =>
    some (.done (.error (.ofGit e)))
  | .done _ | .waits => none

/-- what a read makes of the call; a tree is read by the id the approval named -/
def readAnswer (s : World) : Option Call :=
  match s.call with
  | .opening attempt => some (.reading attempt)
  | .reading attempt => some (.before attempt s.head)
  | .before attempt head =>
    if headSha = "" then none else some (.after attempt head (g.revision headSha).tree)
  | .after attempt head before => some (.listing attempt head before (g.revision head).tree)
  | _ => none

/-- whether the forge merges a pull request at a named head, any head when none is named -/
def accepts (s : World) (head sha : String) : Bool :=
  (head = "" || head = s.head) && (!g.blocksOutdated || (g.revision s.head).fork = s.main)
    && g.merges (g.revision s.head).fork s.main s.head sha

/-- whether a commit is `main` merged into the branch -/
def updates (s : World) (sha : String) : Bool :=
  (g.revision sha).fork = s.main && g.merges (g.revision s.head).fork s.head s.main sha

def step (s : World) : Event → Option World
  | .land sha => some { s with main := sha }
  | .push sha => some { s with head := sha }
  | .refresh => some { s with pull := s.head }
  | .refuse e => (refused id e s.call).map (fun call => { s with call := call })
  | .merge sha lost =>
    match s.call with
    | .merging attempt head =>
      if accepts g s head sha then
        some { s with main := sha, call := afterMerge id attempt head (answered lost) }
      else none
    | _ => none
  | .update sha lost =>
    match s.call with
    | .updating attempt =>
      if updates g s sha then
        some { s with head := sha, call := afterUpdate id attempt (answered lost) }
      else none
    | _ => none
  | .answer => (readAnswer g headSha s).map (fun call => { s with call := call })
  | .list files =>
    if g.lists s.pull files then
      match s.call with
      | .checking paths =>
        some { s with call := if onlyThese paths files then .merging 0 headSha else .waits }
      | .listing attempt head before after =>
        some { s with call := afterFiles id attempt head before after files }
      | _ => none
    else none

end

/-! ## what was approved -/

section
variable (g : Forge) (approved : String)

/-- the change as it was approved: the paths it changes, each with its new blob -/
def change : String → Option (Option String) := patchOf (g.forkFiles approved) (g.files approved)

/-- a commit that holds the approved change over the `main` it contains, and nothing else -/
def Carries (sha : String) : Prop := g.files sha = overlay (change g approved) (g.forkFiles sha)

/-- a commit whose every difference from the approved change is a file the pull request lists -/
def Visible (sha : String) : Prop :=
  ∀ path, (change g approved path = none → g.files sha path = g.forkFiles sha path) ∧
    ∀ blob, change g approved path = some blob → g.files sha path = blob ∨
      (blob ≠ none ∧ g.files sha path ≠ none ∧ g.files sha path ≠ g.forkFiles sha path)

/-- `main` holds the change at one of its paths already, and more than it -/
def Overtaken (s : World) : Prop :=
  ∃ path blob, change g approved path = some blob ∧ g.files s.main path ≠ blob ∧
    g.merge.merge (g.forkFiles s.head path) blob (g.files s.main path)
      = some (g.files s.main path)

/-- since the branch was brought up to it, `main` changed no path of the change but to what the
change holds there -/
def Unmoved (s : World) : Prop :=
  ∀ path blob, change g approved path = some blob →
    g.files s.main path = g.forkFiles s.head path ∨ g.files s.main path = blob

/-- a step that brings no other commit under the call's hands: the branch that is brought up to date
carries the change, and keeps carrying it until its head is read; the files listed are those of the
approved commit or of the one read; `main` holds nothing that hides the change -/
def Clear (t : Trans World Event) : Prop :=
  match t.act, t.before.call with
  | .push sha, .opening _ => Carries g approved sha
  | .push sha, .reading _ => Carries g approved sha
  | .update _ _, _ => Carries g approved t.before.head ∧ ¬ Overtaken g approved t.before
  | .list _, .listing _ head _ _ => t.before.pull = approved ∨ t.before.pull = head
  | .merge _ _, .merging _ head => (head = "" → Carries g approved t.before.head) ∧
      (g.blocksOutdated = true ∨ Unmoved g approved t.before)
  | _, _ => True

/-- a merge that changes `main` by the approved change: in its paths, to its blobs, where `main`
does not hold them already -/
def Lands (before after : String) : Prop :=
  g.files after = overlay (change g approved) (g.files before)

/-- what the call knows of the commits it holds -/
def Held (s : World) : Prop :=
  match s.call with
  | .merging _ head => head = "" ∨ Carries g approved head
  | .opening _ | .reading _ => Visible g approved s.head
  | .before _ head => Visible g approved head
  | .after _ head before => Visible g approved head ∧ before = (g.revision approved).tree
  | .listing _ head before after => Visible g approved head ∧
      before = (g.revision approved).tree ∧ after = (g.revision head).tree
  | _ => True

end

section
variable {g : Forge} {approved : String}

theorem files_none {sha path : String} (h : path ∉ (g.revision sha).tree.map Prod.fst) :
    g.files sha path = none := by
  unfold Forge.files Tree.getFile
  rw [List.lookup_eq_none_iff]
  intro p hp
  rw [bne_iff_ne]
  intro he
  exact h (List.mem_map.mpr ⟨p, hp, he.symm⟩)

theorem files_none_of_paths {shas : List String} {path : String} (h : path ∉ g.paths shas)
    (sha : String) (hsha : sha ∈ shas) : g.files sha path = none := by
  apply files_none
  intro hp
  exact h (List.mem_flatMap.mpr ⟨sha, hsha, hp⟩)

theorem merges_of_merges {base ours theirs r : String} (h : g.merges base ours theirs r = true) :
    g.merge.Merges (g.files base) (g.files ours) (g.files theirs) (g.files r) := by
  intro path
  by_cases hp : path ∈ g.paths [base, ours, theirs, r]
  · exact of_decide_eq_true (List.all_eq_true.mp h path hp)
  · rw [files_none_of_paths hp base (by simp), files_none_of_paths hp ours (by simp),
      files_none_of_paths hp theirs (by simp), files_none_of_paths hp r (by simp)]
    exact g.merge.ours none none

theorem mem_paths_of_change {path : String} {blob : Option String}
    (h : change g approved path = some blob) :
    path ∈ g.paths [approved, (g.revision approved).fork] := by
  by_contra hp
  obtain ⟨hblob, hne⟩ := patchOf_eq_some.mp h
  have hhead : g.files approved path = none := files_none_of_paths hp _ (by simp)
  have hfork : g.forkFiles approved path = none := files_none_of_paths hp _ (by simp)
  rw [hfork, ← hblob, hhead] at hne
  exact hne rfl

instance (sha : String) : Decidable (Carries g approved sha) :=
  decidable_of_iff (∀ path ∈ g.paths [approved, (g.revision approved).fork, sha,
      (g.revision sha).fork],
    g.files sha path = overlay (change g approved) (g.forkFiles sha) path) (by
    constructor
    · intro h
      funext path
      by_cases hp : path ∈ g.paths [approved, (g.revision approved).fork, sha,
          (g.revision sha).fork]
      · exact h path hp
      · have hout : change g approved path = none := by
          rw [change, patchOf, Forge.forkFiles, files_none_of_paths hp approved (by simp),
            files_none_of_paths hp _ (by simp), if_pos rfl]
        rw [overlay_of_none hout, Forge.forkFiles, files_none_of_paths hp sha (by simp),
          files_none_of_paths hp _ (by simp)]
    · intro h path _
      exact congrFun h path)

instance (s : World) : Decidable (Overtaken g approved s) :=
  decidable_of_iff (∃ path ∈ g.paths [approved, (g.revision approved).fork],
    ∃ blob ∈ change g approved path, g.files s.main path ≠ blob ∧
      g.merge.merge (g.forkFiles s.head path) blob (g.files s.main path)
        = some (g.files s.main path)) (by
    constructor
    · intro h
      obtain ⟨path, -, blob, hblob, h1, h2⟩ := h
      exact ⟨path, blob, hblob, h1, h2⟩
    · intro h
      obtain ⟨path, blob, hblob, h1, h2⟩ := h
      exact ⟨path, mem_paths_of_change hblob, blob, hblob, h1, h2⟩)

instance (s : World) : Decidable (Unmoved g approved s) :=
  decidable_of_iff (∀ path ∈ g.paths [approved, (g.revision approved).fork],
    ∀ blob ∈ change g approved path,
      g.files s.main path = g.forkFiles s.head path ∨ g.files s.main path = blob) (by
    constructor
    · intro h path blob hblob
      exact h path (mem_paths_of_change hblob) blob hblob
    · intro h path _ blob hblob
      exact h path blob hblob)

instance (t : Trans World Event) : Decidable (Clear g approved t) := by
  unfold Clear
  split <;> infer_instance

theorem exists_of_lists {head : String} {files : List ChangedFile} (h : g.lists head files = true)
    {path : String} (hne : g.files head path ≠ g.forkFiles head path)
    (hsome : g.files head path ≠ none) : ∃ file ∈ files, file.path = path := by
  have hp : path ∈ g.paths [head, (g.revision head).fork] := by
    by_contra hp
    exact hsome (files_none_of_paths hp head (by simp))
  have hat := List.all_eq_true.mp h path hp
  simp only [Bool.or_eq_true, decide_eq_true_eq, hne, hsome, false_or, List.any_eq_true] at hat
  exact hat

theorem carries_approved (g : Forge) (approved : String) : Carries g approved approved :=
  (overlay_patchOf _ _).symm

theorem named_of_approved {headSha : String} (hsha : headSha = approved ∨ headSha = "") :
    headSha = "" ∨ Carries g approved headSha := by
  rcases hsha with rfl | hempty
  · exact .inr (carries_approved g headSha)
  · exact .inl hempty

theorem visible_of_carries {sha : String} (h : Carries g approved sha) :
    Visible g approved sha := by
  intro path
  have hat := congrFun h path
  exact ⟨fun hp => hat.trans (overlay_of_none hp),
    fun blob hp => .inl (hat.trans (overlay_of_some hp))⟩

/-- `main` merged into a branch that carries the change shows what it did to it -/
theorem visible_of_update {s : World} {sha : String} (hhead : Carries g approved s.head)
    (hover : ¬ Overtaken g approved s) (h : updates g s sha = true) : Visible g approved sha := by
  unfold updates at h
  rw [Bool.and_eq_true, decide_eq_true_eq] at h
  have hmerges := merges_of_merges h.2
  rw [hhead] at hmerges
  have hfork : g.forkFiles sha = g.files s.main := congrArg g.files h.1
  intro path
  rw [hfork]
  obtain ⟨hout, hon⟩ := hmerges.overlay_left path
  refine ⟨hout, fun blob hp => ?_⟩
  have hmerge := hon blob hp
  -- a merge that gives `main`'s own version back has overtaken the change
  have hmain : g.files sha path = g.files s.main path → g.files sha path = blob := by
    intro he
    by_contra hne
    exact hover ⟨path, blob, hp, he ▸ hne, he ▸ hmerge⟩
  by_cases hne : g.files sha path = blob
  · exact .inl hne
  · refine .inr ⟨?_, ?_, fun he => hne (hmain he)⟩
    · intro hnone
      rw [hnone] at hmerge hne
      exact (g.removed _ _ _ hmerge).elim hne (fun he => hne (hnone ▸ hmain he))
    · intro hnone
      rw [hnone] at hmerge
      rcases g.kept _ _ _ hmerge with ho | ht
      · exact hne (hnone.trans ho.symm)
      · exact hne (hmain (hnone.trans ht.symm))

/-- **The comparison**: nothing listed reads otherwise than at the approved commit, so the commit
read carries the change. -/
theorem carries_of_compared {head pull : String} {files : List ChangedFile}
    (hvisible : Visible g approved head) (hlists : g.lists pull files = true)
    (hpull : pull = approved ∨ pull = head)
    (hsame : changedSince (g.revision approved).tree (g.revision head).tree files = []) :
    Carries g approved head := by
  funext path
  obtain ⟨hout, hon⟩ := hvisible path
  cases hp : change g approved path with
  | none => exact (hout hp).trans (overlay_of_none hp).symm
  | some blob =>
    rw [overlay_of_some hp]
    obtain ⟨hblob, hne⟩ := patchOf_eq_some.mp hp
    rcases hon blob hp with heq | hbad
    · exact heq
    · -- whichever commit the list is of, it has the path
      have hlisted : ∃ file ∈ files, file.path = path := by
        rcases hpull with rfl | rfl
        · exact exists_of_lists hlists (hblob ▸ hne) (hblob ▸ hbad.1)
        · exact exists_of_lists hlists hbad.2.2 hbad.2.1
      obtain ⟨file, hfile, rfl⟩ := hlisted
      rw [changedSince, List.map_eq_nil_iff, List.filter_eq_nil_iff] at hsame
      have hread := hsame file hfile
      rw [decide_eq_true_eq, not_not] at hread
      exact hread.symm.trans hblob

/-- a merge of a commit that carries the change, over a `main` that has left its paths alone -/
theorem lands_of_accepts {s : World} {head sha : String} (hhead : Carries g approved s.head)
    (hmoved : g.blocksOutdated = true ∨ Unmoved g approved s) (h : accepts g s head sha = true) :
    Lands g approved s.main sha := by
  simp only [accepts, Bool.and_eq_true, Bool.or_eq_true, Bool.not_eq_true', decide_eq_true_eq] at h
  obtain ⟨⟨-, hfork⟩, hmerges⟩ := h
  have htrees := merges_of_merges hmerges
  rw [hhead] at htrees
  refine htrees.overlay_right ?_
  rcases hmoved with hblocks | hunmoved
  · intro path blob hp
    have hmain : (g.revision s.head).fork = s.main := hfork.resolve_left (by simp [hblocks])
    exact .inl (by rw [hmain])
  · exact hunmoved

/-- **One merge**: the call names a commit that carries the change, or the branch does. -/
theorem lands_of_step {headSha id : String} {s s' : World} {sha : String} {lost : Option String}
    {e : Event} (h : step g headSha id s e = some s') (hclear : Clear g approved ⟨s, e, s'⟩)
    (hheld : Held g approved s) (he : e = .merge sha lost) : Lands g approved s.main sha := by
  subst he
  obtain ⟨main, head, pull, now⟩ := s
  cases now with
  | merging attempt named =>
    simp only [step] at h
    split at h
    · rename_i haccepts
      refine lands_of_accepts ?_ hclear.2 haccepts
      have hnamed : named = "" ∨ named = head := by
        simp only [accepts, Bool.and_eq_true, Bool.or_eq_true, decide_eq_true_eq] at haccepts
        exact haccepts.1.1
      rcases hheld with hempty | hcarries
      · exact hclear.1 hempty
      · rcases hnamed with hempty | rfl
        · exact hclear.1 hempty
        · exact hcarries
    · exact absurd h (by simp)
  | _ => exact nomatch h

theorem held_afterMerge (s : World) (id : String) (attempt : Nat) {head : String}
    (hhead : head = "" ∨ Carries g approved head) (r : Except GitError Unit) :
    Held g approved { s with call := afterMerge id attempt head r } := by
  unfold afterMerge
  split
  · exact True.intro
  · exact True.intro
  · split
    · split
      · exact True.intro
      · exact hhead
    · exact True.intro
  · exact True.intro

theorem held_afterUpdate {s : World} (hhead : Visible g approved s.head) (id : String)
    (attempt : Nat) (r : Except GitError Unit) :
    Held g approved { s with call := afterUpdate id attempt r } := by
  unfold afterUpdate
  split
  · exact hhead
  · exact True.intro
  · exact True.intro

theorem held_refused {s : World} {id : String} {e : GitError} {call : Call}
    (h : refused id e s.call = some call) (hheld : Held g approved s) :
    Held g approved { s with call := call } := by
  obtain ⟨main, head, pull, now⟩ := s
  cases now with
  | merging attempt named =>
    cases h
    exact held_afterMerge _ id attempt hheld (.error e)
  | updating attempt =>
    cases h
    cases e with
    | conflict text => exact True.intro
    | _ => exact True.intro
  | done result => exact nomatch h
  | waits => exact nomatch h
  | _ =>
    cases h
    exact True.intro

theorem held_readAnswer {headSha : String} (hsha : headSha = approved ∨ headSha = "") {s : World}
    {call : Call} (h : readAnswer g headSha s = some call) (hheld : Held g approved s) :
    Held g approved { s with call := call } := by
  obtain ⟨main, head, pull, now⟩ := s
  cases now with
  | opening attempt =>
    cases h
    exact hheld
  | reading attempt =>
    cases h
    exact hheld
  | before attempt read =>
    simp only [readAnswer] at h
    split at h
    · exact absurd h (by simp)
    · rename_i hnamed
      cases h
      exact ⟨hheld, by rw [hsha.resolve_right hnamed]⟩
  | after attempt read before =>
    cases h
    exact ⟨hheld.1, hheld.2, rfl⟩
  | _ => exact nomatch h

theorem held_afterFiles {s : World} {attempt : Nat} {head : String} {files : List ChangedFile}
    (hvisible : Visible g approved head) (hlists : g.lists s.pull files = true)
    (hpull : s.pull = approved ∨ s.pull = head) (id : String) :
    Held g approved { s with
      call := afterFiles id attempt head (g.revision approved).tree
        (g.revision head).tree files } := by
  unfold afterFiles
  split
  · rename_i hsame
    exact .inr (carries_of_compared hvisible hlists hpull hsame)
  · exact True.intro

/-- someone else's push leaves what the call holds; a branch it has yet to read keeps the change -/
theorem held_push {s : World} {sha : String} {s' : World}
    (hclear : Clear g approved ⟨s, .push sha, s'⟩) (hheld : Held g approved s) :
    Held g approved { s with head := sha } := by
  obtain ⟨main, head, pull, now⟩ := s
  cases now with
  | opening attempt => exact visible_of_carries hclear
  | reading attempt => exact visible_of_carries hclear
  | _ => exact hheld

/-- **One step**: the call goes on knowing what it holds. -/
theorem step_held {headSha id : String} (hsha : headSha = approved ∨ headSha = "") {s s' : World}
    {e : Event} (h : step g headSha id s e = some s') (hclear : Clear g approved ⟨s, e, s'⟩)
    (hheld : Held g approved s) : Held g approved s' := by
  cases e with
  | land sha =>
    cases h
    exact hheld
  | push sha =>
    cases h
    exact held_push hclear hheld
  | refresh =>
    cases h
    exact hheld
  | refuse error =>
    obtain ⟨call, hcall, rfl⟩ := Option.map_eq_some_iff.mp h
    exact held_refused hcall hheld
  | merge sha lost =>
    obtain ⟨main, head, pull, now⟩ := s
    cases now with
    | merging attempt named =>
      simp only [step] at h
      split at h
      · cases h
        exact held_afterMerge ⟨sha, head, pull, .merging attempt named⟩ id attempt hheld _
      · exact absurd h (by simp)
    | _ => exact nomatch h
  | update sha lost =>
    obtain ⟨main, head, pull, now⟩ := s
    cases now with
    | updating attempt =>
      simp only [step] at h
      split at h
      · rename_i hupdates
        cases h
        exact held_afterUpdate (s := ⟨main, sha, pull, .updating attempt⟩)
          (visible_of_update hclear.1 hclear.2 hupdates) id attempt _
      · exact absurd h (by simp)
    | _ => exact nomatch h
  | answer =>
    obtain ⟨call, hcall, rfl⟩ := Option.map_eq_some_iff.mp h
    exact held_readAnswer hsha hcall hheld
  | list files =>
    obtain ⟨main, head, pull, now⟩ := s
    simp only [step] at h
    split at h
    · rename_i hlists
      cases now with
      | checking paths =>
        cases h
        cases onlyThese paths files with
        | true => exact named_of_approved hsha
        | false => exact True.intro
      | listing attempt read before after =>
        cases h
        obtain ⟨hvisible, rfl, rfl⟩ := hheld
        exact held_afterFiles hvisible hlists hclear id
      | _ => exact nomatch h
    · exact absurd h (by simp)

/-- **What merges is what was approved**: in every run whose steps are clear, each merge changes
`main` by the approved change. -/
theorem what_merges {headSha id main : String} (hsha : headSha = approved ∨ headSha = "")
    {call : Call} (hcall : call = .merging 0 headSha ∨ ∃ paths, call = .checking paths)
    {tr : List (Trans World Event)} {s : World}
    (hr : Run (step g headSha id) ⟨main, approved, approved, call⟩ tr s)
    (hclear : ∀ t ∈ tr, Clear g approved t) :
    ∀ t ∈ tr, ∀ sha lost, t.act = .merge sha lost → Lands g approved t.before.main sha := by
  have hstart : Held g approved ⟨main, approved, approved, call⟩ := by
    rcases hcall with rfl | ⟨paths, rfl⟩
    · exact named_of_approved hsha
    · exact True.intro
  refine (Run.history (I := fun tr s => Held g approved s ∧ ∀ t ∈ tr, ∀ sha lost,
    t.act = .merge sha lost → Lands g approved t.before.main sha) (C := Clear g approved)
    ⟨hstart, by simp⟩ ?_ hr hclear).2
  intro tr s e s' _ hstep hc ⟨hheld, hlanded⟩
  refine ⟨step_held hsha hstep hc hheld, ?_⟩
  intro t ht sha lost hact
  rcases List.mem_append.mp ht with ht | ht
  · exact hlanded t ht sha lost hact
  · obtain rfl := List.mem_singleton.mp ht
    exact lands_of_step hstep hc hheld hact

end

/-! ## two files -/

/-- `main` before and after another merge, the approved commit, the two heads the branch may get to,
and what is merged of each -/
def twoFiles : String → Revision
  | "main0" => ⟨[("a.yaml", "a0"), ("b.yaml", "b0")], "main0"⟩
  | "main1" => ⟨[("a.yaml", "a0"), ("b.yaml", "b0"), ("c.yaml", "c1")], "main1"⟩
  | "approved" => ⟨[("a.yaml", "a1"), ("b.yaml", "b1")], "main0"⟩
  | "updated" => ⟨[("a.yaml", "a1"), ("b.yaml", "b1"), ("c.yaml", "c1")], "main1"⟩
  | "reverted" => ⟨[("a.yaml", "a1"), ("b.yaml", "b0"), ("c.yaml", "c1")], "main1"⟩
  | "merged" => ⟨[("a.yaml", "a1"), ("b.yaml", "b1"), ("c.yaml", "c1")], "merged"⟩
  | _ => ⟨[("a.yaml", "a1"), ("b.yaml", "b0"), ("c.yaml", "c1")], "halved"⟩

def plainForge : Forge where
  revision := twoFiles
  merge := .plain
  removed _ _ _ h := ThreeWay.plain_eq_some h
  kept _ _ _ h := (ThreeWay.plain_eq_some h).imp Eq.symm Eq.symm
  blocksOutdated := true

/-- the approval of two files, as it goes to merge them -/
def toMerge : World := ⟨"main0", "approved", "approved", .merging 0 "approved"⟩

/-- another change is merged first: the forge refuses the branch, and brings it up to date -/
def overtakenFirst : List Event :=
  [.land "main1", .refuse (.api 405 "The head branch is behind the base branch"),
    .update "updated" none]

/-- what the call reads before it merges again -/
def compared (files : List String) : List Event :=
  [.refresh, .answer, .answer, .answer, .answer,
    .list (files.map (fun path => ⟨path, false, false⟩))]

/-- the branch brought up to date, and merged -/
def caughtUp : List Event :=
  overtakenFirst ++ compared ["a.yaml", "b.yaml"] ++ [.merge "merged" none]

/-- the same, with `b.yaml` pushed back to what `main` holds before the head is read -/
def pushedBack : List Event :=
  overtakenFirst ++ [.push "reverted"] ++ compared ["a.yaml"] ++ [.merge "halved" none]

theorem what_merges_of_caughtUp :
    (final (step plainForge "approved" "chg-0000000d") toMerge caughtUp).main = "merged" ∧
    ∀ t ∈ trace (step plainForge "approved" "chg-0000000d") toMerge caughtUp, ∀ sha lost,
      t.act = .merge sha lost → Lands plainForge "approved" t.before.main sha := by
  refine ⟨by decide +kernel, ?_⟩
  exact what_merges (.inl rfl) (.inl rfl) (run_trace (by decide +kernel)) (by decide +kernel)

/-- **A file pushed back is dropped unseen**: the pull request lists it no more, the comparison
passes it over, and the merge leaves `main` without half of what was approved. -/
theorem what_merges_is_less :
    Run (step plainForge "approved" "chg-0000000d") toMerge
      (trace (step plainForge "approved" "chg-0000000d") toMerge pushedBack)
      ⟨"halved", "reverted", "reverted", .done (.ok ())⟩ ∧
    change plainForge "approved" "b.yaml" = some (some "b1") ∧
    (∃ t ∈ trace (step plainForge "approved" "chg-0000000d") toMerge pushedBack,
      t.act = .merge "halved" none ∧ t.before.main = "main1" ∧
      ¬ Lands plainForge "approved" t.before.main "halved") := by
  have hend : final (step plainForge "approved" "chg-0000000d") toMerge pushedBack
      = ⟨"halved", "reverted", "reverted", .done (.ok ())⟩ := by decide +kernel
  refine ⟨hend ▸ run_trace (by decide +kernel), by decide +kernel, ?_⟩
  have hmerge : (⟨⟨"main1", "reverted", "reverted", .merging 1 "reverted"⟩, .merge "halved" none,
      ⟨"halved", "reverted", "reverted", .done (.ok ())⟩⟩ : Trans World Event)
      ∈ trace (step plainForge "approved" "chg-0000000d") toMerge pushedBack := by decide +kernel
  refine ⟨_, hmerge, rfl, rfl, ?_⟩
  intro h
  exact absurd (congrFun h "b.yaml") (by decide +kernel)

end Changes
end Portal
