import Portal.Base.Machine
import Portal.Sync.Proposal

/-!
# The branch of a proposal (`sync/proposal.rs`: `open`)

A call of `open` goes on with the branch it finds, whatever that holds, and writes its own files there
and removes its own paths.  It goes on, too, without the list of open merge requests, and past a path to
remove, where the forge does not say.

* `openCall`, `foundBranch`, `Heard`   one call of `open`, the branch it goes on with, and what the
                                       forge told it;
* `filed`, `Left`          what the branch holds once the files are written and the paths removed;
* `TakesUp`, `Identified`         the merge request the call is of;
* `Shape`, `shape_cases`   what the branch holds at each step of the call, up to its merge.
-/

namespace Portal
namespace Sync

open Changes

/-! ## one call of `open` -/

def openCall (x : Outside) (p : Proposal) (s : Forge × Progress) (o : Outcome) :
    Option (Forge × Progress) :=
  openStep x p s.1 s.2 o

/-- what a call goes on without, where the forge does not say -/
inductive Question where
  /-- the open merge requests -/
  | pulls
  /-- a path to remove -/
  | path (path : String)

def Progress.question : Progress → Option Question
  | .listing => some .pulls
  | .looking _ path _ => some (.path path)
  | _ => none

def Heard (tr : List (Trans (Forge × Progress) Outcome)) (q : Question) : Prop :=
  ∃ t ∈ tr, t.before.2.question = some q ∧ t.act = .answered

def Truthful (p : Proposal) (t : Trans (Forge × Progress) Outcome) : Prop :=
  t.before.2 = .branching → ∀ text, t.act = .refused (.conflict text) →
    t.before.1.branches p.branch ≠ none

/-- the branch a call goes on with: the one of its name, or a new one -/
def foundBranch (p : Proposal) (f : Forge) : Branch := (f.branches p.branch).getD ⟨f.files, f.files⟩

/-- what a call makes of a file of its branch: one that is written already is kept -/
def filed (x : Outside) (p : Proposal) (head : Tree) (path : String) : Option String :=
  match p.files.get? path with
  | none => head.get? path
  | some content =>
    if (head.get? path).any (isWritten x path content) then head.get? path
    else some (committedText x path content)

/-! ## what the branch holds -/

section
variable (x : Outside) (p : Proposal) (f : Forge)

/-- the files of the branch, and what it has in common with the default branch, which stays -/
def Holds (g : Forge) (c : String → Option String → Prop) : Prop :=
  g.files = f.files ∧ ∃ head : Tree, g.branches p.branch = some ⟨(foundBranch p f).base, head⟩ ∧
    ∀ path, c path (head.get? path)

/-- a file of the branch while others are still to be written -/
def Pending (files : List (String × String)) (path : String) (text : Option String) : Prop :=
  text = if path ∈ files.map Prod.fst then (foundBranch p f).head.get? path
    else filed x p (foundBranch p f).head path

/-- a file of the branch once the paths looked at are removed -/
def Left (heard : Question → Prop) (path : String) (text : Option String) : Prop :=
  (heard (.path path) → text = none) ∧
    (¬ heard (.path path) → text = filed x p (foundBranch p f).head path)

/-- the same while a path is about to be removed -/
def Leaving (heard : Question → Prop) (path other : String) (text : Option String) : Prop :=
  if other = path then text = filed x p (foundBranch p f).head other else Left x p f heard other text

/-- a file of the branch at any time of a call -/
def Touched (path : String) (text : Option String) : Prop :=
  text = (foundBranch p f).head.get? path ∨ text = filed x p (foundBranch p f).head path ∨
    (path ∈ p.removed ∧ text = none)

/-- the open merge requests a call goes by -/
def Listed (heard : Question → Prop) (openNow : List Pull) : Prop :=
  (heard .pulls → openNow = listPullRequests f (some .opened)) ∧ (¬ heard .pulls → openNow = [])

/-- the open merge request listed first under the branch's name -/
def foundPull : Option Pull :=
  (listPullRequests f (some .opened)).find? (fun pull => pull.headBranch = p.branch)

/-- the merge request of a call is the one listed, whatever it merges into and whoever's branch it is of,
or one of the call's branch into the default branch -/
def TakesUp (heard : Question → Prop) (pull : Pull) : Prop :=
  heard .pulls ∧ foundPull p f = some pull ∨
    (heard .pulls → foundPull p f = none) ∧ pull.headBranch = p.branch ∧ pull.fork = none ∧
      pull.baseBranch = x.defaultBranch

/-- the forge has a merge request, and knows it by its number -/
def Identified (g : Forge) (pull : Pull) : Prop :=
  Numbered g ∧ ∃ later ∈ g.pulls, pull.Becomes later

/-- what the branch holds at each step of a call that began with `f` -/
def Shape (heard : Question → Prop) (g : Forge) : Progress → Prop
  | .naming | .branching => g = f ∧ ∀ q, ¬ heard q
  | .listing => g.pulls = f.pulls ∧ (∀ q, ¬ heard q) ∧
      Holds p f g (fun path text => text = (foundBranch p f).head.get? path)
  | .reading openNow path content rest =>
    Listed f heard openNow ∧ (path, content) :: rest <:+ p.files.toList ∧ (∀ path, ¬ heard (.path path)) ∧
      Holds p f g (Pending x p f ((path, content) :: rest))
  | .writing openNow path content sha rest =>
    Listed f heard openNow ∧ (path, content) :: rest <:+ p.files.toList ∧ (∀ path, ¬ heard (.path path)) ∧
      ¬ sha.any (isWritten x path content) ∧ Holds p f g (Pending x p f ((path, content) :: rest))
  | .looking openNow path rest => Listed f heard openNow ∧ path :: rest ⊆ p.removed ∧
      Holds p f g (Left x p f heard)
  | .removing openNow path _ rest => Listed f heard openNow ∧ path :: rest ⊆ p.removed ∧ heard (.path path) ∧
      Holds p f g (Leaving x p f heard path)
  | .requesting openNow => Listed f heard openNow ∧
      openNow.find? (fun pull => pull.headBranch = p.branch) = none ∧ Holds p f g (Left x p f heard)
  | .closing pull _ _ => TakesUp x p f heard pull ∧ Holds p f g (Left x p f heard)
  | .merging pull => p.autoMerge ∧ TakesUp x p f heard pull ∧ Holds p f g (Left x p f heard)
  | .opened pull => p.autoMerge = false ∧ TakesUp x p f heard pull ∧ Holds p f g (Left x p f heard)
  | .failed _ =>
    (g.files = f.files ∧ g.branches p.branch = none ∧ f.branches p.branch = none) ∨
      Holds p f g (Touched x p f)

/-- the call's last step, where it merges its merge request and may not be answered -/
def Merges (t : Trans (Forge × Progress) Outcome) : Prop :=
  ∃ pull, t.before.2 = .merging pull ∧ mergePull x t.before.1 pull.number = (t.after.1, .ok ()) ∧
    (t.after.2 = .opened pull ∨ ∃ e, t.after.2 = .failed e)

end

section
variable {x : Outside} {p : Proposal} {f g : Forge} {c c' : String → Option String → Prop}
  {heard : Question → Prop}

theorem foundBranch_of_some {b : Branch} (h : f.branches p.branch = some b) : foundBranch p f = b := by
  rw [foundBranch, h, Option.getD_some]

theorem foundBranch_of_none (h : f.branches p.branch = none) :
    foundBranch p f = ⟨f.files, f.files⟩ := by
  rw [foundBranch, h, Option.getD_none]

theorem Holds.mono (h : Holds p f g c) (hc : ∀ path text, c path text → c' path text) :
    Holds p f g c' := by
  obtain ⟨hfiles, head, hbranch, hhead⟩ := h
  exact ⟨hfiles, head, hbranch, fun path => hc path _ (hhead path)⟩

theorem holds_of_some {b : Branch} (h : f.branches p.branch = some b) :
    Holds p f f (fun path text => text = (foundBranch p f).head.get? path) := by
  rw [Holds, foundBranch_of_some h]
  exact ⟨rfl, b.head, h, fun _ => rfl⟩

theorem holds_createBranch :
    Holds p f (createBranch f p.branch).1
      (fun path text => text = (foundBranch p f).head.get? path) := by
  unfold createBranch
  cases hbranch : f.branches p.branch with
  | some b => exact holds_of_some hbranch
  | none =>
    rw [Holds, foundBranch_of_none hbranch]
    exact ⟨rfl, f.files, withBranch_self .., fun _ => rfl⟩

theorem Holds.change (h : Holds p f g c) {path : String} (sha text : Option String)
    (hothers : ∀ other t, other ≠ path → c other t → c' other t)
    (hpath : c path sha → c' path text) :
    (∃ e, change g path p.branch sha text = (g, .error e)) ∨
      ((change g path p.branch sha text).2 = .ok () ∧
        Holds p f (change g path p.branch sha text).1 c') := by
  obtain ⟨hfiles, head, hbranch, hhead⟩ := h
  rcases change_cases hbranch with hfails | ⟨hsha, hdone⟩
  · exact .inl hfails
  · rw [hdone]
    refine .inr ⟨rfl, hfiles, _, withBranch_self .., fun other => ?_⟩
    rw [OrdMap.get?_alter]
    split
    · rename_i heq
      rw [heq]
      exact hpath (hsha ▸ hhead path)
    · rename_i hne
      exact hothers other _ hne (hhead other)

/-! ### the states of a call -/

theorem shape_closes {pull : Pull} (older : List Pull) (htakes : TakesUp x p f heard pull)
    (h : Holds p f g (Left x p f heard)) : Shape x p f heard g (p.closes pull older) := by
  cases older with
  | cons => exact ⟨htakes, h⟩
  | nil =>
    by_cases hauto : p.autoMerge
    · rw [Proposal.closes, Proposal.settles, if_pos hauto]
      exact ⟨hauto, htakes, h⟩
    · rw [Proposal.closes, Proposal.settles, if_neg hauto]
      exact ⟨Bool.eq_false_iff.mpr hauto, htakes, h⟩

theorem shape_requests {openNow : List Pull} (hlisted : Listed f heard openNow)
    (h : Holds p f g (Left x p f heard)) : Shape x p f heard g (p.requests openNow) := by
  unfold Proposal.requests
  split
  · rename_i pull hfind
    refine shape_closes _ (.inl ?_) h
    by_cases hheard : heard .pulls
    · rw [hlisted.1 hheard] at hfind
      exact ⟨hheard, hfind⟩
    · rw [hlisted.2 hheard] at hfind
      cases hfind
  · rename_i hfind
    exact ⟨hlisted, hfind, h⟩

theorem shape_removes {openNow : List Pull} (hlisted : Listed f heard openNow) {removed : List String}
    (hremoved : removed ⊆ p.removed) (h : Holds p f g (Left x p f heard)) :
    Shape x p f heard g (p.removes openNow removed) := by
  cases removed with
  | nil => exact shape_requests hlisted h
  | cons path rest => exact ⟨hlisted, hremoved, h⟩

theorem shape_writes {openNow : List Pull} (hlisted : Listed f heard openNow)
    {files : List (String × String)} (hfiles : files <:+ p.files.toList)
    (hunheard : ∀ path, ¬ heard (.path path)) (h : Holds p f g (Pending x p f files)) :
    Shape x p f heard g (p.writes openNow files) := by
  cases files with
  | cons => exact ⟨hlisted, hfiles, hunheard, h⟩
  | nil =>
    refine shape_removes hlisted (List.Subset.refl _) (h.mono fun path text htext => ?_)
    refine ⟨fun hpath => absurd hpath (hunheard path), fun _ => ?_⟩
    rw [Pending, List.map_nil, if_neg List.not_mem_nil] at htext
    exact htext

/-! ### the files of a branch, one call at a time -/

variable {path content : String} {rest : List (String × String)}

theorem filed_of_none {head : Tree} (h : p.files.get? path = none) :
    filed x p head path = head.get? path := by
  rw [filed, h]

theorem filed_of_kept {head : Tree} (hfile : p.files.get? path = some content)
    (h : (head.get? path).any (isWritten x path content)) : filed x p head path = head.get? path := by
  rw [filed, hfile]
  exact if_pos h

theorem filed_of_not_kept {head : Tree} (hfile : p.files.get? path = some content)
    (h : ¬ (head.get? path).any (isWritten x path content)) :
    filed x p head path = some (committedText x path content) := by
  rw [filed, hfile]
  exact if_neg h

theorem get?_of_suffix (h : (path, content) :: rest <:+ p.files.toList) :
    p.files.get? path = some content :=
  (p.files.mem_toList path content).mp (h.subset List.mem_cons_self)

theorem not_mem_of_suffix (h : (path, content) :: rest <:+ p.files.toList) :
    path ∉ rest.map Prod.fst := by
  have hnodup : (((path, content) :: rest).map Prod.fst).Nodup :=
    (h.map Prod.fst).sublist.nodup p.files.keys_nodup
  rw [List.map_cons, List.nodup_cons] at hnodup
  exact hnodup.1

theorem Pending.found {text : Option String}
    (h : Pending x p f ((path, content) :: rest) path text) :
    text = (foundBranch p f).head.get? path := by
  rwa [Pending, List.map_cons, if_pos List.mem_cons_self] at h

theorem Pending.other {other : String} {text : Option String} (hne : other ≠ path)
    (h : Pending x p f ((path, content) :: rest) other text) : Pending x p f rest other text := by
  have hiff : other ∈ ((path, content) :: rest).map Prod.fst ↔ other ∈ rest.map Prod.fst := by
    rw [List.map_cons, List.mem_cons, or_iff_right hne]
  exact h.trans (if_congr hiff rfl rfl)

theorem pending_rest (hfiles : (path, content) :: rest <:+ p.files.toList) {text : Option String}
    (h : text = filed x p (foundBranch p f).head path) : Pending x p f rest path text := by
  rw [Pending, if_neg (not_mem_of_suffix hfiles)]
  exact h

theorem Pending.touched {files : List (String × String)} {other : String} {text : Option String}
    (h : Pending x p f files other text) : Touched x p f other text := by
  rw [Pending] at h
  split at h
  · exact .inl h
  · exact .inr (.inl h)

theorem Left.touched (hremovable : ∀ path, heard (.path path) → path ∈ p.removed) {other : String}
    {text : Option String} (h : Left x p f heard other text) : Touched x p f other text := by
  by_cases hother : heard (.path other)
  · exact .inr (.inr ⟨hremovable other hother, h.1 hother⟩)
  · exact .inr (.inl (h.2 hother))

/-! ### one step of a call -/

variable {g' : Forge} {progress progress' : Progress} {o : Outcome}

theorem shape_naming (hunheard : ∀ q, ¬ heard q)
    (h : openStep x p f .naming o = some (g', progress')) : Shape x p f heard g' progress' := by
  rcases goesOn_cases (Option.some.inj h) with ⟨e, rfl, hg⟩ | ⟨v, -, rfl, rfl⟩
  · obtain rfl : g' = f := hg.elim id id
    cases hbranch : g'.branches p.branch with
    | none => exact .inl ⟨rfl, hbranch, hbranch⟩
    | some b => exact .inr ((holds_of_some hbranch).mono fun _ _ => .inl)
  · exact ⟨rfl, hunheard⟩

theorem shape_branching (hunheard : ∀ q, ¬ heard q)
    (htruth : ∀ text, o = .refused (.conflict text) → f.branches p.branch ≠ none)
    (h : openStep x p f .branching o = some (g', progress')) : Shape x p f heard g' progress' := by
  have hcreate := holds_createBranch (p := p) (f := f)
  have hpulls := (pulls_createBranch (f := f) p.branch).1
  simp only [openStep] at h
  split at h
  · -- the branch is there
    rename_i g text hdone
    obtain ⟨rfl, rfl⟩ := Prod.mk.inj (Option.some.inj h)
    cases o with
    | answered =>
      obtain rfl : (createBranch f p.branch).1 = g := congrArg Prod.fst hdone
      exact ⟨hpulls, hunheard, hcreate⟩
    | lost e =>
      obtain rfl : (createBranch f p.branch).1 = g := congrArg Prod.fst hdone
      exact ⟨hpulls, hunheard, hcreate⟩
    | refused e =>
      obtain ⟨rfl, he⟩ := Prod.mk.inj hdone
      obtain ⟨b, hb⟩ := Option.ne_none_iff_exists'.mp
        (htruth text (congrArg Outcome.refused (Except.error.inj he)))
      exact ⟨rfl, hunheard, holds_of_some hb⟩
  · rcases goesOn_cases (Option.some.inj h) with ⟨e, rfl, rfl | rfl⟩ | ⟨v, -, rfl, rfl⟩
    · cases hbranch : g'.branches p.branch with
      | none => exact .inl ⟨rfl, hbranch, hbranch⟩
      | some b => exact .inr ((holds_of_some hbranch).mono fun _ _ => .inl)
    · exact .inr (hcreate.mono fun _ _ => .inl)
    · exact ⟨hpulls, hunheard, hcreate⟩

theorem shape_listing (hpulls : g.pulls = f.pulls) (hunheard : ∀ q, ¬ heard q)
    (hholds : Holds p f g (fun path text => text = (foundBranch p f).head.get? path))
    (h : openStep x p g .listing o = some (g', progress')) :
    Shape x p f (fun q => heard q ∨ some .pulls = some q ∧ o = .answered) g' progress' := by
  obtain ⟨rfl, rfl⟩ := Prod.mk.inj (Option.some.inj h)
  have hlist : listPullRequests g (some .opened) = listPullRequests f (some .opened) := by
    rw [listPullRequests, hpulls, listPullRequests]
  refine shape_writes ⟨fun hheard => ?_, fun hnot => ?_⟩ (List.suffix_refl _) ?_
    (hholds.mono fun path text htext => ?_)
  · obtain ⟨-, rfl⟩ := hheard.resolve_left (hunheard .pulls)
    exact hlist
  · cases o with
    | answered => exact absurd (.inr ⟨rfl, rfl⟩) hnot
    | lost e => rfl
    | refused e => rfl
  · rintro path (hheard | ⟨hpath, -⟩)
    · exact hunheard _ hheard
    · cases hpath
  · rw [Pending]
    split
    · exact htext
    · rename_i hpath
      have hnone : p.files.get? path = none := by
        rw [Option.eq_none_iff_forall_ne_some]
        exact fun content hfile => hpath ((p.files.mem_keys path).mpr ⟨content, hfile⟩)
      rw [filed_of_none hnone]
      exact htext

theorem shape_reading {openNow : List Pull} (hlisted : Listed f heard openNow)
    (hfiles : (path, content) :: rest <:+ p.files.toList) (hunheard : ∀ path, ¬ heard (.path path))
    (hholds : Holds p f g (Pending x p f ((path, content) :: rest)))
    (h : openStep x p g (.reading openNow path content rest) o = some (g', progress')) :
    Shape x p f heard g' progress' := by
  simp only [openStep] at h
  split at h
  · -- the file is kept
    rename_i hkept
    obtain ⟨rfl, rfl⟩ := Prod.mk.inj (Option.some.inj h)
    refine shape_writes hlisted (List.IsSuffix.trans (List.suffix_cons _ _) hfiles) hunheard ?_
    obtain ⟨hsame, head, hbranch, hhead⟩ := hholds
    refine ⟨hsame, head, hbranch, fun other => ?_⟩
    by_cases hother : other = path
    · subst hother
      have hfound := (hhead other).found
      refine pending_rest hfiles ?_
      have hread : (o.reads (getFile g other p.branch)).join = head.get? other := by
        cases o with
        | answered => rw [getFile, hbranch]; rfl
        | lost e => cases hkept
        | refused e => cases hkept
      rw [hread, hfound] at hkept
      rw [filed_of_kept (get?_of_suffix hfiles) hkept]
      exact hfound
    · exact (hhead other).other hother
  · rename_i hkept
    obtain ⟨rfl, rfl⟩ := Prod.mk.inj (Option.some.inj h)
    exact ⟨hlisted, hfiles, hunheard, hkept, hholds⟩

theorem shape_writing {openNow : List Pull} {sha : Option String} (hlisted : Listed f heard openNow)
    (hfiles : (path, content) :: rest <:+ p.files.toList) (hunheard : ∀ path, ¬ heard (.path path))
    (hkept : ¬ sha.any (isWritten x path content))
    (hholds : Holds p f g (Pending x p f ((path, content) :: rest)))
    (h : openStep x p g (.writing openNow path content sha rest) o = some (g', progress')) :
    Shape x p f heard g' progress' := by
  have hrest : Pending x p f ((path, content) :: rest) path sha →
      Pending x p f rest path (some (committedText x path content)) := by
    intro hsha
    rw [hsha.found] at hkept
    exact pending_rest hfiles (filed_of_not_kept (get?_of_suffix hfiles) hkept).symm
  have hfails : ∀ e, Shape x p f heard g (.failed e) := fun e =>
    .inr (hholds.mono fun _ _ hpending => hpending.touched)
  rcases hholds.change sha (some (committedText x path content)) (fun _ _ hne => Pending.other hne)
    hrest with ⟨e, hdone⟩ | ⟨-, hdone⟩
  · rcases goesOn_cases (Option.some.inj h) with ⟨e', rfl, hg⟩ | ⟨v, hok, -, -⟩
    · rw [putFile, hdone] at hg
      obtain rfl : g' = g := hg.elim id id
      exact hfails e'
    · rw [putFile, hdone] at hok
      cases hok
  · rcases goesOn_cases (Option.some.inj h) with ⟨e', rfl, rfl | rfl⟩ | ⟨v, -, rfl, rfl⟩
    · exact hfails e'
    · exact .inr (hdone.mono fun _ _ hpending => hpending.touched)
    · exact shape_writes hlisted (List.IsSuffix.trans (List.suffix_cons _ _) hfiles) hunheard hdone

variable {removed : List String}

theorem Listed.looked {openNow : List Pull} (h : Listed f heard openNow) :
    Listed f (fun q => heard q ∨ some (.path path) = some q ∧ o = .answered) openNow := by
  refine ⟨fun hheard => h.1 (hheard.resolve_right fun hpath => ?_), fun hnot => h.2 (hnot ∘ .inl)⟩
  cases hpath.1

theorem shape_looking {openNow : List Pull} (hlisted : Listed f heard openNow)
    (hremoved : path :: removed ⊆ p.removed) (hholds : Holds p f g (Left x p f heard))
    (h : openStep x p g (.looking openNow path removed) o = some (g', progress')) :
    Shape x p f (fun q => heard q ∨ some (.path path) = some q ∧ o = .answered) g' progress' := by
  obtain ⟨hsame, head, hbranch, hhead⟩ := hholds
  have hothers : ∀ other, other ≠ path →
      Left x p f (fun q => heard q ∨ some (.path path) = some q ∧ o = .answered) other
        (head.get? other) := by
    intro other hne
    refine ⟨fun hremovable => (hhead other).1 ?_, fun hremovable => (hhead other).2 fun h => hremovable (.inl h)⟩
    exact hremovable.resolve_right fun hlooked => hne (Question.path.inj (Option.some.inj hlooked.1)).symm
  simp only [openStep] at h
  split at h
  · -- the path is not there, or the forge did not say
    rename_i hnone
    obtain ⟨rfl, rfl⟩ := Prod.mk.inj (Option.some.inj h)
    refine shape_removes hlisted.looked
      (fun other hother => hremoved (List.mem_cons_of_mem _ hother))
      ⟨hsame, head, hbranch, fun other => ?_⟩
    by_cases hother : other = path
    · subst hother
      refine ⟨fun hremovable => ?_, fun hremovable => (hhead other).2 fun h => hremovable (.inl h)⟩
      rcases hremovable with hremovable | ⟨-, rfl⟩
      · exact (hhead other).1 hremovable
      · rw [getFile, hbranch] at hnone
        exact hnone
    · exact hothers other hother
  · rename_i sha hsome
    obtain ⟨rfl, rfl⟩ := Prod.mk.inj (Option.some.inj h)
    cases o with
    | lost e => cases hsome
    | refused e => cases hsome
    | answered =>
      refine ⟨hlisted.looked, hremoved, .inr ⟨rfl, rfl⟩, hsame, head, hbranch, fun other => ?_⟩
      by_cases hother : other = path
      · subst hother
        rw [Leaving, if_pos rfl]
        refine (hhead other).2 fun hremovable => ?_
        have hheld : head.get? other = some sha := by
          rw [getFile, hbranch] at hsome
          exact hsome
        rw [(hhead other).1 hremovable] at hheld
        cases hheld
      · rw [Leaving, if_neg hother]
        exact hothers other hother

theorem Leaving.touched (hremovable : ∀ path, heard (.path path) → path ∈ p.removed) {other : String}
    {text : Option String} (h : Leaving x p f heard path other text) : Touched x p f other text := by
  rw [Leaving] at h
  split at h
  · exact .inr (.inl h)
  · exact h.touched hremovable

theorem shape_removing {openNow : List Pull} {sha : String} (hlisted : Listed f heard openNow)
    (hremoved : path :: removed ⊆ p.removed) (hpath : heard (.path path))
    (hremovable : ∀ path, heard (.path path) → path ∈ p.removed) (hholds : Holds p f g (Leaving x p f heard path))
    (h : openStep x p g (.removing openNow path sha removed) o = some (g', progress')) :
    Shape x p f heard g' progress' := by
  have hothers : ∀ other text, other ≠ path → Leaving x p f heard path other text →
      Left x p f heard other text := by
    intro other text hne hleaving
    rwa [Leaving, if_neg hne] at hleaving
  have hfails : ∀ e, Shape x p f heard g (.failed e) := fun e =>
    .inr (hholds.mono fun _ _ hleaving => hleaving.touched hremovable)
  rcases hholds.change (some sha) none hothers
    (fun _ => ⟨fun _ => rfl, fun hnot => absurd hpath hnot⟩) with ⟨e, hdone⟩ | ⟨-, hdone⟩
  · rcases goesOn_cases (Option.some.inj h) with ⟨e', rfl, hg⟩ | ⟨v, hok, -, -⟩
    · rw [deleteFile, hdone] at hg
      obtain rfl : g' = g := hg.elim id id
      exact hfails e'
    · rw [deleteFile, hdone] at hok
      cases hok
  · rcases goesOn_cases (Option.some.inj h) with ⟨e', rfl, rfl | rfl⟩ | ⟨v, -, rfl, rfl⟩
    · exact hfails e'
    · exact .inr (hdone.mono fun _ _ hleft => hleft.touched hremovable)
    · exact shape_removes hlisted (fun other hother => hremoved (List.mem_cons_of_mem _ hother)) hdone

theorem Holds.congr (h : Holds p f g c) (hfiles : g'.files = g.files)
    (hbranches : g'.branches = g.branches) : Holds p f g' c := by
  rw [Holds, hfiles, hbranches]
  exact h

theorem createPullRequest_cases (x : Outside) (g : Forge) (branch : String) :
    (∃ e, createPullRequest g x branch = (g, .error e)) ∨
      g.pulls.any (Pull.holds branch x.defaultBranch) = false ∧
        (createPullRequest g x branch).2 = .ok (newPull x g branch) ∧
        (createPullRequest g x branch).1
          = { g with pulls := newPull x g branch :: g.pulls, next := g.next + 1 } := by
  unfold createPullRequest
  split
  · exact .inl ⟨_, rfl⟩
  · rename_i hnone
    split
    · exact .inl ⟨_, rfl⟩
    · exact .inr ⟨Bool.eq_false_iff.mpr hnone, rfl, rfl⟩

theorem shape_requesting {openNow : List Pull} (hlisted : Listed f heard openNow)
    (hfind : openNow.find? (fun pull => pull.headBranch = p.branch) = none)
    (hremovable : ∀ path, heard (.path path) → path ∈ p.removed)
    (hholds : Holds p f g (Left x p f heard))
    (h : openStep x p g (.requesting openNow) o = some (g', progress')) :
    Shape x p f heard g' progress' := by
  have htouched : Holds p f g (Touched x p f) := hholds.mono fun _ _ hleft => hleft.touched hremovable
  rcases createPullRequest_cases x g p.branch with ⟨e, hdone⟩ | ⟨-, hpull, hdone⟩
  · rcases goesOn_cases (Option.some.inj h) with ⟨e', rfl, hg⟩ | ⟨v, hok, -, -⟩
    · rw [hdone] at hg
      obtain rfl : g' = g := hg.elim id id
      exact .inr htouched
    · rw [hdone] at hok
      cases hok
  · rcases goesOn_cases (Option.some.inj h) with ⟨e', rfl, rfl | rfl⟩ | ⟨pull, hok, rfl, rfl⟩
    · exact .inr htouched
    · rw [hdone]
      exact .inr (htouched.congr rfl rfl)
    · rw [hpull] at hok
      obtain rfl := Except.ok.inj hok
      rw [hdone]
      refine shape_closes _ (.inr ⟨fun hheard => ?_, rfl, rfl, rfl⟩) (hholds.congr rfl rfl)
      rw [hlisted.1 hheard] at hfind
      exact hfind

theorem shape_closing {pull older : Pull} {more : List Pull} (htakes : TakesUp x p f heard pull)
    (hholds : Holds p f g (Left x p f heard))
    (h : openStep x p g (.closing pull older more) o = some (g', progress')) :
    Shape x p f heard g' progress' := by
  obtain ⟨rfl, rfl⟩ := Prod.mk.inj (Option.some.inj h)
  refine shape_closes _ htakes (hholds.congr ?_ ?_) <;> cases o <;> rfl

theorem shape_merging {pull : Pull} (hremovable : ∀ path, heard (.path path) → path ∈ p.removed)
    (hholds : Holds p f g (Left x p f heard))
    (hnot : ¬ Merges x ⟨(g, .merging pull), o, (g', progress')⟩)
    (h : openStep x p g (.merging pull) o = some (g', progress')) :
    Shape x p f heard g' progress' := by
  have hstays : ∀ e, Shape x p f heard g (.failed e) := fun e =>
    .inr (hholds.mono fun _ _ hleft => hleft.touched hremovable)
  rcases mergePull_cases x g pull.number with ⟨e, hdone⟩ | ⟨-, hanswers⟩
  · rcases goesOn_cases (Option.some.inj h) with ⟨e', rfl, hg⟩ | ⟨v, hok, -, -⟩
    · rw [hdone] at hg
      obtain rfl : g' = g := hg.elim id id
      exact hstays e'
    · rw [hdone] at hok
      cases hok
  · rcases goesOn_cases (Option.some.inj h) with ⟨e', rfl, rfl | rfl⟩ | ⟨v, -, rfl, rfl⟩
    · exact hstays e'
    · exact absurd ⟨pull, rfl, Prod.ext rfl hanswers.result, .inr ⟨e', rfl⟩⟩ hnot
    · exact absurd ⟨pull, rfl, Prod.ext rfl hanswers.result, .inl rfl⟩ hnot

theorem shape_step (hshape : Shape x p f heard g progress)
    (hremovable : ∀ path, heard (.path path) → path ∈ p.removed)
    (hnot : ¬ Merges x ⟨(g, progress), o, (g', progress')⟩)
    (htruth : progress = .branching → ∀ text, o = .refused (.conflict text) →
      g.branches p.branch ≠ none)
    (h : openStep x p g progress o = some (g', progress')) :
    Shape x p f (fun q => heard q ∨ progress.question = some q ∧ o = .answered) g' progress' := by
  have hsame : progress.question = none →
      (fun q => heard q ∨ progress.question = some q ∧ o = .answered) = heard := by
    intro hquestion
    funext q
    simp [hquestion]
  cases progress with
  | looking openNow path removed =>
    obtain ⟨hlisted, hremoved, hholds⟩ := hshape
    exact shape_looking hlisted hremoved hholds h
  | naming =>
    obtain ⟨rfl, hnone⟩ := hshape
    rw [hsame rfl]
    exact shape_naming hnone h
  | branching =>
    obtain ⟨rfl, hnone⟩ := hshape
    rw [hsame rfl]
    exact shape_branching hnone (htruth rfl) h
  | listing =>
    obtain ⟨hpulls, hnone, hholds⟩ := hshape
    exact shape_listing hpulls hnone hholds h
  | reading openNow path content rest =>
    obtain ⟨hlisted, hfiles, hnone, hholds⟩ := hshape
    rw [hsame rfl]
    exact shape_reading hlisted hfiles hnone hholds h
  | writing openNow path content sha rest =>
    obtain ⟨hlisted, hfiles, hnone, hkept, hholds⟩ := hshape
    rw [hsame rfl]
    exact shape_writing hlisted hfiles hnone hkept hholds h
  | removing openNow path sha removed =>
    obtain ⟨hlisted, hremoved, hpath, hholds⟩ := hshape
    rw [hsame rfl]
    exact shape_removing hlisted hremoved hpath hremovable hholds h
  | requesting openNow =>
    rw [hsame rfl]
    exact shape_requesting hshape.1 hshape.2.1 hremovable hshape.2.2 h
  | closing pull older more =>
    rw [hsame rfl]
    exact shape_closing hshape.1 hshape.2 h
  | merging pull =>
    rw [hsame rfl]
    exact shape_merging hremovable hshape.2.2 hnot h
  | opened pull => cases h
  | failed e => cases h

theorem heard_snoc {tr : List (Trans (Forge × Progress) Outcome)} {t : Trans (Forge × Progress) Outcome} :
    Heard (tr ++ [t]) = fun q =>
      Heard tr q ∨ t.before.2.question = some q ∧ t.act = .answered := by
  funext q
  simp only [Heard, List.mem_append, List.mem_singleton, or_and_right, exists_or, exists_eq_left]

/-- what a call knows of the merge requests -/
def Knows (g : Forge) (progress : Progress) : Prop :=
  Numbered g ∧ progress.listed ⊆ g.pulls ∧ ∀ pull, progress.pull? = some pull → Identified g pull

theorem listed_of_pull? {pull : Pull} (h : progress.pull? = some pull) : progress.listed = [] := by
  cases progress with
  | closing => rfl
  | merging => rfl
  | opened => rfl
  | _ => cases h

theorem knows_step (hknows : Knows g progress) (h : openStep x p g progress o = some (g', progress')) :
    Knows g' progress' := by
  have hasks := asks_of_openStep h
  have hgrows := grows_of_asks hasks
  obtain ⟨hnumbered, hlisted, hknown⟩ := hknows
  have hsubset : progress.listed ++ g.pulls ⊆ g.pulls := List.append_subset.mpr ⟨hlisted, List.Subset.refl _⟩
  have htaken : ∀ {pull : Pull}, progress'.pull? = some pull → (∃ later ∈ g'.pulls, pull.Becomes later) →
      Knows g' progress' := by
    intro pull hpull hlater
    refine ⟨hgrows.numbered hnumbered, ?_, fun other hother => ?_⟩
    · rw [listed_of_pull? hpull]
      exact List.nil_subset _
    · obtain rfl := Option.some.inj (hpull.symm.trans hother)
      exact ⟨hgrows.numbered hnumbered, hlater⟩
  have hgoes : ∀ {pull : Pull}, progress.pull? = some pull → progress'.pull? = some pull →
      Knows g' progress' := by
    intro pull hpull hpull'
    obtain ⟨-, later, hlater, hbecomes⟩ := hknown pull hpull
    obtain ⟨last, hlast, hlater⟩ := hgrows.pulls later hlater
    exact htaken hpull' ⟨last, hlast, hbecomes.trans hlater⟩
  cases hasks with
  | stays hbefore hafter hpulls hnext hlist =>
    refine ⟨hgrows.numbered hnumbered, ?_, fun pull hpull => ?_⟩
    · rw [hpulls]
      exact List.Subset.trans hlist hsubset
    · rw [hafter] at hpull
      cases hpull
  | @takes _ _ _ openNow pull hbefore hpulls hnext hpull hbranch =>
    exact htaken (pull?_closes pull _) ⟨pull, hpulls ▸ hsubset hpull, .refl pull⟩
  | creates hpulls hnext =>
    exact htaken (pull?_closes _ _) ⟨_, hpulls ▸ List.mem_cons_self, .refl _⟩
  | forgets hpulls hnext =>
    refine ⟨hgrows.numbered hnumbered, List.nil_subset _, fun pull hpull => ?_⟩
    cases hpull
  | closes _ hnext => exact hgoes rfl (pull?_closes _ _)
  | merges hmerged => exact hgoes rfl rfl
  | fails hf =>
    refine ⟨hgrows.numbered hnumbered, List.nil_subset _, fun pull hpull => ?_⟩
    cases hpull

theorem knows_run {tr : List (Trans (Forge × Progress) Outcome)} {s : Forge × Progress}
    (hnumbered : Numbered f) (hr : Run (openCall x p) (f, .naming) tr s) : Knows s.1 s.2 :=
  Run.invariant (I := fun s => Knows s.1 s.2) (C := fun _ => True)
    ⟨hnumbered, List.nil_subset _, fun _ hpull => by cases hpull⟩
    (fun _ _ _ hstep _ hknows => knows_step hknows hstep) hr (fun _ _ => trivial)

theorem merges_last {tr : List (Trans (Forge × Progress) Outcome)} {s : Forge × Progress}
    (hr : Run (openCall x p) (f, .naming) tr s) :
    (∀ t ∈ tr, ¬ Merges x t) ∨
      ∃ tr' t, tr = tr' ++ [t] ∧ (∀ t ∈ tr', ¬ Merges x t) ∧ Merges x t := by
  induction hr with
  | nil => exact .inl fun t ht => absurd ht List.not_mem_nil
  | @snoc tr s s' o hr hstep ih =>
    rcases ih with hnone | ⟨tr', t, rfl, -, pull, -, -, hafter⟩
    · by_cases hmerges : Merges x ⟨s, o, s'⟩
      · exact .inr ⟨tr, _, rfl, hnone, hmerges⟩
      · refine .inl fun t ht => ?_
        rcases List.mem_append.mp ht with ht | ht
        · exact hnone t ht
        · rw [List.mem_singleton.mp ht]
          exact hmerges
    · -- nothing follows a merge
      obtain ⟨-, -, hat⟩ := hr.of_snoc
      unfold openCall at hstep
      rw [← hat] at hstep
      rcases hafter with hafter | ⟨e, hafter⟩
      · rw [hafter] at hstep
        cases hstep
      · rw [hafter] at hstep
        cases hstep

/-- **What the branch holds, all through a call** that does not merge. -/
theorem shape_run {tr : List (Trans (Forge × Progress) Outcome)} {s : Forge × Progress}
    (hr : Run (openCall x p) (f, .naming) tr s)
    (htruth : ∀ t ∈ tr, Truthful p t ∧ ¬ Merges x t) :
    Shape x p f (Heard tr) s.1 s.2 ∧ ∀ path, Heard tr (.path path) → path ∈ p.removed := by
  refine Run.history
    (I := fun tr s => Shape x p f (Heard tr) s.1 s.2 ∧
      ∀ path, Heard tr (.path path) → path ∈ p.removed) ?_ ?_ hr htruth
  · have hnone : ∀ q, ¬ Heard [] q := fun q ⟨t, ht, _⟩ => absurd ht List.not_mem_nil
    exact ⟨⟨rfl, hnone⟩, fun path hpath => absurd hpath (hnone _)⟩
  · rintro tr ⟨g, progress⟩ o ⟨g', progress'⟩ - hstep ⟨htruth, hnot⟩ ⟨hshape, hremovable⟩
    rw [heard_snoc]
    refine ⟨shape_step hshape hremovable hnot (fun hat text ho => htruth hat text ho) hstep, ?_⟩
    rintro path (hpath | ⟨hquestion, -⟩)
    · exact hremovable path hpath
    · -- only a path to remove is looked at
      cases progress with
      | looking openNow other removed =>
        obtain rfl := Question.path.inj (Option.some.inj hquestion)
        exact hshape.2.1 List.mem_cons_self
      | _ => cases hquestion

theorem shape_cases {tr : List (Trans (Forge × Progress) Outcome)} {s : Forge × Progress}
    (hr : Run (openCall x p) (f, .naming) tr s) (htruth : ∀ t ∈ tr, Truthful p t) :
    (∀ path, Heard tr (.path path) → path ∈ p.removed) ∧
      (Shape x p f (Heard tr) s.1 s.2 ∨
        ∃ tr' g pull, Run (openCall x p) (f, .naming) tr' (g, .merging pull) ∧ tr' ⊆ tr ∧
          Heard tr = Heard tr' ∧ Shape x p f (Heard tr) g (.merging pull) ∧
          mergePull x g pull.number = (s.1, .ok ()) ∧
          (s.2 = .opened pull ∨ ∃ e, s.2 = .failed e)) := by
  rcases merges_last hr with hnone | ⟨tr', t, rfl, hnone, pull, hbefore, hmerge, hafter⟩
  · obtain ⟨hshape, hremovable⟩ := shape_run hr fun t ht => ⟨htruth t ht, hnone t ht⟩
    exact ⟨hremovable, .inl hshape⟩
  · obtain ⟨hrun, -, hat⟩ := hr.of_snoc
    have hheard : Heard (tr' ++ [t]) = Heard tr' := by
      have hquestion : t.before.2.question = none := by rw [hbefore]; rfl
      rw [heard_snoc]
      funext q
      simp [hquestion]
    have hrun' : Run (openCall x p) (f, .naming) tr' (t.before.1, .merging pull) := by
      rw [← hbefore]
      exact hrun
    obtain ⟨hshape, hremovable⟩ := shape_run hrun' fun t ht =>
      ⟨htruth t (List.mem_append_left _ ht), hnone t ht⟩
    rw [hheard, ← hat]
    exact ⟨hremovable, .inr ⟨tr', _, pull, hrun', List.subset_append_left .., rfl, hshape, hmerge, hafter⟩⟩

end

end Sync
end Portal
