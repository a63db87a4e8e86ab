import Mathlib.Logic.Relation
import Portal.Sync.Branch
import Portal.Sync.Driver

/-!
# What a proposal's merge request carries (`sync/proposal.rs`: `open`)

The merge request is of the whole branch, with what an earlier proposal left there, or somebody else
pushed to it; an open one of the branch is taken up whatever it merges into.

* `planned`, `Carries`     what the default branch is to read, and a merge request that merges to it;
* `Brings`, `carries_iff`  where a call's merge request carries the plan, and only there;
* `merged_of_brings`       where it merges itself, the default branch reads the plan;
* `Clean`, `Fails`         a forge with nothing else on the branch, and calls that fail;
* `clean_of_fails`         such calls leave the branch clean, and the plan the same;
* `opens`                  and a call with every answer opens the merge request.
-/

namespace Portal
namespace Sync

open Changes

/-- what the default branch is to read once the proposal is merged -/
def planned (x : Outside) (p : Proposal) (now : Tree) (path : String) : Option String :=
  if path ∈ p.removed then none
  else
    match p.files.get? path with
    | none => now.get? path
    | some content => some (committedText x path content)

/-- **Whichever way git merges it, the merge request makes the default branch read this.** -/
def Carries (x : Outside) (plan : String → Option String) (g : Forge) (pull : Pull) : Prop :=
  pull.baseBranch = x.defaultBranch ∧ ∃ b, pull.content g = some b ∧
    ∀ path, ThreeWay.Settled (b.base.get? path) (b.head.get? path) (g.files.get? path) (plan path)

section
variable (x : Outside) (p : Proposal)

/-- the branch holds a file formatted, and it is kept -/
def KeptFormatted (path content : String) (text : Option String) : Prop :=
  text ≠ some (committedText x path content) ∧ text.any (isWritten x path content)

instance (path content : String) (text : Option String) :
    Decidable (KeptFormatted x path content text) :=
  inferInstanceAs (Decidable (_ ∧ _))

/-- a file of the branch that brings nothing but the plan: one of neither kind is as in the default
branch, or as where they parted; one that is written or removed is so in the default branch, or there as
where they parted; one that is kept formatted, or not removed, is as where they parted, and the default
branch has the plan already -/
def CleanAt (b : Branch) (now : Tree) (heard : Question → Prop) (path : String) : Prop :=
  if path ∈ p.removed then
    (heard (.path path) ∨ filed x p b.head path = none →
      now.get? path = b.base.get? path ∨ now.get? path = none) ∧
    (¬ (heard (.path path) ∨ filed x p b.head path = none) →
      filed x p b.head path = b.base.get? path ∧ now.get? path = none)
  else
    match p.files.get? path with
    | none => b.head.get? path = now.get? path ∨ b.head.get? path = b.base.get? path
    | some content =>
      if KeptFormatted x path content (b.head.get? path) then
        b.head.get? path = b.base.get? path ∧ now.get? path = some (committedText x path content)
      else
        now.get? path = b.base.get? path ∨ now.get? path = some (committedText x path content)

/-- what is on the other repository's branch of the same name, where the first open merge request of the
name is of one -/
def foreignBranch (f : Forge) : Option Branch := (foundPull p f).bind (·.fork)

/-- the first open merge request of the branch's name is into the default branch -/
def IntoDefault (f : Forge) : Prop :=
  ∀ pull, foundPull p f = some pull → pull.baseBranch = x.defaultBranch

/-- the merge request a call takes up is into the default branch, and the branch the call finds brings
nothing but the plan; another repository's, where its merge request is taken up, is not written to, and
brings the plan by itself -/
def Brings (f : Forge) (heard : Question → Prop) : Prop :=
  (heard .pulls → IntoDefault x p f) ∧
  ((heard .pulls → foreignBranch p f = none) →
    ∀ path, CleanAt x p (foundBranch p f) f.files heard path) ∧
  (heard .pulls → ∀ b, foreignBranch p f = some b → ∀ path,
    ThreeWay.Settled (b.base.get? path) (b.head.get? path) (f.files.get? path)
      (planned x p f.files path))

end

/-! ## one call -/

section
variable {x : Outside} {p : Proposal} {f g : Forge} {heard : Question → Prop}

theorem filed_eq {head : Tree} {path content : String} (h : p.files.get? path = some content) :
    filed x p head path =
      if KeptFormatted x path content (head.get? path) then head.get? path
      else some (committedText x path content) := by
  by_cases hkept : (head.get? path).any (isWritten x path content)
  · rw [filed_of_kept h hkept]
    split
    · rfl
    · rename_i hnot
      exact not_not.mp fun hne => hnot ⟨hne, hkept⟩
  · rw [filed_of_not_kept h hkept, if_neg fun hformatted => hkept hformatted.2]

theorem settled_left_iff (hremovable : ∀ path, heard (.path path) → path ∈ p.removed) {now : Tree}
    {path : String} {text : Option String} (h : Left x p f heard path text) :
    ThreeWay.Settled ((foundBranch p f).base.get? path) text (now.get? path) (planned x p now path) ↔
      CleanAt x p (foundBranch p f) now heard path := by
  unfold planned CleanAt
  by_cases hremoved : path ∈ p.removed
  · rw [if_pos hremoved, if_pos hremoved]
    by_cases hgone : heard (.path path) ∨ filed x p (foundBranch p f).head path = none
    · have htext : text = none := by
        by_cases hheard : heard (.path path)
        · exact h.1 hheard
        · exact (h.2 hheard).trans (hgone.resolve_left hheard)
      rw [htext, ThreeWay.settled_taken, and_iff_left (fun hnot => absurd hgone hnot),
        forall_prop_of_true hgone]
    · have htext := h.2 fun hheard => hgone (.inl hheard)
      rw [htext, ThreeWay.settled_of_ne fun hnone => hgone (.inr hnone),
        and_iff_right (fun hnot => absurd hnot hgone), forall_prop_of_true hgone]
  · have htext := h.2 fun hheard => hremoved (hremovable path hheard)
    rw [if_neg hremoved, if_neg hremoved, htext]
    cases hfile : p.files.get? path with
    | none =>
      rw [filed_of_none hfile]
      exact ThreeWay.settled_kept
    | some content =>
      simp only [filed_eq hfile]
      by_cases hformatted : KeptFormatted x path content ((foundBranch p f).head.get? path)
      · rw [if_pos hformatted, if_pos hformatted]
        exact ThreeWay.settled_of_ne hformatted.1
      · rw [if_neg hformatted, if_neg hformatted]
        exact ThreeWay.settled_taken

theorem TakesUp.headBranch {pull : Pull} (h : TakesUp x p f heard pull) :
    pull.headBranch = p.branch := by
  rcases h with ⟨-, hfound⟩ | ⟨-, hname, -, -⟩
  · simpa using List.find?_some hfound
  · exact hname

theorem TakesUp.fork {pull : Pull} (h : TakesUp x p f heard pull) (hheard : heard .pulls) :
    pull.fork = foreignBranch p f := by
  rcases h with ⟨-, hfound⟩ | ⟨hnone, -, hfork, -⟩
  · rw [foreignBranch, hfound, Option.bind_some]
  · rw [foreignBranch, hnone hheard, hfork, Option.bind_none]

theorem TakesUp.own {pull : Pull} (h : TakesUp x p f heard pull) (hnot : ¬ heard .pulls) :
    pull.fork = none := by
  rcases h with ⟨hheard, -⟩ | ⟨-, -, hfork, -⟩
  · exact absurd hheard hnot
  · exact hfork

theorem TakesUp.into_iff {pull : Pull} (h : TakesUp x p f heard pull) :
    pull.baseBranch = x.defaultBranch ↔ (heard .pulls → IntoDefault x p f) := by
  unfold IntoDefault
  rcases h with ⟨hheard, hfound⟩ | ⟨hnone, -, -, hbase⟩
  · simp [hheard, hfound]
  · refine iff_of_true hbase fun hheard pull' hfound => ?_
    rw [hnone hheard] at hfound
    cases hfound

theorem carries_of_holds {pull : Pull} (hremovable : ∀ path, heard (.path path) → path ∈ p.removed)
    (htakes : TakesUp x p f heard pull) (hholds : Holds p f g (Left x p f heard)) :
    Carries x (planned x p f.files) g pull ↔ Brings x p f heard := by
  refine and_congr htakes.into_iff ?_
  obtain ⟨hfiles, head, hbranch, hhead⟩ := hholds
  cases hfork : pull.fork with
  | some b =>
    -- the branch the call wrote is not the merge request's
    have hheard : heard .pulls := not_not.mp fun hnot => by
      rw [htakes.own hnot] at hfork
      cases hfork
    have hforeign : foreignBranch p f = some b := (htakes.fork hheard).symm.trans hfork
    have hcontent : pull.content g = some b := by
      rw [Pull.content, hfork]
      rfl
    rw [hcontent, hforeign, hfiles]
    simp [hheard]
  | none =>
    have hforeign : heard .pulls → foreignBranch p f = none := fun hheard =>
      (htakes.fork hheard).symm.trans hfork
    have hcontent : pull.content g = some ⟨(foundBranch p f).base, head⟩ := by
      rw [Pull.content, hfork, htakes.headBranch, hbranch]
      rfl
    rw [hcontent, hfiles, forall_prop_of_true hforeign, and_iff_left]
    · simp only [Option.some.injEq, exists_eq_left']
      exact forall_congr' fun path => settled_left_iff hremovable (hhead path)
    · intro hheard b hb
      rw [hforeign hheard] at hb
      cases hb

theorem left_of_settles {tr : List (Trans (Forge × Progress) Outcome)} {pull : Pull}
    (hr : Run (openCall x p) (f, .naming) tr (g, p.settles pull)) (htruth : ∀ t ∈ tr, Truthful p t) :
    (∀ path, Heard tr (.path path) → path ∈ p.removed) ∧ TakesUp x p f (Heard tr) pull ∧
      Holds p f g (Left x p f (Heard tr)) := by
  obtain ⟨hremovable, hshape | ⟨tr', g₀, pull', -, -, -, hshape, -, hafter⟩⟩ := shape_cases hr htruth
  · refine ⟨hremovable, ?_⟩
    unfold Proposal.settles at hshape
    by_cases hauto : p.autoMerge
    · rw [if_pos hauto] at hshape
      exact hshape.2
    · rw [if_neg hauto] at hshape
      exact hshape.2
  · -- one that merges is not done after the merge
    unfold Proposal.settles at hafter
    rw [if_pos hshape.1] at hafter
    rcases hafter with hafter | ⟨e, hafter⟩ <;> cases hafter

/-- **A call's merge request carries the plan** where the branch it found brings nothing else, and only
there. -/
theorem carries_iff {tr : List (Trans (Forge × Progress) Outcome)} {pull : Pull}
    (hr : Run (openCall x p) (f, .naming) tr (g, p.settles pull)) (htruth : ∀ t ∈ tr, Truthful p t) :
    Carries x (planned x p f.files) g pull ↔ Brings x p f (Heard tr) := by
  obtain ⟨hremovable, htakes, hholds⟩ := left_of_settles hr htruth
  exact carries_of_holds hremovable htakes hholds

theorem mergePull_of_identified {pull : Pull} (hidentified : Identified g pull)
    (hbase : pull.baseBranch = x.defaultBranch) {b : Branch} (hcontent : pull.content g = some b) :
    (¬ Live g pull.number ∧ ∃ e, mergePull x g pull.number = (g, .error e)) ∨
      mergePull x g pull.number = mergeDefault x g pull b := by
  obtain ⟨hnumbered, later, hlater, hbecomes⟩ := hidentified
  unfold mergePull
  cases hfind : g.pulls.find? (fun q => q.number = pull.number ∧ q.state = .opened) with
  | none =>
    refine .inl ⟨?_, _, rfl⟩
    rintro ⟨q, hq, hnumber, hopened⟩
    have hnot := List.find?_eq_none.mp hfind q hq
    exact hnot (decide_eq_true ⟨hnumber, hopened⟩)
  | some found =>
    -- the merge request of that number is the one at hand
    have hfound : found.number = pull.number := by
      have hsome := List.find?_some hfind
      simp only [decide_eq_true_eq] at hsome
      exact hsome.1
    obtain rfl : found = later := hnumbered.eq (List.mem_of_find?_eq_some hfind) hlater
      (hfound.trans hbecomes.number.symm)
    have hsame : found.content g = some b := by
      rw [Pull.content, hbecomes.fork, hbecomes.headBranch]
      exact hcontent
    simp only [hsame]
    rw [if_pos (hbecomes.baseBranch.trans hbase), hbecomes.mergeDefault]
    exact .inr rfl

theorem mergeDefault_of_ok {pull : Pull} {b : Branch} (hidentified : Identified g pull)
    (hbase : pull.baseBranch = x.defaultBranch) (hcontent : pull.content g = some b) {g' : Forge}
    (hmerge : mergePull x g pull.number = (g', .ok ())) :
    mergeDefault x g pull b = (g', .ok ()) := by
  rcases mergePull_of_identified hidentified hbase hcontent with ⟨-, e, herror⟩ | hdone
  · rw [herror] at hmerge
    cases hmerge
  · rw [← hdone]
    exact hmerge

theorem merged_of_carries {plan : String → Option String} {pull : Pull} {g' : Forge}
    (hidentified : Identified g pull) (hcarries : Carries x plan g pull)
    (hmerge : mergePull x g pull.number = (g', .ok ())) (path : String) :
    g'.files.get? path = plan path := by
  obtain ⟨hbase, b, hcontent, hsettled⟩ := hcarries
  have hdone := mergeDefault_of_ok hidentified hbase hcontent hmerge
  unfold mergeDefault at hdone
  split at hdone
  · cases hdone
  · rename_i files htrees
    obtain ⟨rfl, -⟩ := Prod.mk.inj hdone
    have hpath := merges_of_mergeTrees htrees path
    exact Option.some.inj (hpath.symm.trans (hsettled path x.merge))

/-- **A proposal that merges itself merges no other change.** -/
theorem merged_of_brings {tr : List (Trans (Forge × Progress) Outcome)} {pull : Pull}
    (hnumbered : Numbered f) (hr : Run (openCall x p) (f, .naming) tr (g, .opened pull))
    (htruth : ∀ t ∈ tr, Truthful p t) (hauto : p.autoMerge) (hbrings : Brings x p f (Heard tr))
    (path : String) : g.files.get? path = planned x p f.files path := by
  obtain ⟨hremovable, hshape | ⟨tr', g₀, pull', hr', -, -, hshape, hmerge, -⟩⟩ := shape_cases hr htruth
  · exact absurd hshape.1 (by simp [hauto])
  · have hidentified : Identified g₀ pull' := (knows_run hnumbered hr').2.2 pull' rfl
    have hcarries := (carries_of_holds hremovable hshape.2.1 hshape.2.2).mpr hbrings
    exact merged_of_carries hidentified hcarries hmerge path

end

/-! ## calls that fail -/

/-- an open merge request of the proposal's branch is the repository's own, into the default branch, and
on the first page -/
structure OwnBranch (x : Outside) (p : Proposal) (f : Forge) : Prop where
  own : ∀ pull ∈ f.pulls, pull.headBranch = p.branch → pull.state = .opened →
    pull.fork = none ∧ pull.baseBranch = x.defaultBranch
  listed : ∀ pull ∈ f.pulls, pull.holds p.branch x.defaultBranch →
    pull ∈ listPullRequests f (some .opened)

/-- the forge answers what becomes of each path to remove -/
def Told (tr : List (Trans (Forge × Progress) Outcome)) : Prop :=
  ∀ t ∈ tr, (∃ path, t.before.2.question = some (.path path)) → t.act = .answered

def Fails (x : Outside) (p : Proposal) (f f' : Forge) : Prop :=
  ∃ tr e, Run (openCall x p) (f, .naming) tr (f', .failed e) ∧ (∀ t ∈ tr, Truthful p t) ∧ Told tr

/-- a forge with nothing on the branch but what the plan puts there, or has put -/
structure Clean (x : Outside) (p : Proposal) (f : Forge) : Prop where
  numbered : Numbered f
  branch : ∀ path, CleanAt x p (foundBranch p f) f.files (fun _ => True) path
  pulls : OwnBranch x p f

def Proposal.unseen (p : Proposal) : Progress → List String
  | .looking _ path rest => path :: rest
  | .removing _ _ _ rest => rest
  | .requesting _ | .closing .. | .merging _ | .opened _ => []
  | _ => p.removed

section
variable {x : Outside} {p : Proposal} {f g g' : Forge} {heard : Question → Prop}
  {progress progress' : Progress} {o : Outcome}

/-! ### every path to remove is looked at -/

@[simp] theorem unseen_closes (pull : Pull) (older : List Pull) : p.unseen (p.closes pull older) = [] := by
  cases older with
  | cons => rfl
  | nil =>
    unfold Proposal.closes Proposal.settles
    by_cases hauto : p.autoMerge
    · rw [if_pos hauto]
      rfl
    · rw [if_neg hauto]
      rfl

@[simp] theorem unseen_requests (openNow : List Pull) : p.unseen (p.requests openNow) = [] := by
  unfold Proposal.requests
  split
  · exact unseen_closes ..
  · rfl

@[simp] theorem unseen_removes (openNow : List Pull) (removed : List String) :
    p.unseen (p.removes openNow removed) = removed := by
  cases removed with
  | nil => exact unseen_requests openNow
  | cons => rfl

@[simp] theorem unseen_writes (openNow : List Pull) (files : List (String × String)) :
    p.unseen (p.writes openNow files) = p.removed := by
  cases files with
  | nil => exact unseen_removes openNow p.removed
  | cons => rfl

theorem unseen_goesOn {α : Type} {next : α → Progress} {done : Forge × Except GitError α}
    {removed : List String} (hnext : ∀ v, p.unseen (next v) = removed) (hremoved : removed ⊆ p.removed)
    (h : goesOn next (call g done o) = (g', progress')) :
    removed ⊆ p.unseen progress' ∧ p.unseen progress' ⊆ p.removed := by
  rcases goesOn_cases h with ⟨e, rfl, -⟩ | ⟨v, -, -, rfl⟩
  · exact ⟨hremoved, List.Subset.refl _⟩
  · rw [hnext]
    exact ⟨List.Subset.refl _, hremoved⟩

theorem unseen_step (hunseen : p.unseen progress ⊆ p.removed)
    (h : openStep x p g progress o = some (g', progress')) :
    (∀ path ∈ p.unseen progress, path ∈ p.unseen progress' ∨ progress.question = some (.path path)) ∧
      p.unseen progress' ⊆ p.removed := by
  have hstays : p.unseen progress ⊆ p.unseen progress' ∧ p.unseen progress' ⊆ p.removed →
      (∀ path ∈ p.unseen progress,
        path ∈ p.unseen progress' ∨ progress.question = some (.path path)) ∧
        p.unseen progress' ⊆ p.removed :=
    fun hsub => ⟨fun path hpath => .inl (hsub.1 hpath), hsub.2⟩
  cases progress with
  | naming =>
    have hnext : ∀ _ : Unit, p.unseen .branching = p.removed := fun _ => rfl
    exact hstays (unseen_goesOn hnext hunseen (Option.some.inj h))
  | branching =>
    have hnext : ∀ _ : Unit, p.unseen .listing = p.removed := fun _ => rfl
    simp only [openStep] at h
    split at h
    · obtain ⟨-, rfl⟩ := Prod.mk.inj (Option.some.inj h)
      exact hstays ⟨List.Subset.refl _, List.Subset.refl _⟩
    · exact hstays (unseen_goesOn hnext hunseen (Option.some.inj h))
  | listing =>
    obtain ⟨-, rfl⟩ := Prod.mk.inj (Option.some.inj h)
    rw [unseen_writes]
    exact ⟨fun path hpath => .inl hpath, List.Subset.refl _⟩
  | reading openNow other content rest =>
    simp only [openStep] at h
    split at h
    · obtain ⟨-, rfl⟩ := Prod.mk.inj (Option.some.inj h)
      rw [unseen_writes]
      exact ⟨fun path hpath => .inl hpath, List.Subset.refl _⟩
    · obtain ⟨-, rfl⟩ := Prod.mk.inj (Option.some.inj h)
      exact hstays ⟨List.Subset.refl _, List.Subset.refl _⟩
  | writing openNow other content sha rest =>
    exact hstays (unseen_goesOn (fun _ => unseen_writes ..) hunseen (Option.some.inj h))
  | looking openNow other rest =>
    have hrest : rest ⊆ p.removed := fun path hpath => hunseen (List.mem_cons_of_mem _ hpath)
    have hleaves : p.unseen progress' = rest := by
      simp only [openStep] at h
      split at h
      · obtain ⟨-, rfl⟩ := Prod.mk.inj (Option.some.inj h)
        exact unseen_removes ..
      · obtain ⟨-, rfl⟩ := Prod.mk.inj (Option.some.inj h)
        rfl
    rw [hleaves]
    refine ⟨fun path hpath => ?_, hrest⟩
    rcases List.mem_cons.mp hpath with rfl | hpath
    · exact .inr rfl
    · exact .inl hpath
  | removing openNow other sha rest =>
    exact hstays (unseen_goesOn (fun _ => unseen_removes ..) hunseen (Option.some.inj h))
  | requesting openNow =>
    exact hstays (unseen_goesOn (fun _ => unseen_closes ..) hunseen (Option.some.inj h))
  | closing pull older rest =>
    obtain ⟨-, rfl⟩ := Prod.mk.inj (Option.some.inj h)
    rw [unseen_closes]
    exact ⟨fun path hpath => .inl hpath, List.nil_subset _⟩
  | merging pull =>
    have hnext : ∀ _ : Unit, p.unseen (.opened pull) = [] := fun _ => rfl
    exact hstays (unseen_goesOn hnext hunseen (Option.some.inj h))
  | opened pull => cases h
  | failed e => cases h

theorem unseen_run {tr : List (Trans (Forge × Progress) Outcome)} {s : Forge × Progress}
    (hr : Run (openCall x p) (f, .naming) tr s) : p.unseen s.2 ⊆ p.removed :=
  Run.invariant (I := fun s => p.unseen s.2 ⊆ p.removed) (C := fun _ => True) (List.Subset.refl _)
    (fun _ _ _ hstep _ hunseen => (unseen_step hunseen hstep).2) hr (fun _ _ => trivial)

theorem heard_or_unseen {tr : List (Trans (Forge × Progress) Outcome)} {s : Forge × Progress}
    (hr : Run (openCall x p) (f, .naming) tr s) (htold : Told tr) {path : String}
    (hpath : path ∈ p.removed) : Heard tr (.path path) ∨ path ∈ p.unseen s.2 := by
  induction hr with
  | nil => exact .inr hpath
  | @snoc tr s s' o hr hstep ih =>
    have hlast : (⟨s, o, s'⟩ : Trans (Forge × Progress) Outcome) ∈ tr ++ [⟨s, o, s'⟩] := by simp
    rw [heard_snoc]
    rcases ih fun t ht => htold t (List.mem_append_left _ ht) with hheard | hunseen
    · exact .inl (.inl hheard)
    · rcases (unseen_step (unseen_run hr) hstep).1 path hunseen with hunseen | hquestion
      · exact .inr hunseen
      · exact .inl (.inr ⟨hquestion, htold _ hlast ⟨path, hquestion⟩⟩)

/-! ### the merge requests of the branch -/

theorem mem_take_filter {α : Type} {keep : α → Bool} {a : α} (h : keep a) {n : Nat} {l : List α}
    (ha : a ∈ l.take n) : a ∈ (l.filter keep).take n := by
  have hprefix : (l.take n).filter keep <+: (l.filter keep).take n := by
    rw [List.prefix_take_iff]
    refine ⟨(List.take_prefix n l).filter keep, ?_⟩
    have hlength := List.length_filter_le keep (l.take n)
    rw [List.length_take] at hlength
    omega
  exact hprefix.subset (List.mem_filter.mpr ⟨ha, h⟩)

theorem answered_of_opened {number : Nat} {merged : Bool} {pull : Pull}
    (h : (pull.answered number merged).state = .opened) : pull.answered number merged = pull := by
  unfold Pull.answered at h ⊢
  split
  · rename_i hanswered
    rw [if_pos hanswered] at h
    cases h
  · rfl

theorem opened_answerPull (number : Nat) (merged : Bool) :
    (answerPull g number merged).filter (fun pull => pull.state = .opened)
      = (g.pulls.filter (fun pull => pull.state = .opened)).filter
          (fun pull => (pull.answered number merged).state = .opened) := by
  unfold answerPull
  rw [List.filter_map, List.filter_filter]
  have hsame : ∀ pull ∈ g.pulls.filter
      (fun pull => (pull.answered number merged).state = .opened),
      pull.answered number merged = pull := by
    intro pull hpull
    exact answered_of_opened (by simpa using (List.mem_filter.mp hpull).2)
  rw [show ((fun pull : Pull => decide (pull.state = .opened)) ∘ Pull.answered number merged)
    = fun pull => decide ((pull.answered number merged).state = .opened) from rfl,
    List.map_congr_left hsame, List.map_id']
  refine List.filter_congr fun pull _ => ?_
  by_cases hopened : (pull.answered number merged).state = .opened
  · have hpull : pull.state = .opened := by rw [← answered_of_opened hopened]; exact hopened
    simp [hopened, hpull]
  · simp [hopened]

theorem OwnBranch.of_pulls (h : OwnBranch x p g) (hpulls : g'.pulls = g.pulls) : OwnBranch x p g' where
  own := hpulls ▸ h.own
  listed := by
    rw [listPullRequests, hpulls]
    exact h.listed

theorem OwnBranch.of_answered (h : OwnBranch x p g) {number : Nat} {merged : Bool}
    (hpulls : g'.pulls = answerPull g number merged) : OwnBranch x p g' := by
  have hwas : ∀ pull ∈ g'.pulls, pull.state = .opened →
      pull ∈ g.pulls ∧ pull.answered number merged = pull := by
    intro pull hpull hopened
    rw [hpulls] at hpull
    obtain ⟨was, hwas, rfl⟩ := List.mem_map.mp hpull
    have hsame := answered_of_opened hopened
    rw [hsame]
    exact ⟨hwas, hsame⟩
  refine ⟨fun pull hpull hbranch hopened => ?_, fun pull hpull hholds => ?_⟩
  · exact h.own pull (hwas pull hpull hopened).1 hbranch hopened
  · have hopened : pull.state = .opened := by
      simp only [Pull.holds, Bool.and_eq_true, decide_eq_true_eq] at hholds
      exact hholds.1.1.2
    obtain ⟨hpull, hsame⟩ := hwas pull hpull hopened
    have hlisted := h.listed pull hpull hholds
    simp only [listPullRequests, Option.all_some] at hlisted ⊢
    rw [hpulls, opened_answerPull]
    refine mem_take_filter ?_ hlisted
    rw [hsame, hopened]
    rfl

theorem OwnBranch.of_new (h : OwnBranch x p g) (hnone : g.pulls.any (Pull.holds p.branch x.defaultBranch) = false)
    (hpulls : g'.pulls = newPull x g p.branch :: g.pulls) : OwnBranch x p g' := by
  refine ⟨fun pull hpull hbranch hopened => ?_, fun pull hpull hholds => ?_⟩
  · rw [hpulls] at hpull
    rcases List.mem_cons.mp hpull with rfl | hpull
    · exact ⟨rfl, rfl⟩
    · exact h.own pull hpull hbranch hopened
  · rw [hpulls] at hpull
    rcases List.mem_cons.mp hpull with rfl | hpull
    · rw [listPullRequests, hpulls]
      simp [newPull]
    · exact absurd hholds (by simpa using List.any_eq_false.mp hnone pull hpull)

theorem none_of_creates {openNow : List Pull}
    (h : openStep x p g (.requesting openNow) o = some (g', progress'))
    (hpulls : g'.pulls = newPull x g p.branch :: g.pulls) :
    g.pulls.any (Pull.holds p.branch x.defaultBranch) = false := by
  rcases createPullRequest_cases x g p.branch with ⟨e, hdone⟩ | ⟨hnone, -, -⟩
  · have hsame : g' = g := by
      rcases goesOn_cases (Option.some.inj h) with ⟨e', -, hg⟩ | ⟨v, hok, -, -⟩
      · rw [hdone] at hg
        exact hg.elim id id
      · rw [hdone] at hok
        cases hok
    rw [hsame] at hpulls
    exact absurd (congrArg List.length hpulls) (by simp)
  · exact hnone

theorem ownBranch_step (h : OwnBranch x p g) (hstep : openStep x p g progress o = some (g', progress')) :
    OwnBranch x p g' := by
  have hasks := asks_of_openStep hstep
  cases hasks with
  | stays _ _ hpulls => exact h.of_pulls hpulls
  | takes _ hpulls => exact h.of_pulls hpulls
  | creates hpulls => exact h.of_new (none_of_creates hstep hpulls) hpulls
  | forgets hpulls => exact h.of_new (none_of_creates hstep hpulls) hpulls
  | closes hpulls =>
    rcases hpulls with hpulls | hpulls
    · exact h.of_pulls hpulls
    · exact h.of_answered hpulls
  | @merges pull =>
    rcases pulls_mergePull x g pull.number with hpulls | hpulls
    · exact h.of_pulls hpulls
    · exact h.of_answered hpulls
  | @fails pull _ _ _ hf =>
    rcases hf with rfl | rfl
    · exact h
    · rcases pulls_mergePull x g pull.number with hpulls | hpulls
      · exact h.of_pulls hpulls
      · exact h.of_answered hpulls

theorem ownBranch_run {tr : List (Trans (Forge × Progress) Outcome)} {s s' : Forge × Progress}
    (h : OwnBranch x p s.1) (hr : Run (openCall x p) s tr s') : OwnBranch x p s'.1 :=
  Run.invariant (I := fun s => OwnBranch x p s.1) (C := fun _ => True) h
    (fun _ _ _ hstep _ hown => ownBranch_step hown hstep) hr (fun _ _ => trivial)

/-! ### a clean branch -/

theorem mem_of_foundPull {pull : Pull} (h : foundPull p f = some pull) :
    pull ∈ f.pulls ∧ pull.headBranch = p.branch ∧ pull.state = .opened := by
  have hlisted := List.mem_filter.mp (List.mem_of_mem_take (List.mem_of_find?_eq_some h))
  refine ⟨hlisted.1, ?_, ?_⟩
  · simpa using List.find?_some h
  · simpa using hlisted.2

theorem foreignBranch_of_own (h : OwnBranch x p f) : foreignBranch p f = none := by
  rw [foreignBranch, Option.bind_eq_none_iff]
  intro pull hfind
  obtain ⟨hpull, hbranch, hopened⟩ := mem_of_foundPull hfind
  exact (h.own pull hpull hbranch hopened).1

theorem intoDefault_of_own (h : OwnBranch x p f) : IntoDefault x p f := by
  intro pull hfind
  obtain ⟨hpull, hbranch, hopened⟩ := mem_of_foundPull hfind
  exact (h.own pull hpull hbranch hopened).2

theorem CleanAt.of_told {b : Branch} {now : Tree} {path : String}
    (hheard : path ∈ p.removed → heard (.path path)) (h : CleanAt x p b now (fun _ => True) path) :
    CleanAt x p b now heard path := by
  unfold CleanAt at h ⊢
  by_cases hremoved : path ∈ p.removed
  · rw [if_pos hremoved] at h ⊢
    exact ⟨fun _ => h.1 (.inl trivial), fun hnot => absurd (.inl (hheard hremoved)) hnot⟩
  · rw [if_neg hremoved] at h ⊢
    exact h

theorem brings_of_clean (hclean : Clean x p f)
    (hheard : ∀ path ∈ p.removed, heard (.path path)) : Brings x p f heard := by
  have hforeign := foreignBranch_of_own hclean.pulls
  refine ⟨fun _ => intoDefault_of_own hclean.pulls,
    fun _ path => (hclean.branch path).of_told (hheard path), fun _ b hb => ?_⟩
  rw [hforeign] at hb
  cases hb

theorem brings_of_told {tr : List (Trans (Forge × Progress) Outcome)} {s : Forge × Progress}
    (hclean : Clean x p f) (hr : Run (openCall x p) (f, .naming) tr s) (htold : Told tr)
    (hunseen : p.unseen s.2 = []) :
    Brings x p f (Heard tr) := by
  refine brings_of_clean hclean fun path hpath => ?_
  refine (heard_or_unseen hr htold hpath).resolve_right fun hin => ?_
  rw [hunseen] at hin
  exact absurd hin List.not_mem_nil

theorem CleanAt.of_touched {head : Tree} {now : Tree} {path : String}
    (htouched : Touched x p f path (head.get? path))
    (h : CleanAt x p (foundBranch p f) now (fun _ => True) path) :
    CleanAt x p ⟨(foundBranch p f).base, head⟩ now (fun _ => True) path := by
  unfold CleanAt at h ⊢
  by_cases hremoved : path ∈ p.removed
  · rw [if_pos hremoved] at h ⊢
    exact ⟨fun _ => h.1 (.inl trivial), fun hnot => absurd (.inl trivial) hnot⟩
  · rw [if_neg hremoved] at h ⊢
    have hhead : head.get? path = (foundBranch p f).head.get? path ∨
        head.get? path = filed x p (foundBranch p f).head path :=
      htouched.imp_right fun h => h.resolve_right fun hpath => hremoved hpath.1
    cases hfile : p.files.get? path with
    | none =>
      rw [filed_of_none hfile, or_self] at hhead
      rw [hfile] at h
      simp only [hhead]
      exact h
    | some content =>
      rw [hfile] at h
      simp only at h ⊢
      rw [filed_eq hfile] at hhead
      by_cases hformatted : KeptFormatted x path content ((foundBranch p f).head.get? path)
      · rw [if_pos hformatted, or_self] at hhead
        rw [hhead]
        exact h
      · rw [if_neg hformatted] at h hhead
        have hnot : ¬ KeptFormatted x path content (head.get? path) := by
          rcases hhead with hhead | hhead
          · rwa [hhead]
          · exact fun hkept => hkept.1 hhead
        rw [if_neg hnot]
        exact h

theorem cleanAt_of_planned {head now : Tree} {path : String} {was : Tree}
    (hnow : now.get? path = planned x p was path) :
    CleanAt x p ⟨head, head⟩ now (fun _ => True) path := by
  unfold planned at hnow
  unfold CleanAt
  by_cases hremoved : path ∈ p.removed
  · rw [if_pos hremoved] at hnow ⊢
    exact ⟨fun _ => .inr hnow, fun hnot => absurd (.inl trivial) hnot⟩
  · rw [if_neg hremoved] at hnow ⊢
    cases hfile : p.files.get? path with
    | none => exact .inr rfl
    | some content =>
      rw [hfile] at hnow
      by_cases hformatted : KeptFormatted x path content (head.get? path)
      · exact (if_pos hformatted).mpr ⟨rfl, hnow⟩
      · exact (if_neg hformatted).mpr (.inr hnow)

theorem planned_planned {now was : Tree} (hnow : ∀ path, now.get? path = planned x p was path)
    (path : String) : planned x p now path = planned x p was path := by
  rw [planned, hnow path, planned]
  split
  · rfl
  · split <;> rfl

theorem planned_congr {now was : Tree} (h : now = was) (path : String) :
    planned x p now path = planned x p was path := by
  rw [h]

theorem branch_mergePull {pull : Pull} (hidentified : Identified g pull) (hfork : pull.fork = none)
    (hbranch : pull.headBranch = p.branch) (hbase : pull.baseBranch = x.defaultBranch) {b : Branch}
    (hb : g.branches p.branch = some b) (hmerge : mergePull x g pull.number = (g', .ok ())) :
    g'.branches p.branch = some ⟨b.head, b.head⟩ := by
  have hcontent : pull.content g = some b := by
    rw [Pull.content, hfork, hbranch, hb]
    rfl
  have hdone := mergeDefault_of_ok hidentified hbase hcontent hmerge
  unfold mergeDefault at hdone
  split at hdone
  · cases hdone
  · obtain ⟨rfl, -⟩ := Prod.mk.inj hdone
    simp only [hfork, hbranch, Option.isNone_none, if_true, Function.update_self]

/-- **A call that fails leaves the branch clean, and the plan the same.** -/
theorem clean_of_fails (hclean : Clean x p f) (h : Fails x p f g) :
    Clean x p g ∧ ∀ path, planned x p g.files path = planned x p f.files path := by
  obtain ⟨tr, e, hr, htruth, htold⟩ := h
  have hnumbered : Numbered g := (knows_run hclean.numbered hr).1
  have hown : OwnBranch x p g := ownBranch_run (s := (f, .naming)) hclean.pulls hr
  obtain ⟨hremovable, hshape | ⟨tr', g₀, pull, hr', hsub, hheard, hshape, hmerge, -⟩⟩ :=
    shape_cases hr htruth
  · rcases hshape with ⟨hfiles, hbranch, hwas⟩ | ⟨hfiles, head, hbranch, htouched⟩
    · refine ⟨⟨hnumbered, fun path => ?_, hown⟩, planned_congr hfiles⟩
      rw [foundBranch_of_none hbranch, hfiles, ← foundBranch_of_none hwas]
      exact hclean.branch path
    · refine ⟨⟨hnumbered, fun path => ?_, hown⟩, planned_congr hfiles⟩
      rw [foundBranch_of_some hbranch, hfiles]
      exact (hclean.branch path).of_touched (htouched path)
  · -- it was merged, and the answer lost
    have hbrings : Brings x p f (Heard tr') :=
      brings_of_told hclean hr' (fun t ht => htold t (hsub ht)) rfl
    rw [hheard] at hremovable hshape
    obtain ⟨-, htakes, hholds⟩ := hshape
    have hidentified : Identified g₀ pull := (knows_run hclean.numbered hr').2.2 pull rfl
    have hcarries := (carries_of_holds hremovable htakes hholds).mpr hbrings
    have hplanned := merged_of_carries hidentified hcarries hmerge
    have hfork : pull.fork = none := by
      by_cases hpulls : Heard tr' .pulls
      · rw [htakes.fork hpulls]
        exact foreignBranch_of_own hclean.pulls
      · exact htakes.own hpulls
    obtain ⟨-, head, hbranch, -⟩ := hholds
    have hafter := branch_mergePull hidentified hfork htakes.headBranch hcarries.1 hbranch hmerge
    refine ⟨⟨hnumbered, fun path => ?_, hown⟩, planned_planned hplanned⟩
    rw [foundBranch_of_some hafter]
    exact cleanAt_of_planned (hplanned path)

end

/-! ## calls with every answer -/

/-- a call goes from one state to another, and every call of the forge is answered -/
def Reaches (x : Outside) (p : Proposal) (s s' : Forge × Progress) : Prop :=
  ∃ tr, Run (openCall x p) s tr s' ∧ ∀ t ∈ tr, t.act = .answered

section
variable {x : Outside} {p : Proposal} {f g g' : Forge} {s s' s'' : Forge × Progress}

theorem Reaches.refl (s : Forge × Progress) : Reaches x p s s :=
  ⟨[], .nil, fun _ ht => absurd ht List.not_mem_nil⟩

theorem Reaches.step (h : Reaches x p s s') (hstep : openStep x p s'.1 s'.2 .answered = some s'') :
    Reaches x p s s'' := by
  obtain ⟨tr, hr, hanswered⟩ := h
  refine ⟨_, hr.snoc hstep, fun t ht => ?_⟩
  rcases List.mem_append.mp ht with ht | ht
  · exact hanswered t ht
  · rw [List.mem_singleton.mp ht]

theorem Reaches.trans (h : Reaches x p s s') (h' : Reaches x p s' s'') : Reaches x p s s'' := by
  obtain ⟨tr, hr, hanswered⟩ := h
  obtain ⟨tr', hr', hanswered'⟩ := h'
  refine ⟨_, hr.append hr', fun t ht => ?_⟩
  rcases List.mem_append.mp ht with ht | ht
  · exact hanswered t ht
  · exact hanswered' t ht

/-- the branch is there, and no merge request has changed -/
structure Waits (p : Proposal) (f g : Forge) : Prop where
  branch : ∃ b, g.branches p.branch = some b
  pulls : g.pulls = f.pulls
  next : g.next = f.next

theorem Waits.change (h : Waits p f g) (path : String) (text : Option String) :
    (change g path p.branch (getFile g path p.branch) text).2 = .ok () ∧
      Waits p f (change g path p.branch (getFile g path p.branch) text).1 := by
  obtain ⟨b, hbranch⟩ := h.branch
  have hread : getFile g path p.branch = b.head.get? path := by rw [getFile, hbranch]; rfl
  have hdone : Sync.change g path p.branch (b.head.get? path) text =
      (withBranch g p.branch { b with head := b.head.alter path (fun _ => text) }, .ok ()) := by
    unfold Sync.change
    rw [hbranch]
    exact if_pos rfl
  rw [hread, hdone]
  exact ⟨rfl, ⟨_, withBranch_self ..⟩, h.pulls, h.next⟩

theorem reaches_writes (openNow : List Pull) (files : List (String × String)) :
    ∀ g, Waits p f g → ∃ g', Waits p f g' ∧
      Reaches x p (g, p.writes openNow files) (g', p.removes openNow p.removed) := by
  induction files with
  | nil => exact fun g hg => ⟨g, hg, .refl _⟩
  | cons file rest ih =>
    obtain ⟨path, content⟩ := file
    intro g hg
    by_cases hkept : (getFile g path p.branch).any (isWritten x path content)
    · obtain ⟨g', hg', hrest⟩ := ih g hg
      refine ⟨g', hg', Reaches.trans (Reaches.step (.refl _) ?_) hrest⟩
      exact if_pos hkept
    · obtain ⟨hok, hchange⟩ := hg.change path (some (committedText x path content))
      obtain ⟨g', hg', hrest⟩ := ih _ hchange
      have hread : openStep x p g (.reading openNow path content rest) .answered =
          some (g, .writing openNow path content (getFile g path p.branch) rest) := if_neg hkept
      refine ⟨g', hg', Reaches.trans (((Reaches.refl _).step hread).step ?_) hrest⟩
      simp only [openStep, putFile, call]
      rw [← Prod.eta (change g path p.branch (getFile g path p.branch) _), hok]
      rfl

theorem reaches_removes (openNow : List Pull) (removed : List String) :
    ∀ g, Waits p f g → ∃ g', Waits p f g' ∧
      Reaches x p (g, p.removes openNow removed) (g', p.requests openNow) := by
  induction removed with
  | nil => exact fun g hg => ⟨g, hg, .refl _⟩
  | cons path rest ih =>
    intro g hg
    cases hread : getFile g path p.branch with
    | none =>
      obtain ⟨g', hg', hrest⟩ := ih g hg
      refine ⟨g', hg', Reaches.trans (Reaches.step (.refl _) ?_) hrest⟩
      simp [openStep, Proposal.removes, Outcome.reads, hread]
    | some sha =>
      obtain ⟨hok, hchange⟩ := hg.change path none
      rw [hread] at hok hchange
      obtain ⟨g', hg', hrest⟩ := ih _ hchange
      have hlook : openStep x p g (.looking openNow path rest) .answered =
          some (g, .removing openNow path sha rest) := by
        simp [openStep, Outcome.reads, hread]
      refine ⟨g', hg', Reaches.trans (((Reaches.refl _).step hlook).step ?_) hrest⟩
      simp only [openStep, deleteFile, call]
      rw [← Prod.eta (change g path p.branch (some sha) none), hok]
      rfl

theorem live_of_listed {openNow : List Pull} (hlisted : openNow = listPullRequests g (some .opened))
    {pull : Pull} (hpull : pull ∈ openNow) : pull ∈ g.pulls ∧ pull.state = .opened := by
  rw [hlisted] at hpull
  have hmem := List.mem_filter.mp (List.mem_of_mem_take hpull)
  exact ⟨hmem.1, by simpa using hmem.2⟩

theorem reaches_requests (hnumbered : Numbered g) (hown : OwnBranch x p g)
    (hbranch : ∃ b, g.branches p.branch = some b) {openNow : List Pull}
    (hlisted : openNow = listPullRequests g (some .opened)) :
    ∃ g' pull, Reaches x p (g, p.requests openNow) (g', p.supersedes openNow pull) ∧
      Live g' pull.number ∧
      ∀ older ∈ openNow, older.headBranch ≠ p.branch → older.number ≠ pull.number := by
  cases hfind : openNow.find? (fun pull => pull.headBranch = p.branch) with
  | some pull =>
    have hname : pull.headBranch = p.branch := by simpa using List.find?_some hfind
    obtain ⟨hpull, hopened⟩ := live_of_listed hlisted (List.mem_of_find?_eq_some hfind)
    refine ⟨g, pull, ?_, ⟨pull, hpull, rfl, hopened⟩, fun older holder hne hnumber => hne ?_⟩
    · rw [Proposal.requests, hfind]
      exact .refl _
    · rw [hnumbered.eq (live_of_listed hlisted holder).1 hpull hnumber]
      exact hname
  | none =>
    -- the branch has no open merge request at all
    have hnone : ¬ g.pulls.any (Pull.holds p.branch x.defaultBranch) := by
      rw [List.any_eq_true]
      rintro ⟨pull, hpull, hholds⟩
      have hpage := hown.listed pull hpull hholds
      rw [← hlisted] at hpage
      have hne := List.find?_eq_none.mp hfind pull hpage
      simp only [Pull.holds, Bool.and_eq_true, decide_eq_true_eq] at hholds
      exact hne (by simpa using hholds.1.1.1)
    obtain ⟨b, hb⟩ := hbranch
    have hcreate : openStep x p g (.requesting openNow) .answered =
        some ({ g with pulls := newPull x g p.branch :: g.pulls, next := g.next + 1 },
          p.supersedes openNow (newPull x g p.branch)) := by
      simp only [openStep, call, createPullRequest, if_neg hnone, hb, goesOn]
      rfl
    refine ⟨{ g with pulls := newPull x g p.branch :: g.pulls, next := g.next + 1 },
      newPull x g p.branch, ?_, ?_, ?_⟩
    · rw [Proposal.requests, hfind]
      exact (Reaches.refl _).step hcreate
    · exact ⟨_, List.mem_cons_self, rfl, rfl⟩
    · intro older holder _ hnumber
      have hlt := hnumbered.lt older (live_of_listed hlisted holder).1
      rw [hnumber] at hlt
      exact lt_irrefl _ hlt

theorem reaches_closes {pull : Pull} (older : List Pull)
    (hothers : ∀ o ∈ older, o.number ≠ pull.number) :
    ∀ g, Live g pull.number → ∃ g', Live g' pull.number ∧
      Reaches x p (g, p.closes pull older) (g', p.settles pull) := by
  induction older with
  | nil => exact fun g hlive => ⟨g, hlive, .refl _⟩
  | cons o rest ih =>
    rintro g ⟨q, hq, hnumber, hopened⟩
    have hstays : q.answered o.number false = q := by
      rw [Pull.answered, if_neg]
      rintro ⟨hsame, -⟩
      exact hothers o List.mem_cons_self (hsame.symm.trans hnumber)
    have hlive : Live (closePullRequest g o.number).1 pull.number :=
      ⟨q, List.mem_map.mpr ⟨q, hq, hstays⟩, hnumber, hopened⟩
    obtain ⟨g', hlive', hrest⟩ := ih (fun o' ho' => hothers o' (List.mem_cons_of_mem _ ho')) _ hlive
    exact ⟨g', hlive', Reaches.trans ((Reaches.refl _).step rfl) hrest⟩

theorem merge_answers {plan : String → Option String} {pull : Pull} (hidentified : Identified g pull)
    (hcarries : Carries x plan g pull) (hlive : Live g pull.number) :
    ∃ g', mergePull x g pull.number = (g', .ok ()) := by
  obtain ⟨hbase, b, hcontent, hsettled⟩ := hcarries
  have hmerges : ∀ path,
      (x.merge.merge (b.base.get? path) (b.head.get? path) (g.files.get? path)).isSome := by
    intro path
    rw [hsettled path x.merge, Option.isSome_some]
  obtain ⟨files, htrees⟩ := exists_mergeTrees hmerges
  rcases mergePull_of_identified hidentified hbase hcontent with ⟨hshut, -⟩ | hdone
  · exact absurd hlive hshut
  · rw [hdone, mergeDefault, htrees]
    exact ⟨_, rfl⟩

/-- **A call with every answer opens the merge request,** and merges it where it may. -/
theorem opens (hclean : Clean x p f) :
    ∃ g pull, Reaches x p (f, .naming) (g, .opened pull) := by
  have hcreate : Waits p f (createBranch f p.branch).1 := by
    have hpulls := pulls_createBranch (f := f) p.branch
    obtain ⟨-, head, hbranch, -⟩ := holds_createBranch (p := p) (f := f)
    exact ⟨⟨_, hbranch⟩, hpulls.1, hpulls.2.1⟩
  have hbranching : openStep x p f .branching .answered =
      some ((createBranch f p.branch).1, .listing) := by
    simp only [openStep, call]
    unfold createBranch
    cases f.branches p.branch <;> rfl
  have hnaming : openStep x p f .naming .answered = some (f, .branching) := rfl
  obtain ⟨g₁, hg₁, hwrites⟩ := reaches_writes (x := x)
    (listPullRequests (createBranch f p.branch).1 (some .opened)) p.files.toList _ hcreate
  obtain ⟨g₂, hg₂, hremoves⟩ := reaches_removes (x := x)
    (listPullRequests (createBranch f p.branch).1 (some .opened)) p.removed _ hg₁
  have hlist : listPullRequests (createBranch f p.branch).1 (some .opened)
      = listPullRequests g₂ (some .opened) := by
    rw [listPullRequests, hcreate.pulls, listPullRequests, hg₂.pulls]
  obtain ⟨g₃, pull, hrequests, hlive, hothers⟩ := reaches_requests (x := x)
    ((Grows.of_pulls hg₂.pulls hg₂.next).numbered hclean.numbered) (hclean.pulls.of_pulls hg₂.pulls)
    hg₂.branch hlist
  have holder : ∀ o ∈ (p.line.map fun line => superseded
      (listPullRequests (createBranch f p.branch).1 (some .opened)) line p.branch).getD [],
      o.number ≠ pull.number := by
    intro o ho
    cases hline : p.line with
    | none =>
      rw [hline] at ho
      cases ho
    | some line =>
      rw [hline] at ho
      obtain ⟨hlisted, hbranch⟩ := List.mem_filter.mp ho
      simp only [Bool.and_eq_true, decide_eq_true_eq] at hbranch
      exact hothers o hlisted hbranch.1
  obtain ⟨g, hlive, hcloses⟩ := reaches_closes (x := x) _ holder _ hlive
  have hsettles : Reaches x p (f, .naming) (g, p.settles pull) := by
    refine Reaches.trans ?_ (hwrites.trans (hremoves.trans (hrequests.trans hcloses)))
    exact (((Reaches.refl _).step hnaming).step hbranching).step rfl
  by_cases hauto : p.autoMerge
  · obtain ⟨tr, hr, hanswered⟩ := hsettles
    have htruth : ∀ t ∈ tr, Truthful p t := fun t ht _ text hrefused => by
      rw [hanswered t ht] at hrefused
      cases hrefused
    have hunseen : p.unseen (p.settles pull) = [] := unseen_closes pull []
    have hcarries := (carries_iff hr htruth).mpr
      (brings_of_told hclean hr (fun t ht _ => hanswered t ht) hunseen)
    have hidentified : Identified g pull :=
      (knows_run hclean.numbered hr).2.2 pull (pull?_settles pull)
    obtain ⟨g', hmerge⟩ := merge_answers (x := x) hidentified hcarries hlive
    refine ⟨g', pull, Reaches.step ⟨tr, hr, hanswered⟩ ?_⟩
    rw [Proposal.settles, if_pos hauto]
    simp only [openStep, call, hmerge]
    rfl
  · rw [Proposal.settles, if_neg hauto] at hsettles
    exact ⟨g, pull, hsettles⟩

end

/-! ## the proposal carries its plan -/

/-- **A proposal's merge request carries the plan, where the branch it finds brings nothing else.**  One
call's carries it there and only there, and one that merges itself leaves the default branch with the
plan.  From a clean branch, after whatever calls failed, the next carries the plan of the first, and with
every answer it opens. -/
theorem proposal_carries_plan (x : Outside) (p : Proposal) (f : Forge) (hnumbered : Numbered f) :
    (∀ tr g pull, Run (openCall x p) (f, .naming) tr (g, p.settles pull) →
      (∀ t ∈ tr, Truthful p t) →
      (Carries x (planned x p f.files) g pull ↔ Brings x p f (Heard tr))) ∧
    (∀ tr g pull, Run (openCall x p) (f, .naming) tr (g, .opened pull) →
      (∀ t ∈ tr, Truthful p t) → p.autoMerge → Brings x p f (Heard tr) →
      ∀ path, g.files.get? path = planned x p f.files path) ∧
    (Clean x p f → ∀ f', Relation.ReflTransGen (Fails x p) f f' →
      (∀ tr g pull, Run (openCall x p) (f', .naming) tr (g, p.settles pull) →
        (∀ t ∈ tr, Truthful p t) → Told tr → Carries x (planned x p f.files) g pull) ∧
      (∀ tr g pull, Run (openCall x p) (f', .naming) tr (g, .opened pull) →
        (∀ t ∈ tr, Truthful p t) → Told tr → p.autoMerge →
        ∀ path, g.files.get? path = planned x p f.files path) ∧
      ∃ g pull, Reaches x p (f', .naming) (g, .opened pull)) := by
  refine ⟨fun tr g pull hr htruth => carries_iff hr htruth,
    fun tr g pull hr htruth hauto hbrings => merged_of_brings hnumbered hr htruth hauto hbrings,
    fun hclean f' hfails => ?_⟩
  have hagain : Clean x p f' ∧ ∀ path, planned x p f'.files path = planned x p f.files path := by
    induction hfails with
    | refl => exact ⟨hclean, fun _ => rfl⟩
    | tail _ hfail ih =>
      obtain ⟨hclean', hsame⟩ := ih
      obtain ⟨hnext, hplan⟩ := clean_of_fails hclean' hfail
      exact ⟨hnext, fun path => (hplan path).trans (hsame path)⟩
  obtain ⟨hclean', hsame⟩ := hagain
  have hplan : planned x p f'.files = planned x p f.files := funext hsame
  refine ⟨fun tr g pull hr htruth htold => ?_, fun tr g pull hr htruth htold hauto => ?_, opens hclean'⟩
  · rw [← hplan]
    have hunseen : p.unseen (p.settles pull) = [] := unseen_closes pull []
    exact (carries_iff hr htruth).mpr (brings_of_told hclean' hr htold hunseen)
  · rw [← hplan]
    exact merged_of_brings hclean'.numbered hr htruth hauto (brings_of_told hclean' hr htold rfl)

/-! ### a revision of the source `regional`, proposed -/

/-- a proposal that writes a file, removes one, and merges itself -/
def revisionNine : Proposal where
  branch := "chg-sync-regional-9f1c0de"
  files := OrdMap.ofList [("projects/bb/spaces/regional/space.yaml", "revision: 9f1c0de")]
  removed := ["projects/bb/spaces/regional/dashboards/old.yaml"]
  autoMerge := true
  line := none

def unproposed : Forge where
  files := OrdMap.ofList [("projects/bb/spaces/regional/space.yaml", "revision: b5d2e91"),
    ("projects/bb/spaces/regional/dashboards/old.yaml", "old: true")]
  branches _ := none
  pulls := []
  next := 1

def pushedTo : Forge :=
  { unproposed with
    branches := fun name =>
      if name = "chg-sync-regional-9f1c0de" then
        some ⟨unproposed.files, unproposed.files.insert "projects/bb/roles/owners.yaml" "mallory"⟩
      else none }

theorem numbered_of_none {f : Forge} (h : f.pulls = []) : Numbered f := by
  refine ⟨?_, fun pull hpull => ?_⟩
  · rw [h]
    exact List.nodup_nil
  · rw [h] at hpull
    cases hpull

theorem clean_unproposed : Clean plainly revisionNine unproposed where
  numbered := numbered_of_none rfl
  branch path := by
    rw [foundBranch_of_none rfl]
    unfold CleanAt
    split
    · exact ⟨fun _ => .inl rfl, fun hnot => absurd (.inl trivial) hnot⟩
    · split
      · exact .inl rfl
      · -- no text is kept formatted
        rename_i content _
        have hnot : ∀ text, ¬ KeptFormatted plainly path content text := by
          rintro (_ | held) ⟨hne, hkept⟩
          · cases hkept
          · have hheld : held = committedText plainly path content := by
              simpa [isWritten, plainly] using hkept
            exact hne (congrArg some hheld)
        rw [if_neg (hnot _)]
        exact .inl rfl
  pulls := ⟨fun _ hpull => absurd hpull List.not_mem_nil, fun _ hpull => absurd hpull List.not_mem_nil⟩

/-- every call of the forge is answered, or is refused with a failure and asks nothing -/
def Plainly (tr : List (Trans (Forge × Progress) Outcome)) : Prop :=
  ∀ t ∈ tr, t.act = .answered ∨ t.act = .refused (.api 500 "") ∧ t.before.2.question.isNone

instance (tr : List (Trans (Forge × Progress) Outcome)) : Decidable (Plainly tr) :=
  inferInstanceAs (Decidable (∀ t ∈ tr, _))

theorem Plainly.truthful {p : Proposal} {tr : List (Trans (Forge × Progress) Outcome)}
    (h : Plainly tr) : ∀ t ∈ tr, Truthful p t := by
  intro t ht _ text hrefused
  rcases h t ht with hact | ⟨hact, -⟩
  · rw [hact] at hrefused
    cases hrefused
  · rw [hact] at hrefused
    cases hrefused

theorem Plainly.told {tr : List (Trans (Forge × Progress) Outcome)} (h : Plainly tr) : Told tr := by
  rintro t ht ⟨path, hpath⟩
  rcases h t ht with hact | ⟨-, hquestion⟩
  · exact hact
  · rw [hpath] at hquestion
    cases hquestion

def Progress.failure : Progress → Option GitError
  | .failed e => some e
  | _ => none

def Progress.isOpened : Progress → Bool
  | .opened _ => true
  | _ => false

theorem eq_failed {progress : Progress} {e : GitError} (h : progress.failure = some e) :
    progress = .failed e := by
  cases progress with
  | failed e' => rw [Option.some.inj h]
  | _ => cases h

theorem eq_opened {progress : Progress} (h : progress.isOpened) : ∃ pull, progress = .opened pull := by
  cases progress with
  | opened pull => exact ⟨pull, rfl⟩
  | _ => cases h

/-- the file is written, and the removal refused -/
def cutShort : List Outcome := List.replicate 6 .answered ++ [.refused (.api 500 "")]

def halfProposed : Forge := (final (openCall plainly revisionNine) (unproposed, .naming) cutShort).1

def proposedAgain : Forge :=
  (final (openCall plainly revisionNine) (halfProposed, .naming) (List.replicate 8 .answered)).1

/-- the plan is merged, a call having failed before -/
theorem proposal_carries_plan_again :
    proposedAgain.files.get? = planned plainly revisionNine unproposed.files := by
  funext path
  have hfirst : (exec (openCall plainly revisionNine) (unproposed, .naming) cutShort).isSome ∧
      (final (openCall plainly revisionNine) (unproposed, .naming) cutShort).2.failure
        = some (.api 500 "") ∧
      Plainly (trace (openCall plainly revisionNine) (unproposed, .naming) cutShort) := by
    decide +kernel
  have hnext : (exec (openCall plainly revisionNine) (halfProposed, .naming)
        (List.replicate 8 .answered)).isSome ∧
      (final (openCall plainly revisionNine) (halfProposed, .naming)
        (List.replicate 8 .answered)).2.isOpened ∧
      Plainly (trace (openCall plainly revisionNine) (halfProposed, .naming)
        (List.replicate 8 .answered)) := by
    decide +kernel
  obtain ⟨hsome, hfailure, hacts⟩ := hfirst
  obtain ⟨hsome', hopened, hacts'⟩ := hnext
  have hfails : Fails plainly revisionNine unproposed halfProposed := by
    refine ⟨_, .api 500 "", ?_, hacts.truthful, hacts.told⟩
    exact run_trace_of_snd hsome (eq_failed hfailure)
  obtain ⟨pull, hpull⟩ := eq_opened hopened
  have hruns : Run (openCall plainly revisionNine) (halfProposed, .naming)
      (trace (openCall plainly revisionNine) (halfProposed, .naming) (List.replicate 8 .answered))
      (proposedAgain, .opened pull) := run_trace_of_snd hsome' hpull
  have hcarries := (proposal_carries_plan plainly revisionNine unproposed (numbered_of_none rfl)).2.2
    clean_unproposed halfProposed (.single hfails)
  exact hcarries.2.1 _ _ pull hruns hacts'.truthful hacts'.told rfl path

/-- **A proposal merges what somebody else pushed to its branch.** -/
theorem other_change_carried :
    ¬ ∀ (x : Outside) (p : Proposal) (f : Forge), Numbered f →
      ∀ tr g pull, Run (openCall x p) (f, .naming) tr (g, .opened pull) →
        (∀ t ∈ tr, t.act = .answered) → p.autoMerge →
        ∀ path, g.files.get? path = planned x p f.files path := by
  intro hall
  have hruns : (exec (openCall plainly revisionNine) (pushedTo, .naming)
        (List.replicate 9 .answered)).isSome ∧
      (final (openCall plainly revisionNine) (pushedTo, .naming)
        (List.replicate 9 .answered)).2.isOpened ∧
      (∀ t ∈ trace (openCall plainly revisionNine) (pushedTo, .naming) (List.replicate 9 .answered),
        t.act = .answered) ∧
      (final (openCall plainly revisionNine) (pushedTo, .naming)
        (List.replicate 9 .answered)).1.files.get? "projects/bb/roles/owners.yaml" = some "mallory" ∧
      planned plainly revisionNine pushedTo.files "projects/bb/roles/owners.yaml" = none := by
    decide +kernel
  obtain ⟨hsome, hopened, hacts, hfile, hplan⟩ := hruns
  obtain ⟨pull, hpull⟩ := eq_opened hopened
  have hmerged := hall plainly revisionNine pushedTo (numbered_of_none rfl) _ _ pull
    (run_trace_of_snd hsome hpull) hacts rfl "projects/bb/roles/owners.yaml"
  rw [hfile, hplan] at hmerged
  cases hmerged

end Sync
end Portal
