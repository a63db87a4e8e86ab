import Portal.Changes.Request
import Portal.Sync.Forge

/-!
# One proposal on its branch (`sync/proposal.rs`: `open`, `create_or_reuse`, `superseded`)

A reconciler's proposal makes its branch or goes on with the one it finds, writes its files and removes
its paths one call at a time, takes up the open merge request of the branch or opens one, closes what it
supersedes, and merges itself where it may.

* `Proposal`, `superseded`   what is proposed, and the merge requests it replaces;
* `Progress`, `openStep`     where a call of `open` is, and one call of the forge;
* `Asks`, `asks_of_openStep`   what one call does with the merge requests.
-/

namespace Portal
namespace Sync

open Changes

structure Proposal where
  branch : String
  /-- the files to write -/
  files : OrdMap String String
  /-- the paths to remove -/
  removed : List String
  autoMerge : Bool
  /-- the branch prefix of the proposal's line -/
  line : Option String

/-- whether a branch is of a line: the line itself, or it and a digest -/
def ofLine (line head : String) : Bool :=
  head = line || ((Text.after line head).bind (Text.after "-")).any fun digest =>
    Text.utf8Len digest.toList = 8 && digest.toList.all Text.isHexDigit

/-- the open merge requests of a line on other branches -/
def superseded (openNow : List Pull) (line branch : String) : List Pull :=
  openNow.filter fun pull => pull.headBranch ≠ branch && ofLine line pull.headBranch

/-- where a call of `open` is -/
inductive Progress where
  /-- the default branch is asked for -/
  | naming
  | branching
  | listing
  /-- a file is read on the branch, before it is written -/
  | reading (openNow : List Pull) (path content : String) (rest : List (String × String))
  | writing (openNow : List Pull) (path content : String) (sha : Option String)
      (rest : List (String × String))
  /-- a path to remove is read on the branch -/
  | looking (openNow : List Pull) (path : String) (rest : List String)
  | removing (openNow : List Pull) (path sha : String) (rest : List String)
  | requesting (openNow : List Pull)
  | closing (pull older : Pull) (rest : List Pull)
  | merging (pull : Pull)
  | opened (pull : Pull)
  | failed (e : GitError)

section
variable (p : Proposal)

/-- the proposal merges itself, where it may -/
def Proposal.settles (pull : Pull) : Progress := if p.autoMerge then .merging pull else .opened pull

def Proposal.closes (pull : Pull) : List Pull → Progress
  | [] => p.settles pull
  | older :: rest => .closing pull older rest

def Proposal.supersedes (openNow : List Pull) (pull : Pull) : Progress :=
  p.closes pull ((p.line.map fun line => superseded openNow line p.branch).getD [])

/-- the open merge request of the branch is taken up, where one is listed -/
def Proposal.requests (openNow : List Pull) : Progress :=
  match openNow.find? (fun pull => pull.headBranch = p.branch) with
  | some pull => p.supersedes openNow pull
  | none => .requesting openNow

def Proposal.removes (openNow : List Pull) : List String → Progress
  | [] => p.requests openNow
  | path :: rest => .looking openNow path rest

def Proposal.writes (openNow : List Pull) : List (String × String) → Progress
  | [] => p.removes openNow p.removed
  | (path, content) :: rest => .reading openNow path content rest

end

/-- whether a file of the branch is not written again: a native file an earlier run committed formatted
counts as the same -/
def isWritten (x : Outside) (path content held : String) : Bool :=
  held = committedText x path content || x.format content = some held

/-- what a call's answer makes of the progress: a failure ends it -/
def goesOn {α : Type} (next : α → Progress) (done : Forge × Except GitError α) : Forge × Progress :=
  match done with
  | (f, .ok v) => (f, next v)
  | (f, .error e) => (f, .failed e)

def openStep (x : Outside) (p : Proposal) (f : Forge) : Progress → Outcome → Option (Forge × Progress)
  | .naming, o => some (goesOn (fun _ => .branching) (call f (f, .ok ()) o))
  | .branching, o =>
    match call f (createBranch f p.branch) o with
    | (f, .error (.conflict _)) => some (f, .listing)
    | done => some (goesOn (fun _ => .listing) done)
  | .listing, o =>
    some (f, p.writes ((o.reads (listPullRequests f (some .opened))).getD []) p.files.toList)
  | .reading openNow path content rest, o =>
    let held := (o.reads (getFile f path p.branch)).join
    if held.any (isWritten x path content) then some (f, p.writes openNow rest)
    else some (f, .writing openNow path content held rest)
  | .writing openNow path content sha rest, o =>
    some (goesOn (fun _ => p.writes openNow rest) (call f (putFile f x path p.branch content sha) o))
  | .looking openNow path rest, o =>
    match (o.reads (getFile f path p.branch)).join with
    | none => some (f, p.removes openNow rest)
    | some sha => some (f, .removing openNow path sha rest)
  | .removing openNow path sha rest, o =>
    some (goesOn (fun _ => p.removes openNow rest) (call f (deleteFile f path p.branch sha) o))
  | .requesting openNow, o =>
    some (goesOn (p.supersedes openNow) (call f (createPullRequest f x p.branch) o))
  | .closing pull older rest, o =>
    -- an older merge request that stays open is not the proposal's failure
    some ((call f (closePullRequest f older.number) o).1, p.closes pull rest)
  | .merging pull, o => some (goesOn (fun _ => .opened pull) (call f (mergePull x f pull.number) o))
  | .opened _, _ | .failed _, _ => none

theorem goesOn_cases {α : Type} {next : α → Progress} {f f' : Forge} {progress' : Progress}
    {done : Forge × Except GitError α} {o : Outcome}
    (h : goesOn next (call f done o) = (f', progress')) :
    (∃ e, progress' = .failed e ∧ (f' = f ∨ f' = done.1)) ∨
      ∃ v, done.2 = .ok v ∧ f' = done.1 ∧ progress' = next v := by
  obtain ⟨g, result⟩ := done
  cases o with
  | refused e =>
    obtain ⟨rfl, rfl⟩ := Prod.mk.inj h
    exact .inl ⟨e, rfl, .inl rfl⟩
  | lost e =>
    obtain ⟨rfl, rfl⟩ := Prod.mk.inj h
    exact .inl ⟨e, rfl, .inr rfl⟩
  | answered =>
    cases result with
    | error e =>
      obtain ⟨rfl, rfl⟩ := Prod.mk.inj h
      exact .inl ⟨e, rfl, .inr rfl⟩
    | ok v =>
      obtain ⟨rfl, rfl⟩ := Prod.mk.inj h
      exact .inr ⟨v, rfl, rfl, rfl⟩

/-! ## the merge request of a proposal -/

/-- the merge request a proposal's progress is at -/
def Progress.pull? : Progress → Option Pull
  | .closing pull .. | .merging pull | .opened pull => some pull
  | _ => none

/-- the merge requests it may take up -/
def Progress.listed : Progress → List Pull
  | .reading openNow .. | .writing openNow .. | .looking openNow .. | .removing openNow ..
  | .requesting openNow => openNow
  | _ => []

section
variable {x : Outside} {p : Proposal} {f f' : Forge}

@[simp] theorem pull?_settles (pull : Pull) : (p.settles pull).pull? = some pull := by
  unfold Proposal.settles
  split <;> rfl

@[simp] theorem pull?_closes (pull : Pull) (older : List Pull) :
    (p.closes pull older).pull? = some pull := by
  cases older with
  | nil => exact pull?_settles pull
  | cons => rfl

/-- a proposal is at none of these merge requests yet, or takes up one of its branch -/
def Proposal.Offers (p : Proposal) (openNow : List Pull) (progress : Progress) : Prop :=
  (progress.pull? = none ∧ progress.listed = openNow) ∨
    ∃ pull ∈ openNow, pull.headBranch = p.branch ∧ progress = p.supersedes openNow pull

theorem offers_requests (openNow : List Pull) : p.Offers openNow (p.requests openNow) := by
  unfold Proposal.requests
  split
  · rename_i pull hfind
    have hbranch : pull.headBranch = p.branch := by simpa using List.find?_some hfind
    exact .inr ⟨pull, List.mem_of_find?_eq_some hfind, hbranch, rfl⟩
  · exact .inl ⟨rfl, rfl⟩

theorem offers_removes (openNow : List Pull) (removed : List String) :
    p.Offers openNow (p.removes openNow removed) := by
  cases removed with
  | nil => exact offers_requests openNow
  | cons => exact .inl ⟨rfl, rfl⟩

theorem offers_writes (openNow : List Pull) (files : List (String × String)) :
    p.Offers openNow (p.writes openNow files) := by
  cases files with
  | nil => exact offers_removes openNow p.removed
  | cons => exact .inl ⟨rfl, rfl⟩

/-- the merge request a proposal opens -/
def newPull (x : Outside) (f : Forge) (branch : String) : Pull :=
  ⟨f.next, x.url f.next, branch, x.defaultBranch, .opened, false, none⟩

inductive Asks (x : Outside) (p : Proposal) (f : Forge) : Progress → Outcome → Forge → Progress → Prop
  /-- the merge requests stay, and the proposal is at none of them yet -/
  | stays {progress progress' : Progress} {o : Outcome} {f' : Forge} (hbefore : progress.pull? = none)
      (hafter : progress'.pull? = none) (hpulls : f'.pulls = f.pulls) (hnext : f'.next = f.next)
      (hlisted : progress'.listed ⊆ progress.listed ++ f.pulls) : Asks x p f progress o f' progress'
  | takes {progress : Progress} {o : Outcome} {f' : Forge} {openNow : List Pull} {pull : Pull}
      (hbefore : progress.pull? = none) (hpulls : f'.pulls = f.pulls) (hnext : f'.next = f.next)
      (hpull : pull ∈ progress.listed ++ f.pulls) (hbranch : pull.headBranch = p.branch) :
      Asks x p f progress o f' (p.supersedes openNow pull)
  | creates {openNow : List Pull} {f' : Forge} (hpulls : f'.pulls = newPull x f p.branch :: f.pulls)
      (hnext : f'.next = f.next + 1) :
      Asks x p f (.requesting openNow) .answered f' (p.supersedes openNow (newPull x f p.branch))
  /-- it is opened, and the call not answered -/
  | forgets {openNow : List Pull} {e : GitError} {f' : Forge}
      (hpulls : f'.pulls = newPull x f p.branch :: f.pulls) (hnext : f'.next = f.next + 1) :
      Asks x p f (.requesting openNow) (.lost e) f' (.failed e)
  | closes {pull older : Pull} {rest : List Pull} {o : Outcome} {f' : Forge}
      (hpulls : f'.pulls = f.pulls ∨ f'.pulls = answerPull f older.number false)
      (hnext : f'.next = f.next) : Asks x p f (.closing pull older rest) o f' (p.closes pull rest)
  | merges {pull : Pull} (hmerged : (mergePull x f pull.number).2 = .ok ()) :
      Asks x p f (.merging pull) .answered (mergePull x f pull.number).1 (.opened pull)
  | fails {pull : Pull} {o : Outcome} {f' : Forge} {e : GitError}
      (hf : f' = f ∨ f' = (mergePull x f pull.number).1) : Asks x p f (.merging pull) o f' (.failed e)

/-- a call that ends in failure, or goes on, without a word to the merge requests -/
theorem asks_goesOn {progress : Progress} {o : Outcome} {next : Progress}
    {done : Forge × Except GitError Unit} {openNow : List Pull} {f' : Forge} {progress' : Progress}
    (hbefore : progress.pull? = none) (hpulls : done.1.pulls = f.pulls) (hnext : done.1.next = f.next)
    (hlisted : openNow ⊆ progress.listed ++ f.pulls) (hoffers : p.Offers openNow next)
    (h : goesOn (fun _ => next) (call f done o) = (f', progress')) : Asks x p f progress o f' progress' := by
  have hfails : ∀ {f₁ : Forge} {e : GitError}, f₁.pulls = f.pulls → f₁.next = f.next →
      (f₁, Progress.failed e) = (f', progress') → Asks x p f progress o f' progress' := by
    intro f₁ e hpulls₁ hnext₁ heq
    obtain ⟨rfl, rfl⟩ := Prod.mk.inj heq
    exact .stays hbefore rfl hpulls₁ hnext₁ (List.nil_subset _)
  cases o with
  | refused e => exact hfails rfl rfl h
  | lost e => exact hfails hpulls hnext h
  | answered =>
    obtain ⟨f₁, result⟩ := done
    cases result with
    | error e => exact hfails hpulls hnext h
    | ok v =>
      obtain ⟨rfl, rfl⟩ := Prod.mk.inj h
      rcases hoffers with ⟨hafter, hafterListed⟩ | ⟨pull, hpull, hbranch, rfl⟩
      · exact .stays hbefore hafter hpulls hnext (hafterListed ▸ hlisted)
      · exact .takes hbefore hpulls hnext (hlisted hpull) hbranch

theorem asks_of_offers {progress progress' next : Progress} {o : Outcome} {openNow : List Pull}
    (hbefore : progress.pull? = none) (hlisted : openNow ⊆ progress.listed ++ f.pulls)
    (hoffers : p.Offers openNow next) (h : (f, next) = (f', progress')) :
    Asks x p f progress o f' progress' := by
  obtain ⟨rfl, rfl⟩ := Prod.mk.inj h
  rcases hoffers with ⟨hafter, hafterListed⟩ | ⟨pull, hpull, hbranch, rfl⟩
  · exact .stays hbefore hafter rfl rfl (hafterListed ▸ hlisted)
  · exact .takes hbefore rfl rfl (hlisted hpull) hbranch

theorem asks_branching {progress' : Progress} {o : Outcome}
    (h : openStep x p f .branching o = some (f', progress')) :
    Asks x p f .branching o f' progress' := by
  have hcreate := pulls_createBranch (f := f) p.branch
  have hfails : ∀ {f₁ : Forge} {next : Progress}, f₁.pulls = f.pulls → f₁.next = f.next →
      next.pull? = none → next.listed = [] → some (f₁, next) = some (f', progress') →
      Asks x p f .branching o f' progress' := by
    intro f₁ next hpulls hnext hpull hlisted heq
    obtain ⟨rfl, rfl⟩ := Prod.mk.inj (Option.some.inj heq)
    exact .stays rfl hpull hpulls hnext (hlisted ▸ List.nil_subset _)
  have hcall : (call f (createBranch f p.branch) o).1.pulls = f.pulls ∧
      (call f (createBranch f p.branch) o).1.next = f.next := by
    cases o with
    | answered => exact ⟨hcreate.1, hcreate.2.1⟩
    | lost e => exact ⟨hcreate.1, hcreate.2.1⟩
    | refused e => exact ⟨rfl, rfl⟩
  simp only [openStep] at h
  split at h
  · rename_i f₁ text hdone
    rw [hdone] at hcall
    exact hfails hcall.1 hcall.2 rfl rfl h
  · revert h hcall
    generalize call f (createBranch f p.branch) o = done
    obtain ⟨f₁, result⟩ := done
    intro hcall h
    cases result with
    | ok v => exact hfails hcall.1 hcall.2 rfl rfl h
    | error e => exact hfails hcall.1 hcall.2 rfl rfl h

theorem asks_requesting {progress' : Progress} {o : Outcome} {openNow : List Pull}
    (h : openStep x p f (.requesting openNow) o = some (f', progress')) :
    Asks x p f (.requesting openNow) o f' progress' := by
  have hstays : ∀ {e : GitError}, some (f, Progress.failed e) = some (f', progress') →
      Asks x p f (.requesting openNow) o f' progress' := by
    intro e heq
    obtain ⟨rfl, rfl⟩ := Prod.mk.inj (Option.some.inj heq)
    exact .stays rfl rfl rfl rfl (List.nil_subset _)
  simp only [openStep] at h
  unfold createPullRequest at h
  split at h
  · cases o <;> exact hstays h
  · split at h
    · cases o <;> exact hstays h
    · cases o with
      | refused e => exact hstays h
      | answered =>
        obtain ⟨rfl, rfl⟩ := Prod.mk.inj (Option.some.inj h)
        exact .creates rfl rfl
      | lost e =>
        obtain ⟨rfl, rfl⟩ := Prod.mk.inj (Option.some.inj h)
        exact .forgets rfl rfl

theorem asks_merging {progress' : Progress} {o : Outcome} {pull : Pull}
    (h : openStep x p f (.merging pull) o = some (f', progress')) :
    Asks x p f (.merging pull) o f' progress' := by
  simp only [openStep] at h
  cases o with
  | refused e =>
    obtain ⟨rfl, rfl⟩ := Prod.mk.inj (Option.some.inj h)
    exact .fails (.inl rfl)
  | lost e =>
    obtain ⟨rfl, rfl⟩ := Prod.mk.inj (Option.some.inj h)
    exact .fails (.inr rfl)
  | answered =>
    cases hresult : (mergePull x f pull.number).2 with
    | ok v =>
      have hdone : mergePull x f pull.number = ((mergePull x f pull.number).1, .ok ()) :=
        Prod.ext rfl hresult
      rw [call, hdone] at h
      obtain ⟨rfl, rfl⟩ := Prod.mk.inj (Option.some.inj h)
      exact .merges hresult
    | error e =>
      have hdone : mergePull x f pull.number = ((mergePull x f pull.number).1, .error e) :=
        Prod.ext rfl hresult
      rw [call, hdone] at h
      obtain ⟨rfl, rfl⟩ := Prod.mk.inj (Option.some.inj h)
      exact .fails (.inr rfl)

theorem asks_of_openStep {progress progress' : Progress} {o : Outcome}
    (h : openStep x p f progress o = some (f', progress')) : Asks x p f progress o f' progress' := by
  cases progress with
  | naming =>
    exact asks_goesOn rfl rfl rfl (List.nil_subset _) (.inl ⟨rfl, rfl⟩) (Option.some.inj h)
  | branching => exact asks_branching h
  | listing =>
    refine asks_of_offers rfl ?_ (offers_writes _ p.files.toList) (Option.some.inj h)
    cases o with
    | answered =>
      exact fun pull hpull => List.mem_append_right _
        (List.mem_of_mem_filter (List.mem_of_mem_take hpull))
    | lost e => exact List.nil_subset _
    | refused e => exact List.nil_subset _
  | reading openNow path content rest =>
    simp only [openStep] at h
    split at h
    · exact asks_of_offers rfl (List.subset_append_left ..) (offers_writes openNow rest)
        (Option.some.inj h)
    · obtain ⟨rfl, rfl⟩ := Prod.mk.inj (Option.some.inj h)
      exact .stays rfl rfl rfl rfl (List.subset_append_left ..)
  | writing openNow path content sha rest =>
    have hchange := pulls_change (f := f) path p.branch sha (some (committedText x path content))
    exact asks_goesOn rfl hchange.1 hchange.2.1 (List.subset_append_left ..)
      (offers_writes openNow rest) (Option.some.inj h)
  | looking openNow path rest =>
    simp only [openStep] at h
    split at h
    · exact asks_of_offers rfl (List.subset_append_left ..) (offers_removes openNow rest)
        (Option.some.inj h)
    · obtain ⟨rfl, rfl⟩ := Prod.mk.inj (Option.some.inj h)
      exact .stays rfl rfl rfl rfl (List.subset_append_left ..)
  | removing openNow path sha rest =>
    have hchange := pulls_change (f := f) path p.branch (some sha) none
    exact asks_goesOn rfl hchange.1 hchange.2.1 (List.subset_append_left ..)
      (offers_removes openNow rest) (Option.some.inj h)
  | requesting openNow => exact asks_requesting h
  | closing pull older rest =>
    simp only [openStep] at h
    obtain ⟨rfl, rfl⟩ := Prod.mk.inj (Option.some.inj h)
    cases o with
    | refused e => exact .closes (.inl rfl) rfl
    | answered => exact .closes (.inr rfl) rfl
    | lost e => exact .closes (.inr rfl) rfl
  | merging pull => exact asks_merging h
  | opened pull => cases h
  | failed e => cases h

theorem grows_of_asks {progress progress' : Progress} {o : Outcome}
    (h : Asks x p f progress o f' progress') : Grows f f' := by
  cases h with
  | stays _ _ hpulls hnext => exact .of_pulls hpulls hnext
  | takes _ hpulls hnext => exact .of_pulls hpulls hnext
  | creates hpulls hnext => exact grows_cons hpulls hnext
  | forgets hpulls hnext => exact grows_cons hpulls hnext
  | closes hpulls hnext =>
    rcases hpulls with hpulls | hpulls
    · exact .of_pulls hpulls hnext
    · exact grows_answerPull hpulls hnext
  | @merges pull => exact grows_mergePull x _ pull.number
  | @fails pull _ _ _ hf =>
    rcases hf with rfl | rfl
    · exact .refl _
    · exact grows_mergePull x _ pull.number

end

end Sync
end Portal
