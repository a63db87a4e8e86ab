import Portal.Base.OrdMap
import Portal.Base.ThreeWay
import Portal.Changes.Lane
import Portal.Error

/-!
# The forge as the reconciler's schedules meet it (`git/gitea.rs`: `create_branch`, `get_file`,
`put_file`, `delete_file`, `list_pull_requests`, `create_pull_request`, `close_pull_request`, `merge`)

A merge request is known by the name of its branch, which may be another repository's branch of the
same name, and merges into the branch it names, the default branch or another.  A call is answered,
or refused, or takes effect and its answer is lost; the list of merge requests is one page, the most
recently updated first.

* `Forge`, `Branch`, `Pull`   the default branch, the branches, and every merge request;
* `Outcome`, `call`           what becomes of one call;
* `committedText`             the text a write commits;
* `mergeTrees`                git's merge of a branch into the default branch;
* `mergePull`                 a merge request is merged into its base branch;
* `Numbered`, `Grows`         every merge request has a number of its own, and none opens again.
-/

namespace Portal
namespace Sync

open Changes

abbrev Tree := OrdMap String String

/-- a branch: its files, and those of the last commit it has in common with the default branch -/
structure Branch where
  base : Tree
  head : Tree

inductive PullState where
  | opened
  | closed
deriving DecidableEq

structure Pull where
  number : Nat
  url : String
  headBranch : String
  /-- the branch it merges into -/
  baseBranch : String
  state : PullState
  merged : Bool
  /-- what is on its branch, where that is another repository's -/
  fork : Option Branch

structure Forge where
  /-- the default branch -/
  files : Tree
  branches : String → Option Branch
  /-- the most recently updated first -/
  pulls : List Pull
  /-- the number of the next merge request -/
  next : Nat

/-- what comes from elsewhere: the name of the default branch, which text is a manifest, the layout of
one, git's merge of a file, and of a branch into another than the default branch, and the address of a
merge request -/
structure Outside where
  defaultBranch : String
  isManifest : String → Bool
  format : String → Option String
  merge : ThreeWay (Option String)
  onto : Branch → Branch → Option Branch
  url : Nat → String

inductive Outcome where
  | answered
  /-- it takes effect, and is not answered -/
  | lost (e : GitError)
  | refused (e : GitError)
deriving DecidableEq

def call {α : Type} (f : Forge) (done : Forge × Except GitError α) : Outcome →
    Forge × Except GitError α
  | .answered => done
  | .lost e => (done.1, .error e)
  | .refused e => (f, .error e)

def Outcome.reads {α : Type} (v : α) : Outcome → Option α
  | .answered => some v
  | .lost _ | .refused _ => none

def committedText (x : Outside) (path content : String) : String :=
  Changes.committedText x.isManifest x.format path content

/-! ## files and branches -/

section
variable (f : Forge)

def withBranch (name : String) (b : Branch) : Forge :=
  { f with branches := Function.update f.branches name (some b) }

def createBranch (name : String) : Forge × Except GitError Unit :=
  match f.branches name with
  | some _ => (f, .error (.conflict "branch already exists"))
  | none => (withBranch f name ⟨f.files, f.files⟩, .ok ())

/-- a file on a branch; its blob's sha stands for its text -/
def getFile (path branch : String) : Option String := (f.branches branch).bind (·.head.get? path)

/-- a file of a branch gets another text, or none, where the blob is the one named -/
def change (path branch : String) (sha text : Option String) : Forge × Except GitError Unit :=
  match f.branches branch with
  | none => (f, .error .notFound)
  | some b =>
    if b.head.get? path = sha then
      (withBranch f branch { b with head := b.head.alter path (fun _ => text) }, .ok ())
    else (f, .error (.api 422 "sha does not match"))

def putFile (x : Outside) (path branch content : String) (sha : Option String) :
    Forge × Except GitError Unit :=
  change f path branch sha (some (committedText x path content))

def deleteFile (path branch sha : String) : Forge × Except GitError Unit :=
  change f path branch (some sha) none

/-! ## merge requests -/

/-- one page of merge requests in a state, of any state where none is named -/
def listPullRequests (state : Option PullState) : List Pull :=
  (f.pulls.filter (fun pull => state.all (pull.state = ·))).take 50

/-- an open merge request of this repository's branch into another -/
def Pull.holds (branch base : String) (pull : Pull) : Bool :=
  pull.headBranch = branch && pull.state = .opened && pull.fork.isNone && pull.baseBranch = base

def createPullRequest (x : Outside) (branch : String) : Forge × Except GitError Pull :=
  if f.pulls.any (Pull.holds branch x.defaultBranch) then
    (f, .error (.conflict "pull request already exists"))
  else
    match f.branches branch with
    | none => (f, .error .notFound)
    | some _ =>
      let pull : Pull := ⟨f.next, x.url f.next, branch, x.defaultBranch, .opened, false, none⟩
      ({ f with pulls := pull :: f.pulls, next := f.next + 1 }, .ok pull)

def Pull.answered (number : Nat) (merged : Bool) (pull : Pull) : Pull :=
  if pull.number = number ∧ pull.state = .opened then { pull with state := .closed, merged } else pull

def answerPull (number : Nat) (merged : Bool) : List Pull :=
  f.pulls.map (Pull.answered number merged)

def closePullRequest (number : Nat) : Forge × Except GitError Unit :=
  ({ f with pulls := answerPull f number false }, .ok ())

/-- what a merge request would merge -/
def Pull.content (pull : Pull) : Option Branch := pull.fork <|> f.branches pull.headBranch

end

def paths (base head now : Tree) : List String :=
  OrdMap.keySet (base.keys ++ head.keys ++ now.keys)

/-- `head` merged into `now` over `base`, where git merges every file -/
def mergeTrees (m : ThreeWay (Option String)) (base head now : Tree) : Option Tree :=
  let entry (path : String) := m.merge (base.get? path) (head.get? path) (now.get? path)
  if (paths base head now).all (fun path => (entry path).isSome) then
    some (OrdMap.ofList ((paths base head now).filterMap fun path =>
      (entry path).join.map fun text => (path, text)))
  else none

/-- the default branch takes a merge request's files, and its branch has them in common with it -/
def mergeDefault (x : Outside) (f : Forge) (pull : Pull) (b : Branch) : Forge × Except GitError Unit :=
  match mergeTrees x.merge b.base b.head f.files with
  | none => (f, .error (.conflict "merge conflict"))
  | some files =>
    ({ f with
        files
        pulls := answerPull f pull.number true
        branches := if pull.fork.isNone then
            Function.update f.branches pull.headBranch (some { b with base := b.head })
          else f.branches },
      .ok ())

def mergeElsewhere (x : Outside) (f : Forge) (pull : Pull) (b : Branch) :
    Forge × Except GitError Unit :=
  match f.branches pull.baseBranch with
  | none => (f, .error .notFound)
  | some now =>
    match x.onto now b with
    | none => (f, .error (.conflict "merge conflict"))
    | some merged =>
      ({ f with
          pulls := answerPull f pull.number true
          branches := Function.update f.branches pull.baseBranch (some merged) },
        .ok ())

def mergePull (x : Outside) (f : Forge) (number : Nat) : Forge × Except GitError Unit :=
  match f.pulls.find? (fun pull => pull.number = number ∧ pull.state = .opened) with
  | none => (f, .error (.api 405 "the pull request is not open"))
  | some pull =>
    match pull.content f with
    | none => (f, .error .notFound)
    | some b =>
      if pull.baseBranch = x.defaultBranch then mergeDefault x f pull b else mergeElsewhere x f pull b

/-! ## lemmas -/

section
variable {f : Forge}

theorem withBranch_self (name : String) (b : Branch) : (withBranch f name b).branches name = some b :=
  Function.update_self ..

theorem pulls_change (path branch : String) (sha text : Option String) :
    (change f path branch sha text).1.pulls = f.pulls ∧
      (change f path branch sha text).1.next = f.next ∧
      (change f path branch sha text).1.files = f.files := by
  unfold change
  split
  · exact ⟨rfl, rfl, rfl⟩
  · split <;> exact ⟨rfl, rfl, rfl⟩

theorem change_cases {path branch : String} {sha text : Option String} {b : Branch}
    (hbranch : f.branches branch = some b) :
    (∃ e, change f path branch sha text = (f, .error e)) ∨
      (b.head.get? path = sha ∧ change f path branch sha text =
        (withBranch f branch { b with head := b.head.alter path (fun _ => text) }, .ok ())) := by
  unfold change
  rw [hbranch]
  by_cases hsha : b.head.get? path = sha
  · exact .inr ⟨hsha, if_pos hsha⟩
  · exact .inl ⟨_, if_neg hsha⟩

theorem pulls_createBranch (name : String) :
    (createBranch f name).1.pulls = f.pulls ∧ (createBranch f name).1.next = f.next ∧
      (createBranch f name).1.files = f.files := by
  unfold createBranch
  split <;> exact ⟨rfl, rfl, rfl⟩

theorem mem_paths {base head now : Tree} {path : String} :
    path ∈ paths base head now ↔
      base.get? path ≠ none ∨ head.get? path ≠ none ∨ now.get? path ≠ none := by
  simp only [paths, OrdMap.mem_keySet, List.mem_append, OrdMap.mem_keys, Option.ne_none_iff_exists',
    or_assoc]

theorem get?_mergeTrees (entry : String → Option (Option String)) (l : List String) (hl : l.Nodup)
    (path : String) :
    (OrdMap.ofList (l.filterMap fun path =>
        (entry path).join.map fun text => (path, text))).get? path
      = if path ∈ l then (entry path).join else none := by
  rw [OrdMap.get?_ofList, ← List.filterMap_reverse,
    OrdMap.lookup_filterMap _ (List.nodup_reverse.mpr hl) (fun path => (entry path).join)]
  simp only [List.mem_reverse]

/-- **git's merge of a tree is its merge of every file.** -/
theorem merges_of_mergeTrees {m : ThreeWay (Option String)} {base head now t : Tree}
    (h : mergeTrees m base head now = some t) :
    m.Merges base.get? head.get? now.get? t.get? := by
  unfold mergeTrees at h
  simp only [Option.ite_none_right_eq_some, Option.some.injEq, List.all_eq_true] at h
  obtain ⟨hall, rfl⟩ := h
  intro path
  have hnodup : (paths base head now).Nodup :=
    (OrdMap.keySet_sorted _).imp (fun hlt => ne_of_lt hlt)
  rw [get?_mergeTrees (fun path => m.merge (base.get? path) (head.get? path) (now.get? path)) _ hnodup]
  by_cases hpath : path ∈ paths base head now
  · rw [if_pos hpath]
    obtain ⟨r, hr⟩ := Option.isSome_iff_exists.mp (hall path hpath)
    rw [hr, Option.join_some]
  · -- a path none of the three has
    rw [if_neg hpath]
    simp only [mem_paths, not_or, not_not] at hpath
    rw [hpath.1, hpath.2.1, hpath.2.2]
    exact m.same none none

theorem exists_mergeTrees {m : ThreeWay (Option String)} {base head now : Tree}
    (h : ∀ path, (m.merge (base.get? path) (head.get? path) (now.get? path)).isSome) :
    ∃ t, mergeTrees m base head now = some t := by
  have hall : (paths base head now).all (fun path =>
      (m.merge (base.get? path) (head.get? path) (now.get? path)).isSome) = true := by
    rw [List.all_eq_true]
    intro path _
    exact h path
  unfold mergeTrees
  exact ⟨_, if_pos hall⟩

end

/-! ## merge requests over time -/

section
variable (f : Forge) (number : Nat)

def Live : Prop := ∃ pull ∈ f.pulls, pull.number = number ∧ pull.state = .opened

def Shut : Prop := ∃ pull ∈ f.pulls, pull.number = number ∧ pull.state = .closed

instance : Decidable (Live f number) := inferInstanceAs (Decidable (∃ pull ∈ f.pulls, _))

instance : Decidable (Shut f number) := inferInstanceAs (Decidable (∃ pull ∈ f.pulls, _))

end

/-- every merge request has a number of its own -/
structure Numbered (f : Forge) : Prop where
  nodup : (f.pulls.map Pull.number).Nodup
  lt : ∀ pull ∈ f.pulls, pull.number < f.next

/-- a merge request later on: it does not open again -/
structure Pull.Becomes (pull later : Pull) : Prop where
  number : later.number = pull.number
  headBranch : later.headBranch = pull.headBranch
  baseBranch : later.baseBranch = pull.baseBranch
  fork : later.fork = pull.fork
  closed : pull.state = .closed → later.state = .closed

structure Grows (f f' : Forge) : Prop where
  pulls : ∀ pull ∈ f.pulls, ∃ later ∈ f'.pulls, pull.Becomes later
  numbered : Numbered f → Numbered f'

variable {f f' : Forge}

theorem Pull.Becomes.refl (pull : Pull) : pull.Becomes pull := ⟨rfl, rfl, rfl, rfl, id⟩

theorem Pull.Becomes.trans {pull later last : Pull} (h : pull.Becomes later)
    (h' : later.Becomes last) : pull.Becomes last :=
  ⟨h'.number.trans h.number, h'.headBranch.trans h.headBranch, h'.baseBranch.trans h.baseBranch,
    h'.fork.trans h.fork, fun hc => h'.closed (h.closed hc)⟩

theorem Numbered.eq (h : Numbered f) {p q : Pull} (hp : p ∈ f.pulls) (hq : q ∈ f.pulls)
    (hnumber : p.number = q.number) : p = q :=
  List.inj_on_of_nodup_map h.nodup hp hq hnumber

theorem Numbered.not_live (h : Numbered f) {number : Nat} (hshut : Shut f number) :
    ¬ Live f number := by
  rintro ⟨q, hq, hqn, hopen⟩
  obtain ⟨p, hp, hpn, hclosed⟩ := hshut
  rw [h.eq hp hq (hpn.trans hqn.symm), hopen] at hclosed
  cases hclosed

theorem live_or_shut {pull : Pull} (h : pull ∈ f.pulls) :
    Live f pull.number ∨ Shut f pull.number := by
  cases hstate : pull.state with
  | opened => exact .inl ⟨pull, h, rfl, hstate⟩
  | closed => exact .inr ⟨pull, h, rfl, hstate⟩

theorem Grows.shut (h : Grows f f') {number : Nat} (hshut : Shut f number) : Shut f' number := by
  obtain ⟨p, hp, hnumber, hclosed⟩ := hshut
  obtain ⟨q, hq, hbecomes⟩ := h.pulls p hp
  exact ⟨q, hq, hbecomes.number.trans hnumber, hbecomes.closed hclosed⟩

theorem Grows.live (h : Grows f f') (hnumbered : Numbered f) {pull : Pull} (hpull : pull ∈ f.pulls)
    (hlive : Live f' pull.number) : Live f pull.number := by
  refine (live_or_shut hpull).resolve_right (fun hshut => ?_)
  exact (h.numbered hnumbered).not_live (h.shut hshut) hlive

theorem Grows.of_pulls (hpulls : f'.pulls = f.pulls) (hnext : f'.next = f.next) : Grows f f' where
  pulls pull hpull := ⟨pull, hpulls ▸ hpull, .refl pull⟩
  numbered h := ⟨hpulls ▸ h.nodup, fun pull hpull => hnext ▸ h.lt pull (hpulls ▸ hpull)⟩

theorem Grows.refl (f : Forge) : Grows f f := .of_pulls rfl rfl

theorem grows_cons {branch base url : String} {fork : Option Branch}
    (hpulls : f'.pulls = ⟨f.next, url, branch, base, .opened, false, fork⟩ :: f.pulls)
    (hnext : f'.next = f.next + 1) : Grows f f' where
  pulls pull hpull := ⟨pull, hpulls ▸ List.mem_cons_of_mem _ hpull, .refl pull⟩
  numbered h := by
    refine ⟨?_, fun pull hpull => ?_⟩
    · rw [hpulls, List.map_cons, List.nodup_cons]
      refine ⟨fun hmem => ?_, h.nodup⟩
      obtain ⟨q, hq, hqn⟩ := List.mem_map.mp hmem
      have hlt := h.lt q hq
      rw [hqn] at hlt
      exact absurd hlt (lt_irrefl _)
    · rw [hpulls] at hpull
      rw [hnext]
      rcases List.mem_cons.mp hpull with rfl | hpull
      · exact Nat.lt_succ_self _
      · exact Nat.lt_succ_of_lt (h.lt pull hpull)

theorem Pull.becomes_answered (number : Nat) (merged : Bool) (pull : Pull) :
    pull.Becomes (pull.answered number merged) := by
  unfold Pull.answered
  split
  · exact ⟨rfl, rfl, rfl, rfl, fun _ => rfl⟩
  · exact .refl pull

theorem grows_answerPull {number : Nat} {merged : Bool}
    (hpulls : f'.pulls = answerPull f number merged) (hnext : f'.next = f.next) : Grows f f' where
  pulls pull hpull := by
    refine ⟨pull.answered number merged, ?_, pull.becomes_answered number merged⟩
    rw [hpulls]
    exact List.mem_map_of_mem hpull
  numbered h := by
    have hnumbers : Pull.number ∘ Pull.answered number merged = Pull.number := by
      funext pull
      exact (pull.becomes_answered number merged).number
    refine ⟨?_, fun pull hpull => ?_⟩
    · rw [hpulls, answerPull, List.map_map, hnumbers]
      exact h.nodup
    · rw [hpulls] at hpull
      obtain ⟨q, hq, rfl⟩ := List.mem_map.mp hpull
      rw [(q.becomes_answered number merged).number, hnext]
      exact h.lt q hq

theorem shut_answerPull {number : Nat} {merged : Bool} {pull : Pull} (hpull : pull ∈ f.pulls)
    (hnumber : pull.number = number) (hpulls : f'.pulls = answerPull f number merged) :
    Shut f' number := by
  refine ⟨pull.answered number merged, ?_, ?_, ?_⟩
  · rw [hpulls]
    exact List.mem_map_of_mem hpull
  · exact (pull.becomes_answered number merged).number.trans hnumber
  · unfold Pull.answered
    cases hstate : pull.state with
    | opened => rw [if_pos ⟨hnumber, rfl⟩]
    | closed => rw [if_neg (by simp), hstate]

/-- the merge of a merge request is done -/
structure Answers (f : Forge) (number : Nat) (done : Forge × Except GitError Unit) : Prop where
  result : done.2 = .ok ()
  pulls : done.1.pulls = answerPull f number true
  next : done.1.next = f.next

theorem mergeDefault_cases (x : Outside) (f : Forge) (pull : Pull) (b : Branch) :
    (∃ e, mergeDefault x f pull b = (f, .error e)) ∨
      Answers f pull.number (mergeDefault x f pull b) := by
  unfold mergeDefault
  split
  · exact .inl ⟨_, rfl⟩
  · exact .inr ⟨rfl, rfl, rfl⟩

theorem mergeElsewhere_cases (x : Outside) (f : Forge) (pull : Pull) (b : Branch) :
    (∃ e, mergeElsewhere x f pull b = (f, .error e)) ∨
      Answers f pull.number (mergeElsewhere x f pull b) := by
  unfold mergeElsewhere
  split
  · exact .inl ⟨_, rfl⟩
  · split
    · exact .inl ⟨_, rfl⟩
    · exact .inr ⟨rfl, rfl, rfl⟩

/-- **A merge answers its merge request, or does nothing.** -/
theorem mergePull_cases (x : Outside) (f : Forge) (number : Nat) :
    (∃ e, mergePull x f number = (f, .error e)) ∨
      (∃ pull ∈ f.pulls, pull.number = number) ∧ Answers f number (mergePull x f number) := by
  unfold mergePull
  split
  · exact .inl ⟨_, rfl⟩
  · rename_i pull hfind
    have hpull := List.mem_of_find?_eq_some hfind
    obtain rfl : pull.number = number := by
      have hfound := List.find?_some hfind
      simp only [decide_eq_true_eq] at hfound
      exact hfound.1
    split
    · exact .inl ⟨_, rfl⟩
    · split
      · exact (mergeDefault_cases x f pull _).imp_right fun h => ⟨⟨pull, hpull, rfl⟩, h⟩
      · exact (mergeElsewhere_cases x f pull _).imp_right fun h => ⟨⟨pull, hpull, rfl⟩, h⟩

theorem grows_mergePull (x : Outside) (f : Forge) (number : Nat) :
    Grows f (mergePull x f number).1 := by
  rcases mergePull_cases x f number with ⟨e, hsame⟩ | ⟨-, hdone⟩
  · rw [hsame]
    exact .refl f
  · exact grows_answerPull hdone.pulls hdone.next

theorem next_mergePull (x : Outside) (f : Forge) (number : Nat) :
    (mergePull x f number).1.next = f.next := by
  rcases mergePull_cases x f number with ⟨e, hsame⟩ | ⟨-, hdone⟩
  · rw [hsame]
  · exact hdone.next

theorem pulls_mergePull (x : Outside) (f : Forge) (number : Nat) :
    (mergePull x f number).1.pulls = f.pulls ∨
      (mergePull x f number).1.pulls = answerPull f number true := by
  rcases mergePull_cases x f number with ⟨e, hsame⟩ | ⟨-, hdone⟩
  · rw [hsame]
    exact .inl rfl
  · exact .inr hdone.pulls

theorem shut_mergePull {x : Outside} {number : Nat} (h : (mergePull x f number).2 = .ok ()) :
    Shut (mergePull x f number).1 number := by
  rcases mergePull_cases x f number with ⟨e, hsame⟩ | ⟨⟨pull, hpull, hnumber⟩, hdone⟩
  · rw [hsame] at h
    cases h
  · exact shut_answerPull hpull hnumber hdone.pulls

theorem Pull.Becomes.mergeDefault {x : Outside} {pull later : Pull} (h : pull.Becomes later)
    (b : Branch) : mergeDefault x f later b = Sync.mergeDefault x f pull b := by
  unfold Sync.mergeDefault
  rw [h.number, h.headBranch, h.fork]

end Sync
end Portal
