import Portal.Base.Machine
import Portal.Changes.Lane

/-!
# One open change per branch (`mutate.rs`: `open_change_on`, `turn`, `create_or_reuse_branch`;
`gitea.rs`: `list_pull_requests`)

The proposals of one resource and operation share a branch name and take turns on it.  A proposal in
its turn looks for an open pull request on the branch, or on the name a retry takes, and only where
there is none makes the branch; one an earlier attempt left is deleted and the change opens on a
fresh name.  The list it looks through is one page, the most recently updated first.

* `World`, `Call`, `step`   the forge's branches and open pull requests, the turn, and what the
                            others do meanwhile;
* `Clear`                   the open change of the branch is on the page, and is asked for;
* `step_free`, `step_one`   what one step keeps;
* `one_open_change`         at most one change is open, no branch of an open one is touched;
* `live_branch_deleted`     the fifty-first change loses its branch.
-/

namespace Portal
namespace Changes
namespace Turns

/-! ## the forge and the turn -/

structure Pull where
  number : Nat
  head : String
deriving DecidableEq

/-- what the proposals that take turns are about -/
structure Resource where
  /-- `branch_name` of the project, kind, name and operation -/
  branch : String
  kind : String
  name : String
  /-- the change's name in `change_meta`, by its pull request -/
  change : Nat → String

inductive Call where
  | asking
  | creating (asked : Bool)
  | looking
  | deleting
  | recreating
  | opening (head : String)
deriving DecidableEq

structure World where
  branches : List String
  /-- the open pull requests, most recently updated first -/
  pulls : List Pull
  /-- the proposal whose turn it is; the others wait, and hold nothing -/
  turn : Option Call
  /-- what the proposals were answered, the last first -/
  answers : List (Except ApiError Pull)
deriving DecidableEq

inductive Event where
  /-- a proposal's turn begins, at a door that asks for the open change or at one that does not -/
  | take (asks : Bool)
  /-- the forge lists the open pull requests -/
  | list
  /-- the forge makes the branch; its answer may be lost, here and below -/
  | create (lost : Option GitError)
  | delete (lost : Option GitError)
  | recreate (nonce : String) (lost : Option GitError)
  /-- the files are on the branch, and the pull request opens -/
  | propose (number : Nat) (lost : Option GitError)
  /-- the forge refuses what the proposal asks, and does nothing -/
  | refuse (error : GitError)
  /-- a pull request is pushed to, reviewed, commented on -/
  | update (number : Nat)
  /-- it is merged, rejected or closed -/
  | close (number : Nat)
  /-- another resource's change opens -/
  | others (pr : Pull)
  /-- someone makes a branch, or removes one -/
  | sprout (head : String)
  | drop (head : String)
deriving DecidableEq

/-- the page `list_pull_requests` asks for -/
def pageLimit : Nat := 50

def World.page (s : World) : List Pull := s.pulls.take pageLimit

/-- `chg-` and the number in eight hexadecimal digits -/
def changeId (number : Nat) : String :=
  "chg-" ++ String.ofList (List.leftpad 8 '0' (Nat.toDigits 16 number))

section
variable (r : Resource)

/-- a pull request on the branch, or on the name of a retry -/
def Resource.has (pr : Pull) : Bool := pr.head = r.branch || Text.startsWith (r.branch ++ "_") pr.head

/-- the open pull requests of the resource -/
def Resource.live (s : World) : List Pull := s.pulls.filter r.has

/-- the refusal that names the change to decide first -/
def Resource.already (call : Call) (pr : Pull) : ApiError :=
  match call with
  | .asking => .conflict ("a change for " ++ r.kind ++ " '" ++ r.name ++ "' is already open: "
      ++ r.change pr.number ++ "; approve or reject it first")
  | _ => .conflict ("a change is already open on this resource: " ++ changeId pr.number
      ++ "; approve or reject it first")

def World.finish (s : World) (answer : Except ApiError Pull) : World :=
  { s with turn := none, answers := answer :: s.answers }

/-- the turn goes on, or ends where the forge's answer was lost -/
def World.go (s : World) (call : Call) : Option GitError → World
  | none => { s with turn := some call }
  | some e => s.finish (.error (.ofGit e))

/-- what a proposal makes of the list: the open change of the resource refuses it -/
def Resource.listed (call next : Call) (s : World) : World :=
  match s.page.find? r.has with
  | some pr => s.finish (.error (r.already call pr))
  | none => { s with turn := some next }

/-- what a proposal makes of a refusal: a forge without the repository has no change open, a branch
that is there may be a stale one, and one already gone is deleted -/
def World.refused (s : World) (call : Call) (e : GitError) : World :=
  match call, e with
  | .asking, .notFound => { s with turn := some (.creating true) }
  | .creating _, .conflict _ => { s with turn := some .looking }
  | .deleting, .notFound => { s with turn := some .recreating }
  | _, e => s.finish (.error (.ofGit e))

def step (s : World) : Event → Option World
  | .take asks =>
    match s.turn with
    | none => some { s with turn := some (if asks then .asking else .creating false) }
    | some _ => none
  | .list =>
    match s.turn with
    | some .asking => some (r.listed .asking (.creating true) s)
    | some .looking => some (r.listed .looking .deleting s)
    | _ => none
  | .create lost =>
    match s.turn with
    | some (.creating _) =>
      if r.branch ∈ s.branches then none
      else some ({ s with branches := r.branch :: s.branches }.go (.opening r.branch) lost)
    | _ => none
  | .delete lost =>
    match s.turn with
    | some .deleting =>
      some ({ s with branches := s.branches.filter (· ≠ r.branch) }.go .recreating lost)
    | _ => none
  | .recreate nonce lost =>
    match s.turn with
    | some .recreating =>
      if r.branch ++ "_" ++ nonce ∈ s.branches then none
      else some ({ s with branches := (r.branch ++ "_" ++ nonce) :: s.branches }.go
        (.opening (r.branch ++ "_" ++ nonce)) lost)
    | _ => none
  | .propose number lost =>
    match s.turn with
    | some (.opening head) =>
      if number ∈ s.pulls.map Pull.number then none
      else
        let pr : Pull := ⟨number, head⟩
        some ({ s with pulls := pr :: s.pulls }.finish
          (match lost with | none => .ok pr | some e => .error (.ofGit e)))
    | _ => none
  | .refuse e => s.turn.map (fun call => s.refused call e)
  | .update number => some { s with
      pulls := s.pulls.filter (fun pr => pr.number = number)
        ++ s.pulls.filter (fun pr => !(pr.number = number)) }
  | .close number => some { s with pulls := s.pulls.filter (fun pr => pr.number ≠ number) }
  | .others pr => if r.has pr then none else some { s with pulls := pr :: s.pulls }
  | .sprout head => some { s with branches := head :: s.branches }
  | .drop head => some { s with branches := s.branches.filter (· ≠ head) }

/-! ## what a turn relies on -/

/-- a step that reads what is open: the resource's open change is on the page listed, a forge that
answers 404 holds none, and a door that did not ask makes no branch beside one -/
def Clear (t : Trans World Event) : Prop :=
  match t.act, t.before.turn with
  | .list, _ => ∀ pr ∈ r.live t.before, pr ∈ t.before.page
  | .refuse .notFound, some .asking => r.live t.before = []
  | .create _, some (.creating false) => r.live t.before = []
  | _, _ => True

instance (t : Trans World Event) : Decidable (Clear r t) := by
  unfold Clear
  split <;> infer_instance

/-- the proposal whose turn it is knows that nothing is open -/
def Free (s : World) : Prop :=
  match s.turn with
  | some (.creating true) | some .deleting | some .recreating | some (.opening _) => r.live s = []
  | _ => True

/-- a step of `create_or_reuse_branch` that makes or deletes a branch -/
def Event.touches : Event → Bool
  | .create _ | .delete _ | .recreate _ _ => true
  | _ => false

end

section
variable {r : Resource}

@[simp] theorem live_finish (s : World) (a : Except ApiError Pull) :
    r.live (s.finish a) = r.live s := rfl

@[simp] theorem live_go (s : World) (call : Call) (lost : Option GitError) :
    r.live (s.go call lost) = r.live s := by
  cases lost <;> rfl

theorem live_listed (call next : Call) (s : World) : r.live (r.listed call next s) = r.live s := by
  unfold Resource.listed
  split <;> rfl

theorem live_refused (s : World) (call : Call) (e : GitError) :
    r.live (s.refused call e) = r.live s := by
  unfold World.refused
  split <;> rfl

theorem live_of_page {s : World} (h : s.page.find? r.has = none)
    (hpage : ∀ pr ∈ r.live s, pr ∈ s.page) : r.live s = [] := by
  rw [List.eq_nil_iff_forall_not_mem]
  intro pr hpr
  have hhas : r.has pr = true := (List.mem_filter.mp hpr).2
  exact List.find?_eq_none.mp h pr (hpage pr hpr) hhas

/-- **What a step does to the open changes**: only a proposal opens one. -/
theorem step_live {s s' : World} {e : Event} (h : step r s e = some s')
    (hne : ∀ number lost, e ≠ .propose number lost) : (r.live s').Subperm (r.live s) := by
  cases e with
  | take asks =>
    simp only [step] at h
    split at h
    · cases h
      exact List.Subperm.refl _
    · exact absurd h (by simp)
  | list =>
    simp only [step] at h
    split at h
    · cases h
      rw [live_listed]
    · cases h
      rw [live_listed]
    · exact absurd h (by simp)
  | create lost =>
    simp only [step] at h
    split at h
    · split at h
      · exact absurd h (by simp)
      · cases h
        rw [live_go]
        exact List.Subperm.refl _
    · exact absurd h (by simp)
  | delete lost =>
    simp only [step] at h
    split at h
    · cases h
      rw [live_go]
      exact List.Subperm.refl _
    · exact absurd h (by simp)
  | recreate nonce lost =>
    simp only [step] at h
    split at h
    · split at h
      · exact absurd h (by simp)
      · cases h
        rw [live_go]
        exact List.Subperm.refl _
    · exact absurd h (by simp)
  | propose number lost => exact absurd rfl (hne number lost)
  | refuse error =>
    obtain ⟨call, -, rfl⟩ := Option.map_eq_some_iff.mp h
    rw [live_refused]
  | update number =>
    cases h
    exact (List.Perm.filter r.has (List.filter_append_perm _ s.pulls)).subperm
  | close number =>
    cases h
    exact (List.filter_sublist.filter r.has).subperm
  | others pr =>
    simp only [step] at h
    split at h
    · exact absurd h (by simp)
    · rename_i hpr
      cases h
      unfold Resource.live
      rw [List.filter_cons_of_neg hpr]
  | sprout head =>
    cases h
    exact List.Subperm.refl _
  | drop head =>
    cases h
    exact List.Subperm.refl _

theorem free_of_subperm {s s' : World} (hturn : s'.turn = s.turn)
    (hlive : (r.live s').Subperm (r.live s)) (hfree : Free r s) : Free r s' := by
  have hnil : r.live s = [] → r.live s' = [] := by
    intro hs
    rw [hs] at hlive
    exact List.subperm_nil.mp hlive
  unfold Free at hfree ⊢
  rw [hturn]
  split at hfree
  · exact hnil hfree
  · exact hnil hfree
  · exact hnil hfree
  · exact hnil hfree
  · trivial

theorem free_finish (s : World) (a : Except ApiError Pull) : Free r (s.finish a) := True.intro

theorem free_go {s : World} (call : Call) (lost : Option GitError) (h : r.live s = []) :
    Free r (s.go call lost) := by
  cases lost with
  | none =>
    unfold Free
    split
    · exact h
    · exact h
    · exact h
    · exact h
    · trivial
  | some e => exact free_finish s _

theorem free_listed {s : World} (call next : Call) (hpage : ∀ pr ∈ r.live s, pr ∈ s.page) :
    Free r (r.listed call next s) := by
  unfold Resource.listed
  split
  · exact free_finish s _
  · rename_i hnone
    exact free_go next none (live_of_page hnone hpage)

theorem free_refused {s : World} {call : Call} {e : GitError} (hturn : s.turn = some call)
    (hclear : Clear r ⟨s, .refuse e, s.refused call e⟩) (hfree : Free r s) :
    Free r (s.refused call e) := by
  unfold World.refused
  split
  · refine free_go _ none ?_
    unfold Clear at hclear
    simpa only [hturn] using hclear
  · exact True.intro
  · refine free_go _ none ?_
    unfold Free at hfree
    simpa only [hturn] using hfree
  · exact free_finish s _

/-- a branch is made or deleted only where nothing of the resource is open -/
theorem live_of_touches {s s' : World} {e : Event} (h : step r s e = some s')
    (hclear : Clear r ⟨s, e, s'⟩) (hfree : Free r s) (he : e.touches = true) : r.live s = [] := by
  cases e with
  | create lost =>
    simp only [step] at h
    split at h
    · rename_i asked hturn
      -- the door that asked knows, for the other the step is clear
      cases asked with
      | true => simpa only [Free, hturn] using hfree
      | false => simpa only [Clear, hturn] using hclear
    · exact absurd h (by simp)
  | delete lost =>
    simp only [step] at h
    split at h
    · rename_i hturn
      simpa only [Free, hturn] using hfree
    · exact absurd h (by simp)
  | recreate nonce lost =>
    simp only [step] at h
    split at h
    · rename_i hturn
      simpa only [Free, hturn] using hfree
    · exact absurd h (by simp)
  | _ => exact absurd he (by simp [Event.touches])

/-- **One step**: a proposal that goes on knows that nothing is open. -/
theorem step_free {s s' : World} {e : Event} (h : step r s e = some s')
    (hclear : Clear r ⟨s, e, s'⟩) (hfree : Free r s) : Free r s' := by
  have hlive := step_live h
  have htouch := live_of_touches h hclear hfree
  cases e with
  | take asks =>
    simp only [step] at h
    split at h
    · cases h
      cases asks <;> exact True.intro
    · exact absurd h (by simp)
  | list =>
    simp only [step] at h
    split at h
    · cases h
      exact free_listed _ _ hclear
    · cases h
      exact free_listed _ _ hclear
    · exact absurd h (by simp)
  | create lost =>
    simp only [step] at h
    split at h
    · split at h
      · exact absurd h (by simp)
      · cases h
        exact free_go _ lost (show r.live s = [] from htouch rfl)
    · exact absurd h (by simp)
  | delete lost =>
    simp only [step] at h
    split at h
    · cases h
      exact free_go _ lost (show r.live s = [] from htouch rfl)
    · exact absurd h (by simp)
  | recreate nonce lost =>
    simp only [step] at h
    split at h
    · split at h
      · exact absurd h (by simp)
      · cases h
        exact free_go _ lost (show r.live s = [] from htouch rfl)
    · exact absurd h (by simp)
  | propose number lost =>
    simp only [step] at h
    split at h
    · split at h
      · exact absurd h (by simp)
      · cases h
        exact True.intro
    · exact absurd h (by simp)
  | refuse error =>
    obtain ⟨call, hturn, rfl⟩ := Option.map_eq_some_iff.mp h
    exact free_refused hturn hclear hfree
  | update number =>
    cases h
    exact free_of_subperm (s := s) rfl (hlive (by simp)) hfree
  | close number =>
    cases h
    exact free_of_subperm (s := s) rfl (hlive (by simp)) hfree
  | others pr =>
    have hturn : s'.turn = s.turn := by
      simp only [step] at h
      split at h
      · exact absurd h (by simp)
      · cases h
        rfl
    exact free_of_subperm hturn (hlive (by simp)) hfree
  | sprout head =>
    cases h
    exact free_of_subperm (s := s) rfl (hlive (by simp)) hfree
  | drop head =>
    cases h
    exact free_of_subperm (s := s) rfl (hlive (by simp)) hfree

/-- **One step**: no second change of the resource is opened. -/
theorem step_one {s s' : World} {e : Event} (h : step r s e = some s') (hfree : Free r s)
    (hone : (r.live s).length ≤ 1) : (r.live s').length ≤ 1 := by
  by_cases hp : ∃ number lost, e = .propose number lost
  · obtain ⟨number, lost, rfl⟩ := hp
    simp only [step] at h
    split at h
    · rename_i head hturn
      split at h
      · exact absurd h (by simp)
      · cases h
        have hnil : r.live s = [] := by
          simpa only [Free, hturn] using hfree
        unfold Resource.live at hnil
        rw [live_finish]
        unfold Resource.live
        rw [List.filter_cons]
        split <;> simp [hnil]
    · exact absurd h (by simp)
  · have hlive := step_live h (fun number lost he => hp ⟨number, lost, he⟩)
    exact hlive.length_le.trans hone

/-- a proposal that looks while a change is open is answered with the open one -/
theorem listed_already {s s' : World} (h : step r s .list = some s')
    (hclear : Clear r ⟨s, .list, s'⟩) (hlive : r.live s ≠ []) :
    s'.turn = none ∧ ∃ call, s.turn = some call ∧ ∃ pr ∈ r.live s,
      s'.answers = .error (r.already call pr) :: s.answers := by
  -- the page holds an open change, and the first found is one
  have hfound : ∀ call next, ∃ pr ∈ r.live s,
      r.listed call next s = s.finish (.error (r.already call pr)) := by
    intro call next
    cases hf : s.page.find? r.has with
    | none => exact absurd (live_of_page hf hclear) hlive
    | some pr =>
      refine ⟨pr, List.mem_filter.mpr ⟨?_, List.find?_some hf⟩, by rw [Resource.listed, hf]⟩
      exact List.mem_of_mem_take (List.mem_of_find?_eq_some hf)
  simp only [step] at h
  split at h
  · rename_i hturn
    cases h
    obtain ⟨pr, hpr, he⟩ := hfound .asking (.creating true)
    rw [he]
    exact ⟨rfl, .asking, hturn, pr, hpr, rfl⟩
  · rename_i hturn
    cases h
    obtain ⟨pr, hpr, he⟩ := hfound .looking .deleting
    rw [he]
    exact ⟨rfl, .looking, hturn, pr, hpr, rfl⟩
  · exact absurd h (by simp)

/-- **One open change per branch**: in every run whose steps are clear, at most one change of the
resource is open, a branch is made or deleted only where none is, and a proposal that looks while
one is open is answered with it. -/
theorem one_open_change {s₀ s : World} {tr : List (Trans World Event)} (hturn : s₀.turn = none)
    (hone : (r.live s₀).length ≤ 1) (hr : Run (step r) s₀ tr s) (hclear : ∀ t ∈ tr, Clear r t) :
    (r.live s).length ≤ 1 ∧
    (∀ t ∈ tr, t.act.touches = true → r.live t.before = []) ∧
    (∀ t ∈ tr, t.act = .list → r.live t.before ≠ [] →
      t.after.turn = none ∧ ∃ call, t.before.turn = some call ∧ ∃ pr ∈ r.live t.before,
        t.after.answers = .error (r.already call pr) :: t.before.answers) := by
  have hstart : Free r s₀ := by
    unfold Free
    rw [hturn]
    trivial
  have hrun : (Free r s ∧ (r.live s).length ≤ 1) ∧
      ∀ t ∈ tr, t.act.touches = true → r.live t.before = [] := by
    refine Run.history (I := fun tr s => (Free r s ∧ (r.live s).length ≤ 1) ∧
      ∀ t ∈ tr, t.act.touches = true → r.live t.before = []) (C := Clear r)
      ⟨⟨hstart, hone⟩, by simp⟩ ?_ hr hclear
    intro tr s e s' _ hstep hc ⟨⟨hfree, hone⟩, htouched⟩
    refine ⟨⟨step_free hstep hc hfree, step_one hstep hfree hone⟩, ?_⟩
    intro t ht he
    rcases List.mem_append.mp ht with ht | ht
    · exact htouched t ht he
    · obtain rfl := List.mem_singleton.mp ht
      exact live_of_touches hstep hc hfree he
  refine ⟨hrun.1.2, hrun.2, ?_⟩
  intro t ht hlist hlive
  obtain ⟨a, b, rfl⟩ := List.append_of_mem ht
  obtain ⟨-, hstep, -⟩ := hr.at
  obtain ⟨before, act, after⟩ := t
  subst hlist
  exact listed_already hstep (hclear _ ht) hlive

end

/-! ## the fifty-first change -/

def dashboardUpdate : Resource where
  branch := "portal/update-dashboard-air-0b1c2d3e"
  kind := "Dashboard"
  name := "air"
  change := changeId

def otherPulls (n : Nat) : List Pull :=
  (List.range n).map (fun i => ⟨i + 2, "layers-" ++ toString i⟩)

/-- the dashboard's change is open, and `n` others were updated after it -/
def openAmong (n : Nat) : World where
  branches := ["portal/update-dashboard-air-0b1c2d3e"]
  pulls := otherPulls n ++ [⟨1, "portal/update-dashboard-air-0b1c2d3e"⟩]
  turn := none
  answers := []

/-- a proposal of the same resource, as far as the forge lets it -/
def proposedAgain : List Event :=
  [.take true, .list, .refuse (.conflict "The branch already exists."), .list, .delete none,
    .recreate "0000abcd" none, .propose 99 none]

/-- the change is closed and its branch stays: the next proposal replaces it -/
def closedThenAgain : List Event := [.close 1] ++ proposedAgain ++ [.take true, .list]

theorem one_open_change_of_closed :
    (dashboardUpdate.live (final (step dashboardUpdate) (openAmong 3) closedThenAgain)).map Pull.head
      = ["portal/update-dashboard-air-0b1c2d3e_0000abcd"] ∧
    (dashboardUpdate.live (final (step dashboardUpdate) (openAmong 3) closedThenAgain)).length ≤ 1 := by
  have hrun : Run (step dashboardUpdate) (openAmong 3)
      (trace (step dashboardUpdate) (openAmong 3) closedThenAgain)
      (final (step dashboardUpdate) (openAmong 3) closedThenAgain) := run_trace (by decide +kernel)
  refine ⟨by decide +kernel, ?_⟩
  exact (one_open_change rfl (by decide +kernel) hrun (by decide +kernel)).1

/-- **A live change loses its branch**: fifty others were updated after it, so the page does not
list it; its branch is deleted under it and a second change of the resource opens. -/
theorem live_branch_deleted :
    Run (step dashboardUpdate) (openAmong 50)
      (trace (step dashboardUpdate) (openAmong 50) proposedAgain)
      (final (step dashboardUpdate) (openAmong 50) proposedAgain) ∧
    (∃ t ∈ trace (step dashboardUpdate) (openAmong 50) proposedAgain, t.act = .delete none ∧
      (⟨1, dashboardUpdate.branch⟩ : Pull) ∈ t.before.pulls ∧
      dashboardUpdate.branch ∈ t.before.branches ∧ dashboardUpdate.branch ∉ t.after.branches) ∧
    (dashboardUpdate.live (final (step dashboardUpdate) (openAmong 50) proposedAgain)).length = 2 := by
  have heval : (exec (step dashboardUpdate) (openAmong 50) proposedAgain).isSome = true ∧
      (∃ t ∈ trace (step dashboardUpdate) (openAmong 50) proposedAgain, t.act = .delete none ∧
        (⟨1, dashboardUpdate.branch⟩ : Pull) ∈ t.before.pulls ∧
        dashboardUpdate.branch ∈ t.before.branches ∧ dashboardUpdate.branch ∉ t.after.branches) ∧
      (dashboardUpdate.live
        (final (step dashboardUpdate) (openAmong 50) proposedAgain)).length = 2 := by
    decide +kernel
  exact ⟨run_trace heval.1, heval.2⟩

end Turns
end Changes
end Portal
