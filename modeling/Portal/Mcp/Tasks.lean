import Portal.Base.Machine
import Portal.Deployer.Sources

/-!
# Calls that run on as tasks (`mcp/tasks.rs`)

A call that waits on something else answers a task at once and runs on.  Its entry is stored before
its work is spawned, and the handle to stop it by is stored after, so the work may finish, and the
task be cancelled, in between; a work that is stopped may still come to its end.

* `McpTasks`      the tasks: `describe`, `result`, `cancel`, `list`;
* `step`          starts, handles, ends and cancels, in any order;
* `lastStart`     the start a task is of;
* `Told`          what a task says of its work, `told_run` along runs;
* `result_own`    **the law**: what a task answers is what its own work ended with, to its caller;
* `settled_run`   **the law**: a task that has ended does not change.
-/

namespace Portal
namespace Mcp

/-- `TASK_TTL_SECONDS` -/
def taskTtlSeconds : Int := 600

inductive Status where
  | working
  | completed
  | failed
  | cancelled
deriving DecidableEq

structure Task where
  owner : String
  status : Status
  result : Option Value
  createdAt : Int
  finishedAt : Option Int
  /-- the number of the work it stops -/
  handle : Option Nat
deriving DecidableEq

structure Described where
  taskId : String
  status : Status
  createdAt : Int
deriving DecidableEq

def Task.fresh (owner : String) (now : Int) : Task := ⟨owner, .working, none, now, none, none⟩

def endStatus (outcome : Value) : Status :=
  if outcome.get? "isError" = some (.bool true) then .failed else .completed

/-- the end of a task's work: a cancelled task drops it -/
def Task.ended (task : Task) (outcome : Value) (now : Int) : Task :=
  if task.status = .working then
    { task with status := endStatus outcome, result := some outcome, finishedAt := some now }
  else task

def Task.cancelled (task : Task) (now : Int) : Task :=
  if task.status = .working then
    { task with status := .cancelled, finishedAt := some now, handle := none }
  else task

abbrev McpTasks := OrdMap String Task

namespace McpTasks

def owned (tasks : McpTasks) (owner id : String) : Option Task :=
  (tasks.get? id).filter (fun task => task.owner = owner)

def describe (tasks : McpTasks) (owner id : String) : Option Described :=
  (tasks.owned owner id).map (fun task => ⟨id, task.status, task.createdAt⟩)

def result (tasks : McpTasks) (owner id : String) : Except String (Option Value) :=
  match tasks.owned owner id with
  | none => .ok none
  | some task =>
    match task.status, task.result with
    | .working, _ => .error "the task is still working"
    | .cancelled, _ => .error "the task was cancelled"
    | _, some result => .ok (some result)
    | _, none => .error "the task left no result"

def cancel (tasks : McpTasks) (owner id : String) (now : Int) : McpTasks :=
  match tasks.owned owner id with
  | none => tasks
  | some task => tasks.insert id (task.cancelled now)

/-- the caller's tasks, newest first -/
def list (tasks : McpTasks) (owner : String) : List Described :=
  ((tasks.toList.filter (fun p => p.2.owner = owner)).map
    (fun p => Described.mk p.1 p.2.status p.2.createdAt)).mergeSort
      (fun a b => b.createdAt ≤ a.createdAt)

def forgetExpired (tasks : McpTasks) (now : Int) : McpTasks :=
  tasks.retain (fun task => task.finishedAt.all (fun ended => now - ended < taskTtlSeconds))

end McpTasks

/-! ## runs -/

structure Tasking where
  tasks : McpTasks
  /-- the works that run, by the number of their start, and the key each of them ends under -/
  works : OrdMap Nat String
  /-- the starts that have not stored their handle yet -/
  starting : OrdMap Nat String
  /-- the works that were told to stop -/
  stopped : List Nat
  next : Nat
  now : Int

inductive TaskAct where
  /-- a start begins by forgetting what is over -/
  | forget
  /-- the entry is stored and the work spawned, under the id drawn -/
  | start (owner id : String)
  /-- the start of a work stores its handle -/
  | attach (number : Nat)
  | finish (number : Nat) (outcome : Value)
  /-- a work that was told to stop is dropped -/
  | drop (number : Nat)
  | cancel (owner id : String)
  | tick (now : Int)

def tasking (s : Tasking) : TaskAct → Option Tasking
  | .forget => some { s with tasks := s.tasks.forgetExpired s.now }
  | .start owner id =>
    some { s with
      tasks := s.tasks.insert id (.fresh owner s.now)
      works := s.works.insert s.next id
      starting := s.starting.insert s.next id
      next := s.next + 1 }
  | .attach number =>
    (s.starting.get? number).map (fun id =>
      { s with
        tasks := s.tasks.modify id (fun task => { task with handle := some number })
        starting := s.starting.erase number })
  | .finish number outcome =>
    (s.works.get? number).map (fun id =>
      { s with
        tasks := s.tasks.modify id (fun task => task.ended outcome s.now)
        works := s.works.erase number })
  | .drop number =>
    if number ∈ s.stopped then some { s with works := s.works.erase number } else none
  | .cancel owner id =>
    some { s with
      tasks := s.tasks.cancel owner id s.now
      stopped := (((s.tasks.owned owner id).filter (fun task => task.status = .working)).bind
        Task.handle).toList ++ s.stopped }
  | .tick now => some { s with now }

def Tasking.fresh (now : Int) : Tasking :=
  ⟨OrdMap.empty, OrdMap.empty, OrdMap.empty, [], 0, now⟩

def draws (t : Trans Tasking TaskAct) : Bool :=
  match t.act with
  | .start _ id =>
    (t.before.tasks.get? id).isNone && t.before.works.toList.all (fun p => p.2 ≠ id)
  | _ => true

def starts (id : String) (t : Trans Tasking TaskAct) : Bool :=
  match t.act with
  | .start _ id' => id' = id
  | _ => false

def lastStart (id : String) (tr : List (Trans Tasking TaskAct)) : Option (Trans Tasking TaskAct) :=
  tr.reverse.find? (starts id)

/-- what the end of a task says of its work, which has the number of its start -/
def Story (tr : List (Trans Tasking TaskAct)) (number : Nat) (id : String) (task : Task) : Prop :=
  match task.status with
  | .working => task.result = none
  | .cancelled => task.result = none ∧ ∃ u ∈ tr, u.act = .cancel task.owner id
  | status => ∃ u ∈ tr, ∃ outcome, u.act = .finish number outcome ∧ task.result = some outcome ∧
      status = endStatus outcome

/-- a task is of the last start under its id, by its owner, and tells what became of it -/
def Told (tr : List (Trans Tasking TaskAct)) (id : String) (task : Task) : Prop :=
  ∃ t, lastStart id tr = some t ∧ t.act = .start task.owner id ∧ Story tr t.before.next id task

/-- a work that runs is of the last start under its key -/
def Runs (tr : List (Trans Tasking TaskAct)) (number : Nat) (id : String) : Prop :=
  ∃ t, lastStart id tr = some t ∧ t.before.next = number

/-! ## one step -/

section
variable {tr : List (Trans Tasking TaskAct)} {t : Trans Tasking TaskAct} {s s' : Tasking}
  {a : TaskAct} {id : String} {task task' : Task} {number : Nat}

theorem lastStart_snoc (id : String) (tr : List (Trans Tasking TaskAct))
    (t : Trans Tasking TaskAct) :
    lastStart id (tr ++ [t]) = if starts id t then some t else lastStart id tr := by
  unfold lastStart
  rw [List.reverse_append, List.reverse_singleton, List.singleton_append, List.find?_cons]
  cases starts id t <;> rfl

theorem starts_iff : starts id t = true ↔ ∃ owner, t.act = .start owner id := by
  unfold starts
  cases t.act <;> simp

theorem Story.snoc (h : Story tr number id task) (t : Trans Tasking TaskAct) :
    Story (tr ++ [t]) number id task := by
  unfold Story at *
  split at h
  · exact h
  · obtain ⟨hresult, u, hu, hact⟩ := h
    exact ⟨hresult, u, List.mem_append_left _ hu, hact⟩
  · obtain ⟨u, hu, h⟩ := h
    exact ⟨u, List.mem_append_left _ hu, h⟩

theorem Told.snoc (h : Told tr id task) (ht : starts id t = false) : Told (tr ++ [t]) id task := by
  obtain ⟨u, hlast, hact, hstory⟩ := h
  exact ⟨u, by rw [lastStart_snoc, ht]; exact hlast, hact, hstory.snoc t⟩

theorem Runs.snoc (h : Runs tr number id) (ht : starts id t = false) :
    Runs (tr ++ [t]) number id := by
  obtain ⟨u, hlast, hnumber⟩ := h
  exact ⟨u, by rw [lastStart_snoc, ht]; exact hlast, hnumber⟩

theorem owned_eq_some {tasks : McpTasks} {owner : String} :
    tasks.owned owner id = some task ↔ tasks.get? id = some task ∧ task.owner = owner := by
  unfold McpTasks.owned
  rw [Option.filter_eq_some_iff]
  simp

/-- **Step**: a task was just stored, is as it was, got its handle, or ended by its work or its
owner while it worked. -/
inductive Moves (s : Tasking) (a : TaskAct) (id : String) : Task → Task → Prop
  | same (task : Task) : Moves s a id task task
  | handle (task : Task) (number : Nat) : Moves s a id task { task with handle := some number }
  | ends {task : Task} {number : Nat} {outcome : Value} (hact : a = .finish number outcome)
      (hwork : s.works.get? number = some id) (hworking : task.status = .working) :
      Moves s a id task (task.ended outcome s.now)
  | cancels {task : Task} (hact : a = .cancel task.owner id) (hworking : task.status = .working) :
      Moves s a id task (task.cancelled s.now)

theorem task_of_step (h : tasking s a = some s') (hget : s'.tasks.get? id = some task') :
    (∃ owner, a = .start owner id ∧ task' = .fresh owner s.now) ∨
      starts id ⟨s, a, s'⟩ = false ∧
        ∃ task, s.tasks.get? id = some task ∧ Moves s a id task task' := by
  cases a with
  | forget =>
    obtain rfl := Option.some.inj h
    unfold McpTasks.forgetExpired at hget
    rw [OrdMap.get?_retain, Option.filter_eq_some_iff] at hget
    exact .inr ⟨rfl, task', hget.1, .same _⟩
  | start owner id₀ =>
    obtain rfl := Option.some.inj h
    rw [OrdMap.get?_insert] at hget
    by_cases hid : id = id₀
    · rw [if_pos hid] at hget
      exact .inl ⟨owner, by rw [hid], (Option.some.inj hget).symm⟩
    · rw [if_neg hid] at hget
      exact .inr ⟨by simpa [starts] using Ne.symm hid, task', hget, .same _⟩
  | attach number =>
    obtain ⟨id₀, -, rfl⟩ := Option.map_eq_some_iff.1 h
    refine .inr ⟨rfl, ?_⟩
    rw [OrdMap.get?_modify] at hget
    split at hget
    · rename_i hid
      obtain ⟨task, htask, rfl⟩ := Option.map_eq_some_iff.1 hget
      exact ⟨task, hid ▸ htask, .handle task number⟩
    · exact ⟨task', hget, .same _⟩
  | finish number outcome =>
    obtain ⟨id₀, hwork, rfl⟩ := Option.map_eq_some_iff.1 h
    refine .inr ⟨rfl, ?_⟩
    rw [OrdMap.get?_modify] at hget
    split at hget
    · rename_i hid
      obtain ⟨task, htask, rfl⟩ := Option.map_eq_some_iff.1 hget
      refine ⟨task, hid ▸ htask, ?_⟩
      by_cases hworking : task.status = .working
      · exact .ends rfl (hid ▸ hwork) hworking
      · unfold Task.ended
        rw [if_neg hworking]
        exact .same _
    · exact ⟨task', hget, .same _⟩
  | drop number =>
    simp only [tasking] at h
    split at h
    · obtain rfl := Option.some.inj h
      exact .inr ⟨rfl, task', hget, .same _⟩
    · exact absurd h (by simp)
  | cancel owner id₀ =>
    obtain rfl := Option.some.inj h
    refine .inr ⟨rfl, ?_⟩
    unfold McpTasks.cancel at hget
    cases howned : s.tasks.owned owner id₀ with
    | none =>
      simp only [howned] at hget
      exact ⟨task', hget, .same _⟩
    | some task =>
      simp only [howned] at hget
      obtain ⟨htask, rfl⟩ := owned_eq_some.1 howned
      rw [OrdMap.get?_insert] at hget
      by_cases hid : id = id₀
      · rw [if_pos hid] at hget
        obtain rfl := Option.some.inj hget
        subst hid
        refine ⟨task, htask, ?_⟩
        by_cases hworking : task.status = .working
        · exact .cancels rfl hworking
        · unfold Task.cancelled
          rw [if_neg hworking]
          exact .same _
      · rw [if_neg hid] at hget
        exact ⟨task', hget, .same _⟩
  | tick now =>
    obtain rfl := Option.some.inj h
    exact .inr ⟨rfl, task', hget, .same _⟩

theorem work_of_step (h : tasking s a = some s') (hget : s'.works.get? number = some id) :
    (∃ owner, a = .start owner id ∧ number = s.next) ∨ s.works.get? number = some id := by
  cases a with
  | forget =>
    obtain rfl := Option.some.inj h
    exact .inr hget
  | start owner id₀ =>
    obtain rfl := Option.some.inj h
    rw [OrdMap.get?_insert] at hget
    by_cases hnumber : number = s.next
    · rw [if_pos hnumber] at hget
      exact .inl ⟨owner, by rw [Option.some.inj hget], hnumber⟩
    · rw [if_neg hnumber] at hget
      exact .inr hget
  | attach number₀ =>
    obtain ⟨id₀, -, rfl⟩ := Option.map_eq_some_iff.1 h
    exact .inr hget
  | finish number₀ outcome =>
    obtain ⟨id₀, -, rfl⟩ := Option.map_eq_some_iff.1 h
    exact .inr (OrdMap.of_get?_erase hget).2
  | drop number₀ =>
    simp only [tasking] at h
    split at h
    · obtain rfl := Option.some.inj h
      exact .inr (OrdMap.of_get?_erase hget).2
    · exact absurd h (by simp)
  | cancel owner id₀ =>
    obtain rfl := Option.some.inj h
    exact .inr hget
  | tick now =>
    obtain rfl := Option.some.inj h
    exact .inr hget

/-! ## runs -/

theorem Told.moves (h : Told tr id task) (hruns : ∀ n, s.works.get? n = some id → Runs tr n id)
    (ht : starts id ⟨s, a, s'⟩ = false) (hmoves : Moves s a id task task') :
    Told (tr ++ [⟨s, a, s'⟩]) id task' := by
  cases hmoves with
  | same => exact h.snoc ht
  | handle number => exact @Told.snoc _ _ _ task h ht
  | @ends number outcome hact hwork hworking =>
    obtain ⟨u, hlast, hstart, -⟩ := h
    obtain ⟨u', hlast', hnumber⟩ := hruns number hwork
    obtain rfl := Option.some.inj (hlast.symm.trans hlast')
    refine ⟨u, by rw [lastStart_snoc, ht]; exact hlast, ?_, ?_⟩
    · unfold Task.ended
      rw [if_pos hworking]
      exact hstart
    · have hlate : (⟨s, a, s'⟩ : Trans Tasking TaskAct) ∈ tr ++ [⟨s, a, s'⟩] := by simp
      unfold Task.ended
      rw [if_pos hworking]
      unfold Story endStatus
      split
      · rename_i hstatus
        exact absurd hstatus (by dsimp only; split <;> simp)
      · rename_i hstatus
        exact absurd hstatus (by dsimp only; split <;> simp)
      · exact ⟨_, hlate, outcome, by rw [hnumber]; exact hact, rfl, rfl⟩
  | cancels hact hworking =>
    obtain ⟨u, hlast, hstart, hstory⟩ := h
    refine ⟨u, by rw [lastStart_snoc, ht]; exact hlast, ?_, ?_⟩
    · unfold Task.cancelled
      rw [if_pos hworking]
      exact hstart
    · have hnone : task.result = none := by
        unfold Story at hstory
        rw [hworking] at hstory
        exact hstory
      unfold Task.cancelled
      rw [if_pos hworking]
      exact ⟨hnone, _, List.mem_append_right _ (List.mem_singleton_self _), hact⟩

theorem draws_start {owner : String} (hdraw : draws ⟨s, a, s'⟩ = true) (hact : a = .start owner id) :
    s.tasks.get? id = none ∧ ∀ number, s.works.get? number ≠ some id := by
  subst hact
  obtain ⟨htask, hworks⟩ := Bool.and_eq_true_iff.1 hdraw
  refine ⟨Option.isNone_iff_eq_none.1 htask, ?_⟩
  intro number hwork
  have hne := List.all_eq_true.1 hworks (number, id) ((OrdMap.mem_toList _ _ _).2 hwork)
  simp at hne

/-- **Run**: a task tells what became of the work of its start, and a work that runs is of the last
start under its key. -/
theorem told_run {n₀ : Int} (hr : Run tasking (.fresh n₀) tr s) (hdraws : ∀ t ∈ tr, draws t = true) :
    (∀ id task, s.tasks.get? id = some task → Told tr id task) ∧
      ∀ number id, s.works.get? number = some id → Runs tr number id := by
  refine Run.history (C := fun t => draws t = true)
    (I := fun tr s => (∀ id task, s.tasks.get? id = some task → Told tr id task) ∧
      ∀ number id, s.works.get? number = some id → Runs tr number id) ?_ ?_ hr hdraws
  · unfold Tasking.fresh
    exact ⟨fun _ _ h => absurd h (by simp), fun _ _ h => absurd h (by simp)⟩
  · intro tr s a s' _ hstep hdraw ih
    refine ⟨?_, ?_⟩
    · intro id task' hget
      rcases task_of_step hstep hget with ⟨owner, rfl, rfl⟩ | ⟨ht, task, htask, hmoves⟩
      · have hstarts : starts id ⟨s, .start owner id, s'⟩ = true := starts_iff.2 ⟨owner, rfl⟩
        exact ⟨⟨s, .start owner id, s'⟩, by rw [lastStart_snoc, if_pos hstarts], rfl, rfl⟩
      · exact (ih.1 id task htask).moves (fun n hn => ih.2 n id hn) ht hmoves
    · intro number id hget
      rcases work_of_step hstep hget with ⟨owner, rfl, rfl⟩ | hwork
      · have hstarts : starts id ⟨s, .start owner id, s'⟩ = true := starts_iff.2 ⟨owner, rfl⟩
        exact ⟨⟨s, .start owner id, s'⟩, by rw [lastStart_snoc, if_pos hstarts], rfl⟩
      · cases ht : starts id ⟨s, a, s'⟩ with
        | false => exact (ih.2 number id hwork).snoc ht
        | true =>
          -- a work of this key would have kept the id from being drawn
          obtain ⟨owner, hact⟩ := starts_iff.1 ht
          exact absurd hwork ((draws_start hdraw hact).2 number)

/-- **A task answers what its own work ended with, to the caller who started it**: the work is that of
the last start under its id. -/
theorem result_own {n₀ : Int} (hr : Run tasking (.fresh n₀) tr s)
    (hdraws : ∀ t ∈ tr, draws t = true) {owner : String} {v : Value}
    (h : s.tasks.result owner id = .ok (some v)) :
    ∃ t, lastStart id tr = some t ∧ t.act = .start owner id ∧
      ∃ u ∈ tr, u.act = .finish t.before.next v := by
  unfold McpTasks.result at h
  cases howned : s.tasks.owned owner id with
  | none => simp [howned] at h
  | some task =>
    obtain ⟨htask, rfl⟩ := owned_eq_some.1 howned
    obtain ⟨t, hlast, hact, hstory⟩ := (told_run hr hdraws).1 id task htask
    refine ⟨t, hlast, hact, ?_⟩
    simp only [howned] at h
    unfold Story at hstory
    split at hstory
    · rename_i hstatus
      simp [hstatus] at h
    · rename_i hstatus
      simp [hstatus] at h
    · obtain ⟨u, hu, outcome, hfinish, hresult, -⟩ := hstory
      have hv : outcome = v := by
        rw [hresult] at h
        split at h <;> simp_all
      exact ⟨u, hu, hv ▸ hfinish⟩

/-! ## a task that has ended -/

/-- what was answered of a task stays so -/
def Task.Settles (task task' : Task) : Prop :=
  task'.owner = task.owner ∧ task'.status = task.status ∧ task'.result = task.result ∧
    task'.finishedAt = task.finishedAt

theorem settles_of_moves (hended : task.status ≠ .working) (h : Moves s a id task task') :
    task.Settles task' := by
  cases h with
  | same => exact ⟨rfl, rfl, rfl, rfl⟩
  | handle number => exact ⟨rfl, rfl, rfl, rfl⟩
  | ends _ _ hworking => exact absurd hworking hended
  | cancels _ hworking => exact absurd hworking hended

theorem stays_of_modify {tasks : McpTasks} {id₀ : String} {f : Task → Task}
    (hget : tasks.get? id = some task) : (tasks.modify id₀ f).get? id ≠ none := by
  rw [OrdMap.get?_modify]
  split
  · rename_i hid
    rw [← hid, hget]
    simp
  · rw [hget]
    simp

theorem stays_of_insert {tasks : McpTasks} {id₀ : String} {task₀ : Task}
    (hget : tasks.get? id = some task) : (tasks.insert id₀ task₀).get? id ≠ none := by
  rw [OrdMap.get?_insert]
  split
  · simp
  · rw [hget]
    simp

theorem forgotten_of_step (h : tasking s a = some s') (hget : s.tasks.get? id = some task)
    (hgone : s'.tasks.get? id = none) :
    a = .forget ∧ ∃ ended, task.finishedAt = some ended ∧ taskTtlSeconds ≤ s.now - ended := by
  have hstays : s'.tasks ≠ s.tasks := fun hsame =>
    absurd (hgone.symm.trans (hsame ▸ hget)) (by simp)
  cases a with
  | forget =>
    obtain rfl := Option.some.inj h
    unfold McpTasks.forgetExpired at hgone
    rw [OrdMap.get?_retain, hget] at hgone
    have hlate := Option.filter_eq_none_iff.1 hgone task rfl
    cases hat : task.finishedAt with
    | none => exact absurd (by simp [hat]) hlate
    | some ended => exact ⟨rfl, ended, rfl, by simpa [hat] using hlate⟩
  | start owner id₀ =>
    obtain rfl := Option.some.inj h
    exact absurd hgone (stays_of_insert hget)
  | attach number =>
    obtain ⟨id₀, -, rfl⟩ := Option.map_eq_some_iff.1 h
    exact absurd hgone (stays_of_modify hget)
  | finish number outcome =>
    obtain ⟨id₀, -, rfl⟩ := Option.map_eq_some_iff.1 h
    exact absurd hgone (stays_of_modify hget)
  | drop number =>
    simp only [tasking] at h
    split at h
    · obtain rfl := Option.some.inj h
      exact absurd rfl hstays
    · exact absurd h (by simp)
  | cancel owner id₀ =>
    obtain rfl := Option.some.inj h
    unfold McpTasks.cancel at hgone
    split at hgone
    · exact absurd (hgone.symm.trans hget) (by simp)
    · exact absurd hgone (stays_of_insert hget)
  | tick now =>
    obtain rfl := Option.some.inj h
    exact absurd rfl hstays

/-- a start forgets a task as it was when it ended, ten minutes or more later -/
def Forgets (id : String) (task : Task) (t : Trans Tasking TaskAct) : Prop :=
  t.act = .forget ∧ (∃ task', t.before.tasks.get? id = some task' ∧ task.Settles task') ∧
    t.after.tasks.get? id = none ∧
    ∃ ended, task.finishedAt = some ended ∧ taskTtlSeconds ≤ t.before.now - ended

/-- **A task that has ended does not change**: in every further run it answers as it did, whoever
finishes or cancels what, until a start forgets it ten minutes or more after its end. -/
theorem settled_run {s₁ : Tasking} (hr : Run tasking s₁ tr s)
    (hdraws : ∀ t ∈ tr, draws t = true) (hget : s₁.tasks.get? id = some task)
    (hended : task.status ≠ .working) :
    (∃ task', s.tasks.get? id = some task' ∧ task.Settles task') ∨ ∃ t ∈ tr, Forgets id task t := by
  refine Run.history (C := fun t => draws t = true)
    (I := fun tr s => (∃ task', s.tasks.get? id = some task' ∧ task.Settles task') ∨
      ∃ t ∈ tr, Forgets id task t) ?_ ?_ hr hdraws
  · exact .inl ⟨task, hget, rfl, rfl, rfl, rfl⟩
  · intro tr s a s' _ hstep hdraw ih
    rcases ih with ⟨task', htask', hsettles⟩ | ⟨t, ht, h⟩
    · cases hnext : s'.tasks.get? id with
      | none =>
        obtain ⟨hact, ended, hat, hlate⟩ := forgotten_of_step hstep htask' hnext
        exact .inr ⟨⟨s, a, s'⟩, by simp, hact, ⟨task', htask', hsettles⟩, hnext, ended,
          hsettles.2.2.2 ▸ hat, hlate⟩
      | some task'' =>
        rcases task_of_step hstep hnext with ⟨owner, rfl, -⟩ | ⟨-, task₀, htask₀, hmoves⟩
        · have hfree := (draws_start hdraw rfl).1
          exact absurd (hfree.symm.trans htask') (by simp)
        · obtain rfl := Option.some.inj (htask'.symm.trans htask₀)
          have hmore := settles_of_moves (hsettles.2.1 ▸ hended) hmoves
          exact .inl ⟨task'', rfl, hmore.1.trans hsettles.1, hmore.2.1.trans hsettles.2.1,
            hmore.2.2.1.trans hsettles.2.2.1, hmore.2.2.2.trans hsettles.2.2.2⟩
    · exact .inr ⟨t, List.mem_append_left _ ht, h⟩

theorem mem_list {tasks : McpTasks} {owner : String} {d : Described} :
    d ∈ tasks.list owner ↔ tasks.describe owner d.taskId = some d := by
  unfold McpTasks.list McpTasks.describe
  rw [List.mem_mergeSort, List.mem_map, Option.map_eq_some_iff]
  constructor
  · rintro ⟨p, hp, rfl⟩
    obtain ⟨hmem, howner⟩ := List.mem_filter.1 hp
    refine ⟨p.2, owned_eq_some.2 ⟨?_, of_decide_eq_true howner⟩, rfl⟩
    exact (OrdMap.mem_toList _ _ _).1 hmem
  · rintro ⟨task, howned, hd⟩
    obtain ⟨hget, howner⟩ := owned_eq_some.1 howned
    refine ⟨(d.taskId, task), List.mem_filter.2 ⟨(OrdMap.mem_toList _ _ _).2 hget, ?_⟩, hd⟩
    simpa using howner

end

/-! ## a test that runs on -/

def testOfPipeline : List TaskAct :=
  [.forget, .start "sub-1" "task-1", .finish 0 (.object [("isError", .bool false)]), .attach 0]

theorem result_own_of_test :
    ∃ t, lastStart "task-1" (trace tasking (.fresh 0) testOfPipeline) = some t ∧
      t.act = .start "sub-1" "task-1" ∧
      ∃ u ∈ trace tasking (.fresh 0) testOfPipeline,
        u.act = .finish t.before.next (.object [("isError", .bool false)]) := by
  have hresult : (final tasking (.fresh 0) testOfPipeline).tasks.result "sub-1" "task-1"
      = .ok (some (.object [("isError", .bool false)])) := by
    rfl
  exact result_own (run_trace (by decide +kernel)) (by decide +kernel) hresult

def tested : Task :=
  ⟨"sub-1", .completed, some (.object [("isError", .bool false)]), 0, some 0, some 0⟩

theorem settled_run_of_test :
    (∃ task', (final tasking (final tasking (.fresh 0) testOfPipeline)
        [.cancel "sub-1" "task-1", .tick 60, .forget]).tasks.get? "task-1" = some task' ∧
        tested.Settles task') ∨
      ∃ t ∈ trace tasking (final tasking (.fresh 0) testOfPipeline)
          [.cancel "sub-1" "task-1", .tick 60, .forget], Forgets "task-1" tested t := by
  have hget : (final tasking (.fresh 0) testOfPipeline).tasks.get? "task-1" = some tested := by
    decide +kernel
  exact settled_run (run_trace (by decide +kernel)) (by decide +kernel) hget (by decide)

end Mcp
end Portal
