import Portal.Base.Machine
import Portal.Sync.Proposal

/-!
# The loop over sync sources (`sync/driver.rs`: `pass`, `run_one`, `answer`; `sync/state.rs`: `States`;
`db.rs`: `save_sync_state`)

A pass lists the merge requests once, and runs each source it wants: it reads what the loop remembers
of the source, reads the answer to its open proposal, has `jcctl` decide, proposes what it decides, and
writes the source's memory back whole.  The operator's switch reads the memory and writes it back whole
too, and any number of passes and switches go on at the same time.

* `Stored`, `answer`      the memory of one source, and what a reviewer's answer makes of it;
* `Jcctl`, `decided`, `proposed`   what `jcctl` decides, and what the pass makes of it;
* `Loop`, `Act`, `step`   the passes and the switches in flight, and their steps;
* `takes_of_step`         what each act does.
-/

namespace Portal

/-- an error of the forge as it is shown -/
def GitError.text : GitError → String
  | .config text => "git config error: " ++ text
  | .transport text => "git transport error: " ++ text
  | .notFound => "git resource not found"
  | .conflict text => "git conflict: " ++ text
  | .api status message => "git api error " ++ toString status ++ ": " ++ message

namespace Sync

/-! ## what is remembered -/

/-- `jcctl::sync::State` -/
structure SyncState where
  observedRevision : Option String
  lastRunAt : Option Nat
  openProposal : Option String
  paused : Bool
deriving DecidableEq

structure Stored where
  state : SyncState
  /-- the revision the open proposal carries -/
  openRevision : Option String
  mergeRequest : Option String
  lastError : Option String
deriving DecidableEq

/-- a source with no run behind it -/
def Stored.fresh : Stored := ⟨⟨none, none, none, false⟩, none, none, none⟩

def Stored.closed (stored : Stored) : Stored :=
  { stored with
    state := { stored.state with openProposal := none }, openRevision := none, mergeRequest := none }

/-- what the answer to the open proposal makes of the memory, and the flag a reader needs -/
def answer (stored : Stored) (pulls : List Pull) : Option String × Stored :=
  match stored.state.openProposal with
  | none => (none, stored)
  | some branch =>
    match pulls.find? (fun pull => pull.headBranch = branch) with
    | none => (some ("the proposal on `" ++ branch ++ "` is no longer on the forge"), stored.closed)
    | some pull =>
      if pull.state = .opened then (none, { stored with mergeRequest := some pull.url })
      else
        (if pull.merged then none
          else some ("the proposal on `" ++ branch ++ "` was closed without merging"),
          { stored.closed with
            state := { stored.closed.state with observedRevision := stored.openRevision } })

section
variable {stored : Stored} {pulls : List Pull} {branch : String}

theorem answer_of_none (h : stored.state.openProposal = none) :
    answer stored pulls = (none, stored) := by
  unfold answer
  rw [h]

theorem answer_of_missing (h : stored.state.openProposal = some branch)
    (hfind : pulls.find? (fun pull => pull.headBranch = branch) = none) :
    answer stored pulls
      = (some ("the proposal on `" ++ branch ++ "` is no longer on the forge"), stored.closed) := by
  unfold answer
  rw [h]
  dsimp only
  rw [hfind]

theorem answer_of_opened (h : stored.state.openProposal = some branch) {pull : Pull}
    (hfind : pulls.find? (fun pull => pull.headBranch = branch) = some pull)
    (hstate : pull.state = .opened) :
    answer stored pulls = (none, { stored with mergeRequest := some pull.url }) := by
  unfold answer
  rw [h]
  dsimp only
  rw [hfind]
  exact if_pos hstate

theorem answer_of_closed (h : stored.state.openProposal = some branch) {pull : Pull}
    (hfind : pulls.find? (fun pull => pull.headBranch = branch) = some pull)
    (hstate : pull.state = .closed) :
    answer stored pulls
      = (if pull.merged then none
          else some ("the proposal on `" ++ branch ++ "` was closed without merging"),
        { stored.closed with
          state := { stored.closed.state with observedRevision := stored.openRevision } }) := by
  unfold answer
  rw [h]
  dsimp only
  rw [hfind]
  dsimp only
  rw [if_neg (by simp [hstate])]

end

/-! ## what `jcctl` decides -/

structure Plan where
  /-- the branch -/
  name : String
  revision : String
  /-- what the import gates refuse -/
  rejected : List String
  /-- the files, each with its manifest as YAML, none for one that does not serialise -/
  files : List (String × Option String)
  removed : List String
  autoMerge : Bool

structure Decision where
  state : SyncState
  proposal : Option Plan

/-- `jcctl::sync`: when a source of a manifest is due, and what a run decides of what it reads -/
structure Jcctl (μ ω : Type) where
  due : μ → SyncState → Nat → Bool
  poll : Bool → μ → SyncState → Nat → ω → Except String Decision

def Plan.proposal (plan : Plan) (files : List (String × String)) : Proposal where
  branch := plan.name
  files := OrdMap.ofList files
  removed := plan.removed
  autoMerge := plan.autoMerge
  line := none

inductive Phase where
  /-- the source is due, or asked for -/
  | wanted
  /-- the merge requests are listed -/
  | listed
  /-- the memory is read, and its answer is to be written -/
  | answering
  | deciding
  | proposing (plan : Plan) (files : List (String × String)) (progress : Progress)
  /-- the memory is to be written -/
  | recording
  | ended

def Plan.texts (plan : Plan) : Option (List (String × String)) :=
  plan.files.mapM fun file => file.2.map fun text => (file.1, text)

def decided (stored : Stored) : Except String Decision → Stored × Phase
  | .error e => ({ stored with lastError := some ("the sync task did not finish: " ++ e) }, .recording)
  | .ok decision =>
    let stored := { stored with state := decision.state, lastError := none }
    match decision.proposal with
    | none => (stored, .recording)
    | some plan =>
      if plan.rejected ≠ [] then
        ({ stored with lastError := some ("; ".intercalate plan.rejected) }, .recording)
      else
        match plan.texts with
        | none => (stored, .ended)
        | some files => (stored, .proposing plan files .naming)

theorem decided_of_none (stored : Stored) {decision : Decision} (h : decision.proposal = none) :
    decided stored (.ok decision)
      = ({ stored with state := decision.state, lastError := none }, .recording) := by
  unfold decided
  simp only [h]

theorem decided_of_rejected (stored : Stored) {decision : Decision} {plan : Plan}
    (h : decision.proposal = some plan) (hrejected : plan.rejected ≠ []) :
    decided stored (.ok decision)
      = ({ stored with
            state := decision.state, lastError := some ("; ".intercalate plan.rejected) },
          .recording) := by
  unfold decided
  simp only [h, if_pos hrejected]

theorem decided_of_plan (stored : Stored) {decision : Decision} {plan : Plan}
    (h : decision.proposal = some plan) (hrejected : plan.rejected = []) :
    decided stored (.ok decision)
      = ({ stored with state := decision.state, lastError := none },
          match plan.texts with
          | none => .ended
          | some files => .proposing plan files .naming) := by
  unfold decided
  simp only [h, hrejected, ne_eq, not_true_eq_false, if_false]
  cases plan.texts <;> rfl

/-- what a pass makes of what became of its proposal -/
def proposed (stored : Stored) (plan : Plan) (files : List (String × String)) :
    Progress → Stored × Phase
  | .opened pull =>
    let stored := { stored with openRevision := some plan.revision, mergeRequest := some pull.url }
    if plan.autoMerge then
      ({ stored with
          state := { stored.state with observedRevision := some plan.revision, openProposal := none }
          openRevision := none },
        .recording)
    else (stored, .recording)
  | .failed e =>
    ({ stored with state := { stored.state with openProposal := none }, lastError := some e.text },
      .recording)
  | progress => (stored, .proposing plan files progress)

/-! ## the loop -/

/-- project and name of a source -/
abbrev Key := String × String

/-- a merge request that a pass of a source opened, or took up -/
structure Entry where
  key : Key
  revision : String
  number : Nat
  branch : String
deriving DecidableEq

structure Pass (μ : Type) where
  key : Key
  manifest : μ
  asked : Bool
  now : Nat
  pulls : List Pull
  stored : Stored
  phase : Phase
  /-- for the laws: the proposal its copy of the memory records, the one it found recorded, and the
  merge request it has and is yet to record -/
  mark : Option Entry
  found : Option Entry
  holding : Option Entry
  /-- whether the source was held as the memory was read -/
  readHeld : Bool

/-- a call of the switch, with the memory it read -/
structure Switch where
  key : Key
  paused : Bool
  stored : Stored
  mark : Option Entry

structure Loop (μ : Type) where
  rows : Key → Stored
  passes : Nat → Option (Pass μ)
  switches : Nat → Option Switch
  forge : Forge
  /-- for the laws: the sources paused and not resumed since, the merge requests of the sources, and
  the one each memory records -/
  held : Key → Bool
  entries : List Entry
  marks : Key → Option Entry

inductive Act (μ ω : Type) where
  /-- a pass wants the source; each read and write of a memory may fail -/
  | want (i : Nat) (key : Key) (manifest : μ) (asked : Bool) (now : Nat) (ok : Bool)
  | list (i : Nat) (o : Outcome)
  | read (i : Nat) (ok : Bool)
  | recordAnswer (i : Nat) (ok : Bool)
  | decide (i : Nat) (origin : ω)
  | call (i : Nat) (o : Outcome)
  | record (i : Nat) (ok : Bool)
  /-- the switch reads the memory, and writes it -/
  | pause (i : Nat) (key : Key) (paused : Bool) (ok : Bool)
  | write (i : Nat) (ok : Bool)
  /-- a reviewer's answer -/
  | review (number : Nat) (merged : Bool)
  /-- a merge request is commented on, or pushed to -/
  | touch (number : Nat)
  /-- another merge request opens -/
  | others (branch base : String) (fork : Option Branch)

section
variable {μ ω : Type} (x : Outside) (j : Jcctl μ ω) (l : Loop μ)

def passGoes (i : Nat) (s : Pass μ) : Loop μ :=
  { l with passes := Function.update l.passes i (some s) }

/-- `States::put`: the memory is written whole, where the write does not fail -/
def put (key : Key) (stored : Stored) (mark : Option Entry) (ok : Bool) : Loop μ :=
  if ok then
    { l with rows := Function.update l.rows key stored, marks := Function.update l.marks key mark }
  else l

/-- `States::get`: a memory that cannot be read is a fresh one -/
def get (key : Key) (ok : Bool) : Stored := if ok then l.rows key else .fresh

/-- the proposal a memory records -/
def getMark (key : Key) (ok : Bool) : Option Entry := if ok then l.marks key else none

def readsRow (s : Pass μ) (ok : Bool) : Pass μ :=
  let (flag, stored) := answer (get l s.key ok) s.pulls
  { s with
    stored
    phase := if flag.isSome then .answering else .deciding
    mark := if stored.state.openProposal = none then none else getMark l s.key ok
    found := getMark l s.key ok
    readHeld := l.held s.key }

/-- the number of a merge request that a call opens or takes up -/
def takenUp (f f' : Forge) (progress progress' : Progress) : Option Nat :=
  if f'.next ≠ f.next then some f.next
  else if progress.pull?.isNone then progress'.pull?.map Pull.number
  else none

def afterCall (i : Nat) (s : Pass μ) (plan : Plan) (files : List (String × String))
    (progress progress' : Progress) (f' : Forge) : Loop μ :=
  let (stored, phase) := proposed s.stored plan files progress'
  let entry := (takenUp l.forge f' progress progress').map fun number =>
    (⟨s.key, plan.revision, number, plan.name⟩ : Entry)
  let mark := entry <|> s.mark
  { passGoes l i
      { s with
        stored, phase
        mark := if stored.state.openProposal = none then none else mark
        holding := entry <|> s.holding } with
    forge := f'
    entries := entry.toList ++ l.entries }

/-- the merge request of a number becomes the most recently updated -/
def touched (f : Forge) (number : Nat) : Forge :=
  { f with
    pulls := f.pulls.filter (fun pull => pull.number = number)
      ++ f.pulls.filter (fun pull => pull.number ≠ number) }

/-- another merge request on a branch of this name -/
def withOthers (f : Forge) (branch base : String) (fork : Option Branch) : Forge :=
  { f with
    pulls := ⟨f.next, x.url f.next, branch, base, .opened, false, fork⟩ :: f.pulls
    next := f.next + 1 }

def reviewed (f : Forge) (number : Nat) (merged : Bool) : Forge :=
  if merged then (mergePull x f number).1 else (closePullRequest f number).1

def step (l : Loop μ) : Act μ ω → Option (Loop μ)
  | .want i key manifest asked now ok =>
    match l.passes i with
    | some _ => none
    | none =>
      if asked || j.due manifest (get l key ok).state now then
        some (passGoes l i ⟨key, manifest, asked, now, [], .fresh, .wanted, none, none, none, false⟩)
      else none
  | .list i o =>
    match l.passes i with
    | some s =>
      match s.phase with
      | .wanted =>
        match o.reads (listPullRequests l.forge none) with
        | some pulls => some (passGoes l i { s with pulls, phase := .listed })
        | none => some (passGoes l i { s with phase := .ended })
      | _ => none
    | none => none
  | .read i ok =>
    match l.passes i with
    | some s =>
      match s.phase with
      | .listed => some (passGoes l i (readsRow l s ok))
      | _ => none
    | none => none
  | .recordAnswer i ok =>
    match l.passes i with
    | some s =>
      match s.phase with
      | .answering =>
        some (put (passGoes l i { s with phase := .deciding, found := if ok then s.mark else s.found })
          s.key s.stored s.mark ok)
      | _ => none
    | none => none
  | .decide i origin =>
    match l.passes i with
    | some s =>
      match s.phase with
      | .deciding =>
        let (stored, phase) := decided s.stored (j.poll s.asked s.manifest s.stored.state s.now origin)
        some (passGoes l i { s with stored, phase })
      | _ => none
    | none => none
  | .call i o =>
    match l.passes i with
    | some s =>
      match s.phase with
      | .proposing plan files progress =>
        match openStep x (plan.proposal files) l.forge progress o with
        | some (f', progress') => some (afterCall l i s plan files progress progress' f')
        | none => none
      | _ => none
    | none => none
  | .record i ok =>
    match l.passes i with
    | some s =>
      match s.phase with
      | .recording => some (put (passGoes l i { s with phase := .ended, holding := none }) s.key s.stored s.mark ok)
      | _ => none
    | none => none
  | .pause i key paused ok =>
    match l.switches i with
    | some _ => none
    | none =>
      some { l with
        switches := Function.update l.switches i
          (some ⟨key, paused, get l key ok, getMark l key ok⟩)
        held := if paused then l.held else Function.update l.held key false }
  | .write i ok =>
    match l.switches i with
    | some w =>
      let stored := { w.stored with state := { w.stored.state with paused := w.paused } }
      some { put l w.key stored w.mark ok with
        switches := Function.update l.switches i none
        held := if w.paused then Function.update l.held w.key true else l.held }
    | none => none
  | .review number merged => some { l with forge := reviewed x l.forge number merged }
  | .touch number => some { l with forge := touched l.forge number }
  | .others branch base fork => some { l with forge := withOthers x l.forge branch base fork }

inductive Takes (l : Loop μ) : Act μ ω → Loop μ → Prop
  | want {i : Nat} {key : Key} {manifest : μ} {asked : Bool} {now : Nat} {ok : Bool}
      (hi : l.passes i = none) :
      Takes l (.want i key manifest asked now ok)
        (passGoes l i ⟨key, manifest, asked, now, [], .fresh, .wanted, none, none, none, false⟩)
  | list {i : Nat} {o : Outcome} {s : Pass μ} {pulls : List Pull} (hi : l.passes i = some s)
      (hphase : s.phase = .wanted) (hpulls : pulls = listPullRequests l.forge none) :
      Takes l (.list i o) (passGoes l i { s with pulls, phase := .listed })
  | listFails {i : Nat} {o : Outcome} {s : Pass μ} (hi : l.passes i = some s)
      (hphase : s.phase = .wanted) : Takes l (.list i o) (passGoes l i { s with phase := .ended })
  | read {i : Nat} {ok : Bool} {s : Pass μ} (hi : l.passes i = some s) (hphase : s.phase = .listed) :
      Takes l (.read i ok) (passGoes l i (readsRow l s ok))
  | recordAnswer {i : Nat} {ok : Bool} {s : Pass μ} (hi : l.passes i = some s)
      (hphase : s.phase = .answering) :
      Takes l (.recordAnswer i ok)
        (put (passGoes l i { s with phase := .deciding, found := if ok then s.mark else s.found })
          s.key s.stored s.mark ok)
  | decide {i : Nat} {origin : ω} {s : Pass μ} (hi : l.passes i = some s)
      (hphase : s.phase = .deciding) :
      Takes l (.decide i origin)
        (passGoes l i
          { s with
            stored := (decided s.stored (j.poll s.asked s.manifest s.stored.state s.now origin)).1
            phase := (decided s.stored (j.poll s.asked s.manifest s.stored.state s.now origin)).2 })
  | call {i : Nat} {o : Outcome} {s : Pass μ} {plan : Plan} {files : List (String × String)}
      {progress progress' : Progress} {f' : Forge} (hi : l.passes i = some s)
      (hphase : s.phase = .proposing plan files progress)
      (hopen : openStep x (plan.proposal files) l.forge progress o = some (f', progress')) :
      Takes l (.call i o) (afterCall l i s plan files progress progress' f')
  | record {i : Nat} {ok : Bool} {s : Pass μ} (hi : l.passes i = some s)
      (hphase : s.phase = .recording) :
      Takes l (.record i ok) (put (passGoes l i { s with phase := .ended, holding := none }) s.key s.stored s.mark ok)
  | pause {i : Nat} {key : Key} {paused ok : Bool} (hi : l.switches i = none) :
      Takes l (.pause i key paused ok)
        { l with
          switches := Function.update l.switches i
            (some ⟨key, paused, get l key ok, getMark l key ok⟩)
          held := if paused then l.held else Function.update l.held key false }
  | write {i : Nat} {ok : Bool} {w : Switch} (hi : l.switches i = some w) :
      Takes l (.write i ok)
        { put l w.key { w.stored with state := { w.stored.state with paused := w.paused } } w.mark ok with
          switches := Function.update l.switches i none
          held := if w.paused then Function.update l.held w.key true else l.held }
  | review {number : Nat} {merged : Bool} :
      Takes l (.review number merged) { l with forge := reviewed x l.forge number merged }
  | touch {number : Nat} : Takes l (.touch number) { l with forge := touched l.forge number }
  | others {branch base : String} {fork : Option Branch} :
      Takes l (.others branch base fork) { l with forge := withOthers x l.forge branch base fork }

variable {x j l}

theorem takes_of_step {l' : Loop μ} {a : Act μ ω} (h : step x j l a = some l') :
    Takes x j l a l' := by
  cases a with
  | want i key manifest asked now ok =>
    simp only [step] at h
    split at h
    · cases h
    · rename_i hi
      split at h
      · exact Option.some.inj h ▸ .want hi
      · cases h
  | list i o =>
    simp only [step] at h
    split at h
    · rename_i s hi
      split at h
      · rename_i hphase
        split at h
        · rename_i pulls hpulls
          refine Option.some.inj h ▸ .list hi hphase ?_
          cases o <;> simp [Outcome.reads] at hpulls
          exact hpulls.symm
        · exact Option.some.inj h ▸ .listFails hi hphase
      · cases h
    · cases h
  | read i ok | recordAnswer i ok | decide i origin | record i ok =>
    simp only [step] at h
    split at h
    · rename_i s hi
      split at h
      · rename_i hphase
        cases Option.some.inj h
        constructor <;> assumption
      · cases h
    · cases h
  | call i o =>
    simp only [step] at h
    split at h
    · rename_i s hi
      split at h
      · rename_i plan files progress hphase
        split at h
        · rename_i f' progress' hopen
          exact Option.some.inj h ▸ .call hi hphase hopen
        · cases h
      · cases h
    · cases h
  | pause i key paused ok =>
    simp only [step] at h
    split at h
    · cases h
    · rename_i hi
      exact Option.some.inj h ▸ .pause hi
  | write i ok =>
    simp only [step] at h
    split at h
    · rename_i w hi
      exact Option.some.inj h ▸ .write hi
    · cases h
  | review number merged => exact Option.some.inj h ▸ .review
  | touch number => exact Option.some.inj h ▸ .touch
  | others branch base fork => exact Option.some.inj h ▸ .others

abbrev Moment (μ ω : Type) := Trans (Loop μ) (Act μ ω)

/-- the loop as it starts, with the memories and the merge requests it finds -/
structure Starts (l : Loop μ) : Prop where
  passes : l.passes = fun _ => none
  switches : l.switches = fun _ => none
  held : l.held = fun _ => false
  entries : l.entries = []
  marks : l.marks = fun _ => none

/-! ## what the steps leave alone -/

theorem update_eq_some {β : Type} {f : Nat → Option β} {i i' : Nat} {o : Option β} {b : β}
    (h : Function.update f i o i' = some b) : (i' = i ∧ o = some b) ∨ (i' ≠ i ∧ f i' = some b) := by
  by_cases hi : i' = i
  · subst hi
    rw [Function.update_self] at h
    exact .inl ⟨rfl, h⟩
  · rw [Function.update_of_ne hi] at h
    exact .inr ⟨hi, h⟩

theorem passes_passGoes {i : Nat} {s : Pass μ} {i' : Nat} {s' : Pass μ}
    (h : (passGoes l i s).passes i' = some s') :
    (i' = i ∧ s' = s) ∨ (i' ≠ i ∧ l.passes i' = some s') :=
  (update_eq_some h).imp_left (fun ⟨hi, hs⟩ => ⟨hi, (Option.some.inj hs).symm⟩)

section
variable (key : Key) (stored : Stored) (mark : Option Entry) (ok : Bool)

@[simp] theorem passes_put : (put l key stored mark ok).passes = l.passes := by
  unfold put
  split <;> rfl

@[simp] theorem switches_put : (put l key stored mark ok).switches = l.switches := by
  unfold put
  split <;> rfl

@[simp] theorem forge_put : (put l key stored mark ok).forge = l.forge := by
  unfold put
  split <;> rfl

@[simp] theorem held_put : (put l key stored mark ok).held = l.held := by
  unfold put
  split <;> rfl

@[simp] theorem entries_put : (put l key stored mark ok).entries = l.entries := by
  unfold put
  split <;> rfl

theorem rows_put (k : Key) :
    ((put l key stored mark ok).rows k = l.rows k ∧ (put l key stored mark ok).marks k = l.marks k) ∨
      (ok = true ∧ k = key ∧ (put l key stored mark ok).rows k = stored ∧
        (put l key stored mark ok).marks k = mark) := by
  unfold put
  split
  · rename_i hok
    by_cases hk : k = key
    · subst hk
      exact .inr ⟨hok, rfl, Function.update_self .., Function.update_self ..⟩
    · exact .inl ⟨Function.update_of_ne hk .., Function.update_of_ne hk ..⟩
  · exact .inl ⟨rfl, rfl⟩

end

theorem afterCall_of_none {i : Nat} {s : Pass μ} {plan : Plan} {files : List (String × String)}
    {progress progress' : Progress} {f' : Forge} (h : takenUp l.forge f' progress progress' = none) :
    afterCall l i s plan files progress progress' f'
      = passGoes { l with forge := f' } i
          { s with
            stored := (proposed s.stored plan files progress').1
            phase := (proposed s.stored plan files progress').2
            mark := if (proposed s.stored plan files progress').1.state.openProposal = none then none
              else s.mark } := by
  unfold afterCall
  rw [h]
  rfl

theorem afterCall_of_some {i : Nat} {s : Pass μ} {plan : Plan} {files : List (String × String)}
    {progress progress' : Progress} {f' : Forge} {number : Nat}
    (h : takenUp l.forge f' progress progress' = some number) :
    afterCall l i s plan files progress progress' f'
      = passGoes
          { l with
            forge := f'
            entries := ⟨s.key, plan.revision, number, plan.name⟩ :: l.entries }
          i
          { s with
            stored := (proposed s.stored plan files progress').1
            phase := (proposed s.stored plan files progress').2
            mark := if (proposed s.stored plan files progress').1.state.openProposal = none then none
              else some ⟨s.key, plan.revision, number, plan.name⟩
            holding := some ⟨s.key, plan.revision, number, plan.name⟩ } := by
  unfold afterCall
  rw [h]
  rfl

theorem paused_answer (stored : Stored) (pulls : List Pull) :
    (answer stored pulls).2.state.paused = stored.state.paused := by
  unfold answer
  split
  · rfl
  · split
    · rfl
    · split <;> rfl

end

/-! ### the source `regional` of project `bb` -/

def regional : Key := ("bb", "regional")

/-- a source is due once a minute, and proposes the revision its origin is at, one manifest of it -/
def byRevision : Jcctl String String where
  due _ state now := !state.paused && (state.lastRunAt.all fun last => last + 60 ≤ now)
  poll _ name state now revision :=
    if state.paused || state.openProposal.isSome then .ok ⟨state, none⟩
    else if state.observedRevision = some revision then
      .ok ⟨{ state with lastRunAt := some now }, none⟩
    else
      let branch := "chg-sync-" ++ name ++ "-" ++ String.ofList (revision.toList.take 7)
      .ok ⟨{ state with lastRunAt := some now, openProposal := some branch },
        some ⟨branch, revision, [], [("projects/bb/spaces/regional/space.yaml", some revision)], [],
          false⟩⟩

/-- a forge that refuses what both sides changed -/
def plainly : Outside where
  defaultBranch := "main"
  isManifest _ := false
  format _ := none
  merge := ThreeWay.plain
  onto now b := some { now with head := b.head }
  url number := "https://forge.example/pulls/" ++ toString number

/-- a loop with no run behind it, on a forge without a merge request -/
def unrun : Loop String where
  rows _ := .fresh
  passes _ := none
  switches _ := none
  forge := ⟨OrdMap.empty, fun _ => none, [], 1⟩
  held _ := false
  entries := []
  marks _ := none

theorem starts_unrun : Starts unrun := ⟨rfl, rfl, rfl, rfl, rfl⟩

end Sync
end Portal
