import Portal.SourceDeletes.Judging

/-!
# What a snapshot pipeline deletes (`pipeline_source_deletes.rs`: `judge_and_delete`)

In an orderly history, where every run is judged before another one reports, an id is deleted only
when as many complete runs in a row as the rule says did not report it.  Where runs overlap it is
not so: a row remembers only the last run that read its id, and the judgement of the run before
takes it for missed.

* `Sound`               the rows and the judgements under way reflect the log;
* `deletes_only_missed`   what a judgement of an orderly history deletes;
* `launches_only_missed`  what is launched where no run is disturbed between its begin and its
                          launch;
* `late_judgement_deletes`, `overlap_deletes`   where it is not so.
-/

namespace Portal
namespace Ledger

/-- the counted judgements since the last keep, newest first, each with the log before it -/
def judgements : List Entry → List (String × List Entry)
  | [] => []
  | .kept :: _ => []
  | .settled run _ _ verdict :: log =>
    if verdict.counts then (run, log) :: judgements log else judgements log
  | _ :: log => judgements log

theorem judgements_of_streak {x : String} {k : Nat} {log : List Entry} (h : k ≤ streak x log) :
    k ≤ (judgements log).length ∧
      ∀ p ∈ (judgements log).take k, held x p.2 = true ∧ ¬ Reported p.1 x p.2 := by
  induction log generalizing k with
  | nil =>
    have hk : k = 0 := Nat.le_zero.mp h
    subst hk
    exact ⟨le_rfl, fun p hp => absurd hp (by simp)⟩
  | cons e log ih =>
    cases e with
    | kept =>
      have hk : k = 0 := Nat.le_zero.mp h
      subst hk
      exact ⟨le_rfl, fun p hp => absurd hp (by simp)⟩
    | began | seen | marked | booked | passed | launched | forgot => exact ih h
    | settled run rule n verdict =>
      unfold streak at h
      unfold judgements
      split at h
      · rename_i hc
        rw [if_pos hc]
        split at h
        · rename_i hm
          cases k with
          | zero => exact ⟨Nat.zero_le _, fun p hp => absurd hp (by simp)⟩
          | succ k =>
            obtain ⟨h1, h2⟩ := ih (Nat.succ_le_succ_iff.mp h)
            refine ⟨Nat.succ_le_succ h1, fun p hp => ?_⟩
            rw [List.take_succ_cons] at hp
            rcases List.mem_cons.mp hp with rfl | hp
            · exact hm
            · exact h2 p hp
        · have hk : k = 0 := Nat.le_zero.mp h
          subst hk
          exact ⟨Nat.zero_le _, fun p hp => absurd hp (by simp)⟩
      · rename_i hc
        rw [if_neg hc]
        exact ih h

/-- why a judgement of `run` may delete `x`: its rows were read when `x` was in the ledger, the run
did not report it, and neither did the runs of the judgements before, as many as the rule says -/
def MissedBy (x run : String) (rule : Rule) (log : List Entry) : Prop :=
  ∃ since before, log = since ++ .booked run :: before ∧ (∀ e ∈ since, e.quiet = true) ∧
    held x before = true ∧ ¬ Reported run x log ∧ rule.misses ≤ streak x before + 1

/-- every judgement that deletes does so for a reason, and within its share of the rows it read -/
def DeletesOk : List Entry → Prop
  | [] => True
  | .settled run rule n (.delete ids) :: log => DeletesOk log ∧
      ids.length * 100 ≤ rule.maxShare * n ∧
      (∃ rows before since, log = since ++ .booked run :: before ∧ Reflects rows before ∧
        n = rows.toList.length) ∧ ∀ x ∈ ids, MissedBy x run rule log
  | _ :: log => DeletesOk log

def LaunchesOk : List Entry → Prop
  | [] => True
  | .launched run ids :: log => LaunchesOk log ∧ ∃ later rule n doomed earlier,
      log = later ++ .settled run rule n (.delete doomed) :: earlier ∧ ∀ x ∈ ids, x ∈ doomed
  | _ :: log => LaunchesOk log

/-- the rows a task holds are those the ledger had when its run was booked -/
def BookedOn (run : String) (rows : Rows) (log : List Entry) : Prop :=
  ∃ since before, log = since ++ .booked run :: before ∧ .booked run ∉ since ∧ Reflects rows before

def TaskOk (run : String) (task : Task) (log : List Entry) : Prop :=
  match task.phase with
  | .booked rows => BookedOn run rows log
  | .judged rows misses verdict => BookedOn run rows log ∧ rows.toList ≠ [] ∧
      judge rows run task.rule = (misses, verdict)
  | .settled doomed => ∃ later n earlier,
      log = later ++ .settled run task.rule n (.delete doomed) :: earlier

structure Sound (s : State) : Prop where
  rows : Reflects s.book.rows s.log
  tasks : ∀ run task, s.tasks.get? run = some task → TaskOk run task s.log
  deletes : DeletesOk s.log
  launches : LaunchesOk s.log

/-! ## one step -/

theorem BookedOn.cons {run : String} {rows : Rows} {log : List Entry} (h : BookedOn run rows log)
    {e : Entry} (he : e ≠ .booked run) : BookedOn run rows (e :: log) := by
  obtain ⟨since, before, rfl, hn, hr⟩ := h
  refine ⟨e :: since, before, rfl, fun hm => ?_, hr⟩
  rcases List.mem_cons.mp hm with h | h
  · exact he h.symm
  · exact hn h

theorem TaskOk.cons {run : String} {task : Task} {log : List Entry} (h : TaskOk run task log)
    {e : Entry} (he : e ≠ .booked run) : TaskOk run task (e :: log) := by
  unfold TaskOk at *
  split
  · rename_i rows hp
    rw [hp] at h
    exact h.cons he
  · rename_i rows misses verdict hp
    rw [hp] at h
    exact ⟨h.1.cons he, h.2⟩
  · rename_i doomed hp
    rw [hp] at h
    obtain ⟨later, n, earlier, rfl⟩ := h
    exact ⟨e :: later, n, earlier, rfl⟩

theorem Orderly.of_cons {e : Entry} {log : List Entry} (h : Orderly (e :: log)) : Orderly log :=
  Orderly.of_append (l := [e]) h

theorem DeletesOk.cons {log : List Entry} (h : DeletesOk log) {e : Entry}
    (he : ∀ run rule n ids, e ≠ .settled run rule n (.delete ids)) : DeletesOk (e :: log) := by
  cases e with
  | settled run rule n verdict =>
    cases verdict with
    | delete ids => exact absurd rfl (he run rule n ids)
    | held hold => exact h
  | began | seen | kept | marked | booked | passed | launched | forgot => exact h

theorem LaunchesOk.cons {log : List Entry} (h : LaunchesOk log) {e : Entry}
    (he : ∀ run ids, e ≠ .launched run ids) : LaunchesOk (e :: log) := by
  cases e with
  | launched run ids => exact absurd rfl (he run ids)
  | began | seen | kept | marked | booked | passed | settled | forgot => exact h

section
variable {s : State}

def Entry.plain : Entry → Bool
  | .booked _ | .launched _ _ => false
  | .settled _ _ _ verdict => match verdict with
    | .delete _ => false
    | .held _ => true
  | _ => true

theorem Sound.push (h : Sound s) {book : Book} {tasks : OrdMap String Task} {e : Entry}
    (hr : Reflects book.rows (e :: s.log))
    (ht : ∀ run task, tasks.get? run = some task → s.tasks.get? run = some task)
    (he : e.plain = true) : Sound ⟨book, tasks, e :: s.log⟩ := by
  refine ⟨hr, fun run task hg => (h.tasks run task (ht run task hg)).cons ?_, h.deletes.cons ?_,
    h.launches.cons ?_⟩
  · rintro rfl
    exact absurd he (by simp [Entry.plain])
  · rintro run rule n ids rfl
    exact absurd he (by simp [Entry.plain])
  · rintro run ids rfl
    exact absurd he (by simp [Entry.plain])

theorem Sound.erase (h : Sound s) (run : String) : Sound { s with tasks := s.tasks.erase run } :=
  ⟨h.rows, fun r t ht => h.tasks r t (OrdMap.of_get?_erase ht).2, h.deletes, h.launches⟩

theorem Sound.launch (h : Sound s) {run : String} {rule : Rule} {complete : Bool}
    {doomed : List String} (ht : s.tasks.get? run = some ⟨rule, complete, .settled doomed⟩) :
    Sound
      { s with
        tasks := s.tasks.erase run
        log := .launched run ((doomed.filter deletable).take maxPerStream) :: s.log } := by
  obtain ⟨later, n, earlier, hl⟩ : ∃ later n earlier,
      s.log = later ++ Entry.settled run rule n (.delete doomed) :: earlier := h.tasks run _ ht
  refine ⟨reflects_silent h.rows rfl, fun r t hr => ?_, h.deletes.cons (by simp), h.launches,
    later, rule, n, doomed, earlier, hl, fun x hx => ?_⟩
  · exact (h.tasks r t (OrdMap.of_get?_erase hr).2).cons (by simp)
  · exact (List.mem_filter.mp (List.mem_of_mem_take hx)).1

theorem Sound.book (h : Sound s) {run : String} (hn : s.tasks.get? run = none) (rule : Rule)
    (complete : Bool) : Sound
      { s with
        tasks := s.tasks.insert run ⟨rule, complete, .booked s.book.rows⟩
        log := .booked run :: s.log } := by
  refine ⟨reflects_silent h.rows rfl, fun r t ht => ?_, h.deletes.cons (by simp),
    h.launches.cons (by simp)⟩
  change (s.tasks.insert run _).get? r = some t at ht
  rw [OrdMap.get?_insert] at ht
  split at ht
  · rename_i e
    subst e
    cases ht
    exact ⟨[], s.log, rfl, List.not_mem_nil, h.rows⟩
  · rename_i hne
    exact (h.tasks r t ht).cons (fun e => hne (Entry.booked.inj e).symm)

theorem Sound.decide (h : Sound s) {run : String} {task : Task} {rows : Rows}
    (ht : s.tasks.get? run = some task) (hp : task.phase = .booked rows) :
    Sound (s.decide run task rows) := by
  have hok : BookedOn run rows s.log := by
    have := h.tasks run task ht
    unfold TaskOk at this
    rwa [hp] at this
  unfold State.decide
  split
  · exact h.push (reflects_silent h.rows rfl) (fun r t hr => (OrdMap.of_get?_erase hr).2) rfl
  · split
    · exact h.push (reflects_silent h.rows rfl) (fun r t hr => (OrdMap.of_get?_erase hr).2) rfl
    · rename_i hne
      refine ⟨?_, fun r t hr => ?_, h.deletes, h.launches⟩
      · show Reflects (if _ then _ else _ : Book).rows s.log
        split <;> exact h.rows
      · change (s.tasks.insert run _).get? r = some t at hr
        rw [OrdMap.get?_insert] at hr
        split at hr
        · rename_i e
          subst e
          cases hr
          exact ⟨hok, by simpa using hne, rfl⟩
        · exact h.tasks r t hr

/-- **The writing of a judgement**: what it deletes was missed by the runs before it and by its
own. -/
theorem Sound.settle (h : Sound s) {run : String} {task : Task} {rows : Rows}
    {misses : List (String × Nat)} {verdict : Verdict} (ht : s.tasks.get? run = some task)
    (hp : task.phase = .judged rows misses verdict)
    (ho : Orderly (.settled run task.rule rows.toList.length verdict :: s.log)) :
    Sound (s.settle run task rows misses verdict) := by
  obtain ⟨⟨since, before, hlog, hnb, hs⟩, hne, hj⟩ : BookedOn run rows s.log ∧ rows.toList ≠ [] ∧
      judge rows run task.rule = (misses, verdict) := by
    have := h.tasks run task ht
    unfold TaskOk at this
    rwa [hp] at this
  have hv : verdict = (judge rows run task.rule).2 := by rw [hj]
  have hrows : ∀ hold, Reflects (s.book.settle misses hold).rows
      (.settled run task.rule rows.toList.length verdict :: s.log) := by
    intro hold
    have := reflects_settle h.rows hs hne hlog hnb (hv ▸ ho) hold
    rwa [hj] at this
  unfold State.settle
  cases verdict with
  | held hold =>
    exact h.push (hrows _) (fun r t hr => (OrdMap.of_get?_erase hr).2) rfl
  | delete ids =>
    obtain ⟨hmiss, hshare⟩ := judge_delete rows run task.rule hv.symm
    have hjudged := ho.2 rfl
    refine ⟨hrows none, fun r t hr => ?_, ⟨h.deletes, hshare, ⟨rows, before, since, hlog, hs, rfl⟩,
      fun x hx => ?_⟩, h.launches⟩
    · change (if ids.isEmpty then _ else _ : OrdMap String Task).get? r = some t at hr
      split at hr
      · exact (h.tasks r t (OrdMap.of_get?_erase hr).2).cons (by simp)
      · rw [OrdMap.get?_insert] at hr
        split at hr
        · rename_i e
          subst e
          cases hr
          exact ⟨[], rows.toList.length, s.log, rfl⟩
        · exact (h.tasks r t hr).cons (by simp)
    · obtain ⟨row, hrow, hle⟩ := hmiss x hx
      obtain ⟨hlr, hm⟩ := lastRun_ne_of_missed hle
      obtain ⟨since', before', hlog', hnb', hq, ha⟩ := hjudged
      obtain ⟨rfl, rfl⟩ := first_cut_unique (hlog.symm.trans hlog') hnb hnb'
      have hheld : held x before = true := by
        rw [hs.isHeld x, hrow]
        rfl
      have hstreak := (hs.row x row hrow).2
      refine ⟨since, before, hlog, hq, hheld, ?_, by omega⟩
      rw [hlog]
      exact not_reported_since hq (not_reported_of_lastRun_ne hs hrow hlr ha)

end

theorem sound_init : Sound State.init :=
  ⟨reflects_nil, fun _ _ h => absurd h (by simp [State.init]), trivial, trivial⟩

theorem log_settle (s : State) (run : String) (task : Task) (rows : Rows)
    (misses : List (String × Nat)) (verdict : Verdict) :
    (s.settle run task rows misses verdict).log
      = .settled run task.rule rows.toList.length verdict :: s.log := by
  cases verdict <;> rfl

theorem step_log {s s' : State} {a : Act} (h : step s a = some s') :
    s'.log = s.log ∨ ∃ e, s'.log = e :: s.log := by
  cases stepped h with
  | begin | seen | keep | mark | forget | book | launch => exact Or.inr ⟨_, rfl⟩
  | giveUp => exact Or.inl rfl
  | settle => exact Or.inr ⟨_, log_settle ..⟩
  | judge =>
    unfold State.decide
    split
    · exact Or.inr ⟨_, rfl⟩
    · split
      · exact Or.inr ⟨_, rfl⟩
      · exact Or.inl rfl

theorem Orderly.of_step {s s' : State} {a : Act} (h : step s a = some s') (ho : Orderly s'.log) :
    Orderly s.log := by
  rcases step_log h with e | ⟨_, e⟩
  · rwa [e] at ho
  · rw [e] at ho
    exact ho.of_cons

theorem sound_step {s s' : State} {a : Act} (hs : step s a = some s') (h : Sound s)
    (ho : Orderly s'.log) : Sound s' := by
  cases stepped hs with
  | begin => exact h.push (reflects_silent h.rows rfl) (fun _ _ ht => ht) rfl
  | seen run ids wrote now =>
    exact h.push (reflects_seen h.rows run ids wrote now) (fun _ _ ht => ht) rfl
  | keep => exact h.push (reflects_keep h.rows) (fun _ _ ht => ht) rfl
  | mark => exact h.push (reflects_silent h.rows rfl) (fun _ _ ht => ht) rfl
  | forget ids => exact h.push (reflects_forget h.rows ids) (fun _ _ ht => ht) rfl
  | book rule complete hn => exact h.book hn rule complete
  | judge ht => exact h.decide ht rfl
  | settle ht =>
    rw [log_settle] at ho
    exact h.settle ht rfl ho
  | launch ht => exact h.launch ht
  | giveUp => exact h.erase _

/-- **Every orderly run is sound.** -/
theorem sound_run {tr : List (Trans State Act)} {s : State} (hr : Run step State.init tr s)
    (ho : Orderly s.log) : Sound s :=
  hr.invariant (I := fun s => Orderly s.log → Sound s) (C := fun _ => True) (fun _ => sound_init)
    (fun _ _ _ hs _ ih ho => sound_step hs (ih (ho.of_step hs)) ho) (fun _ _ => trivial) ho

/-! ## what an orderly run deletes -/

theorem DeletesOk.at {later log : List Entry} (h : DeletesOk (later ++ log)) : DeletesOk log := by
  induction later with
  | nil => exact h
  | cons e later ih =>
    refine ih ?_
    cases e with
    | settled run rule n verdict =>
      cases verdict with
      | delete ids => exact h.1
      | held hold => exact h
    | began | seen | kept | marked | booked | passed | launched | forgot => exact h

theorem log_suffix {s s' : State} {tr : List (Trans State Act)} (h : Run step s tr s') :
    s.log <:+ s'.log := by
  induction h with
  | nil => exact List.suffix_refl _
  | snoc _ hs ih =>
    rcases step_log hs with e | ⟨_, e⟩
    · rwa [e]
    · rw [e]
      exact ih.trans (List.suffix_cons ..)

theorem Orderly.of_suffix {l log : List Entry} (h : Orderly log) (hs : l <:+ log) : Orderly l := by
  obtain ⟨l', rfl⟩ := hs
  exact h.of_append

theorem rows_of_not_counts {s s' : State} {a : Act} (hs : step s a = some s') (h : Sound s)
    {run : String} {rule : Rule} {n : Nat} {verdict : Verdict}
    (hl : s'.log = .settled run rule n verdict :: s.log) (hc : verdict.counts = false) :
    s'.book.rows = s.book.rows := by
  cases stepped hs with
  | begin | seen | keep | mark | forget | book | launch =>
    exact absurd (List.cons.inj hl).1 (by simp)
  | giveUp => exact absurd hl (by simp)
  | judge =>
    unfold State.decide at hl
    split at hl
    · exact absurd (List.cons.inj hl).1 (by simp)
    · split at hl
      · exact absurd (List.cons.inj hl).1 (by simp)
      · exact absurd hl (by simp)
  | @settle r rule' complete rows misses verdict' ht =>
    rw [log_settle] at hl
    have hv : verdict' = verdict := (Entry.settled.inj (List.cons.inj hl).1).2.2.2
    subst hv
    obtain ⟨-, -, hj⟩ : BookedOn r rows s.log ∧ rows.toList ≠ [] ∧
        judge rows r rule' = (misses, verdict') := h.tasks r _ ht
    rcases judge_cases rows r rule' with ⟨-, -, he⟩ | ⟨-, -, he⟩
    · rw [hj] at he
      cases he
      rfl
    · rw [hj, hc] at he
      exact absurd he (by simp)

/-- **What a judgement deletes.**  In an orderly history every judgement that deletes stays within
the rule's share of the rows it read, and each id it deletes was in the ledger and reported neither
by its run nor by the runs of the judgements before it, as many in a row as the rule says, all of
them since the last keep; a judgement held as empty changes no row. -/
theorem deletes_only_missed {tr : List (Trans State Act)} {s : State}
    (hr : Run step State.init tr s) (ho : Orderly s.log) :
    (∀ (later : List Entry) run rule n ids earlier,
      s.log = later ++ Entry.settled run rule n (.delete ids) :: earlier →
      (∃ (rows : Rows) (before since : List Entry),
        earlier = since ++ Entry.booked run :: before ∧ Reflects rows before ∧
        n = rows.toList.length ∧ ids.length * 100 ≤ rule.maxShare * n) ∧
      ∀ x ∈ ids, ∃ since before : List Entry, earlier = since ++ Entry.booked run :: before ∧
        (∀ e ∈ since, e.quiet = true) ∧ held x before = true ∧ ¬ Reported run x earlier ∧
        rule.misses ≤ (judgements before).length + 1 ∧
        ∀ p ∈ (judgements before).take (rule.misses - 1),
          held x p.2 = true ∧ ¬ Reported p.1 x p.2) ∧
    (∀ t ∈ tr, ∀ run rule n verdict, t.after.log = .settled run rule n verdict :: t.before.log →
      verdict.counts = false → t.after.book.rows = t.before.book.rows) := by
  refine ⟨fun later run rule n ids earlier hl => ?_, fun t ht run rule n verdict hl hc => ?_⟩
  · have hd := (sound_run hr ho).deletes
    rw [hl] at hd
    obtain ⟨-, hshare, ⟨rows, before, since, he, hrows, hn⟩, hmiss⟩ := hd.at
    refine ⟨⟨rows, before, since, he, hrows, hn, hshare⟩, fun x hx => ?_⟩
    obtain ⟨since, before, he, hq, hh, hnr, hst⟩ := hmiss x hx
    obtain ⟨h1, h2⟩ := judgements_of_streak (Nat.sub_le_of_le_add hst)
    exact ⟨since, before, he, hq, hh, hnr, by omega, h2⟩
  · obtain ⟨l1, l2, rfl⟩ := List.append_of_mem ht
    obtain ⟨h1, hs, h2⟩ := hr.at
    have hob : Orderly t.before.log := by
      refine Orderly.of_step hs (ho.of_suffix ?_)
      exact log_suffix h2
    exact rows_of_not_counts hs (sound_run h1 hob) hl hc

theorem apart_of_dropWhile {run : String} {log : List Entry}
    (h : run ∉ (reporters log).dropWhile (fun r => r = run)) : Apart run log := by
  unfold Apart
  generalize reporters log = l at h ⊢
  induction l with
  | nil => exact fun later earlier he => absurd he (by simp)
  | cons r l ih =>
    intro later earlier he
    by_cases hr : r = run
    · rw [List.dropWhile_cons_of_pos (by simpa using hr)] at h
      cases later with
      | nil => exact fun q hq => absurd hq (by simp)
      | cons q later =>
        obtain ⟨rfl, ht⟩ := List.cons.inj he
        intro p hp
        rcases List.mem_cons.mp hp with rfl | hp
        · exact hr
        · exact ih h later earlier ht p hp
    · rw [List.dropWhile_cons_of_neg (by simpa using hr), he] at h
      exact absurd (by simp) h

/-- one miss deletes, whatever share of the ledger it is -/
def firstMiss : Rule := ⟨1, 100, by decide, by decide, by decide⟩

def secondMiss : Rule := ⟨2, 100, by decide, by decide, by decide⟩

def wholeRun (run : String) (ids : List String) (rule : Rule) : List Act :=
  [.begin run, .seen run ids true 0, .book run rule true, .judge run, .settle run]

/-- two runs after each other, the second without `u:x` -/
def twoRuns : List Act :=
  wholeRun "r0" ["u:x", "u:z"] firstMiss ++ wholeRun "r1" ["u:z"] firstMiss ++ [.launch "r1"]

theorem log_twoRuns : (final step State.init twoRuns).log =
    [.launched "r1" ["u:x"], .settled "r1" firstMiss 2 (.delete ["u:x"]), .booked "r1",
      .seen "r1" ["u:z"] true, .began "r1", .settled "r0" firstMiss 2 (.delete []), .booked "r0",
      .seen "r0" ["u:x", "u:z"] true, .began "r0"] := by decide +kernel

theorem orderly_twoRuns : Orderly (final step State.init twoRuns).log := by
  rw [log_twoRuns]
  refine ⟨⟨trivial, fun _ => ?_⟩, fun _ => ?_⟩
  · exact ⟨[], _, rfl, by simp, by simp, apart_of_dropWhile (by decide)⟩
  · exact ⟨[], _, rfl, by simp, by simp, apart_of_dropWhile (by decide)⟩

/-- the run that missed `u:x` did not report it -/
theorem deletes_only_missed_of_twoRuns :
    Orderly (final step State.init twoRuns).log ∧
    ¬ Reported "r1" "u:x" [.booked "r1", .seen "r1" ["u:z"] true, .began "r1",
      .settled "r0" firstMiss 2 (.delete []), .booked "r0", .seen "r0" ["u:x", "u:z"] true,
      .began "r0"] := by
  refine ⟨orderly_twoRuns, ?_⟩
  obtain ⟨h, -⟩ := deletes_only_missed
    (run_trace (show (exec step State.init twoRuns).isSome by decide +kernel)) orderly_twoRuns
  obtain ⟨-, hx⟩ := h [_] "r1" firstMiss 2 ["u:x"] _ log_twoRuns
  obtain ⟨_, _, _, _, _, hn, _⟩ := hx "u:x" (by simp)
  exact hn

/-- an id read by a run that is never judged keeps its misses: the next judgement, the only one
since, makes them two -/
def unjudgedRead : List Act :=
  wholeRun "r0" ["u:x", "u:z"] secondMiss ++ wholeRun "r1" ["u:z"] secondMiss ++
    [.seen "r2" ["u:x"] true 0, .book "r2" secondMiss false, .judge "r2"] ++
    wholeRun "r3" ["u:z"] secondMiss

/-- `r2` reports before `r1` is judged -/
def lateJudgement : List Act :=
  [.begin "r1", .seen "r1" ["u:x", "u:z"] true 0, .begin "r2", .seen "r2" ["u:x"] true 0,
    .book "r1" firstMiss true, .judge "r1", .settle "r1", .launch "r1"]

/-- with reports of four runs that do not interleave, `u:x` is deleted for two misses after one
judgement since it was last read; and a run judged late deletes what it reported -/
theorem late_judgement_deletes :
    ((exec step State.init unjudgedRead).isSome ∧
      reporters (final step State.init unjudgedRead).log = ["r3", "r2", "r1", "r0"] ∧
      secondMiss.misses = 2 ∧
      ∃ since before, (final step State.init unjudgedRead).log
          = .settled "r3" secondMiss 2 (.delete ["u:x"]) :: since ++
            .seen "r2" ["u:x"] true :: before ∧ judgements since = []) ∧
    ((exec step State.init lateJudgement).isSome ∧
      reporters (final step State.init lateJudgement).log = ["r2", "r1"] ∧
      ∃ earlier, (final step State.init lateJudgement).log
          = .launched "r1" ["u:x"] :: .settled "r1" firstMiss 2 (.delete ["u:x"]) :: earlier ∧
        Reported "r1" "u:x" earlier) := by
  refine ⟨⟨by decide +kernel, by decide +kernel, rfl,
    [.booked "r3", .seen "r3" ["u:z"] true, .began "r3", .passed "r2", .booked "r2"], _,
    show _ = _ ++ _ :: (final step State.init unjudgedRead).log.drop 7 by decide +kernel, rfl⟩,
    by decide +kernel, by decide +kernel, (final step State.init lateJudgement).log.drop 2,
    by decide +kernel, by decide +kernel⟩

/-! ## what an undisturbed run launches -/

/-- every report of a run is in before its rows are read for its judgement -/
def ReportsIn : List Entry → Prop
  | [] => True
  | .seen run _ _ :: log => ReportsIn log ∧ .booked run ∉ log
  | _ :: log => ReportsIn log

/-- since `run` began nothing was kept and no other run reported -/
def Undisturbed (run : String) (log : List Entry) : Prop :=
  ∃ since before : List Entry, log = since ++ Entry.began run :: before ∧
    ∀ e ∈ since, e ≠ .kept ∧ ∀ r, e.reporter = some r → r = run

def LaunchesApart : List Entry → Prop
  | [] => True
  | .launched run _ :: log => LaunchesApart log ∧ Undisturbed run log
  | _ :: log => LaunchesApart log

theorem LaunchesOk.at {later log : List Entry} (h : LaunchesOk (later ++ log)) :
    LaunchesOk log := by
  induction later with
  | nil => exact h
  | cons e later ih =>
    refine ih ?_
    cases e with
    | launched => exact h.1
    | began | seen | kept | marked | booked | passed | settled | forgot => exact h

theorem LaunchesApart.at {later log : List Entry} (h : LaunchesApart (later ++ log)) :
    LaunchesApart log := by
  induction later with
  | nil => exact h
  | cons e later ih =>
    refine ih ?_
    cases e with
    | launched => exact h.1
    | began | seen | kept | marked | booked | passed | settled | forgot => exact h

theorem ReportsIn.reporter_ne {later earlier : List Entry} {run : String}
    (h : ReportsIn (later ++ .booked run :: earlier)) {e : Entry} (he : e ∈ later) :
    e.reporter ≠ some run := by
  induction later with
  | nil => exact absurd he List.not_mem_nil
  | cons d later ih =>
    have hin : ReportsIn (later ++ .booked run :: earlier) := by
      cases d with
      | seen => exact h.1
      | began | kept | marked | booked | passed | settled | launched | forgot => exact h
    rcases List.mem_cons.mp he with rfl | he
    · cases e with
      | seen r ids wrote =>
        rintro hr
        obtain rfl : r = run := Option.some.inj hr
        exact h.2 (by simp)
      | began | kept | marked | booked | passed | settled | launched | forgot =>
        exact fun hr => absurd hr (by simp [Entry.reporter])
    · exact ih hin he

/-- **What is launched where runs do not overlap.**  When no run reports between the first report of
another and the writing of its misses, and neither another run reports nor a person keeps between
the begin of a run and its launch, an id launched for deletion was reported neither by its run nor
by the runs of the judgements before, as many as the rule says, nor by any run since its run began,
and nothing was kept since then. -/
theorem launches_only_missed {tr : List (Trans State Act)} {s : State}
    (hr : Run step State.init tr s) (hin : ReportsIn s.log) (ho : Orderly s.log)
    (ha : LaunchesApart s.log) {later : List Entry} {run : String} {ids : List String}
    {earlier : List Entry} (hl : s.log = later ++ Entry.launched run ids :: earlier) {x : String}
    (hx : x ∈ ids) :
    ¬ Reported run x earlier ∧
    (∃ (rule : Rule) (n : Nat) (doomed : List String) (before since : List Entry),
      Entry.settled run rule n (.delete doomed) ∈ earlier ∧ x ∈ doomed ∧
      earlier = since ++ Entry.booked run :: before ∧
      rule.misses ≤ (judgements before).length + 1 ∧
      ∀ p ∈ (judgements before).take (rule.misses - 1), ¬ Reported p.1 x p.2) ∧
    ∃ since before : List Entry, earlier = since ++ Entry.began run :: before ∧
      ∀ e ∈ since, e ≠ .kept ∧ ∀ r, e.reports x ≠ some r := by
  have hs := sound_run hr ho
  have hok := hs.launches
  have hd := hs.deletes
  rw [hl] at hok hd ha hin
  obtain ⟨-, after, rule, n, doomed, old, he, hsub⟩ := hok.at
  obtain ⟨-, since, before, hu, hund⟩ := ha.at
  have hd1 : DeletesOk earlier := hd.at
  rw [he] at hd1
  obtain ⟨-, -, -, hmiss⟩ := hd1.at
  obtain ⟨quiet, booked, hb, -, -, hnr, hst⟩ := hmiss x (hsub x hx)
  obtain ⟨hlen, hjs⟩ := judgements_of_streak (Nat.sub_le_of_le_add hst)
  have hearlier : earlier = (after ++ .settled run rule n (.delete doomed) :: quiet) ++
      .booked run :: booked := by
    rw [he, hb, List.append_assoc]
    rfl
  -- what came after the booking is no report of the run
  have hafter : ∀ e ∈ after, e.reporter ≠ some run := by
    intro e hm
    have hl' : later ++ .launched run ids :: earlier = (later ++ .launched run ids ::
        (after ++ .settled run rule n (.delete doomed) :: quiet)) ++ .booked run :: booked := by
      rw [hearlier]
      simp
    rw [hl'] at hin
    exact hin.reporter_ne (by simp [hm])
  have hrep : ¬ Reported run x earlier := by
    rw [he, reported_append, reported_cons]
    rintro (⟨e, hm, hr⟩ | hr | hr)
    · exact hafter e hm (Entry.reporter_of_reports hr)
    · exact absurd hr (by simp [Entry.reports])
    · exact hnr hr
  refine ⟨hrep, ⟨rule, n, doomed, booked, _, ?_, hsub x hx, hearlier, by omega,
    fun p hp => (hjs p hp).2⟩, since, before, hu, fun e hm => ⟨(hund e hm).1, fun r hr => ?_⟩⟩
  · rw [he]
    simp
  · have hrun : r = run := (hund e hm).2 r (Entry.reporter_of_reports hr)
    subst hrun
    exact hrep ⟨e, by rw [hu]; exact List.mem_append_left _ hm, hr⟩

/-- the same two runs: nothing disturbs the second -/
theorem launches_only_missed_of_twoRuns :
    LaunchesApart (final step State.init twoRuns).log ∧
    ¬ Reported "r1" "u:x" ((final step State.init twoRuns).log.tail) := by
  have hin : ReportsIn (final step State.init twoRuns).log := by
    rw [log_twoRuns]
    exact ⟨⟨trivial, by simp⟩, by simp⟩
  have ha : LaunchesApart (final step State.init twoRuns).log := by
    rw [log_twoRuns]
    refine ⟨trivial, [.settled "r1" firstMiss 2 (.delete ["u:x"]), .booked "r1",
      .seen "r1" ["u:z"] true], _, rfl, ?_⟩
    simp [Entry.reporter]
  refine ⟨ha, ?_⟩
  have h := launches_only_missed
    (run_trace (show (exec step State.init twoRuns).isSome by decide +kernel)) hin orderly_twoRuns
    ha (show _ = [] ++ _ from log_twoRuns) (List.mem_singleton.mpr rfl)
  rw [log_twoRuns]
  exact h.1

/-- a run that reported `u:x` launches its deletion, because the next run reported it too before
the first was judged -/
theorem overlap_deletes :
    (exec step State.init lateJudgement).isSome ∧
    ReportsIn (final step State.init lateJudgement).log ∧
    ∃ earlier, (final step State.init lateJudgement).log = .launched "r1" ["u:x"] :: earlier ∧
      Reported "r1" "u:x" earlier ∧ Reported "r2" "u:x" earlier := by
  have hl : (final step State.init lateJudgement).log =
      [.launched "r1" ["u:x"], .settled "r1" firstMiss 2 (.delete ["u:x"]), .booked "r1",
        .seen "r2" ["u:x"] true, .began "r2", .seen "r1" ["u:x", "u:z"] true, .began "r1"] := by
    decide +kernel
  rw [hl]
  exact ⟨by decide +kernel, ⟨⟨trivial, by simp⟩, by simp⟩, _, rfl, by decide, by decide⟩

end Ledger
end Portal
