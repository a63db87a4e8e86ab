import Portal.Base.Machine
import Portal.SourceDeletes.Ledger

/-!
# The runs of a snapshot pipeline (`pipeline_source_deletes.rs`: `judge_and_delete`)

The reports of the pipeline's runs, a person's keep and the judgements of the ended runs meet in one
ledger.  A judgement is a task of several steps with no lock across them: it reads the rows,
decides, writes the new misses and launches the deletes.  The state carries the log of what
happened, newest entry first, for the laws to speak about.

* `step`         one operation on the ledger, or one step of a judgement;
* `held`         an id is in the ledger: written since it was last forgotten;
* `streak`       the judgements in a row that missed an id, since a judged run read it or a person
                 kept it;
* `Orderly`      every run was judged before another one reported, with nothing between the reading
                 of the rows and the writing of the misses;
* `reflects`     in an orderly history no row has more misses than its streak.
-/

namespace Portal
namespace Ledger

/-! ## the machine -/

/-- where a judgement stands: what it read, what it decided, what it has still to launch -/
inductive Phase where
  | booked (rows : Rows)
  | judged (rows : Rows) (misses : List (String × Nat)) (verdict : Verdict)
  | settled (doomed : List String)

/-- the judgement of an ended run: its rule, and whether it read its source completely -/
structure Task where
  rule : Rule
  complete : Bool
  phase : Phase

inductive Entry where
  | began (run : String)
  | seen (run : String) (ids : List String) (wrote : Bool)
  | kept
  | marked (run : String) (ids : List String)
  | booked (run : String)
  /-- an incomplete run, or one of an empty ledger: nothing is judged -/
  | passed (run : String)
  | settled (run : String) (rule : Rule) (ledger : Nat) (verdict : Verdict)
  | launched (run : String) (ids : List String)
  | forgot (ids : List String)
deriving DecidableEq

structure State where
  book : Book
  tasks : OrdMap String Task
  log : List Entry

def State.init : State := ⟨Book.empty, OrdMap.empty, []⟩

inductive Act where
  | begin (run : String)
  | seen (run : String) (ids : List String) (wrote : Bool) (now : Int)
  | keep
  | mark (run : String) (ids : List String)
  | book (run : String) (rule : Rule) (complete : Bool)
  | judge (run : String)
  | settle (run : String)
  | launch (run : String)
  /-- the stream was not started: the ids stay doomed -/
  | giveUp (run : String)
  | forget (ids : List String)

namespace State

/-- the rows decided on: an incomplete run is held, one of an empty ledger is complete, any other
is judged -/
def decide (s : State) (run : String) (task : Task) (rows : Rows) : State :=
  if !task.complete then
    { book := s.book.settle [] (some ⟨run, .incomplete, 0, rows.toList.length⟩)
      tasks := s.tasks.erase run
      log := .passed run :: s.log }
  else if rows.toList.isEmpty then
    { book := s.book.completed run
      tasks := s.tasks.erase run
      log := .passed run :: s.log }
  else
    let (misses, verdict) := Ledger.judge rows run task.rule
    { book := if verdict.counts then s.book.completed run else s.book
      tasks := s.tasks.insert run { task with phase := .judged rows misses verdict }
      log := s.log }

/-- the misses and the hold written down; what is to be deleted goes on to its launch -/
def settle (s : State) (run : String) (task : Task) (rows : Rows) (misses : List (String × Nat))
    (verdict : Verdict) : State :=
  match verdict with
  | .held hold =>
    { book := s.book.settle misses (some hold)
      tasks := s.tasks.erase run
      log := .settled run task.rule rows.toList.length verdict :: s.log }
  | .delete doomed =>
    { book := s.book.settle misses none
      tasks := if doomed.isEmpty then s.tasks.erase run
        else s.tasks.insert run { task with phase := .settled doomed }
      log := .settled run task.rule rows.toList.length verdict :: s.log }

end State

def step (s : State) : Act → Option State
  | .begin run => some { s with log := .began run :: s.log }
  | .seen run ids wrote now =>
    some { s with book := s.book.seen run ids wrote now, log := .seen run ids wrote :: s.log }
  | .keep => some { s with book := s.book.keep, log := .kept :: s.log }
  | .mark run ids => some { s with book := s.book.mark run ids, log := .marked run ids :: s.log }
  | .book run rule complete =>
    match s.tasks.get? run with
    | some _ => none
    | none => some
        { s with
          tasks := s.tasks.insert run ⟨rule, complete, .booked s.book.rows⟩
          log := .booked run :: s.log }
  | .judge run =>
    match s.tasks.get? run with
    | some ⟨rule, complete, .booked rows⟩ => some (s.decide run ⟨rule, complete, .booked rows⟩ rows)
    | _ => none
  | .settle run =>
    match s.tasks.get? run with
    | some ⟨rule, complete, .judged rows misses verdict⟩ =>
      some (s.settle run ⟨rule, complete, .judged rows misses verdict⟩ rows misses verdict)
    | _ => none
  | .launch run =>
    match s.tasks.get? run with
    | some ⟨_, _, .settled doomed⟩ => some
        { s with
          tasks := s.tasks.erase run
          log := .launched run ((doomed.filter deletable).take maxPerStream) :: s.log }
    | _ => none
  | .giveUp run =>
    match s.tasks.get? run with
    | some ⟨_, _, .settled _⟩ => some { s with tasks := s.tasks.erase run }
    | _ => none
  | .forget ids => some { s with book := s.book.forget ids, log := .forgot ids :: s.log }

inductive Stepped (s : State) : Act → State → Prop
  | begin (run : String) : Stepped s (.begin run) { s with log := .began run :: s.log }
  | seen (run : String) (ids : List String) (wrote : Bool) (now : Int) :
      Stepped s (.seen run ids wrote now)
        { s with book := s.book.seen run ids wrote now, log := .seen run ids wrote :: s.log }
  | keep : Stepped s .keep { s with book := s.book.keep, log := .kept :: s.log }
  | mark (run : String) (ids : List String) : Stepped s (.mark run ids)
      { s with book := s.book.mark run ids, log := .marked run ids :: s.log }
  | book {run : String} (rule : Rule) (complete : Bool) (hn : s.tasks.get? run = none) :
      Stepped s (.book run rule complete)
        { s with
          tasks := s.tasks.insert run ⟨rule, complete, .booked s.book.rows⟩
          log := .booked run :: s.log }
  | judge {run : String} {rule : Rule} {complete : Bool} {rows : Rows}
      (ht : s.tasks.get? run = some ⟨rule, complete, .booked rows⟩) :
      Stepped s (.judge run) (s.decide run ⟨rule, complete, .booked rows⟩ rows)
  | settle {run : String} {rule : Rule} {complete : Bool} {rows : Rows}
      {misses : List (String × Nat)} {verdict : Verdict}
      (ht : s.tasks.get? run = some ⟨rule, complete, .judged rows misses verdict⟩) :
      Stepped s (.settle run)
        (s.settle run ⟨rule, complete, .judged rows misses verdict⟩ rows misses verdict)
  | launch {run : String} {rule : Rule} {complete : Bool} {doomed : List String}
      (ht : s.tasks.get? run = some ⟨rule, complete, .settled doomed⟩) :
      Stepped s (.launch run)
        { s with
          tasks := s.tasks.erase run
          log := .launched run ((doomed.filter deletable).take maxPerStream) :: s.log }
  | giveUp {run : String} {rule : Rule} {complete : Bool} {doomed : List String}
      (ht : s.tasks.get? run = some ⟨rule, complete, .settled doomed⟩) :
      Stepped s (.giveUp run) { s with tasks := s.tasks.erase run }
  | forget (ids : List String) :
      Stepped s (.forget ids) { s with book := s.book.forget ids, log := .forgot ids :: s.log }

theorem stepped {s s' : State} {a : Act} (h : step s a = some s') : Stepped s a s' := by
  cases a with
  | begin run => cases h; exact .begin run
  | seen run ids wrote now => cases h; exact .seen run ids wrote now
  | keep => cases h; exact .keep
  | mark run ids => cases h; exact .mark run ids
  | forget ids => cases h; exact .forget ids
  | book run rule complete =>
    simp only [step] at h
    split at h
    · exact absurd h (by simp)
    · rename_i hn
      cases h
      exact .book rule complete hn
  | judge run =>
    simp only [step] at h
    split at h
    · rename_i ht
      cases h
      exact .judge ht
    · exact absurd h (by simp)
  | settle run =>
    simp only [step] at h
    split at h
    · rename_i ht
      cases h
      exact .settle ht
    · exact absurd h (by simp)
  | launch run =>
    simp only [step] at h
    split at h
    · rename_i ht
      cases h
      exact .launch ht
    · exact absurd h (by simp)
  | giveUp run =>
    simp only [step] at h
    split at h
    · rename_i ht
      cases h
      exact .giveUp ht
    · exact absurd h (by simp)

/-! ## what a log says -/

def Entry.reporter : Entry → Option String
  | .seen run _ _ => some run
  | _ => none

/-- the run that reported `x` in an entry -/
def Entry.reports (x : String) : Entry → Option String
  | .seen run ids _ => if x ∈ ids ∧ deletable x = true then some run else none
  | _ => none

/-- `run` reported `x` -/
def Reported (run x : String) (log : List Entry) : Prop := ∃ e ∈ log, e.reports x = some run

instance (run x : String) (log : List Entry) : Decidable (Reported run x log) :=
  inferInstanceAs (Decidable (∃ e ∈ log, _))

/-- the run that reported `x` last -/
def lastReporter (x : String) (log : List Entry) : Option String := log.findSome? (Entry.reports x)

/-- `x` is in the ledger: written since it was last forgotten -/
def held (x : String) : List Entry → Bool
  | [] => false
  | .seen _ ids true :: log => if x ∈ ids ∧ deletable x = true then true else held x log
  | .forgot ids :: log => if x ∈ ids then false else held x log
  | _ :: log => held x log

/-- the counted judgements in a row whose runs did not report `x`, while it was in the ledger, since
the last one whose run did, or since it was kept -/
def streak (x : String) : List Entry → Nat
  | [] => 0
  | .kept :: _ => 0
  | .settled run _ _ verdict :: log =>
    if verdict.counts then
      if held x log = true ∧ ¬ Reported run x log then streak x log + 1 else 0
    else streak x log
  | _ :: log => streak x log

/-- the runs of the reports, newest first -/
def reporters (log : List Entry) : List String := log.filterMap Entry.reporter

/-- no other run reported after a report of `run` -/
def Apart (run : String) (log : List Entry) : Prop :=
  ∀ later earlier, reporters log = later ++ run :: earlier → ∀ r ∈ later, r = run

/-- neither a report nor a keep -/
def Entry.quiet : Entry → Bool
  | .seen _ _ _ | .kept => false
  | _ => true

/-- the rows of `run` were read when no other run had reported after it, and nothing was reported or
kept since -/
def JudgedApart (run : String) (log : List Entry) : Prop :=
  ∃ since before : List Entry, log = since ++ Entry.booked run :: before ∧
    Entry.booked run ∉ since ∧ (∀ e ∈ since, e.quiet = true) ∧ Apart run before

def Orderly : List Entry → Prop
  | [] => True
  | .settled run _ _ verdict :: log => Orderly log ∧ (verdict.counts = true → JudgedApart run log)
  | _ :: log => Orderly log

/-! ## reading a log -/

section
variable (x run : String) (log : List Entry)

theorem held_seen (ids : List String) (wrote : Bool) :
    held x (.seen run ids wrote :: log) =
      if x ∈ ids ∧ deletable x = true then wrote || held x log else held x log := by
  cases wrote with
  | true => simp [held]
  | false => simp [held]

theorem lastReporter_cons (e : Entry) :
    lastReporter x (e :: log) = (e.reports x).or (lastReporter x log) := by
  unfold lastReporter
  rw [List.findSome?_cons]
  cases e.reports x <;> rfl

theorem reported_cons (e : Entry) :
    Reported run x (e :: log) ↔ e.reports x = some run ∨ Reported run x log := by
  unfold Reported
  exact List.exists_mem_cons_iff _ _ _

theorem reported_append (l : List Entry) :
    Reported run x (l ++ log) ↔ Reported run x l ∨ Reported run x log := by
  unfold Reported
  constructor
  · rintro ⟨e, he, hr⟩
    rcases List.mem_append.mp he with h | h
    · exact Or.inl ⟨e, h, hr⟩
    · exact Or.inr ⟨e, h, hr⟩
  · rintro (⟨e, h, hr⟩ | ⟨e, h, hr⟩)
    · exact ⟨e, List.mem_append_left _ h, hr⟩
    · exact ⟨e, List.mem_append_right _ h, hr⟩

end

theorem Entry.reporter_of_reports {x run : String} {e : Entry} (h : e.reports x = some run) :
    e.reporter = some run := by
  cases e with
  | seen r ids wrote =>
    simp only [Entry.reports] at h
    split at h
    · exact h
    · exact absurd h (by simp)
  | began | kept | marked | booked | passed | settled | launched | forgot =>
    exact absurd h (by simp [Entry.reports])

theorem Entry.reports_of_quiet {e : Entry} (h : e.quiet = true) (x : String) :
    e.reports x = none ∧ e.reporter = none := by
  cases e with
  | seen | kept => exact absurd h (by simp [Entry.quiet])
  | began | marked | booked | passed | settled | launched | forgot => exact ⟨rfl, rfl⟩

theorem not_reported_of_quiet {l : List Entry} (h : ∀ e ∈ l, e.quiet = true) (run x : String) :
    ¬ Reported run x l := by
  rintro ⟨e, he, hr⟩
  rw [(Entry.reports_of_quiet (h e he) x).1] at hr
  exact absurd hr (by simp)

theorem reporters_append_quiet {l : List Entry} (h : ∀ e ∈ l, e.quiet = true)
    (log : List Entry) : reporters (l ++ log) = reporters log := by
  unfold reporters
  rw [List.filterMap_append, List.filterMap_eq_nil_iff.mpr, List.nil_append]
  exact fun e he => (Entry.reports_of_quiet (h e he) "").2

theorem mem_reporters_of_reported {run x : String} {log : List Entry} (h : Reported run x log) :
    run ∈ reporters log := by
  obtain ⟨e, he, hr⟩ := h
  exact List.mem_filterMap.mpr ⟨e, he, Entry.reporter_of_reports hr⟩

theorem Apart.eq {run run' : String} {log : List Entry} (h : Apart run log) (h' : Apart run' log)
    (hm : run ∈ reporters log) (hm' : run' ∈ reporters log) : run' = run := by
  obtain ⟨later, earlier, he⟩ := List.append_of_mem hm
  rw [he] at hm'
  rcases List.mem_append.mp hm' with hl | hl
  · exact h later earlier he run' hl
  · rcases List.mem_cons.mp hl with rfl | hl
    · rfl
    · obtain ⟨l1, l2, hl⟩ := List.append_of_mem hl
      rw [hl] at he
      refine (h' (later ++ run :: l1) l2 ?_ run (by simp)).symm
      rw [he]
      simp

/-- the run that reported `x` and was apart reported it last -/
theorem lastReporter_of_apart {run x : String} {log : List Entry} (ha : Apart run log)
    (h : Reported run x log) : lastReporter x log = some run := by
  obtain ⟨e, he, hr⟩ := h
  obtain ⟨l1, l2, rfl⟩ := List.append_of_mem he
  have hrep : reporters (l1 ++ e :: l2) = reporters l1 ++ run :: reporters l2 := by
    unfold reporters
    rw [List.filterMap_append, List.filterMap_cons, Entry.reporter_of_reports hr]
  -- a newer report of `x` is the run's own
  have hnew : ∀ d ∈ l1, d.reports x = none ∨ d.reports x = some run := by
    intro d hd
    cases hdr : d.reports x with
    | none => exact Or.inl rfl
    | some r =>
      have hm : r ∈ reporters l1 :=
        List.mem_filterMap.mpr ⟨d, hd, Entry.reporter_of_reports hdr⟩
      exact Or.inr (by rw [ha _ _ hrep r hm])
  clear ha hrep he
  induction l1 with
  | nil => rw [List.nil_append, lastReporter_cons, hr]; rfl
  | cons d l1 ih =>
    rw [List.cons_append, lastReporter_cons]
    rcases hnew d (List.mem_cons_self ..) with h | h
    · rw [h, ih (fun c hc => hnew c (List.mem_cons_of_mem _ hc))]
      rfl
    · rw [h]
      rfl

/-! ## rows and logs -/

/-- the rows are those the log tells of: the ids in the ledger, each with the run that reported it
last, and with no more misses than its streak -/
structure Reflects (rows : Rows) (log : List Entry) : Prop where
  isHeld : ∀ x, held x log = (rows.get? x).isSome
  row : ∀ x r, rows.get? x = some r →
    lastReporter x log = some r.lastRun ∧ r.misses ≤ streak x log

theorem reflects_nil : Reflects Book.empty.rows [] :=
  ⟨fun _ => rfl, fun _ _ h => absurd h (by simp [Book.empty])⟩

/-- an entry that says nothing of any row -/
def Entry.silent : Entry → Bool
  | .began _ | .marked _ _ | .booked _ | .passed _ | .launched _ _ => true
  | _ => false

theorem reflects_silent {rows : Rows} {log : List Entry} (h : Reflects rows log) {e : Entry}
    (he : e.silent = true) : Reflects rows (e :: log) := by
  cases e with
  | seen | kept | settled | forgot => exact absurd he (by simp [Entry.silent])
  | began | marked | booked | passed | launched =>
    refine ⟨fun x => h.isHeld x, fun x r hr => ?_⟩
    rw [lastReporter_cons]
    exact h.row x r hr

section
variable {b : Book} {log : List Entry}

theorem reflects_seen (h : Reflects b.rows log) (run : String) (ids : List String) (wrote : Bool)
    (now : Int) : Reflects (b.seen run ids wrote now).rows (.seen run ids wrote :: log) := by
  refine ⟨fun x => ?_, fun x r hr => ?_⟩
  · rw [held_seen, get?_seen, h.isHeld x]
    by_cases hx : x ∈ ids ∧ deletable x = true
    · rw [if_pos hx, if_pos hx]
      cases b.rows.get? x <;> cases wrote <;> rfl
    · rw [if_neg hx, if_neg hx]
  · rw [get?_seen] at hr
    rw [lastReporter_cons]
    show (Entry.reports x (.seen run ids wrote)).or _ = _ ∧ r.misses ≤ streak x log
    unfold Entry.reports
    by_cases hx : x ∈ ids ∧ deletable x = true
    · rw [if_pos hx] at hr
      simp only [if_pos hx]
      cases hb : b.rows.get? x with
      | none =>
        rw [hb] at hr
        cases wrote with
        | false => exact absurd hr (by simp [readBy])
        | true =>
          cases hr
          exact ⟨rfl, Nat.zero_le _⟩
      | some row =>
        rw [hb] at hr
        cases hr
        exact ⟨rfl, (h.row x row hb).2⟩
    · rw [if_neg hx] at hr
      simp only [if_neg hx]
      exact h.row x r hr

theorem reflects_keep (h : Reflects b.rows log) : Reflects b.keep.rows (.kept :: log) := by
  refine ⟨fun x => ?_, fun x r hr => ?_⟩
  · rw [get?_keep, Option.isSome_map]
    exact h.isHeld x
  · rw [get?_keep] at hr
    obtain ⟨row, hrow, rfl⟩ := Option.map_eq_some_iff.mp hr
    rw [lastReporter_cons]
    exact ⟨(h.row x row hrow).1, Nat.zero_le _⟩

theorem reflects_forget (h : Reflects b.rows log) (ids : List String) :
    Reflects (b.forget ids).rows (.forgot ids :: log) := by
  refine ⟨fun x => ?_, fun x r hr => ?_⟩
  · rw [get?_forget]
    show (if x ∈ ids then false else held x log) = _
    split
    · rfl
    · exact h.isHeld x
  · rw [get?_forget] at hr
    split at hr
    · exact absurd hr (by simp)
    · rw [lastReporter_cons]
      exact h.row x r hr

end

/-! ## the writing of a judgement -/

theorem held_of_quiet {x : String} {l log : List Entry} (hq : ∀ e ∈ l, e.quiet = true)
    (h : held x (l ++ log) = true) : held x log = true := by
  induction l with
  | nil => exact h
  | cons e l ih =>
    refine ih (fun d hd => hq d (List.mem_cons_of_mem _ hd)) ?_
    have he := hq e (List.mem_cons_self ..)
    cases e with
    | seen | kept => exact absurd he (by simp [Entry.quiet])
    | forgot ids =>
      have h' : (if x ∈ ids then false else held x (l ++ log)) = true := h
      split at h'
      · exact absurd h' (by simp)
      · exact h'
    | began | marked | booked | passed | settled | launched => exact h

theorem Orderly.of_append {l log : List Entry} (h : Orderly (l ++ log)) : Orderly log := by
  induction l with
  | nil => exact h
  | cons e l ih =>
    refine ih ?_
    cases e with
    | settled => exact h.1
    | seen | kept | began | marked | booked | passed | launched | forgot => exact h

/-- quiet entries do not end the streak of an id: a run judged among them reported before them, and
so did the run whose judgement they stand in, each after the other's reports -/
theorem streak_le_of_quiet {x run : String} {l log : List Entry} (hq : ∀ e ∈ l, e.quiet = true)
    (ho : Orderly (l ++ log)) (ha : Apart run log) (hm : run ∈ reporters log)
    (hn : ¬ Reported run x log) (hh : held x (l ++ log) = true) :
    streak x log ≤ streak x (l ++ log) := by
  induction l with
  | nil => exact le_rfl
  | cons e l ih =>
    have hql : ∀ d ∈ l, d.quiet = true := fun d hd => hq d (List.mem_cons_of_mem _ hd)
    have he := hq e (List.mem_cons_self ..)
    have hhl : held x (l ++ log) = true :=
      held_of_quiet (fun d hd => by rw [List.mem_singleton.mp hd]; exact he) (l := [e]) hh
    have hle := ih hql (Orderly.of_append (l := [e]) ho) hhl
    rw [List.cons_append] at ho ⊢
    cases e with
    | seen | kept => exact absurd he (by simp [Entry.quiet])
    | began | marked | booked | passed | launched | forgot => exact hle
    | settled run' rule n verdict =>
      obtain ⟨-, hj⟩ := ho
      show _ ≤ if verdict.counts then _ else _
      split
      · rename_i hc
        obtain ⟨since, before, hlog, -, hqs, ha'⟩ := hj hc
        have hnr : ¬ Reported run' x (l ++ log) := by
          intro hr
          have hrep : reporters before = reporters log := by
            rw [← reporters_append_quiet hql log, hlog, reporters_append_quiet hqs]
            rfl
          have hr' : Reported run' x log := by
            rcases (reported_append x run' log l).mp hr with h | h
            · exact absurd h (not_reported_of_quiet hql run' x)
            · exact h
          have hapart : Apart run' log := fun a b hab => ha' a b (hrep.trans hab)
          have heq : run' = run := ha.eq hapart hm (mem_reporters_of_reported hr')
          exact hn (heq ▸ hr')
        rw [if_pos ⟨hhl, hnr⟩]
        exact Nat.le_succ_of_le hle
      · exact hle

theorem quiet_snoc_booked {since : List Entry} (hq : ∀ e ∈ since, e.quiet = true) (run : String) :
    ∀ e ∈ since ++ [Entry.booked run], e.quiet = true := by
  intro e he
  rcases List.mem_append.mp he with he | he
  · exact hq e he
  · rw [List.mem_singleton.mp he]
    rfl

theorem first_cut_unique {α : Type} {a : α} {l1 l2 m1 m2 : List α}
    (h : l1 ++ a :: m1 = l2 ++ a :: m2) (h1 : a ∉ l1) (h2 : a ∉ l2) : l1 = l2 ∧ m1 = m2 := by
  induction l1 generalizing l2 with
  | nil =>
    cases l2 with
    | nil => exact ⟨rfl, (List.cons.inj h).2⟩
    | cons b l2 => exact absurd (List.mem_cons.mpr (Or.inl (List.cons.inj h).1)) h2
  | cons b l1 ih =>
    cases l2 with
    | nil => exact absurd (List.mem_cons.mpr (Or.inl (List.cons.inj h).1.symm)) h1
    | cons c l2 =>
      obtain ⟨rfl, ht⟩ := List.cons.inj h
      obtain ⟨rfl, rfl⟩ := ih ht (fun hm => h1 (List.mem_cons_of_mem _ hm))
        (fun hm => h2 (List.mem_cons_of_mem _ hm))
      exact ⟨rfl, rfl⟩

section
variable {snap : Rows} {since before : List Entry} {run x : String} {row : Row}

theorem not_reported_of_lastRun_ne (hs : Reflects snap before) (hr : snap.get? x = some row)
    (hne : row.lastRun ≠ run) (ha : Apart run before) : ¬ Reported run x before := by
  intro h
  have hlast := (hs.row x row hr).1
  rw [lastReporter_of_apart ha h] at hlast
  exact hne (Option.some.inj hlast).symm

theorem not_reported_since (hq : ∀ e ∈ since, e.quiet = true) (hn : ¬ Reported run x before) :
    ¬ Reported run x (since ++ Entry.booked run :: before) := by
  have hq' := quiet_snoc_booked hq run
  have happ : since ++ Entry.booked run :: before = (since ++ [Entry.booked run]) ++ before := by
    simp
  rw [happ, reported_append]
  rintro (h | h)
  · exact not_reported_of_quiet hq' run x h
  · exact hn h

theorem missed_of_judgedApart (hs : Reflects snap before) (hr : snap.get? x = some row)
    (hne : row.lastRun ≠ run) (hm : run ∈ reporters before) (ha : Apart run before)
    (hq : ∀ e ∈ since, e.quiet = true) (ho : Orderly (since ++ Entry.booked run :: before))
    (hh : held x (since ++ Entry.booked run :: before) = true) :
    ¬ Reported run x (since ++ Entry.booked run :: before) ∧
      row.misses ≤ streak x (since ++ Entry.booked run :: before) := by
  have hn := not_reported_of_lastRun_ne hs hr hne ha
  refine ⟨not_reported_since hq hn, ?_⟩
  have hq' := quiet_snoc_booked hq run
  have happ : since ++ Entry.booked run :: before = (since ++ [Entry.booked run]) ++ before := by
    simp
  rw [happ] at ho hh ⊢
  exact (hs.row x row hr).2.trans (streak_le_of_quiet hq' ho ha hm hn hh)

end

theorem mem_reporters_of_counts {snap : Rows} {before : List Entry} {run : String} {rule : Rule}
    (hs : Reflects snap before) (hne : snap.toList ≠ [])
    (hc : (judge snap run rule).2.counts = true) : run ∈ reporters before := by
  rcases judge_cases snap run rule with ⟨-, -, h⟩ | ⟨h, -, -⟩
  · rw [h] at hc
    exact absurd hc (by simp [Verdict.counts])
  · rcases h with h | ⟨id, row, hr, hrun⟩
    · exact absurd h hne
    · have hl := (hs.row id row hr).1
      rw [hrun] at hl
      obtain ⟨e, he, hrep⟩ := List.exists_of_findSome?_eq_some hl
      exact mem_reporters_of_reported ⟨e, he, hrep⟩

/-- the misses of a judgement made apart are written over rows that reflect the log -/
theorem reflects_settle {b : Book} {snap : Rows} {log before since : List Entry} {run : String}
    {rule : Rule} {n : Nat} (h : Reflects b.rows log) (hs : Reflects snap before)
    (hne : snap.toList ≠ []) (hlog : log = since ++ .booked run :: before)
    (hnb : .booked run ∉ since)
    (ho : Orderly (.settled run rule n (judge snap run rule).2 :: log)) (hold : Option Hold) :
    Reflects (b.settle (judge snap run rule).1 hold).rows
      (.settled run rule n (judge snap run rule).2 :: log) := by
  obtain ⟨hol, hj⟩ := ho
  refine ⟨fun x => ?_, fun x r hr => ?_⟩
  · rw [get?_settle b (judge_nodup ..), Option.isSome_map]
    exact h.isHeld x
  · rw [get?_settle b (judge_nodup ..)] at hr
    obtain ⟨row, hrow, rfl⟩ := Option.map_eq_some_iff.mp hr
    obtain ⟨hlast, hle⟩ := h.row x row hrow
    rw [lastReporter_cons]
    refine ⟨hlast, ?_⟩
    have hh : held x log = true := by rw [h.isHeld x, hrow]; rfl
    show _ ≤ if (judge snap run rule).2.counts then _ else _
    rcases judge_cases snap run rule with ⟨-, -, he⟩ | ⟨-, hmiss, hc⟩
    · rw [he]
      exact hle
    · rw [if_pos hc, hmiss, lookup_newMisses]
      obtain ⟨since', before', hlog', hnb', hq, ha⟩ := hj hc
      -- the task's booking is the last one of its run
      obtain ⟨rfl, rfl⟩ : since = since' ∧ before = before' :=
        first_cut_unique (hlog.symm.trans hlog') hnb hnb'
      have hin : held x before = true :=
        held_of_quiet (quiet_snoc_booked hq run) (by simpa [hlog] using hh)
      obtain ⟨old, hold'⟩ : ∃ old, snap.get? x = some old := by
        rw [hs.isHeld x] at hin
        exact Option.isSome_iff_exists.mp hin
      rw [hold']
      show missed run old ≤ _
      unfold missed
      split
      · exact Nat.zero_le _
      · rename_i hlr
        have hm := mem_reporters_of_counts hs hne hc
        subst hlog
        obtain ⟨hnr, hst⟩ := missed_of_judgedApart hs hold' hlr hm ha hq hol hh
        rw [if_pos ⟨hh, hnr⟩]
        omega

end Ledger
end Portal
