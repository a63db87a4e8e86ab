import Portal.Base.Machine
import Portal.SourceDeletes.Ledger

/-!
# What the source of an events pipeline marked (`pipeline_source_deletes.rs`: `mark`, `take_marked`)

The source marks ids as deleted, the pipeline writes ids, and a sweep takes the marks of the oldest
run and hands them to a delete stream; marks whose stream was not started are put back.  The ledger
has two forms, a map in memory and a table in the database: both are a `MarkStore`, what the laws
need of a ledger.

* `memory`, `database`   the two forms;
* `lastWord`             the last thing the source said of an id, a write or a mark;
* `take_last_word`       where no id is written while its mark waits, what is taken was marked last;
* `take_written_again`   a write does not take a mark back.
-/

namespace Portal
namespace Ledger

/-- a ledger with marks: which ids it holds, their marks, and what the operations do to them -/
structure MarkStore where
  Form : Type
  init : Form
  holds : Form → String → Bool
  markOf : Form → String → Option String
  seen : Form → String → List String → Bool → Int → Form
  mark : Form → String → List String → Form
  /-- the run whose marks go next, and those of its ids one stream carries -/
  oldest : Form → Option (String × List String)
  unmark : Form → List String → Form
  forget : Form → List String → Form
  markOf_init : ∀ x, markOf init x = none
  markOf_seen : ∀ f run ids wrote now x, markOf (seen f run ids wrote now) x = markOf f x
  markOf_mark : ∀ f run ids x,
    markOf (mark f run ids) x = if x ∈ ids ∧ holds f x = true then some run else markOf f x
  markOf_oldest : ∀ f run ids, oldest f = some (run, ids) → ∀ x ∈ ids, markOf f x = some run
  markOf_unmark : ∀ f ids x, markOf (unmark f ids) x = if x ∈ ids then none else markOf f x
  markOf_forget : ∀ f ids x, markOf (forget f ids) x = if x ∈ ids then none else markOf f x

/-! ## in memory -/

theorem get?_foldl_insert (l : List String) (run x : String) (m : OrdMap String String) :
    (l.foldl (fun m id => m.insert id run) m).get? x = if x ∈ l then some run else m.get? x := by
  induction l generalizing m with
  | nil => simp
  | cons id l ih =>
    rw [List.foldl_cons, ih, OrdMap.get?_insert]
    by_cases h : x ∈ l
    · simp [h]
    · by_cases e : x = id <;> simp [h, e]

theorem get?_filter_not_mem {α : Type} (m : OrdMap String α) (ids : List String) (x : String) :
    (m.filterKeys (fun id => !ids.contains id)).get? x = if x ∈ ids then none else m.get? x := by
  rw [OrdMap.get?_filterKeys]
  by_cases h : x ∈ ids <;> simp [h]

theorem marked_of_oldest {b : Book} {run : String} {ids : List String}
    (h : b.oldestMarked = some (run, ids)) : ∀ x ∈ ids, b.marked.get? x = some run := by
  unfold Book.oldestMarked at h
  obtain ⟨r, -, he⟩ := Option.map_eq_some_iff.mp h
  obtain ⟨rfl, rfl⟩ := Prod.mk.inj he
  intro x hx
  obtain ⟨⟨id, at'⟩, hp, rfl⟩ := List.mem_map.mp (List.mem_of_mem_take hx)
  obtain ⟨hm, hr⟩ := List.mem_filter.mp hp
  have hr' : at' = r := of_decide_eq_true hr
  subst hr'
  exact (OrdMap.mem_toList b.marked id at').mp hm

def memory : MarkStore where
  Form := Book
  init := Book.empty
  holds := fun b x => (b.rows.get? x).isSome
  markOf := fun b x => b.marked.get? x
  seen := Book.seen
  mark := Book.mark
  oldest := Book.oldestMarked
  unmark := Book.unmark
  forget := Book.forget
  markOf_init := fun _ => rfl
  markOf_seen := fun b run ids wrote now x => by rw [marked_seen]
  markOf_mark := fun b run ids x => by
    show ((b.held ids).foldl _ b.marked).get? x = _
    rw [get?_foldl_insert]
    unfold Book.held
    simp only [List.mem_filter]
  markOf_oldest := fun _ _ _ h => marked_of_oldest h
  markOf_unmark := fun b ids x => get?_filter_not_mem b.marked ids x
  markOf_forget := fun b ids x => get?_filter_not_mem b.marked ids x

/-! ## in the database -/

/-- a row of `pipeline_source_ledger`, under its `entity_id` -/
structure TableRow where
  lastRun : String
  misses : Int
  lastSeen : Int
  lastWritten : Option Int
  markedRun : Option String
deriving DecidableEq

abbrev Table := OrdMap String TableRow

/-- the order of texts in the database: `min`, and `ORDER BY` -/
structure Collation where
  min? : List String → Option String
  sort : List String → List String
  sort_perm : ∀ l, (sort l).Perm l

namespace Table

/-- `INSERT … ON CONFLICT DO UPDATE`, which may not meet a row twice, or `UPDATE` -/
def seen (t : Table) (run : String) (ids : List String) (wrote : Bool) (now : Int) : Table :=
  let ids := ids.filter deletable
  if wrote then
    if ids.Nodup then
      ids.foldl (fun t id => t.alter id (fun row =>
        match row with
        | none => some ⟨run, 0, now, some now, none⟩
        | some row => some { row with lastRun := run, lastSeen := now, lastWritten := some now })) t
    else t
  else t.mapVal (fun id row =>
    if id ∈ ids then { row with lastRun := run, lastSeen := now } else row)

/-- `UPDATE … SET marked_run` -/
def mark (t : Table) (run : String) (ids : List String) : Table :=
  t.mapVal (fun id row => if id ∈ ids then { row with markedRun := some run } else row)

def oldestMarked (c : Collation) (t : Table) : Option (String × List String) :=
  (c.min? (t.toList.filterMap (fun p => p.2.markedRun))).map (fun run =>
    (run, (c.sort ((t.toList.filter (fun p => p.2.markedRun = some run)).map Prod.fst)).take
      maxPerStream))

/-- `UPDATE … SET marked_run = NULL` -/
def unmark (t : Table) (ids : List String) : Table :=
  t.mapVal (fun id row => if id ∈ ids then { row with markedRun := none } else row)

/-- `DELETE` -/
def forget (t : Table) (ids : List String) : Table := t.filterKeys (fun id => !ids.contains id)

def markOf (t : Table) (x : String) : Option String := (t.get? x).bind TableRow.markedRun

end Table

theorem markOf_mapVal (t : Table) (f : String → TableRow → TableRow) (x : String) :
    Table.markOf (t.mapVal f) x = (t.get? x).bind (fun row => (f x row).markedRun) := by
  unfold Table.markOf
  rw [OrdMap.get?_mapVal]
  cases t.get? x <;> rfl

theorem markOf_upsert (run : String) (now : Int) (l : List String) (t : Table) (x : String) :
    Table.markOf (l.foldl (fun t id => t.alter id (fun row =>
      match row with
      | none => some ⟨run, 0, now, some now, none⟩
      | some row =>
        some { row with lastRun := run, lastSeen := now, lastWritten := some now })) t) x
      = Table.markOf t x := by
  induction l generalizing t with
  | nil => rfl
  | cons id l ih =>
    rw [List.foldl_cons, ih]
    unfold Table.markOf
    rw [OrdMap.get?_alter]
    split
    · rename_i e
      subst e
      cases t.get? x <;> rfl
    · rfl

theorem markOf_table_oldest {c : Collation} {t : Table} {run : String} {ids : List String}
    (h : t.oldestMarked c = some (run, ids)) : ∀ x ∈ ids, t.markOf x = some run := by
  unfold Table.oldestMarked at h
  obtain ⟨r, -, he⟩ := Option.map_eq_some_iff.mp h
  obtain ⟨rfl, rfl⟩ := Prod.mk.inj he
  intro x hx
  have hx' := (c.sort_perm _).mem_iff.mp (List.mem_of_mem_take hx)
  obtain ⟨⟨id, row⟩, hp, rfl⟩ := List.mem_map.mp hx'
  obtain ⟨hm, hr⟩ := List.mem_filter.mp hp
  unfold Table.markOf
  rw [(OrdMap.mem_toList t id row).mp hm]
  exact of_decide_eq_true hr

def database (c : Collation) : MarkStore where
  Form := Table
  init := OrdMap.empty
  holds := fun t x => (t.get? x).isSome
  markOf := Table.markOf
  seen := Table.seen
  mark := Table.mark
  oldest := Table.oldestMarked c
  unmark := Table.unmark
  forget := Table.forget
  markOf_init := fun _ => rfl
  markOf_seen := fun t run ids wrote now x => by
    unfold Table.seen
    cases wrote with
    | true =>
      simp only [if_true]
      split
      · exact markOf_upsert run now _ t x
      · rfl
    | false =>
      simp only [Bool.false_eq_true, if_false]
      rw [markOf_mapVal]
      unfold Table.markOf
      refine congrArg (fun f => (t.get? x).bind f) (funext fun row => ?_)
      split <;> rfl
  markOf_mark := fun t run ids x => by
    unfold Table.mark
    rw [markOf_mapVal]
    unfold Table.markOf
    cases t.get? x with
    | none => simp
    | some row => by_cases h : x ∈ ids <;> simp [h]
  markOf_oldest := fun _ _ _ h => markOf_table_oldest h
  markOf_unmark := fun t ids x => by
    unfold Table.unmark
    rw [markOf_mapVal]
    unfold Table.markOf
    cases t.get? x with
    | none => simp
    | some row => by_cases h : x ∈ ids <;> simp [h]
  markOf_forget := fun t ids x => by
    unfold Table.forget Table.markOf
    rw [get?_filter_not_mem]
    split <;> rfl

/-! ## writes, marks and sweeps -/

/-- what the source said of some ids -/
inductive Word where
  | wrote (ids : List String)
  | marked (ids : List String)

structure Marking (S : MarkStore) where
  ledger : S.Form
  /-- taken marks whose delete stream is being started -/
  starting : List (String × List String)
  /-- what the source said, newest first -/
  words : List Word

inductive MarkAct where
  | seen (run : String) (ids : List String) (wrote : Bool) (now : Int)
  | mark (run : String) (ids : List String)
  | take
  | started (taken : String × List String)
  /-- the stream was not started: its marks are put back -/
  | putBack (taken : String × List String)
  | forget (ids : List String)

namespace Marking
variable {S : MarkStore}

def init (S : MarkStore) : Marking S := ⟨S.init, [], []⟩

def step (m : Marking S) : MarkAct → Option (Marking S)
  | .seen run ids wrote now => some
      { m with
        ledger := S.seen m.ledger run ids wrote now
        words := if wrote then .wrote ids :: m.words else m.words }
  | .mark run ids =>
    some { m with ledger := S.mark m.ledger run ids, words := .marked ids :: m.words }
  | .take =>
    match S.oldest m.ledger with
    | none => some m
    | some taken => some
        { m with ledger := S.unmark m.ledger taken.2, starting := taken :: m.starting }
  | .started taken =>
    if taken ∈ m.starting then some { m with starting := m.starting.erase taken } else none
  | .putBack taken =>
    if taken ∈ m.starting then some
      { m with
        ledger := S.mark m.ledger taken.1 taken.2
        starting := m.starting.erase taken }
    else none
  | .forget ids => some { m with ledger := S.forget m.ledger ids }

/-- whether a mark of `x` waits: in the ledger, or with a stream that is being started -/
def waits (m : Marking S) (x : String) : Prop :=
  S.markOf m.ledger x ≠ none ∨ ∃ taken ∈ m.starting, x ∈ taken.2

end Marking

/-- whether the last thing the source said of `x` is a mark -/
def lastWord (x : String) : List Word → Option Bool
  | [] => none
  | .wrote ids :: words => if x ∈ ids then some false else lastWord x words
  | .marked ids :: words => if x ∈ ids then some true else lastWord x words

section
variable {S : MarkStore}

def MarksLast (m : Marking S) : Prop := ∀ x, m.waits x → lastWord x m.words = some true

/-- a step that writes no id whose mark waits -/
def WritesUnmarked (t : Trans (Marking S) MarkAct) : Prop :=
  ∀ run ids now, t.act = .seen run ids true now → ∀ x ∈ ids, ¬ t.before.waits x

theorem marksLast_step {m m' : Marking S} {a : MarkAct} (hs : m.step a = some m')
    (hc : WritesUnmarked ⟨m, a, m'⟩) (h : MarksLast m) : MarksLast m' := by
  cases a with
  | seen run ids wrote now =>
    cases hs
    intro x hw
    have hw' : m.waits x := by
      rcases hw with hw | hw
      · exact Or.inl (by rwa [S.markOf_seen] at hw)
      · exact Or.inr hw
    cases wrote with
    | false => exact h x hw'
    | true =>
      have hx : x ∉ ids := fun hx => hc run ids now rfl x hx hw'
      show (if x ∈ ids then some false else lastWord x m.words) = some true
      rw [if_neg hx]
      exact h x hw'
  | mark run ids =>
    cases hs
    intro x hw
    show (if x ∈ ids then some true else lastWord x m.words) = some true
    split
    · rfl
    · rename_i hx
      refine h x (hw.imp (fun hw => ?_) id)
      rwa [S.markOf_mark, if_neg (fun hc => hx hc.1)] at hw
  | take =>
    simp only [Marking.step] at hs
    split at hs
    · cases hs
      exact h
    · rename_i taken ht
      cases hs
      rintro x (hw | ⟨p, hp, hx⟩)
      · rw [S.markOf_unmark] at hw
        split at hw
        · exact absurd rfl hw
        · exact h x (Or.inl hw)
      · rcases List.mem_cons.mp hp with rfl | hp
        · refine h x (Or.inl ?_)
          rw [S.markOf_oldest m.ledger p.1 p.2 ht x hx]
          exact Option.some_ne_none _
        · exact h x (Or.inr ⟨p, hp, hx⟩)
  | started taken =>
    simp only [Marking.step] at hs
    split at hs
    · cases hs
      rintro x (hw | ⟨p, hp, hx⟩)
      · exact h x (Or.inl hw)
      · exact h x (Or.inr ⟨p, List.mem_of_mem_erase hp, hx⟩)
    · exact absurd hs (by simp)
  | putBack taken =>
    simp only [Marking.step] at hs
    split at hs
    · rename_i ht
      cases hs
      rintro x (hw | ⟨p, hp, hx⟩)
      · rw [S.markOf_mark] at hw
        split at hw
        · rename_i hx
          exact h x (Or.inr ⟨taken, ht, hx.1⟩)
        · exact h x (Or.inl hw)
      · exact h x (Or.inr ⟨p, List.mem_of_mem_erase hp, hx⟩)
    · exact absurd hs (by simp)
  | forget ids =>
    cases hs
    rintro x (hw | hw)
    · rw [S.markOf_forget] at hw
      split at hw
      · exact absurd rfl hw
      · exact h x (Or.inl hw)
    · exact h x (Or.inr hw)

end

/-- **The source's last word wins where no id is written while its mark waits**: in every run of
either form of the ledger whose writes meet that, whatever is handed out for deletion was marked
last. -/
theorem take_last_word (S : MarkStore) {tr : List (Trans (Marking S) MarkAct)} {m : Marking S}
    (hr : Run Marking.step (Marking.init S) tr m) (hc : ∀ t ∈ tr, WritesUnmarked t)
    {run : String} {ids : List String} (ht : S.oldest m.ledger = some (run, ids)) :
    ∀ x ∈ ids, lastWord x m.words = some true := by
  have h : MarksLast m := by
    refine hr.invariant (I := MarksLast) (C := WritesUnmarked) ?_ ?_ hc
    · rintro x (hw | ⟨p, hp, -⟩)
      · exact absurd (S.markOf_init x) hw
      · exact absurd hp (by simp [Marking.init])
    · exact fun _ _ _ hs hc hm => marksLast_step hs hc hm
  intro x hx
  refine h x (Or.inl ?_)
  rw [S.markOf_oldest m.ledger run ids ht x hx]
  exact Option.some_ne_none _

/-- an id written, and marked by a later run -/
def markedOnce : Marking memory :=
  ⟨(Book.empty.seen "r0" ["u:x"] true 0).mark "r1" ["u:x"], [], [.marked ["u:x"], .wrote ["u:x"]]⟩

theorem take_last_word_of_markedOnce :
    memory.oldest markedOnce.ledger = some ("r1", ["u:x"]) ∧
    lastWord "u:x" markedOnce.words = some true := by
  have hr : Run Marking.step (Marking.init memory)
      [⟨Marking.init memory, .seen "r0" ["u:x"] true 0,
          ⟨Book.empty.seen "r0" ["u:x"] true 0, [], [.wrote ["u:x"]]⟩⟩,
        ⟨⟨Book.empty.seen "r0" ["u:x"] true 0, [], [.wrote ["u:x"]]⟩, .mark "r1" ["u:x"],
          markedOnce⟩] markedOnce := (Run.nil.snoc rfl).snoc rfl
  have ht : memory.oldest markedOnce.ledger = some ("r1", ["u:x"]) := by decide +kernel
  refine ⟨ht, take_last_word memory hr ?_ ht "u:x" (by simp)⟩
  intro t hm run ids now ha x hx
  rcases List.mem_pair.mp hm with rfl | rfl
  · rintro (hw | ⟨p, hp, -⟩)
    · exact hw rfl
    · exact absurd hp (by simp [Marking.init])
  · exact absurd ha (by simp)

def byCodePoint : Collation where
  min? := List.min?
  sort := List.insertionSort (· ≤ ·)
  sort_perm := fun l => List.perm_insertionSort _ l

/-- the source marks `u:x`, and the pipeline writes it again before the sweep -/
def writtenAgain : List MarkAct :=
  [.seen "r0" ["u:x"] true 0, .mark "r1" ["u:x"], .seen "r2" ["u:x"] true 1]

/-- **A write does not take a mark back**, in either form of the ledger. -/
theorem take_written_again :
    (memory.oldest (final Marking.step (Marking.init memory) writtenAgain).ledger
        = some ("r1", ["u:x"]) ∧
      lastWord "u:x" (final Marking.step (Marking.init memory) writtenAgain).words = some false) ∧
    (database byCodePoint).oldest
        (final Marking.step (Marking.init (database byCodePoint)) writtenAgain).ledger
        = some ("r1", ["u:x"]) ∧
      lastWord "u:x"
        (final Marking.step (Marking.init (database byCodePoint)) writtenAgain).words
        = some false := by
  refine ⟨⟨?_, ?_⟩, ?_, ?_⟩
  all_goals decide +kernel

end Ledger
end Portal
