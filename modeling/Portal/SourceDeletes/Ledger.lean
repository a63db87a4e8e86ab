import Mathlib.Data.List.Lattice
import Portal.Base.Document
import Portal.Base.OrdMap
import Portal.Base.Text

/-!
# The source ledger of one pipeline (`pipeline_source_deletes.rs`: `judge`, `Ledger`)

A pipeline that follows what its source removed keeps a row for every id it wrote: the run that
read the id last, and how many complete runs in a row have missed it.  `judge` turns the rows and
an ended run into new miss counts and a verdict; the ledger's operations are those of its in-memory
form, each under the lock.

* `judge_empty`, `judge_share`, `mem_judge`   what a judgement finds;
* `get?_seen`, `get?_settle`, `get?_keep`, `get?_forget`   what each operation does to every row.
-/

namespace Portal
namespace Ledger

/-- the most ids one delete stream carries -/
def maxPerStream : Nat := 5000

/-- the longest entity id the ledger keeps -/
def maxId : Nat := 256

inductive HoldReason where
  | shareExceeded
  | empty
  | incomplete
deriving DecidableEq, Repr

/-- a run that deleted nothing: the ids it would have deleted, and those of the ledger -/
structure Hold where
  run : String
  reason : HoldReason
  would : Nat
  ledger : Nat
deriving DecidableEq, Repr

structure Row where
  lastRun : String
  misses : Nat
deriving DecidableEq, Repr

abbrev Rows := OrdMap String Row

/-! ## the rule -/

/-- a snapshot rule within its bounds -/
structure Rule where
  misses : Nat
  maxShare : Nat
  one_le_misses : 1 ≤ misses
  one_le_share : 1 ≤ maxShare
  share_le : maxShare ≤ 100
deriving DecidableEq

/-! ## the judgement -/

inductive Verdict where
  | delete (ids : List String)
  | held (hold : Hold)
deriving DecidableEq, Repr

/-- the verdicts that count a miss: all but the hold of a run that read nothing -/
def Verdict.counts : Verdict → Bool
  | .held hold => hold.reason ≠ .empty
  | .delete _ => true

/-- the new misses of a row: none when the run read it, else one more, as far as a byte goes -/
def missed (run : String) (row : Row) : Nat :=
  if row.lastRun = run then 0 else min 255 (row.misses + 1)

/-- every row's new misses, and the ids to delete or the hold -/
def judge (rows : Rows) (run : String) (rule : Rule) : List (String × Nat) × Verdict :=
  let hold := fun reason would => Verdict.held ⟨run, reason, would, rows.toList.length⟩
  if !rows.toList.isEmpty && rows.toList.all (fun p => p.2.lastRun ≠ run) then ([], hold .empty 0)
  else
    let misses := rows.toList.map (fun p => (p.1, missed run p.2))
    let doomed := (misses.filter (fun p => rule.misses ≤ p.2)).map Prod.fst
    if rule.maxShare * rows.toList.length < doomed.length * 100 then
      (misses, hold .shareExceeded doomed.length)
    else (misses, .delete doomed)

/-- whether an id may be put in a delete: a URI the gateway can name, nothing a stream could read
as anything else -/
def deletable (id : String) : Bool :=
  Text.utf8Len id.toList ≤ maxId && id.toList.contains ':' &&
    id.toList.all (fun c =>
      33 ≤ c.toNat && c.toNat ≤ 126 && !(['"', '\\', '$', '\x7b', '\x7d'].contains c))

/-! ## what a judgement finds -/

section
variable (rows : Rows) (run : String) (rule : Rule)

def newMisses : List (String × Nat) := rows.toList.map (fun p => (p.1, missed run p.2))

theorem keys_newMisses : (newMisses rows run).map Prod.fst = rows.keys := by
  unfold newMisses OrdMap.keys
  rw [List.map_map]
  rfl

theorem lookup_newMisses (x : String) :
    (newMisses rows run).lookup x = (rows.get? x).map (missed run) :=
  OrdMap.get?_mapVal rows (fun _ row => missed run row) x

/-- a run that read none of the ledger changes nothing; any other counts -/
theorem judge_cases :
    (rows.toList ≠ [] ∧ (∀ id row, rows.get? id = some row → row.lastRun ≠ run) ∧
      judge rows run rule = ([], .held ⟨run, .empty, 0, rows.toList.length⟩)) ∨
    ((rows.toList = [] ∨ ∃ id row, rows.get? id = some row ∧ row.lastRun = run) ∧
      (judge rows run rule).1 = newMisses rows run ∧ (judge rows run rule).2.counts = true) := by
  by_cases h : !rows.toList.isEmpty && rows.toList.all (fun p => p.2.lastRun ≠ run)
  · refine Or.inl ?_
    have hj : judge rows run rule = ([], .held ⟨run, .empty, 0, rows.toList.length⟩) := by
      unfold judge
      simp only [h, if_true]
    simp only [Bool.and_eq_true, List.all_eq_true] at h
    refine ⟨fun e => by simp [e] at h, fun id row hr => ?_, hj⟩
    simpa using h.2 (id, row) ((OrdMap.mem_toList rows id row).mpr hr)
  · refine Or.inr ⟨?_, ?_, ?_⟩
    · by_contra hn
      rw [not_or] at hn
      refine h (Bool.and_eq_true_iff.mpr ⟨by simpa using hn.1, List.all_eq_true.mpr ?_⟩)
      rintro ⟨id, row⟩ hp
      have hr := (OrdMap.mem_toList rows id row).mp hp
      simpa using fun e => hn.2 ⟨id, row, hr, e⟩
    · unfold judge
      simp only [if_neg h]
      split <;> rfl
    · unfold judge
      simp only [if_neg h]
      split <;> simp [Verdict.counts]

theorem judge_nodup : ((judge rows run rule).1.map Prod.fst).Nodup := by
  rcases judge_cases rows run rule with ⟨-, -, h⟩ | ⟨-, h, -⟩
  · rw [h]
    exact List.nodup_nil
  · rw [h, keys_newMisses]
    exact rows.keys_nodup

/-- **A judgement deletes only rows whose misses reach the rule, and no more than its share.** -/
theorem judge_delete {ids : List String} (h : (judge rows run rule).2 = .delete ids) :
    (∀ x ∈ ids, ∃ row, rows.get? x = some row ∧ rule.misses ≤ missed run row) ∧
    ids.length * 100 ≤ rule.maxShare * rows.toList.length := by
  unfold judge at h
  simp only at h
  split at h
  · exact absurd h (by simp)
  · split at h
    · exact absurd h (by simp)
    · rename_i hs
      rw [Verdict.delete.injEq] at h
      subst h
      refine ⟨fun x hx => ?_, not_lt.mp hs⟩
      obtain ⟨p, hp, rfl⟩ := List.mem_map.mp hx
      obtain ⟨hp, hm⟩ := List.mem_filter.mp hp
      obtain ⟨⟨id, row⟩, hr, rfl⟩ := List.mem_map.mp hp
      exact ⟨row, (OrdMap.mem_toList rows id row).mp hr, of_decide_eq_true hm⟩

end

theorem lastRun_ne_of_missed {run : String} {rule : Rule} {row : Row}
    (h : rule.misses ≤ missed run row) : row.lastRun ≠ run ∧ rule.misses ≤ row.misses + 1 := by
  have h1 := rule.one_le_misses
  unfold missed at h
  split at h
  · omega
  · rename_i hne
    exact ⟨hne, by omega⟩

/-! ## the book of a pipeline -/

structure Book where
  rows : Rows
  hold : Option Hold
  /-- the last complete run -/
  complete : Option String
  /-- the ids the source marked as deleted, with the run that marked them -/
  marked : OrdMap String String
  /-- when the pipeline last wrote each id, unix seconds -/
  written : OrdMap String Int

namespace Book

def empty : Book := ⟨OrdMap.empty, none, none, OrdMap.empty, OrdMap.empty⟩

/-- one id that `run` read -/
def seenOne (run : String) (wrote : Bool) (now : Int) (b : Book) (id : String) : Book :=
  let rows := if wrote then b.rows.alter id (fun row => some (row.getD ⟨"", 0⟩)) else b.rows
  match rows.get? id with
  | some row =>
    { b with
      rows := rows.insert id { row with lastRun := run }
      written := if wrote then b.written.insert id now else b.written }
  | none => { b with rows := rows }

/-- `run` read these ids: known ones keep their misses, new ones join when the pipeline wrote
them -/
def seen (b : Book) (run : String) (ids : List String) (wrote : Bool) (now : Int) : Book :=
  (ids.filter deletable).foldl (seenOne run wrote now) b

/-- a judged run written down: the new misses, and the hold set or cleared -/
def settle (b : Book) (misses : List (String × Nat)) (hold : Option Hold) : Book :=
  { b with
    rows := misses.foldl (fun rows p => rows.modify p.1 (fun row => { row with misses := p.2 }))
      b.rows
    hold := hold }

def completed (b : Book) (run : String) : Book := { b with complete := some run }

/-- deleted ids leave the ledger -/
def forget (b : Book) (ids : List String) : Book :=
  { b with
    rows := b.rows.filterKeys (fun id => !ids.contains id)
    marked := b.marked.filterKeys (fun id => !ids.contains id)
    written := b.written.filterKeys (fun id => !ids.contains id) }

/-- every id counts as read again and the hold is cleared -/
def keep (b : Book) : Book :=
  { b with rows := b.rows.mapVal (fun _ row => { row with misses := 0 }), hold := none }

/-- the ids the ledger holds of those `run`'s source said are deleted -/
def held (b : Book) (ids : List String) : List String :=
  ids.filter (fun id => (b.rows.get? id).isSome)

def mark (b : Book) (run : String) (ids : List String) : Book :=
  { b with marked := (b.held ids).foldl (fun marked id => marked.insert id run) b.marked }

/-- the marks of the oldest marked run, as many as one stream carries -/
def oldestMarked (b : Book) : Option (String × List String) :=
  (b.marked.toList.map Prod.snd).min?.map (fun run =>
    (run, ((b.marked.toList.filter (fun p => p.2 = run)).map Prod.fst).take maxPerStream))

/-- they are no longer marked once taken -/
def unmark (b : Book) (ids : List String) : Book :=
  { b with marked := b.marked.filterKeys (fun id => !ids.contains id) }

end Book

/-! ## what the operations do to a row -/

def readBy (run : String) (wrote : Bool) : Option Row → Option Row
  | some row => some { row with lastRun := run }
  | none => if wrote then some ⟨run, 0⟩ else none

section
variable (b : Book)

theorem get?_seenOne (run : String) (wrote : Bool) (now : Int) (id x : String) :
    (b.seenOne run wrote now id).rows.get? x =
      if x = id then readBy run wrote (b.rows.get? x) else b.rows.get? x := by
  unfold Book.seenOne
  cases wrote with
  | true =>
    have hid : (b.rows.alter id (fun row => some (row.getD ⟨"", 0⟩))).get? id
        = some ((b.rows.get? id).getD ⟨"", 0⟩) := OrdMap.get?_alter_self ..
    simp only [if_true, hid, OrdMap.get?_insert]
    by_cases e : x = id
    · subst e
      cases b.rows.get? x <;> simp [readBy]
    · rw [if_neg e, if_neg e, OrdMap.get?_alter_of_ne _ e]
  | false =>
    cases h : b.rows.get? id with
    | none =>
      simp only [Bool.false_eq_true, if_false, h]
      by_cases e : x = id
      · simp [e, h, readBy]
      · rw [if_neg e]
    | some row =>
      simp only [Bool.false_eq_true, if_false, h, OrdMap.get?_insert]
      by_cases e : x = id
      · simp [e, h, readBy]
      · rw [if_neg e, if_neg e]

theorem marked_seenOne (run : String) (wrote : Bool) (now : Int) (id : String) :
    (b.seenOne run wrote now id).marked = b.marked := by
  unfold Book.seenOne
  simp only
  split <;> rfl

theorem get?_seen (run : String) (ids : List String) (wrote : Bool) (now : Int) (x : String) :
    (b.seen run ids wrote now).rows.get? x =
      if x ∈ ids ∧ deletable x = true then readBy run wrote (b.rows.get? x)
      else b.rows.get? x := by
  have h : x ∈ ids ∧ deletable x = true ↔ x ∈ ids.filter deletable := List.mem_filter.symm
  simp only [h]
  unfold Book.seen
  generalize ids.filter deletable = l
  induction l generalizing b with
  | nil => simp
  | cons id l ih =>
    rw [List.foldl_cons, ih, get?_seenOne]
    by_cases e : x = id
    · subst e
      cases b.rows.get? x <;> cases wrote <;> simp [readBy]
    · simp [e]

@[simp] theorem marked_seen (run : String) (ids : List String) (wrote : Bool) (now : Int) :
    (b.seen run ids wrote now).marked = b.marked := by
  unfold Book.seen
  generalize ids.filter deletable = l
  induction l generalizing b with
  | nil => rfl
  | cons id l ih => rw [List.foldl_cons, ih, marked_seenOne]

theorem get?_settle {misses : List (String × Nat)} (hn : (misses.map Prod.fst).Nodup)
    (hold : Option Hold) (x : String) :
    (b.settle misses hold).rows.get? x =
      (b.rows.get? x).map
        (fun row => { row with misses := (misses.lookup x).getD row.misses }) := by
  obtain ⟨h1, h2⟩ := OrdMap.get?_foldl_alter Prod.fst
    (fun p => Option.map (fun row => ({ row with misses := p.2 } : Row))) misses hn b.rows x
  change (misses.foldl (fun rows p => rows.alter p.1 (Option.map (fun row =>
    ({ row with misses := p.2 } : Row)))) b.rows).get? x = _
  cases hl : misses.lookup x with
  | none =>
    rw [h2]
    · cases b.rows.get? x <;> rfl
    · intro hx
      obtain ⟨p, hp, rfl⟩ := List.mem_map.mp hx
      exact absurd (List.lookup_eq_none_iff.mp hl p hp) (by simp)
  | some m =>
    obtain ⟨l1, l2, rfl, -⟩ := List.lookup_eq_some_iff.mp hl
    rw [h1 (x, m) (by simp) rfl]
    rfl

@[simp] theorem marked_settle (misses : List (String × Nat)) (hold : Option Hold) :
    (b.settle misses hold).marked = b.marked := rfl

theorem get?_keep (x : String) :
    b.keep.rows.get? x = (b.rows.get? x).map (fun row => { row with misses := 0 }) :=
  OrdMap.get?_mapVal ..

@[simp] theorem marked_keep : b.keep.marked = b.marked := rfl

theorem get?_forget (ids : List String) (x : String) :
    (b.forget ids).rows.get? x = if x ∈ ids then none else b.rows.get? x := by
  unfold Book.forget
  simp only [OrdMap.get?_filterKeys]
  by_cases h : x ∈ ids <;> simp [h]

end

end Ledger
end Portal
