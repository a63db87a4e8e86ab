import Mathlib.Data.List.Basic
import Mathlib.Data.List.Sort
import Mathlib.Data.List.Nodup
import Mathlib.Data.List.TakeWhile
import Mathlib.Data.Finset.Card
import Mathlib.Order.Basic
import Mathlib.Order.Defs.LinearOrder

/-!
# Ordered maps: a finite map kept as a list sorted by its keys

`OrdMap κ α` is the list of its pairs in strictly increasing key order, with the order as a field,
so two maps with the same lookups are the same map.  One primitive, `alter`, changes the value
under one key (present or not, before and after); `insert`, `erase` and `modify` are cases of it.

* `get?_alter`, `get?_mapVal`, `get?_filterKeys`   what each operation does to every lookup;
* `get?_foldl_alter`   a loop that alters pairwise different keys alters each of them once;
* `mem_toList`         membership is lookup;
* `keySet`             a list as an ordered set;
* `count_le`           how many values satisfy a predicate, bounded through the lookups.
-/

set_option linter.unusedSectionVars false

namespace Portal

/-- the pairs of a finite map in strictly increasing key order -/
structure OrdMap (κ : Type*) [LinearOrder κ] (α : Type*) where
  toList : List (κ × α)
  sorted : toList.Pairwise (fun p q => p.1 < q.1)

namespace OrdMap

section
variable {κ : Type*} [LinearOrder κ] {α β ι : Type*}

/-! ## alteration of one key in a sorted list -/

/-- `x` put under `k` in front of `rest`, nothing when `x` is `none` -/
def push (k : κ) (x : Option α) (rest : List (κ × α)) : List (κ × α) :=
  match x with
  | none => rest
  | some a => (k, a) :: rest

def alterList (k : κ) (f : Option α → Option α) : List (κ × α) → List (κ × α)
  | [] => push k (f none) []
  | (k', a) :: rest =>
    if k < k' then push k (f none) ((k', a) :: rest)
    else if k = k' then push k (f (some a)) rest
    else (k', a) :: alterList k f rest

theorem mem_push {k : κ} {x : Option α} {rest : List (κ × α)} {p : κ × α} (h : p ∈ push k x rest) :
    p.1 = k ∨ p ∈ rest := by
  cases x with
  | none => exact Or.inr h
  | some a =>
    rcases List.mem_cons.mp h with rfl | h
    · exact Or.inl rfl
    · exact Or.inr h

theorem mem_alterList {k : κ} {f : Option α → Option α} {l : List (κ × α)} {p : κ × α}
    (h : p ∈ alterList k f l) : p.1 = k ∨ p ∈ l := by
  induction l with
  | nil => exact mem_push h
  | cons q l ih =>
    obtain ⟨k', a⟩ := q
    unfold alterList at h
    split at h
    · exact mem_push h
    · split at h
      · rcases mem_push h with h | h
        · exact Or.inl h
        · exact Or.inr (List.mem_cons_of_mem _ h)
      · rcases List.mem_cons.mp h with rfl | h
        · exact Or.inr (List.mem_cons_self ..)
        · rcases ih h with h | h
          · exact Or.inl h
          · exact Or.inr (List.mem_cons_of_mem _ h)

theorem push_sorted {k : κ} (x : Option α) {rest : List (κ × α)}
    (h : rest.Pairwise (fun p q => p.1 < q.1)) (hk : ∀ q ∈ rest, k < q.1) :
    (push k x rest).Pairwise (fun p q => p.1 < q.1) := by
  cases x with
  | none => exact h
  | some a => exact List.pairwise_cons.mpr ⟨hk, h⟩

theorem alterList_sorted (k : κ) (f : Option α → Option α) {l : List (κ × α)}
    (h : l.Pairwise (fun p q => p.1 < q.1)) :
    (alterList k f l).Pairwise (fun p q => p.1 < q.1) := by
  induction l with
  | nil => exact push_sorted _ List.Pairwise.nil (fun q hq => absurd hq List.not_mem_nil)
  | cons p l ih =>
    obtain ⟨k', a⟩ := p
    obtain ⟨h1, h2⟩ := List.pairwise_cons.mp h
    unfold alterList
    split
    · rename_i hlt
      refine push_sorted _ h (fun q hq => ?_)
      rcases List.mem_cons.mp hq with rfl | hq
      · exact hlt
      · exact lt_trans hlt (h1 q hq)
    · rename_i hge
      split
      · rename_i he
        subst he
        exact push_sorted _ h2 (fun q hq => h1 q hq)
      · rename_i hne
        refine List.pairwise_cons.mpr ⟨fun q hq => ?_, ih h2⟩
        rcases mem_alterList hq with hq | hq
        · rw [hq]
          exact lt_of_le_of_ne (not_lt.mp hge) (Ne.symm hne)
        · exact h1 q hq

/-! ## the operations -/

instance [DecidableEq α] : DecidableEq (OrdMap κ α) := fun m m' =>
  decidable_of_iff (m.toList = m'.toList) (by
    obtain ⟨l, hl⟩ := m
    obtain ⟨l', hl'⟩ := m'
    simp)

def empty : OrdMap κ α := ⟨[], List.Pairwise.nil⟩

def get? (m : OrdMap κ α) (k : κ) : Option α := m.toList.lookup k

def alter (m : OrdMap κ α) (k : κ) (f : Option α → Option α) : OrdMap κ α :=
  ⟨alterList k f m.toList, alterList_sorted k f m.sorted⟩

def insert (m : OrdMap κ α) (k : κ) (a : α) : OrdMap κ α := m.alter k (fun _ => some a)

def erase (m : OrdMap κ α) (k : κ) : OrdMap κ α := m.alter k (fun _ => none)

def modify (m : OrdMap κ α) (k : κ) (f : α → α) : OrdMap κ α := m.alter k (Option.map f)

/-- every value through `f`, the keys as they are -/
def mapVal (m : OrdMap κ α) (f : κ → α → β) : OrdMap κ β :=
  ⟨m.toList.map (fun p => (p.1, f p.1 p.2)), List.pairwise_map.mpr m.sorted⟩

def filterKeys (m : OrdMap κ α) (p : κ → Bool) : OrdMap κ α :=
  ⟨m.toList.filter (fun q => p q.1), m.sorted.filter _⟩

def keys (m : OrdMap κ α) : List κ := m.toList.map Prod.fst

def ofList (l : List (κ × α)) : OrdMap κ α := l.foldl (fun m p => m.insert p.1 p.2) empty

/-- how many values satisfy `p` -/
def count (m : OrdMap κ α) (p : α → Bool) : Nat := (m.toList.filter (fun q => p q.2)).length

/-! ## lookups -/

theorem lookup_push (k k' : κ) (x : Option α) (rest : List (κ × α)) (h : rest.lookup k = none) :
    (push k x rest).lookup k' = if k' = k then x else rest.lookup k' := by
  cases x with
  | none =>
    by_cases e : k' = k
    · rw [if_pos e, e]; exact h
    · rw [if_neg e]; rfl
  | some a =>
    by_cases e : k' = k
    · simp [push, e]
    · have hb : (k' == k) = false := by simpa using e
      simp [push, List.lookup_cons, hb, e]

theorem lookup_none_of_lt {k : κ} {l : List (κ × α)} (h : ∀ q ∈ l, k < q.1) :
    l.lookup k = none := by
  induction l with
  | nil => rfl
  | cons p l ih =>
    obtain ⟨k', a⟩ := p
    have hlt : k < k' := h (k', a) (List.mem_cons_self ..)
    have hb : (k == k') = false := by simpa using ne_of_lt hlt
    rw [List.lookup_cons, hb]
    exact ih (fun q hq => h q (List.mem_cons_of_mem _ hq))

theorem lookup_alterList (k k' : κ) (f : Option α → Option α) {l : List (κ × α)}
    (h : l.Pairwise (fun p q => p.1 < q.1)) :
    (alterList k f l).lookup k' = if k' = k then f (l.lookup k) else l.lookup k' := by
  induction l with
  | nil => exact lookup_push k k' (f none) [] rfl
  | cons p l ih =>
    obtain ⟨k₁, a⟩ := p
    obtain ⟨h1, h2⟩ := List.pairwise_cons.mp h
    unfold alterList
    split
    · rename_i hlt
      have hn : List.lookup k ((k₁, a) :: l) = none := by
        refine lookup_none_of_lt (fun q hq => ?_)
        rcases List.mem_cons.mp hq with rfl | hq
        · exact hlt
        · exact lt_trans hlt (h1 q hq)
      rw [lookup_push k k' _ _ hn, hn]
    · split
      · rename_i he
        subst he
        have hn : l.lookup k = none := lookup_none_of_lt (fun q hq => h1 q hq)
        rw [lookup_push k k' _ _ hn, List.lookup_cons_self]
        by_cases e : k' = k
        · rw [if_pos e, if_pos e]
        · have hb : (k' == k) = false := by simpa using e
          rw [if_neg e, if_neg e, List.lookup_cons, hb]
      · rename_i hne
        have hb : (k == k₁) = false := by simpa using hne
        rw [List.lookup_cons, List.lookup_cons, List.lookup_cons, hb, ih h2]
        by_cases e : k' = k
        · subst e
          simp [hb]
        · simp [e]

@[simp] theorem get?_empty (k : κ) : (empty : OrdMap κ α).get? k = none := rfl

theorem get?_alter (m : OrdMap κ α) (k k' : κ) (f : Option α → Option α) :
    (m.alter k f).get? k' = if k' = k then f (m.get? k) else m.get? k' :=
  lookup_alterList k k' f m.sorted

@[simp] theorem get?_alter_self (m : OrdMap κ α) (k : κ) (f : Option α → Option α) :
    (m.alter k f).get? k = f (m.get? k) := by
  rw [get?_alter, if_pos rfl]

theorem get?_alter_of_ne (m : OrdMap κ α) {k k' : κ} (h : k' ≠ k) (f : Option α → Option α) :
    (m.alter k f).get? k' = m.get? k' := by
  rw [get?_alter, if_neg h]

theorem get?_insert (m : OrdMap κ α) (k k' : κ) (a : α) :
    (m.insert k a).get? k' = if k' = k then some a else m.get? k' :=
  get?_alter m k k' _

theorem get?_erase (m : OrdMap κ α) (k k' : κ) :
    (m.erase k).get? k' = if k' = k then none else m.get? k' :=
  get?_alter m k k' _

theorem of_get?_insert {m : OrdMap κ α} {k k' : κ} {a b : α}
    (h : (m.insert k a).get? k' = some b) : k' = k ∧ b = a ∨ k' ≠ k ∧ m.get? k' = some b := by
  rw [get?_insert] at h
  split at h
  · rename_i hkey
    exact .inl ⟨hkey, (Option.some.inj h).symm⟩
  · rename_i hne
    exact .inr ⟨hne, h⟩

theorem of_get?_erase {m : OrdMap κ α} {k k' : κ} {a : α} (h : (m.erase k).get? k' = some a) :
    k' ≠ k ∧ m.get? k' = some a := by
  rw [get?_erase] at h
  split at h
  · exact absurd h (by simp)
  · rename_i hne
    exact ⟨hne, h⟩

theorem get?_modify (m : OrdMap κ α) (k k' : κ) (f : α → α) :
    (m.modify k f).get? k' = if k' = k then (m.get? k).map f else m.get? k' :=
  get?_alter m k k' _

@[simp] theorem get?_mapVal (m : OrdMap κ α) (f : κ → α → β) (k : κ) :
    (m.mapVal f).get? k = (m.get? k).map (f k) := by
  obtain ⟨l, hl⟩ := m
  show (l.map (fun p => (p.1, f p.1 p.2))).lookup k = (l.lookup k).map (f k)
  clear hl
  induction l with
  | nil => rfl
  | cons p l ih =>
    obtain ⟨k', a⟩ := p
    rw [List.map_cons, List.lookup_cons, List.lookup_cons, ih]
    by_cases e : k = k'
    · subst e; simp
    · have hb : (k == k') = false := by simpa using e
      simp [hb]

@[simp] theorem get?_filterKeys (m : OrdMap κ α) (p : κ → Bool) (k : κ) :
    (m.filterKeys p).get? k = if p k then m.get? k else none := by
  obtain ⟨l, hl⟩ := m
  show (l.filter (fun q => p q.1)).lookup k = if p k then l.lookup k else none
  clear hl
  induction l with
  | nil => cases p k <;> rfl
  | cons q l ih =>
    obtain ⟨k', a⟩ := q
    rw [List.filter_cons, List.lookup_cons]
    by_cases e : k = k'
    · subst e
      cases hp : p k with
      | false => simp [hp] at ih ⊢; exact ih
      | true => simp
    · have hb : (k == k') = false := by simpa using e
      rw [hb]
      cases hp : p k' with
      | false => simpa [hp] using ih
      | true => simpa [hp, List.lookup_cons, hb] using ih

theorem lookup_eq_of_mem {l : List (κ × α)} (hl : l.Pairwise (fun p q => p.1 < q.1)) (k : κ)
    (a : α) : (k, a) ∈ l ↔ l.lookup k = some a := by
  induction l with
  | nil => simp
  | cons q l ih =>
    obtain ⟨k', a'⟩ := q
    obtain ⟨h1, h2⟩ := List.pairwise_cons.mp hl
    rw [List.mem_cons, List.lookup_cons, ih h2]
    by_cases e : k = k'
    · subst e
      have hn : l.lookup k = none := lookup_none_of_lt (fun q hq => h1 q hq)
      simp [hn, eq_comm]
    · have hb : (k == k') = false := by simpa using e
      simp [hb, e]

theorem mem_toList (m : OrdMap κ α) (k : κ) (a : α) : (k, a) ∈ m.toList ↔ m.get? k = some a :=
  lookup_eq_of_mem m.sorted k a

theorem mem_keys (m : OrdMap κ α) (k : κ) : k ∈ m.keys ↔ ∃ a, m.get? k = some a := by
  unfold keys
  rw [List.mem_map]
  constructor
  · rintro ⟨⟨k', a⟩, h, rfl⟩
    exact ⟨a, (mem_toList m k' a).mp h⟩
  · rintro ⟨a, h⟩
    exact ⟨(k, a), (mem_toList m k a).mpr h, rfl⟩

theorem keys_nodup (m : OrdMap κ α) : m.keys.Nodup :=
  List.pairwise_map.mpr (m.sorted.imp (fun h => ne_of_lt h))

theorem ext_get? {m m' : OrdMap κ α} (h : ∀ k, m.get? k = m'.get? k) : m = m' := by
  obtain ⟨l, hl⟩ := m
  obtain ⟨l', hl'⟩ := m'
  have hle : ∀ p q : κ × α, p.1 < q.1 → q.1 < p.1 → p = q := fun p q h1 h2 => (lt_asymm h1 h2).elim
  have hmem : ∀ p : κ × α, p ∈ l ↔ p ∈ l' := by
    intro p
    rw [lookup_eq_of_mem hl p.1 p.2, lookup_eq_of_mem hl' p.1 p.2]
    exact iff_of_eq (congrArg (· = some p.2) (h p.1))
  have hperm : l.Perm l' :=
    (List.perm_ext_iff_of_nodup (hl.imp (fun h e => ne_of_lt h (congrArg Prod.fst e)))
      (hl'.imp (fun h e => ne_of_lt h (congrArg Prod.fst e)))).mpr hmem
  have heq : l = l' := hperm.eq_of_pairwise (fun p q _ _ => hle p q) hl hl'
  subst heq
  rfl

/-- of several entries under one key the last counts -/
theorem get?_ofList (l : List (κ × α)) (k : κ) : (ofList l).get? k = l.reverse.lookup k := by
  unfold ofList
  induction l using List.reverseRecOn with
  | nil => rfl
  | append_singleton l p ih =>
    rw [List.foldl_append, List.foldl_cons, List.foldl_nil, get?_insert, List.reverse_append,
      List.reverse_singleton, List.singleton_append, List.lookup_cons, ih]
    by_cases h : k = p.1
    · rw [if_pos h, h, beq_self_eq_true]
    · rw [if_neg h, beq_false_of_ne h]

theorem mem_of_get?_ofList {l : List (κ × α)} {k : κ} {a : α} (h : (ofList l).get? k = some a) :
    (k, a) ∈ l := by
  rw [get?_ofList] at h
  obtain ⟨before, rest, heq, -⟩ := List.lookup_eq_some_iff.mp h
  rw [← List.mem_reverse, heq]
  simp

theorem isSome_get?_ofList (l : List (κ × α)) (k : κ) :
    ((ofList l).get? k).isSome = true ↔ k ∈ l.map Prod.fst := by
  constructor
  · intro h
    obtain ⟨a, ha⟩ := Option.isSome_iff_exists.mp h
    exact List.mem_map.mpr ⟨(k, a), mem_of_get?_ofList ha, rfl⟩
  · intro h
    obtain ⟨p, hp, rfl⟩ := List.mem_map.mp h
    rw [get?_ofList]
    by_contra hnone
    rw [Bool.not_eq_true, Option.isSome_eq_false_iff, Option.isNone_iff_eq_none,
      List.lookup_eq_none_iff] at hnone
    simpa using hnone p (List.mem_reverse.mpr hp)

theorem lookup_iff_mem {l : List (κ × α)} (hl : (l.map Prod.fst).Nodup) (k : κ) (a : α) :
    l.lookup k = some a ↔ (k, a) ∈ l := by
  induction l with
  | nil => simp
  | cons p l ih =>
    obtain ⟨k', a'⟩ := p
    rw [List.map_cons, List.nodup_cons] at hl
    rw [List.lookup_cons, List.mem_cons]
    by_cases h : k = k'
    · subst h
      have hnot : ∀ b, (k, b) ∉ l := fun b hmem => hl.1 (List.mem_map.mpr ⟨(k, b), hmem, rfl⟩)
      simp [hnot, eq_comm]
    · rw [beq_false_of_ne h, ih hl.2]
      simp [h]

theorem toList_ofList_perm {l : List (κ × α)} (hl : (l.map Prod.fst).Nodup) :
    (ofList l).toList.Perm l := by
  have hnodup : (ofList l).toList.Nodup :=
    (ofList l).sorted.imp (fun h e => ne_of_lt h (congrArg Prod.fst e))
  refine (List.perm_ext_iff_of_nodup hnodup hl.of_map).mpr (fun p => ?_)
  have hreverse : (l.reverse.map Prod.fst).Nodup := by
    rw [List.map_reverse]
    exact List.nodup_reverse.mpr hl
  rw [mem_toList, get?_ofList, lookup_iff_mem hreverse, List.mem_reverse]

theorem insert_insert (m : OrdMap κ α) (k : κ) (a a' : α) :
    (m.insert k a).insert k a' = m.insert k a' := by
  apply ext_get?
  intro k'
  simp only [get?_insert]
  split <;> rfl

theorem erase_insert (m : OrdMap κ α) (k : κ) (a : α) : (m.insert k a).erase k = m.erase k := by
  apply ext_get?
  intro k'
  simp only [get?_insert, get?_erase]
  split <;> rfl

theorem insert_of_get? {m : OrdMap κ α} {k : κ} {a : α} (h : m.get? k = some a) :
    m.insert k a = m := by
  apply ext_get?
  intro k'
  rw [get?_insert]
  split
  · rename_i he
    rw [he, h]
  · rfl

theorem erase_of_get? {m : OrdMap κ α} {k : κ} (h : m.get? k = none) : m.erase k = m := by
  apply ext_get?
  intro k'
  rw [get?_erase]
  split
  · rename_i he
    rw [he, h]
  · rfl

/-! ## ranges -/

def range (m : OrdMap κ α) (start : κ) : List (κ × α) :=
  m.toList.dropWhile (fun p => decide (p.1 < start))

theorem range_sublist (m : OrdMap κ α) (start : κ) : (m.range start).Sublist m.toList :=
  (List.dropWhile_suffix _).sublist

theorem mem_range (m : OrdMap κ α) (start : κ) (p : κ × α) :
    p ∈ m.range start ↔ p ∈ m.toList ∧ start ≤ p.1 := by
  obtain ⟨l, hl⟩ := m
  show p ∈ l.dropWhile (fun p => decide (p.1 < start)) ↔ p ∈ l ∧ start ≤ p.1
  induction l with
  | nil => simp
  | cons q l ih =>
    obtain ⟨h1, h2⟩ := List.pairwise_cons.mp hl
    rw [List.dropWhile_cons]
    by_cases hq : q.1 < start
    · rw [if_pos (by simpa using hq), ih h2, List.mem_cons]
      refine and_congr_left (fun hs => ⟨Or.inr, ?_⟩)
      rintro (rfl | h)
      · exact absurd hq (not_lt.mpr hs)
      · exact h
    · rw [if_neg (by simpa using hq), List.mem_cons]
      refine ⟨fun h => ⟨h, ?_⟩, And.left⟩
      rcases h with rfl | h
      · exact not_lt.mp hq
      · exact le_of_lt (lt_of_le_of_lt (not_lt.mp hq) (h1 p h))

/-- what a sorted list begins with as long as `q` holds is all of `q`, where nothing stands before
a `q` that is none -/
theorem takeWhile_eq_filter {l : List (κ × α)} (hl : l.Pairwise (fun p q => p.1 < q.1))
    {q : κ × α → Bool} (hq : ∀ a ∈ l, ∀ b ∈ l, a.1 < b.1 → q b = true → q a = true) :
    l.takeWhile q = l.filter q := by
  induction l with
  | nil => rfl
  | cons x l ih =>
    obtain ⟨h1, h2⟩ := List.pairwise_cons.mp hl
    have ih := ih h2 (fun a ha b hb => hq a (List.mem_cons_of_mem _ ha) b
      (List.mem_cons_of_mem _ hb))
    by_cases hx : q x = true
    · rw [List.takeWhile_cons_of_pos hx, List.filter_cons_of_pos hx, ih]
    · rw [List.takeWhile_cons_of_neg hx, List.filter_cons_of_neg hx]
      refine (List.filter_eq_nil_iff.mpr (fun p hp hqp => hx ?_)).symm
      exact hq x List.mem_cons_self p (List.mem_cons_of_mem _ hp) (h1 p hp) hqp

/-- **A range is a filter**: from a key on as long as `q` holds stands all of `q`, when every key
of `q` comes from there on and so do all between two of them. -/
theorem takeWhile_range (m : OrdMap κ α) {start : κ} {q : κ → Bool}
    (hstart : ∀ k, q k = true → start ≤ k)
    (hbetween : ∀ k k', start ≤ k → k < k' → q k' = true → q k = true) :
    (m.range start).takeWhile (fun p => q p.1) = m.toList.filter (fun p => q p.1) := by
  rw [takeWhile_eq_filter (m.sorted.sublist (m.range_sublist start))
    (fun a ha b _ hab => hbetween _ _ ((m.mem_range start a).mp ha).2 hab)]
  -- what stands before the start is none of `q`
  have hnone : (m.toList.takeWhile (fun p => decide (p.1 < start))).filter (fun p => q p.1) = [] := by
    refine List.filter_eq_nil_iff.mpr (fun p hp hqp => ?_)
    have hlt : p.1 < start := by simpa using List.mem_takeWhile_imp hp
    exact absurd (hstart _ hqp) (not_le.mpr hlt)
  conv_rhs =>
    rw [← List.takeWhile_append_dropWhile (p := fun p => decide (p.1 < start)) (l := m.toList),
      List.filter_append, hnone, List.nil_append]
  rfl

/-! ## sets of keys -/

/-- the members of a list as an ordered set, each once -/
def keySet (l : List κ) : List κ :=
  (l.foldl (fun (m : OrdMap κ Unit) k => m.insert k ()) empty).keys

theorem keySet_sorted (l : List κ) : (keySet l).Pairwise (fun a b => a < b) :=
  List.pairwise_map.mpr (OrdMap.sorted _)

theorem mem_keySet (l : List κ) (k : κ) : k ∈ keySet l ↔ k ∈ l := by
  have h : ∀ m : OrdMap κ Unit, (∃ a, (l.foldl (fun m k => m.insert k ()) m).get? k = some a) ↔
      (∃ a, m.get? k = some a) ∨ k ∈ l := by
    induction l with
    | nil => simp
    | cons x l ih =>
      intro m
      rw [List.foldl_cons, ih, get?_insert, List.mem_cons]
      by_cases e : k = x
      · simp [e]
      · simp [e]
  unfold keySet
  rw [mem_keys, h]
  simp

theorem keySet_congr {l l' : List κ} (h : ∀ k, k ∈ l ↔ k ∈ l') : keySet l = keySet l' :=
  (keySet_sorted l).eq_of_mem_iff (keySet_sorted l') (fun k => by
    rw [mem_keySet, mem_keySet, h])

theorem lookup_filterMap (l : List κ) (hl : l.Nodup) (f : κ → Option α) (k : κ) :
    (l.filterMap (fun k => (f k).map (fun a => (k, a)))).lookup k
      = if k ∈ l then f k else none := by
  induction l with
  | nil => rfl
  | cons x l ih =>
    obtain ⟨hx, hl'⟩ := List.nodup_cons.mp hl
    rw [List.filterMap_cons]
    by_cases e : k = x
    · subst e
      rw [if_pos (List.mem_cons_self ..)]
      cases hf : f k with
      | none => simpa [hx] using ih hl'
      | some a => simp
    · have hb : (k == x) = false := by simpa using e
      have hm : k ∈ x :: l ↔ k ∈ l := by simp [e]
      cases hf : f x with
      | none => simpa [hm, e] using ih hl'
      | some a => simpa [List.lookup_cons, hb, hm, e] using ih hl'

/-! ## loops -/

theorem get?_foldl_alter (key : ι → κ) (f : ι → Option α → Option α) (l : List ι)
    (hl : (l.map key).Nodup) (m : OrdMap κ α) (k : κ) :
    (∀ x ∈ l, key x = k →
      (l.foldl (fun m x => m.alter (key x) (f x)) m).get? k = f x (m.get? k)) ∧
    (k ∉ l.map key → (l.foldl (fun m x => m.alter (key x) (f x)) m).get? k = m.get? k) := by
  induction l generalizing m with
  | nil => exact ⟨fun x hx => absurd hx List.not_mem_nil, fun _ => rfl⟩
  | cons y l ih =>
    rw [List.map_cons] at hl
    obtain ⟨hy, hl'⟩ := List.nodup_cons.mp hl
    obtain ⟨h1, h2⟩ := ih hl' (m.alter (key y) (f y))
    rw [List.foldl_cons]
    constructor
    · intro x hx e
      rcases List.mem_cons.mp hx with rfl | hx
      · rw [h2 (e ▸ hy), ← e, get?_alter_self]
      · have hne : k ≠ key y := fun h => hy (h ▸ e ▸ List.mem_map_of_mem hx)
        rw [h1 x hx e, get?_alter_of_ne m hne]
    · intro hk
      rw [List.map_cons, List.mem_cons, not_or] at hk
      rw [h2 hk.2, get?_alter_of_ne m hk.1]

/-! ## counting -/

theorem count_eq_card (m : OrdMap κ α) (p : α → Bool) :
    m.count p = ((m.toList.filter (fun q => p q.2)).map Prod.fst).toFinset.card := by
  have hn : ((m.toList.filter (fun q => p q.2)).map Prod.fst).Nodup :=
    List.Nodup.sublist (List.Sublist.map _ List.filter_sublist) m.keys_nodup
  rw [List.toFinset_card_of_nodup hn, List.length_map]
  rfl

/-- a map whose `p`-values stand under keys that held one before, or under keys of `l`, has at
most `l.length` more of them -/
theorem count_le (m m' : OrdMap κ α) (p : α → Bool) (l : List κ)
    (h : ∀ k a', m'.get? k = some a' → p a' = true →
      (∃ a, m.get? k = some a ∧ p a = true) ∨ k ∈ l) :
    m'.count p ≤ m.count p + l.length := by
  rw [count_eq_card, count_eq_card]
  have hsub : ((m'.toList.filter (fun q => p q.2)).map Prod.fst).toFinset
      ⊆ ((m.toList.filter (fun q => p q.2)).map Prod.fst).toFinset ∪ l.toFinset := by
    intro k hk
    rw [List.mem_toFinset, List.mem_map] at hk
    obtain ⟨⟨k', a'⟩, hm, rfl⟩ := hk
    obtain ⟨hm, hp⟩ := List.mem_filter.mp hm
    rw [Finset.mem_union, List.mem_toFinset, List.mem_toFinset]
    rcases h k' a' ((mem_toList m' k' a').mp hm) hp with ⟨a, ha, hpa⟩ | hl
    · refine Or.inl (List.mem_map.mpr ⟨(k', a), ?_, rfl⟩)
      exact List.mem_filter.mpr ⟨(mem_toList m k' a).mpr ha, hpa⟩
    · exact Or.inr hl
  calc _ ≤ _ := Finset.card_le_card hsub
    _ ≤ _ := Finset.card_union_le _ _
    _ ≤ _ := Nat.add_le_add_left (List.toFinset_card_le l) _

/-- a map that keeps the `p`-values of another, and has one under each key of `l` that held none,
has as many more of them -/
theorem add_length_le_count (m m' : OrdMap κ α) (p : α → Bool) {l : List κ} (hl : l.Nodup)
    (hkept : ∀ k a, m.get? k = some a → p a = true → ∃ a', m'.get? k = some a' ∧ p a' = true)
    (hnew : ∀ k ∈ l, (∃ a', m'.get? k = some a' ∧ p a' = true) ∧
      ∀ a, m.get? k = some a → p a = false) :
    m.count p + l.length ≤ m'.count p := by
  have hmem : ∀ (m : OrdMap κ α) (k : κ), k ∈ (m.toList.filter (fun q => p q.2)).map Prod.fst ↔
      ∃ a, m.get? k = some a ∧ p a = true := by
    intro m k
    rw [List.mem_map]
    constructor
    · intro ⟨⟨k', a⟩, hin, hk⟩
      obtain ⟨hin, hp⟩ := List.mem_filter.mp hin
      exact ⟨a, hk ▸ (mem_toList m k' a).mp hin, hp⟩
    · intro ⟨a, ha, hp⟩
      exact ⟨(k, a), List.mem_filter.mpr ⟨(mem_toList m k a).mpr ha, hp⟩, rfl⟩
  have hn : ((m.toList.filter (fun q => p q.2)).map Prod.fst).Nodup :=
    List.Nodup.sublist (List.Sublist.map _ List.filter_sublist) m.keys_nodup
  have hdisjoint : ((m.toList.filter (fun q => p q.2)).map Prod.fst).Disjoint l := by
    intro k h1 h2
    obtain ⟨a, ha, hp⟩ := (hmem m k).mp h1
    rw [(hnew k h2).2 a ha] at hp
    exact absurd hp (by simp)
  have hsub : (m.toList.filter (fun q => p q.2)).map Prod.fst ++ l
      ⊆ (m'.toList.filter (fun q => p q.2)).map Prod.fst := by
    intro k hk
    rw [hmem]
    rcases List.mem_append.mp hk with h | h
    · obtain ⟨a, ha, hp⟩ := (hmem m k).mp h
      exact hkept k a ha hp
    · exact (hnew k h).1
  have hlen := (List.subperm_of_subset (hn.append hl hdisjoint) hsub).length_le
  rw [List.length_append, List.length_map, List.length_map] at hlen
  exact hlen

/-- how many of the values under the other keys satisfy `p` -/
def countOthers (m : OrdMap κ α) (k : κ) (p : α → Bool) : Nat :=
  (m.toList.filter (fun q => decide (q.1 ≠ k) && p q.2)).length

theorem count_alter (m : OrdMap κ α) (k : κ) (f : Option α → Option α) (p : α → Bool) :
    (m.alter k f).count p = m.countOthers k p + ((f (m.get? k)).any p).toNat := by
  obtain ⟨l, hl⟩ := m
  show ((alterList k f l).filter (fun q => p q.2)).length
    = (l.filter (fun q => decide (q.1 ≠ k) && p q.2)).length + ((f (l.lookup k)).any p).toNat
  have hpush : ∀ (x : Option α) (rest : List (κ × α)),
      ((push k x rest).filter (fun q => p q.2)).length
        = (rest.filter (fun q => p q.2)).length + (x.any p).toNat := by
    intro x rest
    cases x with
    | none => rfl
    | some a => cases hp : p a <;> simp [push, hp]
  -- the pairs past `k` are all others
  have hpast : ∀ rest : List (κ × α), (∀ q ∈ rest, k < q.1) →
      rest.filter (fun q => decide (q.1 ≠ k) && p q.2) = rest.filter (fun q => p q.2) := by
    intro rest hrest
    refine List.filter_congr (fun q hq => ?_)
    simp [(ne_of_lt (hrest q hq)).symm]
  induction l with
  | nil => simpa [alterList] using hpush (f none) []
  | cons x l ih =>
    obtain ⟨k', a⟩ := x
    obtain ⟨h1, h2⟩ := List.pairwise_cons.mp hl
    unfold alterList
    split
    · rename_i hlt
      have hall : ∀ q ∈ (k', a) :: l, k < q.1 := by
        intro q hq
        rcases List.mem_cons.mp hq with rfl | hq
        · exact hlt
        · exact lt_trans hlt (h1 q hq)
      rw [hpush, hpast _ hall, lookup_none_of_lt hall]
    · split
      · rename_i he
        subst he
        rw [hpush, List.lookup_cons_self, List.filter_cons_of_neg (by simp), hpast l h1]
      · rename_i hne
        have hb : (k == k') = false := by simpa using hne
        rw [List.lookup_cons, hb]
        have ih := ih h2
        cases hp : p a with
        | false => simpa [hp] using ih
        | true =>
          simp only [List.filter_cons, hp, Ne.symm hne, ne_eq, not_false_eq_true, decide_true,
            Bool.and_self, if_true, List.length_cons, ih]
          omega

theorem count_or (m : OrdMap κ α) (p q : α → Bool) :
    m.count (fun a => p a || q a) = m.count p + m.count (fun a => q a && !p a) := by
  obtain ⟨l, hl⟩ := m
  show (l.filter (fun r => p r.2 || q r.2)).length
    = (l.filter (fun r => p r.2)).length + (l.filter (fun r => q r.2 && !p r.2)).length
  clear hl
  induction l with
  | nil => rfl
  | cons r l ih =>
    cases hp : p r.2 <;> cases hq : q r.2 <;> simp [hp, hq, ih] <;> omega

theorem count_congr (m : OrdMap κ α) {p q : α → Bool} (h : ∀ a, p a = q a) :
    m.count p = m.count q := by
  rw [funext h]

theorem count_mono (m : OrdMap κ α) {p q : α → Bool} (h : ∀ a, p a = true → q a = true) :
    m.count p ≤ m.count q :=
  (List.monotone_filter_right m.toList (fun r => h r.2)).length_le

theorem count_insert (m : OrdMap κ α) (k : κ) (a : α) (p : α → Bool) :
    (m.insert k a).count p = m.countOthers k p + (p a).toNat :=
  count_alter m k (fun _ => some a) p

theorem count_eq (m : OrdMap κ α) (k : κ) (p : α → Bool) :
    m.count p = m.countOthers k p + ((m.get? k).any p).toNat := by
  have hid : m.alter k id = m := by
    refine ext_get? (fun k' => ?_)
    rw [get?_alter]
    split
    · rename_i h
      rw [h]
      rfl
    · rfl
  have h := count_alter m k id p
  rw [hid] at h
  exact h

/-! ## size -/

/-- how many keys there are -/
def size (m : OrdMap κ α) : Nat := m.toList.length

theorem size_eq_count (m : OrdMap κ α) : m.size = m.count (fun _ => true) := by
  unfold size count
  rw [List.filter_eq_self.mpr (fun _ _ => rfl)]

theorem size_insert_le (m : OrdMap κ α) (k : κ) (a : α) : (m.insert k a).size ≤ m.size + 1 := by
  rw [size_eq_count, size_eq_count, count_insert, count_eq m k]
  simp only [Bool.toNat_true]
  omega

theorem size_erase_lt {m : OrdMap κ α} {k : κ} {a : α} (h : m.get? k = some a) :
    (m.erase k).size < m.size := by
  have herase : (m.erase k).count (fun _ => true) = m.countOthers k (fun _ => true) :=
    count_alter m k (fun _ => none) _
  rw [size_eq_count, size_eq_count, herase, count_eq m k, h]
  simp

theorem size_erase_le (m : OrdMap κ α) (k : κ) : (m.erase k).size ≤ m.size := by
  cases h : m.get? k with
  | none => rw [erase_of_get? h]
  | some a => exact le_of_lt (size_erase_lt h)

/-- the pairs whose value a predicate keeps -/
def retain (m : OrdMap κ α) (p : α → Bool) : OrdMap κ α :=
  ⟨m.toList.filter (fun q => p q.2), m.sorted.sublist List.filter_sublist⟩

theorem get?_retain (m : OrdMap κ α) (p : α → Bool) (k : κ) :
    (m.retain p).get? k = (m.get? k).filter p := by
  refine Option.ext (fun a => ?_)
  rw [← mem_toList, Option.filter_eq_some_iff, ← mem_toList]
  exact List.mem_filter

theorem size_retain_le (m : OrdMap κ α) (p : α → Bool) : (m.retain p).size ≤ m.size :=
  List.length_filter_le _ _

end

end OrdMap
end Portal
