import Mathlib.Data.List.Nodup
import Mathlib.Algebra.BigOperators.Group.List.Basic
import Mathlib.Algebra.GroupWithZero.Nat

/-!
# Lists by recency of use, bounded by weight

A list of items under keys, the least recently used first.  Putting an item makes it the last and
drops the first ones until the rest weighs no more than the cap; finding one makes it the last.

* `Item`, `total`, `without`, `trim`, `find`, `put`   the list and its operations;
* `suffix_trim`       what is kept is every end of the list that fits;
* `Held`              one item a key, and all of them within the cap, kept by every operation;
* `put_drops`         an item that a put drops does not fit beside what was used since.
-/

namespace Portal
namespace Recency

structure Item (κ ν : Type*) where
  key : κ
  value : ν
  weight : Nat
  /-- when it was put -/
  since : Nat
deriving DecidableEq

section
variable {κ ν : Type*}

def total (l : List (Item κ ν)) : Nat := (l.map Item.weight).sum

@[simp] theorem total_nil : total ([] : List (Item κ ν)) = 0 := rfl

@[simp] theorem total_cons (i : Item κ ν) (l : List (Item κ ν)) :
    total (i :: l) = i.weight + total l := by
  unfold total
  rw [List.map_cons, List.sum_cons]

@[simp] theorem total_append (l l' : List (Item κ ν)) : total (l ++ l') = total l + total l' := by
  unfold total
  rw [List.map_append, List.sum_append]

def trim (cap : Nat) : List (Item κ ν) → List (Item κ ν)
  | [] => []
  | i :: l => if total (i :: l) ≤ cap then i :: l else trim cap l

theorem trim_suffix (cap : Nat) (l : List (Item κ ν)) : trim cap l <:+ l := by
  induction l with
  | nil => exact List.suffix_refl _
  | cons i l ih =>
    unfold trim
    split
    · exact List.suffix_refl _
    · exact ih.trans (List.suffix_cons i l)

theorem total_trim (cap : Nat) (l : List (Item κ ν)) : total (trim cap l) ≤ cap := by
  induction l with
  | nil => exact Nat.zero_le _
  | cons i l ih =>
    unfold trim
    split
    · assumption
    · exact ih

theorem suffix_trim {cap : Nat} {l l' : List (Item κ ν)} (hsuffix : l' <:+ l)
    (hfits : total l' ≤ cap) : l' <:+ trim cap l := by
  induction l with
  | nil => exact hsuffix
  | cons i l ih =>
    unfold trim
    split
    · exact hsuffix
    · rename_i hover
      rcases List.suffix_cons_iff.1 hsuffix with rfl | hsuffix
      · exact absurd hfits hover
      · exact ih hsuffix

variable [DecidableEq κ]

def without (key : κ) (l : List (Item κ ν)) : List (Item κ ν) := l.filter (fun i => i.key ≠ key)

theorem mem_without {key : κ} {l : List (Item κ ν)} {i : Item κ ν} :
    i ∈ without key l ↔ i ∈ l ∧ i.key ≠ key := by
  unfold without
  rw [List.mem_filter, decide_eq_true_iff]

def find (key : κ) (l : List (Item κ ν)) : Option (Item κ ν) := l.find? (fun i => i.key = key)

/-- the value under `key` unless it is too old; it is the last used then -/
def get (ttl : Option Nat) (key : κ) (now : Nat) (l : List (Item κ ν)) :
    Option ν × List (Item κ ν) :=
  match find key l with
  | none => (none, l)
  | some i =>
    if ttl.any (fun ttl => ttl ≤ now - i.since) then (none, without key l)
    else (some i.value, without key l ++ [i])

/-- the item in the place of what its key had; one heavier than the cap is not kept -/
def put (cap : Nat) (i : Item κ ν) (l : List (Item κ ν)) : List (Item κ ν) :=
  if cap < i.weight then without i.key l else trim cap (without i.key l ++ [i])

/-! ## one item a key -/

/-- **Invariant**: one item a key, within the cap. -/
structure Held (cap : Nat) (l : List (Item κ ν)) : Prop where
  keys : (l.map Item.key).Nodup
  fits : total l ≤ cap

theorem keys_without {key : κ} {l : List (Item κ ν)} (h : (l.map Item.key).Nodup) :
    ((without key l).map Item.key).Nodup :=
  h.sublist (List.filter_sublist.map _)

theorem keys_snoc {i : Item κ ν} {l : List (Item κ ν)} (h : (l.map Item.key).Nodup) :
    ((without i.key l ++ [i]).map Item.key).Nodup := by
  rw [List.map_append]
  refine List.nodup_append.2 ⟨keys_without h, List.nodup_singleton _, ?_⟩
  intro k hk k' hk' heq
  obtain ⟨j, hj, rfl⟩ := List.mem_map.1 hk
  obtain rfl := List.mem_singleton.1 hk'
  exact (mem_without.1 hj).2 heq

theorem total_without_le (key : κ) (l : List (Item κ ν)) : total (without key l) ≤ total l := by
  induction l with
  | nil => exact Nat.le_refl _
  | cons i l ih =>
    unfold without
    rw [List.filter_cons]
    split
    · rw [total_cons, total_cons]
      exact Nat.add_le_add_left ih _
    · rw [total_cons]
      exact Nat.le_trans ih (Nat.le_add_left _ _)

theorem without_of_fresh {key : κ} {l : List (Item κ ν)} (h : key ∉ l.map Item.key) :
    without key l = l := by
  unfold without
  rw [List.filter_eq_self]
  intro i hi
  simp only [ne_eq, decide_eq_true_eq]
  exact fun heq => h (heq ▸ List.mem_map_of_mem hi)

theorem total_without {key : κ} {i : Item κ ν} {l : List (Item κ ν)} (h : (l.map Item.key).Nodup)
    (hfind : find key l = some i) : total l = total (without key l) + i.weight := by
  induction l with
  | nil => exact absurd hfind (by simp [find])
  | cons j l ih =>
    rw [List.map_cons, List.nodup_cons] at h
    unfold find at hfind
    rw [List.find?_cons] at hfind
    unfold without
    rw [List.filter_cons]
    by_cases hkey : j.key = key
    · rw [decide_eq_true hkey] at hfind
      obtain rfl := Option.some.inj hfind
      rw [if_neg (by simp [hkey]), total_cons]
      show j.weight + total l = total (without key l) + j.weight
      rw [without_of_fresh (hkey ▸ h.1), Nat.add_comm]
    · rw [decide_eq_false hkey] at hfind
      rw [if_pos (by simp [hkey]), total_cons, total_cons]
      have hrest : total l = total (without key l) + i.weight := ih h.2 hfind
      show j.weight + total l = j.weight + total (without key l) + i.weight
      omega

theorem find_eq_some {key : κ} {l : List (Item κ ν)} {i : Item κ ν} (h : find key l = some i) :
    i ∈ l ∧ i.key = key :=
  ⟨List.mem_of_find?_eq_some h, by simpa using List.find?_some h⟩

theorem find_of_mem {l : List (Item κ ν)} (h : (l.map Item.key).Nodup) {i : Item κ ν}
    (hi : i ∈ l) : find i.key l = some i := by
  cases hfind : find i.key l with
  | none => exact absurd (List.find?_eq_none.1 hfind i hi) (by simp)
  | some j =>
    obtain ⟨hj, hkey⟩ := find_eq_some hfind
    rw [List.inj_on_of_nodup_map h hj hi hkey]

variable {cap : Nat} {l : List (Item κ ν)}

theorem Held.get (h : Held cap l) (ttl : Option Nat) (key : κ) (now : Nat) :
    Held cap (Recency.get ttl key now l).2 := by
  unfold Recency.get
  split
  · exact h
  · rename_i i hfind
    split
    · exact ⟨keys_without h.keys, Nat.le_trans (total_without_le key l) h.fits⟩
    · obtain ⟨-, rfl⟩ := find_eq_some hfind
      refine ⟨keys_snoc h.keys, ?_⟩
      rw [total_append, total_cons, total_nil, Nat.add_zero, ← total_without h.keys hfind]
      exact h.fits

theorem Held.put (h : Held cap l) (i : Item κ ν) : Held cap (Recency.put cap i l) := by
  unfold Recency.put
  split
  · exact ⟨keys_without h.keys, Nat.le_trans (total_without_le i.key l) h.fits⟩
  · exact ⟨(keys_snoc h.keys).sublist ((trim_suffix cap _).sublist.map _), total_trim cap _⟩

theorem mem_get {ttl : Option Nat} {key : κ} {now : Nat} {i : Item κ ν}
    (h : i ∈ (Recency.get ttl key now l).2) : i ∈ l := by
  unfold Recency.get at h
  split at h
  · exact h
  · rename_i j hfind
    split at h
    · exact (mem_without.1 h).1
    · rcases List.mem_append.1 h with h | h
      · exact (mem_without.1 h).1
      · exact List.mem_singleton.1 h ▸ (find_eq_some hfind).1

theorem mem_put {i j : Item κ ν} (h : i ∈ Recency.put cap j l) :
    i ∈ l ∧ i.key ≠ j.key ∨ i = j ∧ j.weight ≤ cap := by
  unfold Recency.put at h
  split at h
  · exact .inl (mem_without.1 h)
  · rename_i hlight
    rcases List.mem_append.1 ((trim_suffix cap _).mem h) with h | h
    · exact .inl (mem_without.1 h)
    · exact .inr ⟨List.mem_singleton.1 h, Nat.le_of_not_lt hlight⟩

theorem get_drops {ttl : Option Nat} {key : κ} {now : Nat} {i : Item κ ν}
    (hkeys : (l.map Item.key).Nodup) (hi : i ∈ l) (hdropped : i ∉ (Recency.get ttl key now l).2) :
    i.key = key ∧ ttl.any (fun ttl => ttl ≤ now - i.since) = true := by
  unfold Recency.get at hdropped
  split at hdropped
  · exact absurd hi hdropped
  · rename_i j hfind
    obtain ⟨hj, hkey⟩ := find_eq_some hfind
    have heq : i.key = key → i = j := fun h =>
      List.inj_on_of_nodup_map hkeys hi hj (h.trans hkey.symm)
    split at hdropped
    · rename_i hold
      have hik : i.key = key := by
        by_contra hne
        exact hdropped (mem_without.2 ⟨hi, hne⟩)
      exact ⟨hik, heq hik ▸ hold⟩
    · by_cases hik : i.key = key
      · exact absurd (List.mem_append_right _ (List.mem_singleton.2 (heq hik))) hdropped
      · exact absurd (List.mem_append_left _ (mem_without.2 ⟨hi, hik⟩)) hdropped

/-- **What is dropped does not fit**: a put drops an item of another key only where that item, what
was used since and what is put weigh more than the cap together. -/
theorem put_drops {i j : Item κ ν} {before after : List (Item κ ν)} (hl : l = before ++ i :: after)
    (hkey : i.key ≠ j.key) (hdropped : i ∉ Recency.put cap j l) :
    j.weight ≤ cap ∧ cap < i.weight + total (without j.key after) + j.weight := by
  have hwithout : without j.key l = without j.key before ++ i :: without j.key after := by
    unfold without
    rw [hl, List.filter_append, List.filter_cons_of_pos (by simp [hkey])]
  unfold Recency.put at hdropped
  split at hdropped
  · exact absurd (by rw [hwithout]; simp) hdropped
  · rename_i hlight
    refine ⟨Nat.le_of_not_lt hlight, Nat.lt_of_not_le fun hfits => hdropped ?_⟩
    have hsuffix : i :: (without j.key after ++ [j]) <:+ without j.key l ++ [j] := by
      rw [hwithout]
      exact ⟨without j.key before, by simp⟩
    have htotal : total (i :: (without j.key after ++ [j])) ≤ cap := by
      rw [total_cons, total_append, total_cons, total_nil]
      omega
    exact (suffix_trim hsuffix htotal).mem List.mem_cons_self

end

end Recency
end Portal
