import Mathlib.Data.Option.Basic

/-!
# Three-way merges of keyed trees

A tree gives every key a value.  What a head changed against its base is a patch: the keys where
the two differ, each with the head's value.  A three-way merge takes of a key the side that changed
it; what it makes of a key that both changed, or whether it refuses, is its own affair.

* `patchOf base head`, `overlay patch t`    a change as a patch, and a tree under it;
* `ThreeWay`, `ThreeWay.Merges`             a merge of one entry with its laws, and of whole trees;
* `Merges.overlay_right`   a patched base merged in leaves the patch over the other side, where that
                           side has not changed a key of the patch to something else;
* `Merges.overlay_left`    the other side merged into a patched base, key by key;
* `Settled`                what every merge makes of an entry.
-/

namespace Portal

section
variable {κ β : Type*}

def overlay (patch : κ → Option β) (t : κ → β) (k : κ) : β := (patch k).getD (t k)

theorem overlay_of_none {patch : κ → Option β} {t : κ → β} {k : κ} (h : patch k = none) :
    overlay patch t k = t k := by
  rw [overlay, h, Option.getD_none]

theorem overlay_of_some {patch : κ → Option β} {t : κ → β} {k : κ} {v : β} (h : patch k = some v) :
    overlay patch t k = v := by
  rw [overlay, h, Option.getD_some]

variable [DecidableEq β]

/-- the keys a head changed, each with its new value -/
def patchOf (base head : κ → β) (k : κ) : Option β :=
  if head k = base k then none else some (head k)

theorem patchOf_eq_some {base head : κ → β} {k : κ} {v : β} :
    patchOf base head k = some v ↔ head k = v ∧ v ≠ base k := by
  unfold patchOf
  split
  · rename_i h
    simp only [reduceCtorEq, false_iff, not_and, not_not]
    intro hv
    exact hv ▸ h
  · rename_i h
    rw [Option.some.injEq]
    exact ⟨fun hv => ⟨hv, hv ▸ h⟩, fun hv => hv.1⟩

theorem overlay_patchOf (base head : κ → β) : overlay (patchOf base head) base = head := by
  funext k
  unfold overlay patchOf
  split
  · rename_i h
    exact h.symm
  · rfl

end

/-- a three-way merge of one entry, `none` when it refuses -/
structure ThreeWay (β : Type*) where
  merge : β → β → β → Option β
  /-- only ours changed -/
  ours : ∀ b o, merge b o b = some o
  /-- only theirs changed -/
  theirs : ∀ b t, merge b b t = some t
  /-- both changed it to the same -/
  same : ∀ b t, merge b t t = some t

namespace ThreeWay

/-- the merge that refuses what both changed -/
def plain {β : Type*} [DecidableEq β] : ThreeWay β where
  merge b o t := if t = b ∨ o = t then some o else if o = b then some t else none
  ours _ _ := if_pos (.inl rfl)
  theirs b t := by
    by_cases h : t = b
    · rw [if_pos (.inl h), h]
    · rw [if_neg (fun h' => h'.elim h (fun e => h e.symm)), if_pos rfl]
  same _ _ := if_pos (.inr rfl)

theorem plain_eq_some {β : Type*} [DecidableEq β] {b o t r : β}
    (h : (plain : ThreeWay β).merge b o t = some r) : r = o ∨ r = t := by
  simp only [plain] at h
  split at h
  · exact .inl (Option.some.inj h).symm
  · split at h
    · exact .inr (Option.some.inj h).symm
    · exact absurd h (by simp)

def Settled {β : Type*} (base ours theirs r : β) : Prop :=
  ∀ m : ThreeWay β, m.merge base ours theirs = some r

/-- **An entry is settled** where one side holds the outcome, and the other holds it too or has left
the entry alone. -/
theorem settled_iff {β : Type*} [DecidableEq β] {base ours theirs r : β} :
    Settled base ours theirs r ↔
      (ours = r ∧ (theirs = base ∨ theirs = r)) ∨ (ours = base ∧ theirs = r) := by
  constructor
  · intro h
    have hplain := h plain
    simp only [plain] at hplain
    split at hplain
    · rename_i hside
      obtain rfl := Option.some.inj hplain
      exact .inl ⟨rfl, hside.imp_right Eq.symm⟩
    · split at hplain
      · rename_i hours
        exact .inr ⟨hours, Option.some.inj hplain⟩
      · cases hplain
  · rintro (⟨rfl, rfl | rfl⟩ | ⟨rfl, rfl⟩) m
    · exact m.ours _ _
    · exact m.same _ _
    · exact m.theirs _ _

section
variable {β : Type*} [DecidableEq β] {base ours theirs r : β}

theorem settled_taken : Settled base r theirs r ↔ theirs = base ∨ theirs = r := by
  rw [settled_iff]
  constructor
  · rintro (⟨-, h⟩ | ⟨-, rfl⟩)
    · exact h
    · exact .inr rfl
  · exact fun h => .inl ⟨rfl, h⟩

theorem settled_kept : Settled base ours r r ↔ ours = r ∨ ours = base := by
  rw [settled_iff]
  exact or_congr (and_iff_left (.inr rfl)) (and_iff_left rfl)

theorem settled_of_ne (h : ours ≠ r) : Settled base ours theirs r ↔ ours = base ∧ theirs = r := by
  rw [settled_iff, or_iff_right (fun hours => h hours.1)]

end

variable {κ β : Type*} (m : ThreeWay β)

def Merges (base ours theirs r : κ → β) : Prop :=
  ∀ k, m.merge (base k) (ours k) (theirs k) = some (r k)

variable {m} {base ours theirs r : κ → β} {patch : κ → Option β}

/-- **A patch merged in**: over a side that has left its keys alone, or holds its values already,
it is what the merge changes. -/
theorem Merges.overlay_right (h : m.Merges base ours (overlay patch base) r)
    (hclear : ∀ k v, patch k = some v → ours k = base k ∨ ours k = v) :
    r = overlay patch ours := by
  funext k
  have hk := h k
  cases hp : patch k with
  | none =>
    rw [overlay_of_none hp] at hk ⊢
    exact Option.some.inj (hk.symm.trans (m.ours _ _))
  | some v =>
    rw [overlay_of_some hp] at hk ⊢
    rcases hclear k v hp with hb | hv
    · rw [hb] at hk
      exact Option.some.inj (hk.symm.trans (m.theirs _ _))
    · rw [hv] at hk
      exact Option.some.inj (hk.symm.trans (m.same _ _))

theorem Merges.overlay_left (h : m.Merges base (overlay patch base) theirs r) (k : κ) :
    (patch k = none → r k = theirs k) ∧
      ∀ v, patch k = some v → m.merge (base k) v (theirs k) = some (r k) := by
  have hk := h k
  constructor
  · intro hp
    rw [overlay_of_none hp] at hk
    exact Option.some.inj (hk.symm.trans (m.theirs _ _))
  · intro v hp
    rwa [overlay_of_some hp] at hk

end ThreeWay

end Portal
