import Mathlib.Data.List.Sort
import Mathlib.Order.Antisymmetrization

/-!
# Sorting by a comparison

A comparison that is oriented and transitive sorts a list the same way whatever order it comes in, but
for what compares equal.

* `transCmp_rank`, `transCmp_then`   comparisons by a rank, and by one thing and then another;
* `eq_of_cycle`                      what goes round in a circle is equal;
* `SortsAlike`, `sortsAlike`         the sorts of two orders of one list.
-/

namespace Portal

section
variable {α β : Type*} [LinearOrder β]

theorem isLE_rank (a b : β) : (compareOfLessAndEq a b).isLE = true ↔ a ≤ b :=
  isLE_compareOfLessAndEq le_antisymm not_le le_total

theorem swap_rank (a b : β) : compareOfLessAndEq a b = (compareOfLessAndEq b a).swap :=
  compareOfLessAndEq_eq_swap le_antisymm le_total not_le

theorem transCmp_rank (rank : α → β) :
    Std.TransCmp (fun a b => compareOfLessAndEq (rank a) (rank b)) where
  eq_swap := swap_rank _ _
  isLE_trans h h' := by
    rw [isLE_rank] at h h' ⊢
    exact le_trans h h'

end

section
variable {α : Type*} {cmp cmp' : α → α → Ordering}

theorem transCmp_then (h : Std.TransCmp cmp) (h' : Std.TransCmp cmp') :
    Std.TransCmp (fun a b => (cmp a b).then (cmp' a b)) :=
  inferInstanceAs (Std.TransCmp (compareLex cmp cmp'))

theorem eq_of_cycle (h : Std.TransCmp cmp) {a b c : α} (hab : (cmp a b).isLE) (hbc : (cmp b c).isLE)
    (hca : (cmp c a).isLE) : cmp a b = .eq := by
  have hba : (cmp b a).isLE := h.isLE_trans hbc hca
  rw [h.eq_swap] at hba
  cases hcmp : cmp a b with
  | lt => rw [hcmp] at hba; cases hba
  | eq => rfl
  | gt => rw [hcmp] at hab; cases hab

variable (cmp)

/-- what sorts one order of a list sorts every other alike, but for what compares equal -/
def SortsAlike : Prop :=
  ∀ l l' : List α, l.Perm l' → List.Forall₂ (fun a b => cmp a b = .eq)
    (l.insertionSort (fun a b => cmp a b ≠ .gt)) (l'.insertionSort (fun a b => cmp a b ≠ .gt))

variable {cmp}

/-- **A transitive comparison sorts alike.** -/
theorem sortsAlike (h : Std.TransCmp cmp) : SortsAlike cmp := by
  let order : Preorder α :=
    { le := fun a b => cmp a b ≠ .gt
      le_refl := fun a => by simp [Std.ReflCmp.compare_self]
      le_trans := fun a b c hab hbc =>
        Ordering.isLE_iff_ne_gt.mp (h.isLE_trans (Ordering.isLE_iff_ne_gt.mpr hab)
          (Ordering.isLE_iff_ne_gt.mpr hbc)) }
  have htotal : Std.Total (fun a b : α => cmp a b ≠ .gt) := by
    refine ⟨fun a b => ?_⟩
    rw [h.eq_swap (a := b)]
    cases cmp a b <;> simp
  have htrans : IsTrans α (fun a b => cmp a b ≠ .gt) := ⟨fun a b c => order.le_trans a b c⟩
  intro l l' hperm
  -- the sorts are the same up to what compares equal, which are one place of the order
  let place : α → Antisymmetrization α (· ≤ ·) := toAntisymmetrization (· ≤ ·)
  have hsorted : ∀ m : List α,
      ((m.insertionSort (fun a b => cmp a b ≠ .gt)).map place).Pairwise (· ≤ ·) := by
    intro m
    rw [List.pairwise_map]
    exact List.pairwise_insertionSort (fun a b => cmp a b ≠ .gt) m
  have hplaces : (l.insertionSort (fun a b => cmp a b ≠ .gt)).map place
      = (l'.insertionSort (fun a b => cmp a b ≠ .gt)).map place := by
    refine List.Perm.eq_of_pairwise (fun a b _ _ => le_antisymm) (hsorted l) (hsorted l') ?_
    refine List.Perm.map _ ?_
    exact (List.perm_insertionSort _ l).trans (hperm.trans (List.perm_insertionSort _ l').symm)
  have hall : List.Forall₂ (fun a b => place a = place b)
      (l.insertionSort (fun a b => cmp a b ≠ .gt)) (l'.insertionSort (fun a b => cmp a b ≠ .gt)) := by
    refine List.forall₂_map_left_iff.mp (List.forall₂_map_right_iff (R := Eq).mp ?_)
    rw [hplaces]
    exact List.forall₂_refl _
  refine hall.imp (fun a b hab => ?_)
  obtain ⟨hle, hge⟩ : cmp a b ≠ .gt ∧ cmp b a ≠ .gt := Quotient.exact hab
  rw [h.eq_swap] at hge
  cases hcmp : cmp a b with
  | lt => exact absurd (by rw [hcmp]; rfl) hge
  | eq => rfl
  | gt => exact absurd hcmp hle

end

end Portal
