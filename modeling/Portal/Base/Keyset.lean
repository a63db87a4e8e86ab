import Mathlib.Data.List.Sort
import Mathlib.Order.Defs.LinearOrder

/-!
# Keyset paging: pages by comparison with the last row seen

Rows have a position in a linear order.  A page is a part of the rows after a mark, from its start
on, and the mark of the next page is the position of its last row, so what was listed is told by
comparison and never by counting.  The rows may differ from one request to the next.

* `Ordered`, `Ordered.ext`   rows in strict order of their positions, which their set determines;
* `after`            the rows after a mark;
* `Pages rows i m ps`   the pages `ps` of the requests `i`, `i + 1`, … from the mark `m` on, where
                     the `j`-th request finds `rows j`;
* `Pages.ordered`, `Pages.complete`   when rows are only ever taken away, no row is listed twice and
                     none that stays is left out;
* `Pages.eq_after`   when the rows stay as they are, the pages are the rows.
-/

namespace Portal
namespace Keyset

section
variable {α β : Type*} [LinearOrder β] (pos : α → β)

/-- rows in strict order of their positions -/
def Ordered (rows : List α) : Prop := rows.Pairwise (fun a b => pos a < pos b)

def after (mark : Option β) (rows : List α) : List α :=
  match mark with
  | none => rows
  | some m => rows.filter (fun r => m < pos r)

variable {pos}

theorem Ordered.nodup {rows : List α} (h : Ordered pos rows) : rows.Nodup :=
  h.imp (fun hlt he => absurd (he ▸ hlt) (lt_irrefl _))

theorem Ordered.ext {rows rows' : List α} (h : Ordered pos rows) (h' : Ordered pos rows')
    (hm : ∀ r, r ∈ rows ↔ r ∈ rows') : rows = rows' := by
  have hp : rows.Perm rows' := (List.perm_ext_iff_of_nodup h.nodup h'.nodup).mpr hm
  refine hp.eq_of_pairwise ?_ h h'
  intro a b _ _ hab hba
  exact absurd (hab.trans hba) (lt_irrefl _)

theorem mem_after {mark : Option β} {rows : List α} {r : α} :
    r ∈ after pos mark rows ↔ r ∈ rows ∧ ∀ m, mark = some m → m < pos r := by
  cases mark with
  | none => simp [after]
  | some m => simp [after]

theorem after_sublist (mark : Option β) (rows : List α) :
    (after pos mark rows).Sublist rows := by
  cases mark with
  | none => exact List.Sublist.refl _
  | some m => exact List.filter_sublist

theorem Ordered.after {rows : List α} (h : Ordered pos rows) (mark : Option β) :
    Ordered pos (after pos mark rows) :=
  List.Pairwise.sublist (after_sublist mark rows) h

/-- past the last row of a page stand the rows that were left of it and are still there -/
theorem after_subset_rest {mark : Option β} {rows rows' page rest : List α} {x : α}
    (hord : Ordered pos rows) (he : Keyset.after pos mark rows = page ++ x :: rest)
    (hsub : rows' ⊆ rows) :
    Keyset.after pos (some (pos x)) rows' ⊆ rest := by
  intro r hr
  obtain ⟨hr, hlt⟩ := mem_after.mp hr
  have hx : pos x < pos r := hlt _ rfl
  have hxm : x ∈ Keyset.after pos mark rows := he ▸ List.mem_append_right _ List.mem_cons_self
  have hrm : r ∈ Keyset.after pos mark rows :=
    mem_after.mpr ⟨hsub hr, fun m hm => ((mem_after.mp hxm).2 m hm).trans hx⟩
  have hsorted := hord.after mark
  rw [he] at hrm hsorted
  rcases List.mem_append.mp hrm with h | h
  · exact absurd ((List.pairwise_append.mp hsorted).2.2 r h x List.mem_cons_self)
      (not_lt_of_gt hx)
  · rcases List.mem_cons.mp h with rfl | h
    · exact absurd hx (lt_irrefl _)
    · exact h

theorem length_after_lt {mark : Option β} {rows rows' page rest : List α} {x : α}
    (hord : Ordered pos rows) (hord' : Ordered pos rows')
    (he : Keyset.after pos mark rows = page ++ x :: rest) (hsub : rows' ⊆ rows) :
    (Keyset.after pos (some (pos x)) rows').length < (Keyset.after pos mark rows).length := by
  have hnodup : (Keyset.after pos (some (pos x)) rows').Nodup := (hord'.after _).nodup
  have hle := (List.subperm_of_subset hnodup (after_subset_rest hord he hsub)).length_le
  rw [he, List.length_append, List.length_cons]
  omega

/-! ## pages -/

variable (pos) in
inductive Pages (rows : Nat → List α) : Nat → Option β → List (List α) → Prop
  | last (i : Nat) (mark : Option β) : Pages rows i mark [after pos mark (rows i)]
  | more {i : Nat} {mark : Option β} {page rest : List α} {x : α} {pages : List (List α)} :
      after pos mark (rows i) = page ++ x :: rest → Pages rows (i + 1) (some (pos x)) pages →
      Pages rows i mark ((page ++ [x]) :: pages)

variable {rows : Nat → List α} {i : Nat} {mark : Option β} {pages : List (List α)}

theorem Pages.mem_first (hsub : ∀ j, rows (j + 1) ⊆ rows j) (h : Pages pos rows i mark pages)
    {r : α} (hr : r ∈ pages.flatten) : r ∈ after pos mark (rows i) := by
  induction h with
  | last i mark => simpa using hr
  | @more i mark page rest x pages he _ ih =>
    rw [List.flatten_cons, List.mem_append] at hr
    rcases hr with hr | hr
    · rw [he]
      rcases List.mem_append.mp hr with h | h
      · exact List.mem_append_left _ h
      · exact List.mem_append_right _ (List.mem_cons.mpr (.inl (List.mem_singleton.mp h)))
    · obtain ⟨hm, hlt⟩ := mem_after.mp (ih hr)
      have hx : x ∈ after pos mark (rows i) := he ▸ List.mem_append_right _ List.mem_cons_self
      exact mem_after.mpr ⟨hsub i hm, fun m hm => ((mem_after.mp hx).2 m hm).trans (hlt _ rfl)⟩

/-- **No row twice**: the pages together are in strict order. -/
theorem Pages.ordered (hord : ∀ j, Ordered pos (rows j)) (hsub : ∀ j, rows (j + 1) ⊆ rows j)
    (h : Pages pos rows i mark pages) : Ordered pos pages.flatten := by
  induction h with
  | last i mark => simpa using (hord i).after mark
  | @more i mark page rest x pages he hp ih =>
    have hpage : Ordered pos (page ++ [x]) := by
      have hs := (hord i).after mark
      rw [he, List.append_cons] at hs
      exact (List.pairwise_append.mp hs).1
    rw [List.flatten_cons]
    refine List.pairwise_append.mpr ⟨hpage, ih, fun a ha b hb => ?_⟩
    have hb' : pos x < pos b := (mem_after.mp (hp.mem_first hsub hb)).2 _ rfl
    rcases List.mem_append.mp ha with h | h
    · exact ((List.pairwise_append.mp hpage).2.2 a h x (List.mem_singleton.mpr rfl)).trans hb'
    · rw [List.mem_singleton.mp h]
      exact hb'

/-- **No row left out**: one that every request finds is listed. -/
theorem Pages.complete (h : Pages pos rows i mark pages) {r : α}
    (hr : ∀ j, i ≤ j → j < i + pages.length → r ∈ rows j)
    (hm : ∀ m, mark = some m → m < pos r) (hord : ∀ j, Ordered pos (rows j)) :
    r ∈ pages.flatten := by
  induction h with
  | last i mark =>
    have hri : r ∈ rows i := hr i le_rfl (by simp)
    simpa using mem_after.mpr ⟨hri, hm⟩
  | @more i mark page rest x pages he _ ih =>
    have hri : r ∈ after pos mark (rows i) := mem_after.mpr ⟨hr i le_rfl (by simp), hm⟩
    rw [he, List.append_cons] at hri
    rw [List.flatten_cons]
    rcases List.mem_append.mp hri with h | h
    · exact List.mem_append_left _ h
    · refine List.mem_append_right _ (ih ?_ ?_)
      · intro j h1 h2
        refine hr j (by omega) ?_
        rw [List.length_cons]
        omega
      · rintro m ⟨⟩
        have hs := (hord i).after mark
        rw [he] at hs
        exact (List.pairwise_cons.mp (List.pairwise_append.mp hs).2.1).1 r h

/-- **The pages are the rows** when these stay as they are. -/
theorem Pages.eq_after {l : List α} (hord : Ordered pos l) (hl : ∀ j, rows j = l)
    (h : Pages pos rows i mark pages) : pages.flatten = after pos mark l := by
  have hords : ∀ j, Ordered pos (rows j) := fun j => (hl j).symm ▸ hord
  have hsub : ∀ j, rows (j + 1) ⊆ rows j := fun j => by rw [hl, hl]; exact fun _ h => h
  refine (h.ordered hords hsub).ext (hord.after mark) (fun r => ⟨fun hr => ?_, fun hr => ?_⟩)
  · rw [← hl i]
    exact h.mem_first hsub hr
  · obtain ⟨hr, hm⟩ := mem_after.mp hr
    exact h.complete (fun j _ _ => (hl j).symm ▸ hr) hm hords

end
end Keyset
end Portal
