import Mathlib.Data.List.Perm.Basic

/-!
# Substitutions, in turn and at once

Rewritings that each send the values they name to one target, made one after another or all at once.

* `inTurn`, `atOnce`     one after another, and at once by the first that names a value;
* `Apart`                no rewriting names what another one sends a value to;
* `inAnyOrder_iff`       one after another in any order is at once exactly for values they are apart on.
-/

namespace Portal
namespace Substitution

structure Mapping (α : Type) where
  names : α → Bool
  target : α

variable {α : Type} {a b : α} {m : Mapping α} {l l' : List (Mapping α)}

def Mapping.apply (m : Mapping α) (a : α) : α := if m.names a then m.target else a

def inTurn (l : List (Mapping α)) (a : α) : α := l.foldl (fun a m => m.apply a) a

def atOnce (l : List (Mapping α)) (a : α) : α := ((l.find? (fun m => m.names a)).map Mapping.target).getD a

theorem inTurn_nil : inTurn [] a = a := rfl

theorem inTurn_cons : inTurn (m :: l) a = inTurn l (m.apply a) := rfl

theorem inTurn_append : inTurn (l ++ l') a = inTurn l' (inTurn l a) := List.foldl_append

theorem apply_of_names (h : m.names a = true) : m.apply a = m.target := if_pos h

theorem apply_of_not_names (h : m.names a = false) : m.apply a = a := by
  unfold Mapping.apply
  rw [h]
  rfl

theorem inTurn_of_fixed (h : ∀ m ∈ l, m.names a = true → m.target = a) : inTurn l a = a := by
  induction l with
  | nil => rfl
  | cons m l ih =>
    have hstep : m.apply a = a := by
      unfold Mapping.apply
      split
      · exact h m List.mem_cons_self ‹_›
      · rfl
    rw [inTurn_cons, hstep]
    exact ih (fun m' hm' => h m' (List.mem_cons_of_mem m hm'))

theorem atOnce_cons (h : m.names a = true) : atOnce (m :: l) a = m.target := by
  unfold atOnce
  simp only [List.find?_cons, h, Option.map_some, Option.getD_some]

theorem atOnce_of_not_names (h : ∀ m ∈ l, m.names a = false) : atOnce l a = a := by
  unfold atOnce
  rw [List.find?_eq_none.mpr (fun m hm => by simp [h m hm])]
  rfl

theorem atOnce_of_names (hm : m ∈ l) (h : m.names a = true)
    (hsame : ∀ m' ∈ l, m'.names a = true → m'.target = m.target) : atOnce l a = m.target := by
  unfold atOnce
  cases hfind : l.find? (fun m => m.names a) with
  | none => exact absurd h (List.find?_eq_none.mp hfind m hm)
  | some m' => exact hsame m' (List.mem_of_find?_eq_some hfind) (by simpa using List.find?_some hfind)

/-- for a value that one of them names, all that name it or its target send it there -/
def Apart (l : List (Mapping α)) (a : α) : Prop :=
  ∀ m ∈ l, m.names a = true → ∀ m' ∈ l,
    (m'.names a = true → m'.target = m.target) ∧ (m'.names m.target = true → m'.target = m.target)

instance [DecidableEq α] : Decidable (Apart l a) :=
  inferInstanceAs (Decidable (∀ m ∈ l, m.names a = true → ∀ m' ∈ l,
    (m'.names a = true → m'.target = m.target) ∧ (m'.names m.target = true → m'.target = m.target)))

theorem inTurn_of_target (hnames : ∀ m ∈ l, m.names a = true → m.target = b)
    (hstays : ∀ m ∈ l, m.names b = true → m.target = b) (h : ∃ m ∈ l, m.names a = true) :
    inTurn l a = b := by
  induction l with
  | nil =>
    obtain ⟨m, hm, -⟩ := h
    exact absurd hm List.not_mem_nil
  | cons m l ih =>
    rw [inTurn_cons]
    cases hn : m.names a with
    | true =>
      rw [apply_of_names hn, hnames m List.mem_cons_self hn]
      exact inTurn_of_fixed (fun m' hm' => hstays m' (List.mem_cons_of_mem m hm'))
    | false =>
      rw [apply_of_not_names hn]
      refine ih (fun m' hm' => hnames m' (List.mem_cons_of_mem m hm'))
        (fun m' hm' => hstays m' (List.mem_cons_of_mem m hm')) ?_
      obtain ⟨m', hm', hn'⟩ := h
      rcases List.mem_cons.mp hm' with rfl | hm'
      · exact absurd (hn.symm.trans hn') (by simp)
      · exact ⟨m', hm', hn'⟩

/-- a value whose last mapping would send it on is not where it should be -/
theorem target_of_last (h : inTurn (l ++ [m]) a = b) (hn : m.names b = true) : m.target = b := by
  rw [inTurn_append, inTurn_cons, inTurn_nil] at h
  cases hlast : m.names (inTurn l a) with
  | true => exact (apply_of_names hlast).symm.trans h
  | false =>
    rw [apply_of_not_names hlast] at h
    rw [h, hn] at hlast
    exact absurd hlast (by simp)

theorem exists_perm_last (hm : m ∈ l) : ∃ l', (l' ++ [m]).Perm l := by
  obtain ⟨l₁, l₂, rfl⟩ := List.append_of_mem hm
  refine ⟨l₁ ++ l₂, ?_⟩
  rw [List.append_assoc]
  have hswap : (l₂ ++ [m]).Perm (m :: l₂) := List.perm_append_comm
  exact hswap.append_left l₁

theorem exists_perm_first (hm : m ∈ l) : ∃ l', (m :: l').Perm l := by
  obtain ⟨l₁, l₂, rfl⟩ := List.append_of_mem hm
  exact ⟨l₁ ++ l₂, List.perm_middle.symm⟩

/-- **One after another in any order is at once**, whichever is looked for first, exactly for a value
that they are apart on. -/
theorem inAnyOrder_iff : (∀ l₁ l₂, l₁.Perm l → l₂.Perm l → inTurn l₁ a = atOnce l₂ a) ↔ Apart l a := by
  constructor
  · intro h m hm hn m' hm'
    have hfirst : ∀ l₁, l₁.Perm l → ∀ m ∈ l, m.names a = true → inTurn l₁ a = m.target := by
      intro l₁ hl₁ m hm hn
      obtain ⟨l₂, hl₂⟩ := exists_perm_first hm
      rw [h l₁ (m :: l₂) hl₁ hl₂, atOnce_cons hn]
    refine ⟨fun hn' => ?_, fun hn' => ?_⟩
    · exact (hfirst l (List.Perm.refl l) m' hm' hn').symm.trans (hfirst l (List.Perm.refl l) m hm hn)
    · obtain ⟨l₁, hl₁⟩ := exists_perm_last hm'
      exact target_of_last (hfirst _ hl₁ m hm hn) hn'
  · intro h l₁ l₂ hl₁ hl₂
    by_cases hany : ∃ m ∈ l, m.names a = true
    · obtain ⟨m, hm, hn⟩ := hany
      rw [inTurn_of_target (fun m' hm' => (h m hm hn m' (hl₁.mem_iff.mp hm')).1)
        (fun m' hm' => (h m hm hn m' (hl₁.mem_iff.mp hm')).2) ⟨m, hl₁.mem_iff.mpr hm, hn⟩]
      exact (atOnce_of_names (hl₂.mem_iff.mpr hm) hn (fun m' hm' => (h m hm hn m' (hl₂.mem_iff.mp hm')).1)).symm
    · have hnone : ∀ m ∈ l, m.names a = false := by
        intro m hm
        rw [← Bool.not_eq_true]
        exact fun hn => hany ⟨m, hm, hn⟩
      rw [inTurn_of_fixed (fun m hm hn => absurd (hn.symm.trans (hnone m (hl₁.mem_iff.mp hm))) (by simp)),
        atOnce_of_not_names (fun m hm => hnone m (hl₂.mem_iff.mp hm))]

/-- `inAnyOrder_iff` for mappings that something else stands for -/
theorem inAnyOrder_map_iff {β : Type} (f : β → Mapping α) {l : List β} :
    (∀ l₁ l₂ : List β, l₁.Perm l → l₂.Perm l → inTurn (l₁.map f) a = atOnce (l₂.map f) a)
      ↔ Apart (l.map f) a := by
  rw [← inAnyOrder_iff]
  have hlift : ∀ l₁ : List (Mapping α), l₁.Perm (l.map f) → ∃ l' : List β, l'.Perm l ∧ l₁ = l'.map f := by
    intro l₁ hl₁
    have hcomp : Relation.Comp (· = List.map f ·) List.Perm l₁ l := by
      rw [List.eq_map_comp_perm]
      exact hl₁
    obtain ⟨l', hl', hperm⟩ := hcomp
    exact ⟨l', hperm, hl'⟩
  constructor
  · intro h l₁ l₂ hl₁ hl₂
    obtain ⟨l₁', hperm₁, rfl⟩ := hlift l₁ hl₁
    obtain ⟨l₂', hperm₂, rfl⟩ := hlift l₂ hl₂
    exact h l₁' l₂' hperm₁ hperm₂
  · exact fun h l₁ l₂ hl₁ hl₂ => h _ _ (hl₁.map f) (hl₂.map f)

end Substitution
end Portal
