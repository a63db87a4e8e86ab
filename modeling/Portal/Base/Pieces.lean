import Portal.Base.Text

/-!
# The pieces of a text

What stands between the occurrences of a character, and the text that is joined from it.

* `split_append_sep`     the pieces around an occurrence;
* `intercalate_split`, `split_intercalate`   a text is its pieces, and pieces without the character come
  back;
* `splitOnceAt`, `stripSuffix`   cut at the first occurrence of a word, and at an ending.
-/

namespace Portal
namespace Text

theorem forall_of_all {P : Char → Prop} [DecidablePred P] {s : List Char}
    (h : s.all (fun c => decide (P c)) = true) : ∀ c ∈ s, P c :=
  fun c hc => of_decide_eq_true (List.all_eq_true.mp h c hc)

/-- the pieces around a separator are those before it and those after it -/
theorem split_append_sep {p : Char → Bool} {c : Char} (hc : p c = true) (a b : List Char) :
    split p (a ++ c :: b) = split p a ++ split p b := by
  induction a with
  | nil => simp [split, hc]
  | cons d a ih =>
    rw [List.cons_append, split, split, ih]
    by_cases hd : p d = true
    · simp [hd]
    · rw [if_neg hd, if_neg hd]
      cases hsplit : split p a with
      | nil => exact absurd hsplit (split_ne_nil p a)
      | cons w ws => rfl

theorem intercalate_split (c : Char) (s : List Char) : [c].intercalate (split (· = c) s) = s := by
  induction s with
  | nil => rfl
  | cons d s ih =>
    unfold split
    cases hsplit : split (· = c) s with
    | nil => exact absurd hsplit (split_ne_nil _ s)
    | cons w ws =>
      rw [hsplit] at ih
      by_cases hd : d = c
      · subst hd
        simpa using ih
      · have hd' : ¬ (decide (d = c) = true) := by simpa using hd
        rw [if_neg hd']
        cases ws with
        | nil => simpa using ih
        | cons v vs => simpa using ih

theorem split_inj {c : Char} {s s' : List Char} (h : split (· = c) s = split (· = c) s') : s = s' := by
  rw [← intercalate_split c s, h, intercalate_split]

theorem not_mem_of_mem_split {c : Char} {s w : List Char} (h : w ∈ split (· = c) s) : c ∉ w := by
  induction s generalizing w with
  | nil =>
    rw [split, List.mem_singleton] at h
    rw [h]
    exact List.not_mem_nil
  | cons d s ih =>
    rw [split] at h
    by_cases hd : d = c
    · rw [if_pos (by simpa using hd)] at h
      rcases List.mem_cons.mp h with rfl | h
      · exact List.not_mem_nil
      · exact ih h
    · rw [if_neg (by simpa using hd)] at h
      cases hsplit : split (· = c) s with
      | nil => exact absurd hsplit (split_ne_nil _ s)
      | cons v vs =>
        rw [hsplit] at h ih
        rcases List.mem_cons.mp h with rfl | h
        · intro hmem
          rcases List.mem_cons.mp hmem with rfl | hmem
          · exact hd rfl
          · exact ih List.mem_cons_self hmem
        · exact ih (List.mem_cons_of_mem v h)

theorem split_intercalate {c : Char} {l : List (List Char)} (hne : l ≠ []) (h : ∀ w ∈ l, c ∉ w) :
    split (· = c) ([c].intercalate l) = l := by
  induction l with
  | nil => exact absurd rfl hne
  | cons w l ih =>
    have hw : ∀ d ∈ w, decide (d = c) = false := by
      intro d hd
      refine decide_eq_false (fun hdc => ?_)
      exact h w List.mem_cons_self (hdc ▸ hd)
    cases l with
    | nil =>
      rw [List.intercalate_singleton]
      exact split_of_none hw
    | cons v l =>
      rw [List.intercalate_cons_cons, List.append_assoc, List.singleton_append,
        split_append hw (decide_eq_true rfl), ih (List.cons_ne_nil v l) (fun u hu => h u (List.mem_cons_of_mem w hu))]

theorem mem_intercalate {c d : Char} {l : List (List Char)} (h : d ∈ [c].intercalate l) :
    d = c ∨ ∃ w ∈ l, d ∈ w := by
  induction l with
  | nil => exact absurd h (by simp)
  | cons w l ih =>
    cases l with
    | nil => exact .inr ⟨w, List.mem_cons_self, by simpa using h⟩
    | cons v l =>
      rw [List.intercalate_cons_cons, List.append_assoc, List.mem_append, List.singleton_append,
        List.mem_cons] at h
      rcases h with h | h | h
      · exact .inr ⟨w, List.mem_cons_self, h⟩
      · exact .inl h
      · exact (ih h).imp_right fun ⟨u, hu, hd⟩ => ⟨u, List.mem_cons_of_mem w hu, hd⟩

theorem mem_intercalate_of_mem {c d : Char} {w : List Char} {l : List (List Char)} (hw : w ∈ l)
    (hd : d ∈ w) : d ∈ [c].intercalate l := by
  induction l with
  | nil => exact absurd hw List.not_mem_nil
  | cons v l ih =>
    cases l with
    | nil =>
      rw [List.intercalate_singleton]
      exact List.mem_singleton.mp hw ▸ hd
    | cons u l =>
      rw [List.intercalate_cons_cons]
      rcases List.mem_cons.mp hw with rfl | hw
      · exact List.mem_append_left _ (List.mem_append_left _ hd)
      · exact List.mem_append_right _ (ih hw)

theorem mem_of_mem_split {c d : Char} {s w : List Char} (hw : w ∈ split (· = c) s) (hd : d ∈ w) : d ∈ s :=
  intercalate_split c s ▸ mem_intercalate_of_mem hw hd

/-! ## a text cut at a word -/

/-- cut at the first occurrence of a word -/
def splitOnceAt (word : List Char) : List Char → Option (List Char × List Char)
  | [] => none
  | c :: cs =>
    if word.isPrefixOf (c :: cs) then some ([], (c :: cs).drop word.length)
    else (splitOnceAt word cs).map (fun p => (c :: p.1, p.2))

section
variable {word s a b : List Char}

theorem splitOnceAt_eq_some (h : splitOnceAt word s = some (a, b)) : s = a ++ word ++ b := by
  induction s generalizing a with
  | nil => exact absurd h (by simp [splitOnceAt])
  | cons c s ih =>
    unfold splitOnceAt at h
    split at h
    · rename_i hstart
      obtain ⟨rfl, rfl⟩ := Prod.mk.inj (Option.some.inj h)
      obtain ⟨rest, hrest⟩ := List.isPrefixOf_iff_prefix.mp hstart
      rw [← hrest, List.drop_left, List.nil_append]
    · obtain ⟨⟨a', b'⟩, hcut, heq⟩ := Option.map_eq_some_iff.mp h
      obtain ⟨rfl, rfl⟩ := Prod.mk.inj heq
      rw [ih hcut]
      rfl

theorem splitOnceAt_eq_none (hword : word ≠ []) : splitOnceAt word s = none ↔ ¬ word <:+: s := by
  induction s with
  | nil => simpa [splitOnceAt, List.infix_nil] using hword
  | cons c s ih =>
    unfold splitOnceAt
    rw [List.infix_cons_iff, ← List.isPrefixOf_iff_prefix]
    split
    · rename_i hstart
      simp [hstart]
    · rename_i hstart
      rw [Option.map_eq_none_iff, ih]
      simp [hstart]

/-- a word whose first character does not stand before it is cut at where it is -/
theorem splitOnceAt_append {c : Char} {cs : List Char} (h : c ∉ a) :
    splitOnceAt (c :: cs) (a ++ (c :: cs) ++ b) = some (a, b) := by
  induction a with
  | nil =>
    have hstart : (c :: cs).isPrefixOf (c :: (cs ++ b)) = true :=
      List.isPrefixOf_iff_prefix.mpr ⟨b, rfl⟩
    show splitOnceAt (c :: cs) (c :: (cs ++ b)) = _
    unfold splitOnceAt
    rw [if_pos hstart]
    simp
  | cons d a ih =>
    rw [List.mem_cons, not_or] at h
    show splitOnceAt (c :: cs) (d :: (a ++ (c :: cs) ++ b)) = _
    unfold splitOnceAt
    rw [if_neg, ih h.2]
    · rfl
    · intro hstart
      obtain ⟨rest, hrest⟩ := List.isPrefixOf_iff_prefix.mp hstart
      exact h.1 (List.cons.inj hrest).1

end

def stripSuffix (tail s : List Char) : Option (List Char) :=
  if tail.isSuffixOf s then some (s.take (s.length - tail.length)) else none

theorem stripSuffix_eq_some {tail s start : List Char} :
    stripSuffix tail s = some start ↔ s = start ++ tail := by
  unfold stripSuffix
  rw [Option.ite_none_right_eq_some, List.isSuffixOf_iff_suffix]
  constructor
  · rintro ⟨⟨rest, rfl⟩, h⟩
    rw [← Option.some.inj h, List.length_append, Nat.add_sub_cancel, List.take_left]
  · rintro rfl
    exact ⟨List.suffix_append _ _, by rw [List.length_append, Nat.add_sub_cancel, List.take_left]⟩

end Text
end Portal
