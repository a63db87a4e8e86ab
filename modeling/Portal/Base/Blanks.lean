import Mathlib.Data.List.DropRight
import Portal.Base.Text

/-!
# Texts without the space around them

* `trim_trim`, `trim_of_ends`, `trimmed_of_all`   texts that are not cut;
* `trim_pad`, `exists_trim`                       a text is its trimmed text with space around it.
-/

namespace Portal

namespace Text

theorem trim_eq (s : List Char) : trim s = (s.dropWhile isWhitespace).rdropWhile isWhitespace := rfl

/-- a text that begins with no space is not cut at its beginning -/
theorem dropWhile_rdropWhile {p : Char → Bool} {s : List Char} (h : s.dropWhile p = s) :
    (s.rdropWhile p).dropWhile p = s.rdropWhile p := by
  rw [List.dropWhile_eq_self_iff] at h ⊢
  intro hpos
  have hprefix := List.rdropWhile_prefix p (l := s)
  have hlt : 0 < s.length := lt_of_lt_of_le hpos hprefix.length_le
  have hhead : (s.rdropWhile p)[0] = s[0] := hprefix.getElem hpos
  rw [hhead]
  exact h hlt

@[simp] theorem trim_trim (s : List Char) : trim (trim s) = trim s := by
  rw [trim_eq (trim s), trim_eq s, dropWhile_rdropWhile (List.dropWhile_idempotent _ s),
    List.rdropWhile_idempotent]

@[simp] theorem trimmed_trimmed (s : String) : trimmed (trimmed s) = trimmed s := by
  unfold trimmed
  rw [String.toList_ofList, trim_trim]

/-- a text without space at its two ends is its own trimmed text -/
theorem trim_of_ends {s : List Char} (hhead : ∀ c ∈ s.head?, isWhitespace c = false)
    (hlast : ∀ c ∈ s.getLast?, isWhitespace c = false) : trim s = s := by
  have hdrop : ∀ {l : List Char}, (∀ c ∈ l.head?, isWhitespace c = false) →
      l.dropWhile isWhitespace = l := by
    intro l hl
    cases l with
    | nil => rfl
    | cons c l => exact List.dropWhile_cons_of_neg (by simp [hl c rfl])
  unfold trim
  rw [hdrop hhead, hdrop (by rwa [List.head?_reverse]), List.reverse_reverse]

/-- a text of space alone -/
def Blank (w : List Char) : Prop := ∀ c ∈ w, isWhitespace c = true

section
variable {s w w' : List Char}

theorem Blank.dropWhile (h : Blank w) : w.dropWhile isWhitespace = [] :=
  List.dropWhile_eq_nil_iff.mpr h

theorem blank_append : Blank (w ++ w') ↔ Blank w ∧ Blank w' := List.forall_mem_append

theorem exists_trim (s : List Char) : ∃ w w', Blank w ∧ Blank w' ∧ s = w ++ trim s ++ w' := by
  refine ⟨s.takeWhile isWhitespace, (s.dropWhile isWhitespace).rtakeWhile isWhitespace,
    fun c hc => List.mem_takeWhile_imp hc, fun c hc => List.mem_rtakeWhile_imp hc, ?_⟩
  rw [trim_eq, List.append_assoc, List.rdropWhile_append_rtakeWhile, List.takeWhile_append_dropWhile]

theorem mem_trim {c : Char} (hc : c ∈ s) (h : isWhitespace c = false) : c ∈ trim s := by
  obtain ⟨w, w', hw, hw', heq⟩ := exists_trim s
  rw [heq, List.mem_append, List.mem_append] at hc
  rcases hc with (hc | hc) | hc
  · exact absurd (hw c hc) (by simp [h])
  · exact hc
  · exact absurd (hw' c hc) (by simp [h])

theorem mem_of_mem_trim {c : Char} (hc : c ∈ trim s) : c ∈ s := by
  obtain ⟨w, w', -, -, heq⟩ := exists_trim s
  rw [heq]
  exact List.mem_append_left _ (List.mem_append_right _ hc)

theorem trim_append_blank (hw : Blank w') : trim (s ++ w') = trim s := by
  have hlast : ∀ t : List Char, (t ++ w').rdropWhile isWhitespace = t.rdropWhile isWhitespace := by
    intro t
    unfold List.rdropWhile
    rw [List.reverse_append, List.dropWhile_append,
      (show Blank w'.reverse from fun c hc => hw c (List.mem_reverse.mp hc)).dropWhile]
    rfl
  rw [trim_eq, trim_eq, List.dropWhile_append]
  split
  · rename_i hnil
    rw [List.isEmpty_iff.mp hnil, hw.dropWhile]
  · exact hlast _

theorem trim_pad (hw : Blank w) (hw' : Blank w') : trim (w ++ s ++ w') = trim s := by
  rw [trim_append_blank hw', trim_eq, List.dropWhile_append, hw.dropWhile]
  rfl

theorem Blank.not_mem {c : Char} (hw : Blank w) (hc : isWhitespace c = false) : c ∉ w :=
  fun h => absurd (hw c h) (by simp [hc])

theorem rdropWhile_cons {c : Char} (hc : isWhitespace c = false) (s : List Char) :
    (c :: s).rdropWhile isWhitespace = c :: s.rdropWhile isWhitespace := by
  unfold List.rdropWhile
  rw [List.reverse_cons, List.dropWhile_append, List.dropWhile_cons_of_neg (by simp [hc])]
  split
  · rename_i hnil
    simp [List.isEmpty_iff.mp hnil]
  · simp

theorem rdropWhile_append_cons {c : Char} (hc : isWhitespace c = false) (z y : List Char) :
    (z ++ c :: y).rdropWhile isWhitespace = z ++ c :: y.rdropWhile isWhitespace := by
  induction z with
  | nil => exact rdropWhile_cons hc y
  | cons d z ih =>
    unfold List.rdropWhile at ih ⊢
    rw [List.cons_append, List.reverse_cons, List.dropWhile_append]
    split
    · rename_i hnil
      rw [List.isEmpty_iff.mp hnil] at ih
      exact absurd ih (by simp)
    · rw [List.reverse_append, ih]
      rfl

theorem Blank.rdropWhile (h : Blank w) : w.rdropWhile isWhitespace = [] := by
  have hrev : Blank w.reverse := fun c hc => h c (List.mem_reverse.mp hc)
  unfold List.rdropWhile
  rw [hrev.dropWhile]
  rfl

theorem trim_around {c : Char} (hc : isWhitespace c = false) (x y : List Char) :
    trim (x ++ c :: y) = x.dropWhile isWhitespace ++ c :: y.rdropWhile isWhitespace := by
  have hhead : (x ++ c :: y).dropWhile isWhitespace = x.dropWhile isWhitespace ++ c :: y := by
    rw [List.dropWhile_append, List.dropWhile_cons_of_neg (by simp [hc])]
    split
    · rename_i hnil
      rw [List.isEmpty_iff.mp hnil, List.nil_append]
    · rfl
  rw [trim_eq, hhead, rdropWhile_append_cons hc]

theorem trim_dropWhile (s : List Char) : trim (s.dropWhile isWhitespace) = trim s := by
  rw [trim_eq, trim_eq, List.dropWhile_idempotent]

theorem trim_rdropWhile (s : List Char) : trim (s.rdropWhile isWhitespace) = trim s := by
  have hblank : Blank (s.rtakeWhile isWhitespace) := fun c hc => List.mem_rtakeWhile_imp hc
  calc trim (s.rdropWhile isWhitespace)
      = trim (s.rdropWhile isWhitespace ++ s.rtakeWhile isWhitespace) := (trim_append_blank hblank).symm
    _ = trim s := by rw [List.rdropWhile_append_rtakeWhile]

theorem trim_eq_nil : trim s = [] ↔ Blank s := by
  constructor
  · intro h
    obtain ⟨w, w', hw, hw', heq⟩ := exists_trim s
    rw [heq, h, List.append_nil]
    exact blank_append.mpr ⟨hw, hw'⟩
  · intro h
    rw [trim_eq, h.dropWhile]
    rfl

theorem trim_of_all (h : ∀ c ∈ s, isWhitespace c = false) : trim s = s :=
  trim_of_ends (fun c hc => h c (List.mem_of_mem_head? hc)) (fun c hc => h c (List.mem_of_mem_getLast? hc))

theorem trimmed_of_all {s : String} (h : ∀ c ∈ s.toList, isWhitespace c = false) : trimmed s = s := by
  unfold trimmed
  rw [trim_of_all h, String.ofList_toList]

theorem head?_trim {c : Char} (h : (trim s).head? = some c) : isWhitespace c = false := by
  rw [trim_eq] at h
  cases hl : (s.dropWhile isWhitespace).rdropWhile isWhitespace with
  | nil => simp [hl] at h
  | cons d l =>
    rw [hl] at h
    obtain rfl := Option.some.inj h
    have hstart := List.rdropWhile_prefix isWhitespace (l := s.dropWhile isWhitespace)
    rw [hl] at hstart
    obtain ⟨r, hr⟩ := hstart
    have hhead := List.head?_dropWhile_not isWhitespace s
    rw [← hr] at hhead
    simpa using hhead

theorem getLast?_trim {c : Char} (h : (trim s).getLast? = some c) : isWhitespace c = false := by
  unfold trim at h
  rw [List.getLast?_reverse] at h
  have hhead := List.head?_dropWhile_not isWhitespace (s.dropWhile isWhitespace).reverse
  rw [h] at hhead
  simpa using hhead

end

end Text
end Portal
