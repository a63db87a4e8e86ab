import Portal.Resource.Order

/-!
# The operators of a filter over one value (`resource/filter.rs`: `eval`, `compare`)

`=` and the orders read a number and a literal that spells one as numbers; `!=` reads both as texts.

* `isScalar`     the values that have a text;
* `Complementary`   what the operators of one field owe each other;
* `Spells`       a number that the literal spells as it is, or does not equal;
* `complementary_iff`   over one scalar value they are complementary exactly then.
-/

namespace Portal
namespace Filter

def isScalar : Value → Bool
  | .string _ | .number _ | .bool _ => true
  | _ => false

section
variable (fl : Floats)

/-- `=` is NOT `!=`, one of `<`, `=` and `>` holds and no two, and `<=` is `<` or `=` -/
structure Complementary (doc : Value) (path : List String) (want : String) : Prop where
  ne : eval fl doc (.cmp path .eq (some want)) = eval fl doc (.not (.cmp path .ne (some want)))
  exclusive : ∀ op ∈ [Op.lt, .eq, .gt], ∀ op' ∈ [Op.lt, .eq, .gt],
    eval fl doc (.cmp path op (some want)) = true →
      eval fl doc (.cmp path op' (some want)) = true → op = op'
  exhaustive : ∃ op ∈ [Op.lt, .eq, .gt], eval fl doc (.cmp path op (some want)) = true
  le : eval fl doc (.cmp path .le (some want))
    = eval fl doc (.or (.cmp path .lt (some want)) (.cmp path .eq (some want)))

/-- where a number and a literal compare as numbers, they are in order, and equal exactly where the
literal is the number's text -/
def Spells (v : Value) (want : String) : Prop :=
  ∀ n b, v = .number n → fl.parse want = some b →
    fl.partialCmp (fl.ofNumber n) b ≠ none ∧
      (fl.partialCmp (fl.ofNumber n) b = some .eq ↔ fl.text n = want)

variable {fl} {doc v : Value} {path : List String} {want : String}

theorem textOf_eq_none (h : isScalar v = false) : textOf fl v = none := by
  cases v <;> first | rfl | cases h

theorem compare_eq_none (h : isScalar v = false) : compare fl v want = none := by
  cases v <;> first | rfl | cases h

/-- what holds of no value but a scalar, asked of values with one scalar among them -/
theorem any_scalar {found : List Value} {f : Value → Bool} (hf : ∀ u, isScalar u = false → f u = false)
    (h : found.filter isScalar = [v]) : found.any f = f v := by
  have hany : found.any f = (found.filter isScalar).any f := by
    rw [List.any_filter]
    congr 1
    funext u
    cases hu : isScalar u with
    | true => rfl
    | false => exact hf u hu
  rw [hany, h, List.any_cons, List.any_nil, Bool.or_false]

theorem eval_order {op : Op} (hop : op ∈ [Op.lt, .le, .eq, .gt])
    (h : (valuesAt doc path).filter isScalar = [v]) :
    eval fl doc (.cmp path op (some want)) = holds op (compare fl v want) := by
  have hnone : ∀ u, isScalar u = false → holds op (compare fl u want) = false := by
    intro u hu
    rw [compare_eq_none hu]
    revert op
    decide
  show evalCmp fl (valuesAt doc path) op (some want) = _
  simp only [List.mem_cons, List.not_mem_nil, or_false] at hop
  rcases hop with rfl | rfl | rfl | rfl <;> exact any_scalar hnone h

theorem eval_ne (h : (valuesAt doc path).filter isScalar = [v]) :
    eval fl doc (.cmp path .ne (some want)) = !decide (textOf fl v = some want) := by
  have hnone : ∀ u, isScalar u = false → decide (textOf fl u = some want) = false := by
    intro u hu
    rw [textOf_eq_none hu]
    rfl
  exact congrArg (!·) (any_scalar hnone h)

theorem spells_iff (h : isScalar v = true) : Spells fl v want ↔
    compare fl v want ≠ none ∧ (compare fl v want = some .eq ↔ textOf fl v = some want) := by
  have htexts : ∀ text, textOf fl v = some text → asF64 fl v = none ∨ fl.parse want = none →
      (compare fl v want ≠ none ∧ (compare fl v want = some .eq ↔ textOf fl v = some want)) := by
    intro text htext hnone
    have hcompare : compare fl v want = some (compareOfLessAndEq text want) := by
      unfold compare
      rw [htext]
      rcases hnone with hnone | hnone <;> rw [hnone]
      · rfl
      · cases asF64 fl v <;> rfl
    rw [hcompare, htext]
    simp [compareOfLessAndEq_eq_eq (le_refl (α := String)) not_le]
  cases v with
  | number n =>
    cases hb : fl.parse want with
    | none =>
      refine iff_of_true (fun m b _ hm => ?_) (htexts _ rfl (.inr hb))
      rw [hb] at hm
      cases hm
    | some b =>
      have hcompare : compare fl (.number n) want = fl.partialCmp (fl.ofNumber n) b := by
        unfold compare
        rw [hb]
        rfl
      have htext : (textOf fl (.number n) = some want) ↔ fl.text n = want := Option.some_inj
      rw [hcompare, htext]
      constructor
      · intro h
        exact h n b rfl hb
      · rintro h m b' ⟨⟩ hb'
        rw [hb] at hb'
        cases hb'
        exact h
  | string s => exact iff_of_true (fun n b hn => by cases hn) (htexts _ rfl (.inl rfl))
  | bool b => exact iff_of_true (fun n b hn => by cases hn) (htexts _ rfl (.inl rfl))
  | null | array | object => cases h

/-- **The operators of one scalar value are complementary** exactly where the literal spells the number
as it is or is another one. -/
theorem complementary_iff (hv : (valuesAt doc path).filter isScalar = [v]) :
    Complementary fl doc path want ↔ Spells fl v want := by
  have hscalar : isScalar v = true :=
    (List.mem_filter.mp (hv ▸ List.mem_singleton_self v : v ∈ (valuesAt doc path).filter isScalar)).2
  have hne : eval fl doc (.not (.cmp path .ne (some want))) = decide (textOf fl v = some want) := by
    show (!eval fl doc (.cmp path .ne (some want))) = _
    rw [eval_ne hv, Bool.not_not]
  have hasked : ∀ op ∈ [Op.lt, .eq, .gt], op ∈ [Op.lt, .le, .eq, .gt] := by decide
  have horder : ∀ op ∈ [Op.lt, .eq, .gt],
      eval fl doc (.cmp path op (some want)) = holds op (compare fl v want) :=
    fun op hop => eval_order (hasked op hop) hv
  have hlt : eval fl doc (.cmp path .lt (some want)) = decide (compare fl v want = some .lt) :=
    horder .lt (by decide)
  have heq : eval fl doc (.cmp path .eq (some want)) = decide (compare fl v want = some .eq) :=
    horder .eq (by decide)
  have hgt : eval fl doc (.cmp path .gt (some want)) = decide (compare fl v want = some .gt) :=
    horder .gt (by decide)
  have hle : eval fl doc (.cmp path .le (some want))
      = decide (compare fl v want = some .lt ∨ compare fl v want = some .eq) :=
    eval_order (by decide) hv
  rw [spells_iff hscalar]
  constructor
  · intro h
    refine ⟨fun hnone => ?_, ?_⟩
    · obtain ⟨op, hop, hholds⟩ := h.exhaustive
      rw [horder op hop, hnone] at hholds
      revert op
      decide
    · have := h.ne
      rw [heq, hne] at this
      exact decide_eq_decide.mp this
  · rintro ⟨hsome, heqs⟩
    obtain ⟨o, ho⟩ := Option.ne_none_iff_exists'.mp hsome
    refine ⟨?_, ?_, ?_, ?_⟩
    · rw [heq, hne]
      exact decide_eq_decide.mpr heqs
    · intro op hop op' hop' hholds hholds'
      rw [horder op hop, ho] at hholds
      rw [horder op' hop', ho] at hholds'
      clear ho
      revert op op' o
      decide
    · cases o with
      | lt => exact ⟨.lt, by decide, by rw [hlt, ho]; rfl⟩
      | eq => exact ⟨.eq, by decide, by rw [heq, ho]; rfl⟩
      | gt => exact ⟨.gt, by decide, by rw [hgt, ho]; rfl⟩
    · show _ = (eval fl doc (.cmp path .lt (some want)) || eval fl doc (.cmp path .eq (some want)))
      rw [hle, hlt, heq, Bool.decide_or]

end

/-! ## ten, and ten again -/

def wholeFloats : Floats where
  F := ℤ
  ofNumber
    | .int n => n
    | .float q => q.floor
  parse text := (Text.parseUnsigned 53 ((Text.before ".0" text).getD text).toList).map Int.ofNat
  partialCmp a b := some (compareOfLessAndEq a b)
  text
    | .int n => toString n
    | .float q => toString q.floor ++ ".0"

def sized (size : Value) : Value := .object [("spec", .object [("size", size)])]

theorem complementary_of_ten :
    Complementary wholeFloats (sized (.number (.int 10))) ["spec", "size"] "10" ∧
      Spells wholeFloats (.number (.int 10)) "10" := by
  have hspells : Spells wholeFloats (.number (.int 10)) "10" := by
    rintro n b ⟨⟩ hb
    obtain rfl : (10 : ℤ) = b := Option.some.inj (show some (10 : ℤ) = some b from hb)
    exact ⟨by simp [wholeFloats], by decide⟩
  exact ⟨(complementary_iff (by decide)).mpr hspells, hspells⟩

/-- **Equal and unequal at once**: `spec.size = 10.0` and `spec.size != 10.0` both hold of 10. -/
theorem equal_and_unequal : ¬ ∀ fl doc path want v, (valuesAt doc path).filter isScalar = [v] →
    Complementary fl doc path want := by
  intro hall
  have hten : ∀ op ∈ [Op.eq, .ne],
      eval wholeFloats (sized (.number (.int 10))) (.cmp ["spec", "size"] op (some "10.0")) = true := by
    decide +kernel
  have hne := (hall wholeFloats (sized (.number (.int 10))) ["spec", "size"] "10.0"
    (.number (.int 10)) (by decide)).ne
  rw [hten .eq (by decide), eval, hten .ne (by decide)] at hne
  cases hne

end Filter
end Portal
