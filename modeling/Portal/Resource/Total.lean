import Mathlib.Algebra.Order.Ring.Cast
import Mathlib.Data.Int.Cast.Lemmas
import Portal.Base.Sorting
import Portal.Resource.Compare

/-!
# Whether an order is one (`resource/filter.rs`: `OrderBy::cmp`; `api/resources.rs`: `Listing::page`)

Two numbers compare by value, and a number and anything else as texts, so a text may stand between the
spellings of two numbers against their values.

* `Rows`, `rowCmp`   the rows of a set of documents, and their order in a list;
* `Crossed`       a text that two numbers stand on the wrong sides of;
* `orders_iff`    the order of a list is total, and sorts alike, exactly where no key is crossed.
-/

namespace Portal
namespace Filter
namespace OrderBy

/-- a document of the set, with the name of its row -/
abbrev Rows (docs : Value → Prop) : Type := { row : Value × String // docs row.1 }

section
variable (fl : Floats) (o : OrderBy)

def rowCmp (docs : Value → Prop) (a b : Rows docs) : Ordering :=
  o.cmp fl (o.keyOf a.1.1, a.1.2) (o.keyOf b.1.1, b.1.2)

/-- a list of these documents is put in an order: one that is total, and that does not depend on how the
list comes -/
structure Orders (docs : Value → Prop) : Prop where
  total : Std.TransCmp (o.rowCmp fl docs)
  alike : SortsAlike (o.rowCmp fl docs)

/-- a number is at most another, and a text stands between them the other way round -/
def Crossed (m n : Number) (text : String) : Prop :=
  fl.partialCmp (fl.ofNumber m) (fl.ofNumber n) ≠ some .gt ∧ fl.text n ≤ text ∧ text ≤ fl.text m ∧
    ¬ (fl.partialCmp (fl.ofNumber m) (fl.ofNumber n) = some .eq ∧ fl.text m = fl.text n)

/-- no text among the keys of the documents is crossed by two numbers among them -/
def Uncrossed (docs : Value → Prop) : Prop :=
  ∀ x y z m n text, docs x → docs y → docs z → o.keyOf x = .number m → o.keyOf y = .number n →
    isNumber (o.keyOf z) = false → textOf fl (o.keyOf z) = some text → ¬ Crossed fl m n text

end

/-! ## keys -/

section
variable {fl : Floats} {o : OrderBy} {value : fl.F → ℚ} {x y z : Value}

theorem cmpKeys_numbers (hv : fl.ByValue value) (m n : Number) :
    cmpKeys fl (.number m) (.number n)
      = compareOfLessAndEq (value (fl.ofNumber m)) (value (fl.ofNumber n)) := by
  show (fl.partialCmp _ _).getD .eq = _
  rw [hv]
  rfl

theorem cmpKeys_texts (h : isNumber x = false ∨ isNumber y = false) :
    cmpKeys fl x y = compareOfLessAndEq (textRank (textOf fl x)) (textRank (textOf fl y)) := by
  rw [← cmpText_eq]
  unfold cmpKeys
  cases x <;> cases y <;> first | rfl | (rcases h with h | h <;> cases h)

theorem exists_number (h : isNumber x = true) : ∃ n, x = .number n := by
  cases x with
  | number n => exact ⟨n, rfl⟩
  | _ => cases h

theorem cmpKeys_swap (hv : fl.ByValue value) (x y : Value) :
    cmpKeys fl x y = (cmpKeys fl y x).swap := by
  by_cases h : isNumber x = true ∧ isNumber y = true
  · obtain ⟨m, rfl⟩ := exists_number h.1
    obtain ⟨n, rfl⟩ := exists_number h.2
    rw [cmpKeys_numbers hv, cmpKeys_numbers hv, swap_rank]
  · rw [not_and_or, Bool.not_eq_true, Bool.not_eq_true] at h
    rw [cmpKeys_texts h, cmpKeys_texts h.symm, swap_rank]

theorem crossed_of {m n : Number} {text : String} (hv : fl.ByValue value)
    (hle : value (fl.ofNumber m) ≤ value (fl.ofNumber n)) (h : fl.text n ≤ text)
    (h' : text ≤ fl.text m)
    (hlt : value (fl.ofNumber m) < value (fl.ofNumber n) ∨ fl.text n < text ∨ text < fl.text m) :
    Crossed fl m n text := by
  refine ⟨?_, h, h', ?_⟩
  · rw [hv, ne_eq, Option.some_inj]
    exact Ordering.isLE_iff_ne_gt.mp ((isLE_rank _ _).mpr hle)
  · rintro ⟨heq, htext⟩
    rw [hv, Option.some_inj, compareOfLessAndEq_eq_eq le_refl not_le] at heq
    rcases hlt with hlt | hlt | hlt
    · exact absurd heq hlt.ne
    · exact absurd (hlt.trans_le h') (htext ▸ lt_irrefl _)
    · exact absurd (h.trans_lt hlt) (htext ▸ lt_irrefl _)

theorem textRank_some_le (a b : String) : textRank (some a) ≤ textRank (some b) ↔ a ≤ b := by
  unfold textRank
  rw [Prod.Lex.toLex_le_toLex]
  simp

theorem exists_of_textRank_le {a : String} {text : Option String}
    (h : textRank (some a) ≤ textRank text) : ∃ b, text = some b := by
  cases text with
  | some b => exact ⟨b, rfl⟩
  | none =>
    unfold textRank at h
    rw [Prod.Lex.toLex_le_toLex] at h
    simp only [Option.isSome_some, Option.isSome_none, reduceCtorEq, false_and, or_false] at h
    exact absurd h (by decide)

theorem cmpKeys_trans (hv : fl.ByValue value) {keys : Value → Prop}
    (hkeys : ∀ x y z m n text, keys x → keys y → keys z → x = .number m → y = .number n →
      isNumber z = false → textOf fl z = some text → ¬ Crossed fl m n text)
    (hx : keys x) (hy : keys y) (hz : keys z) (hxy : (cmpKeys fl x y).isLE)
    (hyz : (cmpKeys fl y z).isLE) : (cmpKeys fl x z).isLE := by
  have htext : ∀ n, textOf fl (.number n) = some (fl.text n) := fun n => rfl
  cases hnx : isNumber x <;> cases hny : isNumber y <;> cases hnz : isNumber z
  · -- at most one of the three a number: all by their texts
    rw [cmpKeys_texts (.inl hnx), isLE_rank] at hxy ⊢
    rw [cmpKeys_texts (.inl hny), isLE_rank] at hyz
    exact le_trans hxy hyz
  · rw [cmpKeys_texts (.inl hnx), isLE_rank] at hxy ⊢
    rw [cmpKeys_texts (.inl hny), isLE_rank] at hyz
    exact le_trans hxy hyz
  · rw [cmpKeys_texts (.inl hnx), isLE_rank] at hxy ⊢
    rw [cmpKeys_texts (.inr hnz), isLE_rank] at hyz
    exact le_trans hxy hyz
  · obtain ⟨m, rfl⟩ := exists_number hny
    obtain ⟨n, rfl⟩ := exists_number hnz
    rw [cmpKeys_texts (.inl hnx), isLE_rank] at hxy ⊢
    rw [cmpKeys_numbers hv, isLE_rank] at hyz
    by_contra hlt
    rw [htext] at hlt hxy
    obtain ⟨a, ha⟩ := exists_of_textRank_le (not_le.mp hlt).le
    rw [ha, textRank_some_le] at hlt hxy
    rw [not_le] at hlt
    exact hkeys _ _ _ m n a hy hz hx rfl rfl hnx ha (crossed_of hv hyz hlt.le hxy (.inr (.inl hlt)))
  · rw [cmpKeys_texts (.inr hny), isLE_rank] at hxy
    rw [cmpKeys_texts (.inl hny), isLE_rank] at hyz
    rw [cmpKeys_texts (.inr hnz), isLE_rank]
    exact le_trans hxy hyz
  · obtain ⟨n, rfl⟩ := exists_number hnx
    obtain ⟨m, rfl⟩ := exists_number hnz
    rw [cmpKeys_texts (.inr hny), isLE_rank, htext] at hxy
    rw [cmpKeys_texts (.inl hny), isLE_rank, htext] at hyz
    rw [cmpKeys_numbers hv, isLE_rank]
    by_contra hlt
    rw [not_le] at hlt
    obtain ⟨a, ha⟩ := exists_of_textRank_le hxy
    rw [ha, textRank_some_le] at hxy hyz
    exact hkeys _ _ _ m n a hz hx hy rfl rfl hny ha (crossed_of hv hlt.le hxy hyz (.inl hlt))
  · obtain ⟨m, rfl⟩ := exists_number hnx
    obtain ⟨n, rfl⟩ := exists_number hny
    rw [cmpKeys_numbers hv, isLE_rank] at hxy
    rw [cmpKeys_texts (.inr hnz), isLE_rank, htext] at hyz ⊢
    obtain ⟨a, ha⟩ := exists_of_textRank_le hyz
    rw [ha, textRank_some_le] at hyz ⊢
    by_contra hlt
    rw [not_le] at hlt
    exact hkeys _ _ _ m n a hx hy hz rfl rfl hnz ha (crossed_of hv hxy hyz hlt.le (.inr (.inr hlt)))
  · obtain ⟨l, rfl⟩ := exists_number hnx
    obtain ⟨m, rfl⟩ := exists_number hny
    obtain ⟨n, rfl⟩ := exists_number hnz
    rw [cmpKeys_numbers hv, isLE_rank] at hxy hyz ⊢
    exact le_trans hxy hyz

/-! ## rows -/

variable (fl o) in
/-- the order of two keys in a list, one that is missing last -/
def keyCmp : Value → Value → Ordering
  | .null, .null => .eq
  | .null, _ => .gt
  | _, .null => .lt
  | x, y => o.turned (cmpKeys fl x y)

theorem keyCmp_null (hy : y ≠ .null) : keyCmp fl o .null y = .gt := by
  cases y with
  | null => exact absurd rfl hy
  | _ => rfl

theorem keyCmp_of_null (hx : x ≠ .null) : keyCmp fl o x .null = .lt := by
  cases x with
  | null => exact absurd rfl hx
  | _ => rfl

theorem keyCmp_keys (hx : x ≠ .null) (hy : y ≠ .null) :
    keyCmp fl o x y = o.turned (cmpKeys fl x y) := by
  cases x with
  | null => exact absurd rfl hx
  | _ =>
    cases y with
    | null => exact absurd rfl hy
    | _ => rfl

theorem cmp_eq_then (x y : Value) (n m : String) :
    o.cmp fl (x, n) (y, m) = (keyCmp fl o x y).then (compareOfLessAndEq n m) := by
  by_cases hx : x = .null <;> by_cases hy : y = .null
  · subst hx hy
    exact cmp_null_null o n m
  · subst hx
    rw [cmp_null o n m hy, keyCmp_null hy]
    rfl
  · subst hy
    rw [cmp_of_null o n m hx, keyCmp_of_null hx]
    rfl
  · rw [cmp_keys o n m hx hy, keyCmp_keys hx hy]

theorem isLE_turned (hv : fl.ByValue value) : (o.turned (cmpKeys fl x y)).isLE = true ↔
    (if o.descending then cmpKeys fl y x else cmpKeys fl x y).isLE = true := by
  unfold turned
  split
  · rw [cmpKeys_swap hv x y, Ordering.swap_swap]
  · rfl

theorem keyCmp_swap (hv : fl.ByValue value) (x y : Value) :
    keyCmp fl o x y = (keyCmp fl o y x).swap := by
  by_cases hx : x = .null <;> by_cases hy : y = .null
  · subst hx hy
    rfl
  · subst hx
    rw [keyCmp_null hy, keyCmp_of_null hy]
    rfl
  · subst hy
    rw [keyCmp_null hx, keyCmp_of_null hx]
    rfl
  · rw [keyCmp_keys hx hy, keyCmp_keys hy hx, cmpKeys_swap hv x y]
    unfold turned
    split <;> rfl

/-- **Keys are in order** where none is crossed. -/
theorem keyCmp_trans (hv : fl.ByValue value) {keys : Value → Prop}
    (hkeys : ∀ x y z m n text, keys x → keys y → keys z → x = .number m → y = .number n →
      isNumber z = false → textOf fl z = some text → ¬ Crossed fl m n text)
    (hx : keys x) (hy : keys y) (hz : keys z) (hxy : (keyCmp fl o x y).isLE)
    (hyz : (keyCmp fl o y z).isLE) : (keyCmp fl o x z).isLE := by
  by_cases hzn : z = .null
  · subst hzn
    by_cases hxn : x = .null
    · subst hxn
      rfl
    · rw [keyCmp_of_null hxn]
      rfl
  · have hyn : y ≠ .null := by
      rintro rfl
      rw [keyCmp_null hzn] at hyz
      cases hyz
    have hxn : x ≠ .null := by
      rintro rfl
      rw [keyCmp_null hyn] at hxy
      cases hxy
    rw [keyCmp_keys hxn hyn, isLE_turned hv] at hxy
    rw [keyCmp_keys hyn hzn, isLE_turned hv] at hyz
    rw [keyCmp_keys hxn hzn, isLE_turned hv]
    cases hd : o.descending with
    | false =>
      rw [hd] at hxy hyz
      exact cmpKeys_trans hv hkeys hx hy hz hxy hyz
    | true =>
      rw [hd] at hxy hyz
      exact cmpKeys_trans hv hkeys hz hy hx hyz hxy

theorem total_of_uncrossed (hv : fl.ByValue value) {docs : Value → Prop}
    (h : o.Uncrossed fl docs) : Std.TransCmp (o.rowCmp fl docs) := by
  have hkeys : ∀ x y z m n text, (∃ d, docs d ∧ o.keyOf d = x) → (∃ d, docs d ∧ o.keyOf d = y) →
      (∃ d, docs d ∧ o.keyOf d = z) → x = .number m → y = .number n → isNumber z = false →
      textOf fl z = some text → ¬ Crossed fl m n text := by
    rintro _ _ _ m n text ⟨a, ha, rfl⟩ ⟨b, hb, rfl⟩ ⟨c, hc, rfl⟩ hm hn hno htext
    exact h a b c m n text ha hb hc hm hn hno htext
  have hkey : ∀ a : Rows docs, ∃ d, docs d ∧ o.keyOf d = o.keyOf a.1.1 := fun a => ⟨a.1.1, a.2, rfl⟩
  have hfirst : Std.TransCmp (fun a b : Rows docs => keyCmp fl o (o.keyOf a.1.1) (o.keyOf b.1.1)) :=
    { eq_swap := keyCmp_swap hv _ _
      isLE_trans := fun {a b c} => keyCmp_trans hv hkeys (hkey a) (hkey b) (hkey c) }
  have hrows : o.rowCmp fl docs = fun a b : Rows docs =>
      (keyCmp fl o (o.keyOf a.1.1) (o.keyOf b.1.1)).then (compareOfLessAndEq a.1.2 b.1.2) := by
    funext a b
    exact cmp_eq_then _ _ _ _
  rw [hrows]
  exact transCmp_then hfirst (transCmp_rank (fun a : Rows docs => a.1.2))

theorem eq_of_total (hv : fl.ByValue value) {docs : Value → Prop} (h : Std.TransCmp (o.rowCmp fl docs))
    {a b c : Value} (ha : docs a) (hb : docs b) (hc : docs c) (han : o.keyOf a ≠ .null)
    (hbn : o.keyOf b ≠ .null) (hcn : o.keyOf c ≠ .null)
    (hab : (cmpKeys fl (o.keyOf a) (o.keyOf b)).isLE) (hbc : (cmpKeys fl (o.keyOf b) (o.keyOf c)).isLE)
    (hca : (cmpKeys fl (o.keyOf c) (o.keyOf a)).isLE) :
    cmpKeys fl (o.keyOf a) (o.keyOf b) = .eq := by
  have hrow : ∀ {u v : Value} (hu : docs u) (hw : docs v), o.keyOf u ≠ .null → o.keyOf v ≠ .null →
      o.rowCmp fl docs ⟨(u, ""), hu⟩ ⟨(v, ""), hw⟩ = o.turned (cmpKeys fl (o.keyOf u) (o.keyOf v)) := by
    intro u v hu hw hun hvn
    show o.cmp fl (o.keyOf u, "") (o.keyOf v, "") = _
    rw [cmp_keys o _ _ hun hvn, compare_self]
    cases o.turned (cmpKeys fl (o.keyOf u) (o.keyOf v)) <;> rfl
  have heq : o.turned (cmpKeys fl (o.keyOf a) (o.keyOf b)) = .eq := by
    rw [← hrow ha hb han hbn]
    cases hd : o.descending with
    | false =>
      refine eq_of_cycle h ?_ (b := ⟨(b, ""), hb⟩) (c := ⟨(c, ""), hc⟩) ?_ ?_
      · rw [hrow ha hb han hbn, isLE_turned hv, hd]; exact hab
      · rw [hrow hb hc hbn hcn, isLE_turned hv, hd]; exact hbc
      · rw [hrow hc ha hcn han, isLE_turned hv, hd]; exact hca
    | true =>
      rw [h.eq_swap, Ordering.swap_eq_eq]
      refine eq_of_cycle h ?_ (c := ⟨(c, ""), hc⟩) ?_ ?_
      · rw [hrow hb ha hbn han, isLE_turned hv, hd]; exact hab
      · rw [hrow ha hc han hcn, isLE_turned hv, hd]; exact hca
      · rw [hrow hc hb hcn hbn, isLE_turned hv, hd]; exact hbc
  unfold turned at heq
  split at heq
  · exact Ordering.swap_eq_eq.mp heq
  · exact heq

/-- **A list has an order** exactly where no text among its keys stands between two numbers the other
way round. -/
theorem orders_iff (hv : fl.ByValue value) {docs : Value → Prop} :
    o.Orders fl docs ↔ o.Uncrossed fl docs := by
  constructor
  · rintro ⟨htotal, -⟩ x y z m n text hx hy hz hm hn hno htext ⟨hle, hnt, htm, hone⟩
    have hxn : o.keyOf x ≠ .null := by simp [hm]
    have hyn : o.keyOf y ≠ .null := by simp [hn]
    have hzn : o.keyOf z ≠ .null := by
      intro hnull
      rw [hnull] at htext
      cases htext
    have hxy : cmpKeys fl (o.keyOf x) (o.keyOf y)
        = compareOfLessAndEq (value (fl.ofNumber m)) (value (fl.ofNumber n)) := by
      rw [hm, hn, cmpKeys_numbers hv]
    have hyz : cmpKeys fl (o.keyOf y) (o.keyOf z)
        = compareOfLessAndEq (textRank (some (fl.text n))) (textRank (some text)) := by
      rw [cmpKeys_texts (.inr hno), htext, hn]
      rfl
    have hzx : cmpKeys fl (o.keyOf z) (o.keyOf x)
        = compareOfLessAndEq (textRank (some text)) (textRank (some (fl.text m))) := by
      rw [cmpKeys_texts (.inl hno), htext, hm]
      rfl
    have hxyle : (cmpKeys fl (o.keyOf x) (o.keyOf y)).isLE := by
      rw [hv, ne_eq, Option.some_inj, ← hxy] at hle
      exact Ordering.isLE_iff_ne_gt.mpr hle
    have hyzle : (cmpKeys fl (o.keyOf y) (o.keyOf z)).isLE := by
      rw [hyz, isLE_rank, textRank_some_le]
      exact hnt
    have hzxle : (cmpKeys fl (o.keyOf z) (o.keyOf x)).isLE := by
      rw [hzx, isLE_rank, textRank_some_le]
      exact htm
    -- the three are one place, so the numbers are equal and so are their texts
    have heq := eq_of_total hv htotal hx hy hz hxn hyn hzn hxyle hyzle hzxle
    have hnt' := eq_of_total hv htotal hy hz hx hyn hzn hxn hyzle hzxle hxyle
    have htm' := eq_of_total hv htotal hz hx hy hzn hxn hyn hzxle hxyle hyzle
    rw [hyz, compareOfLessAndEq_eq_eq le_refl not_le] at hnt'
    rw [hzx, compareOfLessAndEq_eq_eq le_refl not_le] at htm'
    refine hone ⟨by rw [hv, ← hxy, heq], ?_⟩
    have hrank : textRank (some (fl.text n)) = textRank (some (fl.text m)) := hnt'.trans htm'
    exact le_antisymm ((textRank_some_le _ _).mp hrank.ge) ((textRank_some_le _ _).mp hrank.le)
  · intro h
    exact ⟨total_of_uncrossed hv h, sortsAlike (total_of_uncrossed hv h)⟩

end

/-! ## nine, ten, and five as a text -/

/-- the order by `spec.size` -/
def bySize : OrderBy := ⟨["spec", "size"], false⟩

example : parse none "spec.size" = .ok bySize := by decide +kernel

theorem wholeFloats_byValue : wholeFloats.ByValue (fun n : ℤ => (n : ℚ)) := by
  have hcast : ∀ a b : ℤ, compareOfLessAndEq a b = compareOfLessAndEq (a : ℚ) (b : ℚ) := by
    intro a b
    unfold compareOfLessAndEq
    simp only [Int.cast_lt, Int.cast_inj]
  intro a b
  exact congrArg some (hcast _ _)

def sizes (l : List Value) (doc : Value) : Prop := ∃ size ∈ l, doc = sized size

theorem orders_of_numbers : bySize.Orders wholeFloats (sizes [.number (.int 9), .number (.int 10)]) ∧
    bySize.Uncrossed wholeFloats (sizes [.number (.int 9), .number (.int 10)]) := by
  have huncrossed : bySize.Uncrossed wholeFloats (sizes [.number (.int 9), .number (.int 10)]) := by
    rintro x y z m n text - - ⟨size, hsize, rfl⟩ - - hno -
    rcases List.mem_pair.mp hsize with rfl | rfl <;> cases hno
  exact ⟨(orders_iff wholeFloats_byValue).mpr huncrossed, huncrossed⟩

def row (size : Value) (name : String) : Rows (fun _ => True) := ⟨(sized size, name), trivial⟩

/-- **A list with no order**: 9 is before 10, 10 before the text "5", and "5" before 9. -/
theorem round_in_a_circle : ¬ ∀ schema text o, parse schema text = .ok o →
    o.Orders wholeFloats (fun _ => True) := by
  intro hall
  have hcircle : (parse none "spec.size").toOption = some bySize ∧
      bySize.rowCmp wholeFloats _ (row (.number (.int 9)) "a") (row (.number (.int 10)) "b") = .lt ∧
      bySize.rowCmp wholeFloats _ (row (.number (.int 10)) "b") (row (.string "5") "c") = .lt ∧
      bySize.rowCmp wholeFloats _ (row (.string "5") "c") (row (.number (.int 9)) "a") = .lt := by
    decide +kernel
  obtain ⟨hparse, hab, hbc, hca⟩ := hcircle
  cases h : parse none "spec.size" with
  | error e =>
    rw [h] at hparse
    cases hparse
  | ok o =>
    rw [h] at hparse
    obtain rfl : o = bySize := Option.some.inj hparse
    have heq := eq_of_cycle (hall none "spec.size" bySize h).total (by rw [hab]; rfl) (by rw [hbc]; rfl)
      (by rw [hca]; rfl)
    rw [hab] at heq
    cases heq

end OrderBy
end Filter
end Portal
