import Mathlib.Algebra.Order.Ring.Rat
import Mathlib.Data.Prod.Lex
import Portal.Resource.Filter

/-!
# The order of a list (`resource/filter.rs`: `OrderBy`)

A list is ordered by one field of its kind and then by the row's name: rows without the field come
last whichever way the order goes, two numbers compare as floats and any other two keys as texts.

* `OrderBy.parse`   the order of an `orderBy` text;
* `keyOf`, `cmp`    the key of a document, and the order of two (key, name) pairs;
* `OneKind`         keys with no number beside something that is none: over those `cmp` is the
                    order of a linearly ordered set (`cmp_linear`).  A number and a text compare as
                    texts, so over mixed keys it need not be transitive.
-/

namespace Portal
namespace Filter

structure OrderBy where
  path : List String
  descending : Bool
deriving DecidableEq

namespace OrderBy

def default : OrderBy := ⟨["metadata", "name"], false⟩

def parse (schema : Option Value) (text : String) : Except FilterError OrderBy :=
  match (Text.splitWhitespace text.toList).map String.ofList with
  | [] => .ok default
  | field :: words =>
    let descending : Except FilterError Bool :=
      match words.head? with
      | none | some "asc" => .ok false
      | some "desc" => .ok true
      | some other =>
        err (Text.utf8Len field.toList + 1) ("`" ++ other ++ "` is not asc or desc")
    match descending with
    | .error e => .error e
    | .ok descending =>
      if 1 < words.length then err 0 "orderBy takes one field, optionally followed by desc"
      else
        match (fieldPath field).filter (known schema) with
        | none => err 0 ("`" ++ field ++ "` is not a field of this kind")
        | some path => .ok ⟨path, descending⟩

/-- the first value at the field, null when there is none -/
def keyOf (o : OrderBy) (doc : Value) : Value :=
  if o.path.isEmpty then .null else ((valuesAt doc o.path).head?).getD .null

section
variable (fl : Floats)

/-- the order of two texts that may be absent, an absent one first -/
def cmpText : Option String → Option String → Ordering
  | none, none => .eq
  | none, some _ => .lt
  | some _, none => .gt
  | some a, some b => compareOfLessAndEq a b

def cmpKeys (x y : Value) : Ordering :=
  match asF64 fl x, asF64 fl y with
  | some x, some y => (fl.partialCmp x y).getD .eq
  | _, _ => cmpText (textOf fl x) (textOf fl y)

/-- the order of two keys, turned round for a descending one -/
def turned (o : OrderBy) (keys : Ordering) : Ordering := if o.descending then keys.swap else keys

def thenName (o : OrderBy) (keys : Ordering) (a b : String) : Ordering :=
  (o.turned keys).then (compareOfLessAndEq a b)

def cmp (o : OrderBy) (a b : Value × String) : Ordering :=
  match a.1, b.1 with
  | .null, .null => o.thenName .eq a.2 b.2
  | .null, _ => .gt
  | _, .null => .lt
  | x, y => o.thenName (cmpKeys fl x y) a.2 b.2

variable {fl} (o : OrderBy) {x y : Value} (n m : String)

theorem turned_eq : o.turned .eq = .eq := by
  unfold turned
  split <;> rfl

theorem cmp_null_null : o.cmp fl (.null, n) (.null, m) = compareOfLessAndEq n m := by
  show (o.turned .eq).then _ = _
  rw [turned_eq]
  rfl

theorem cmp_null (hy : y ≠ .null) : o.cmp fl (.null, n) (y, m) = .gt := by
  cases y with
  | null => exact absurd rfl hy
  | _ => rfl

theorem cmp_of_null (hx : x ≠ .null) : o.cmp fl (x, n) (.null, m) = .lt := by
  cases x with
  | null => exact absurd rfl hx
  | _ => rfl

theorem cmp_keys (hx : x ≠ .null) (hy : y ≠ .null) :
    o.cmp fl (x, n) (y, m) = (o.turned (cmpKeys fl x y)).then (compareOfLessAndEq n m) := by
  cases x with
  | null => exact absurd rfl hx
  | _ =>
    cases y with
    | null => exact absurd rfl hy
    | _ => rfl

end
end OrderBy

/-! ## the order is linear -/

/-- floats that compare by their value, as two finite ones do -/
def Floats.ByValue (fl : Floats) (value : fl.F → ℚ) : Prop :=
  ∀ a b, fl.partialCmp (fl.ofNumber a) (fl.ofNumber b)
    = some (compareOfLessAndEq (value (fl.ofNumber a)) (value (fl.ofNumber b)))

def isNumber : Value → Bool
  | .number _ => true
  | _ => false

/-- no number beside a key that is none, where there is a key at all -/
def OneKind (keys : Value → Prop) : Prop :=
  (∀ k, keys k → k ≠ .null → isNumber k = true) ∨ (∀ k, keys k → k ≠ .null → isNumber k = false)

section
variable {α β : Type} [LinearOrder α] [LinearOrder β]

theorem compare_self (a : α) : compareOfLessAndEq a a = .eq := by
  unfold compareOfLessAndEq
  rw [if_neg (lt_irrefl a), if_pos rfl]

theorem compare_toLex (a a' : α) (b b' : β) :
    compareOfLessAndEq (toLex (a, b)) (toLex (a', b'))
      = (compareOfLessAndEq a a').then (compareOfLessAndEq b b') := by
  unfold compareOfLessAndEq
  rcases lt_trichotomy a a' with h | rfl | h
  · have hlex : toLex (a, b) < toLex (a', b') := Prod.Lex.toLex_lt_toLex.mpr (.inl h)
    rw [if_pos hlex, if_pos h]
    rfl
  · rw [if_neg (lt_irrefl a), if_pos rfl]
    simp only [Prod.Lex.toLex_lt_toLex, lt_irrefl, true_and, false_or, toLex_inj,
      Prod.mk.injEq]
    rfl
  · have hlex : ¬ toLex (a, b) < toLex (a', b') := by
      rw [Prod.Lex.toLex_lt_toLex]
      rintro (h' | ⟨rfl, _⟩)
      · exact lt_asymm h h'
      · exact lt_irrefl _ h
    have hne : ¬ toLex (a, b) = toLex (a', b') := by
      intro he
      exact h.ne' (congrArg (fun p => (ofLex p).1) he)
    rw [if_neg hlex, if_neg hne, if_neg (lt_asymm h), if_neg h.ne']
    rfl

theorem compare_toDual (a b : α) :
    compareOfLessAndEq (OrderDual.toDual a) (OrderDual.toDual b)
      = (compareOfLessAndEq a b).swap := by
  unfold compareOfLessAndEq
  rcases lt_trichotomy a b with h | rfl | h
  · have hd : ¬ OrderDual.toDual a < OrderDual.toDual b := lt_asymm h
    rw [if_neg hd, if_neg (fun he => h.ne (OrderDual.toDual_inj.mp he)), if_pos h]
    rfl
  · rw [if_neg (lt_irrefl _), if_pos rfl, if_neg (lt_irrefl _), if_pos rfl]
    rfl
  · have hd : OrderDual.toDual a < OrderDual.toDual b := h
    rw [if_pos hd, if_neg (lt_asymm h), if_neg h.ne']
    rfl

end

namespace OrderBy
variable (fl : Floats) (o : OrderBy) {keys : Value → Prop}

/-- `cmp` is the order of positions that tell the names apart -/
def Linear (keys : Value → Prop) : Prop :=
  ∃ (β : Type) (_ : LinearOrder β) (pos : Value × String → β),
    (∀ a b, keys a.1 → keys b.1 → o.cmp fl a b = compareOfLessAndEq (pos a) (pos b)) ∧
    (∀ a b, pos a = pos b → a.2 = b.2)

theorem linear_of_rank {κ : Type} [LinearOrder κ] (rank : Value → κ)
    (h : ∀ x y, keys x → keys y → x ≠ .null → y ≠ .null →
      o.turned (cmpKeys fl x y) = compareOfLessAndEq (rank x) (rank y)) : o.Linear fl keys := by
  -- the keys that are there before those that are not, then by rank, and then by name
  refine ⟨Lex (Bool × Lex (κ × String)), inferInstance,
    fun a => toLex (decide (a.1 = .null), toLex (rank a.1, a.2)), ?_, ?_⟩
  · rintro ⟨x, n⟩ ⟨y, m⟩ ha hb
    rw [compare_toLex, compare_toLex]
    by_cases hx : x = .null <;> by_cases hy : y = .null
    · subst hx
      subst hy
      rw [cmp_null_null, compare_self, compare_self]
      rfl
    · subst hx
      rw [cmp_null o n m hy, decide_eq_true rfl, decide_eq_false hy]
      rfl
    · subst hy
      rw [cmp_of_null o n m hx, decide_eq_false hx, decide_eq_true rfl]
      rfl
    · rw [cmp_keys o n m hx hy, h x y ha hb hx hy, decide_eq_false hx, decide_eq_false hy]
      rfl
  · intro a b he
    exact congrArg (fun p => (ofLex (ofLex p).2).2) he

theorem linear_of_cmpKeys {κ : Type} [LinearOrder κ] (rank : Value → κ)
    (h : ∀ x y, keys x → keys y → x ≠ .null → y ≠ .null →
      cmpKeys fl x y = compareOfLessAndEq (rank x) (rank y)) : o.Linear fl keys := by
  cases hd : o.descending with
  | false =>
    refine o.linear_of_rank fl rank (fun x y hx hy hx' hy' => ?_)
    rw [← h x y hx hy hx' hy']
    simp [turned, hd]
  | true =>
    refine o.linear_of_rank fl (fun x => OrderDual.toDual (rank x)) (fun x y hx hy hx' hy' => ?_)
    rw [compare_toDual, ← h x y hx hy hx' hy']
    simp [turned, hd]

/-- a text that may be absent, by its place -/
def textRank (text : Option String) : Lex (Bool × String) := toLex (text.isSome, text.getD "")

theorem cmpText_eq (a b : Option String) :
    cmpText a b = compareOfLessAndEq (textRank a) (textRank b) := by
  unfold textRank
  rw [compare_toLex]
  cases a with
  | none =>
    cases b with
    | none => rfl
    | some b => rfl
  | some a =>
    cases b with
    | none => rfl
    | some b => rfl

/-- **Over keys of one kind a list has one order**: `cmp` is linear on them. -/
theorem cmp_linear {value : fl.F → ℚ} (hv : fl.ByValue value) (hk : OneKind keys) :
    o.Linear fl keys := by
  rcases hk with hk | hk
  · -- all numbers: by their values
    refine o.linear_of_cmpKeys fl (fun x => (asF64 fl x).elim 0 value) ?_
    intro x y hx hy hx' hy'
    cases x with
    | number a =>
      cases y with
      | number b =>
        show (fl.partialCmp (fl.ofNumber a) (fl.ofNumber b)).getD .eq = _
        rw [hv]
        rfl
      | _ => exact absurd (hk _ hy hy') (by simp [isNumber])
    | _ => exact absurd (hk _ hx hx') (by simp [isNumber])
  · -- none a number: by their texts
    refine o.linear_of_cmpKeys fl (fun x => textRank (textOf fl x)) ?_
    intro x y hx _ hx' _
    have hnone : asF64 fl x = none := by
      cases x with
      | number a => exact absurd (hk _ hx hx') (by simp [isNumber])
      | _ => rfl
    unfold cmpKeys
    rw [hnone]
    exact cmpText_eq _ _

end OrderBy

end Filter
end Portal
