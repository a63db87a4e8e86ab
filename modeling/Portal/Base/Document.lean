import Mathlib.Data.String.Basic
import Portal.Base.Json
import Portal.Base.OrdMap

/-!
# Documents: objects looked up along key paths

A document is a JSON value, and a key path leads through its objects: at an array, a scalar or an
absent value it leads nowhere.  An object's members stand in key order and each key once
(`Value.Ordered`), as the map they model keeps them.

* `Value.get?`, `valueAt`   the member under a key, the value at a path;
* `Value.size_lookup`       a member is smaller than its object;
* `threeWay_induction`      three documents walked down together, along the objects of two of them.
-/

namespace Portal

namespace Value

def asObject : Value → Option (List (String × Value))
  | .object fields => some fields
  | _ => none

/-- the member of an object under a key; nothing else has members -/
def get? (v : Value) (key : String) : Option Value :=
  v.asObject.bind (fun fields => fields.lookup key)

@[simp] theorem get?_object (fields : List (String × Value)) (key : String) :
    (Value.object fields).get? key = fields.lookup key := rfl

mutual

def size : Value → Nat
  | .object fields => sizeFields fields + 1
  | _ => 1

def sizeFields : List (String × Value) → Nat
  | [] => 0
  | (_, v) :: fields => v.size + sizeFields fields

end

theorem size_lookup {fields : List (String × Value)} {key : String} {v : Value}
    (h : fields.lookup key = some v) : v.size ≤ sizeFields fields := by
  induction fields with
  | nil => exact absurd h (by simp)
  | cons p fields ih =>
    obtain ⟨k, w⟩ := p
    unfold sizeFields
    rw [List.lookup_cons] at h
    split at h
    · cases h
      omega
    · have := ih h
      omega

mutual

def weight : Value → Nat
  | .array items => weightItems items + 1
  | .object fields => weightFields fields + 1
  | _ => 1

def weightItems : List Value → Nat
  | [] => 0
  | v :: items => v.weight + weightItems items

def weightFields : List (String × Value) → Nat
  | [] => 0
  | (_, v) :: fields => v.weight + weightFields fields

end

def weightOpt (v : Option Value) : Nat := (v.map weight).getD 0

theorem weightOpt_lookup (fields : List (String × Value)) (key : String) :
    weightOpt (fields.lookup key) < weightOpt (some (.object fields)) := by
  show _ < weightFields fields + 1
  induction fields with
  | nil => exact Nat.succ_pos _
  | cons p fields ih =>
    obtain ⟨k, w⟩ := p
    rw [List.lookup_cons]
    unfold weightFields
    split
    · show w.weight < _
      omega
    · omega

theorem weightOpt_getElem (items : List Value) (i : Nat) :
    weightOpt items[i]? < weightOpt (some (.array items)) := by
  show _ < weightItems items + 1
  induction items generalizing i with
  | nil => exact Nat.succ_pos _
  | cons v items ih =>
    unfold weightItems
    cases i with
    | zero =>
      show v.weight < _
      omega
    | succ i =>
      have hrest := ih i
      rw [List.getElem?_cons_succ]
      omega

theorem member_induction {P : Value → Prop} (other : ∀ v, v.asObject = none → P v)
    (object : ∀ fields, (∀ key v, fields.lookup key = some v → P v) → P (.object fields))
    (v : Value) : P v := by
  induction hn : v.size using Nat.strong_induction_on generalizing v with
  | _ n ih =>
    subst hn
    cases v with
    | object fields =>
      exact object fields fun key w hw => ih _ (Nat.lt_succ_of_le (size_lookup hw)) w rfl
    | _ => exact other _ rfl

mutual

def Ordered : Value → Prop
  | .array items => OrderedItems items
  | .object fields => fields.Pairwise (fun p q => p.1 < q.1) ∧ OrderedFields fields
  | _ => True

def OrderedItems : List Value → Prop
  | [] => True
  | v :: items => v.Ordered ∧ OrderedItems items

def OrderedFields : List (String × Value) → Prop
  | [] => True
  | (_, v) :: fields => v.Ordered ∧ OrderedFields fields

end

theorem orderedFields_iff (fields : List (String × Value)) :
    OrderedFields fields ↔ ∀ p ∈ fields, p.2.Ordered := by
  induction fields with
  | nil => simp [OrderedFields]
  | cons p fields ih =>
    obtain ⟨k, v⟩ := p
    unfold OrderedFields
    rw [ih, List.forall_mem_cons]

end Value

/-! ## paths -/

/-- the member of a value that may be absent -/
def member (v : Option Value) (key : String) : Option Value := v.bind (fun v => v.get? key)

def valueAt (v : Option Value) : List String → Option Value
  | [] => v
  | key :: path => valueAt (member v key) path

@[simp] theorem valueAt_nil (v : Option Value) : valueAt v [] = v := rfl

@[simp] theorem valueAt_cons (v : Option Value) (key : String) (path : List String) :
    valueAt v (key :: path) = valueAt (member v key) path := rfl

@[simp] theorem member_none (key : String) : member none key = none := rfl

@[simp] theorem valueAt_none (path : List String) : valueAt none path = none := by
  induction path with
  | nil => rfl
  | cons key path ih => exact ih

/-- the size of a value that may be absent -/
def sizeOpt : Option Value → Nat
  | none => 0
  | some v => v.size

theorem sizeOpt_lookup (fields : List (String × Value)) (key : String) :
    sizeOpt (fields.lookup key) < sizeOpt (some (.object fields)) := by
  show _ < Value.sizeFields fields + 1
  cases h : fields.lookup key with
  | none => exact Nat.succ_pos _
  | some v => exact Nat.lt_succ_of_le (Value.size_lookup h)

/-- three values of which the last two may be objects at once: what holds where they are not, and
of two objects if of all their members, holds of all -/
theorem threeWay_induction {P : Option Value → Option Value → Option Value → Prop}
    (other : ∀ b o t, (∀ fo ft, ¬ (o = some (.object fo) ∧ t = some (.object ft))) → P b o t)
    (objects : ∀ b fo ft, (∀ key, P (member b key) (fo.lookup key) (ft.lookup key)) →
      P b (some (.object fo)) (some (.object ft))) (b o t : Option Value) : P b o t := by
  -- by the size of the second value, whose members are smaller
  induction hn : sizeOpt o using Nat.strong_induction_on generalizing b o t with
  | _ n ih =>
    subst hn
    by_cases h : ∃ fo ft, o = some (.object fo) ∧ t = some (.object ft)
    · obtain ⟨fo, ft, rfl, rfl⟩ := h
      exact objects b fo ft (fun key => ih _ (sizeOpt_lookup fo key) _ _ _ rfl)
    · exact other b o t (fun fo ft hc => h ⟨fo, ft, hc⟩)

end Portal
