import Mathlib.Data.Fintype.EquivFin
import Mathlib.Data.List.Forall2
import Portal.Base.JsonText

/-!
# Values that differ under some names only

Two values are alike when they have the same arrays and objects, and the same scalars but for those under a
member of one of the names.  Under such a name a scalar may be anything, however deep.

* `Alike`, `AlikeOpt`     the relation; under a name already, or not;
* `HasSecret`             a value with a scalar under one of the names;
* `eq_of_alike`           alike values without one are equal;
* `blind`, `alike_blind`  all scalars under the names replaced by one text;
* `texts`, `exists_fresh` the texts of a value, and one that none of two values has.
-/

namespace Portal

namespace Value

def isScalar : Value → Bool
  | .object _ => false
  | .array _ => false
  | _ => true

section
variable (isSecret : String → Bool)

mutual

/-- the same value but for scalars under a secret's name; `below` is whether it stands under one -/
def Alike (below : Bool) : Value → Value → Prop
  | .object fields, .object fields' => AlikeFields below fields fields'
  | .array items, .array items' => AlikeItems below items items'
  | v, w => v = w ∨ (below = true ∧ v.isScalar = true ∧ w.isScalar = true)

def AlikeItems (below : Bool) : List Value → List Value → Prop
  | [], [] => True
  | v :: items, w :: items' => Alike below v w ∧ AlikeItems below items items'
  | _, _ => False

def AlikeFields (below : Bool) : List (String × Value) → List (String × Value) → Prop
  | [], [] => True
  | (key, v) :: fields, (key', w) :: fields' =>
    key = key' ∧ Alike (below || isSecret key) v w ∧ AlikeFields below fields fields'
  | _, _ => False

end

/-- two values that may be absent -/
def AlikeOpt (below : Bool) : Option Value → Option Value → Prop
  | none, none => True
  | some v, some w => Alike isSecret below v w
  | _, _ => False

inductive HasSecret : Bool → Value → Prop
  | scalar {v : Value} : v.isScalar = true → HasSecret true v
  | item {below : Bool} {items : List Value} {v : Value} :
    v ∈ items → HasSecret below v → HasSecret below (.array items)
  | member {below : Bool} {fields : List (String × Value)} {key : String} {v : Value} :
    (key, v) ∈ fields → HasSecret (below || isSecret key) v → HasSecret below (.object fields)

mutual

/-- every scalar under a secret's name replaced -/
def blind (mark : String) (below : Bool) : Value → Value
  | .object fields => .object (blindFields mark below fields)
  | .array items => .array (blindItems mark below items)
  | v => if below then .string mark else v

def blindItems (mark : String) (below : Bool) : List Value → List Value
  | [] => []
  | v :: items => blind mark below v :: blindItems mark below items

def blindFields (mark : String) (below : Bool) : List (String × Value) → List (String × Value)
  | [] => []
  | (key, v) :: fields =>
    (key, blind mark (below || isSecret key) v) :: blindFields mark below fields

end

end

mutual

def texts : Value → List String
  | .string text => [text]
  | .array items => itemTexts items
  | .object fields => fieldTexts fields
  | _ => []

def itemTexts : List Value → List String
  | [] => []
  | v :: items => v.texts ++ itemTexts items

def fieldTexts : List (String × Value) → List String
  | [] => []
  | (_, v) :: fields => v.texts ++ fieldTexts fields

end

section
variable {isSecret : String → Bool} {below : Bool}

/-! ## alike values -/

theorem alikeItems_iff (items items' : List Value) :
    AlikeItems isSecret below items items' ↔ List.Forall₂ (Alike isSecret below) items items' := by
  induction items generalizing items' with
  | nil =>
    cases items' with
    | nil => simp [AlikeItems]
    | cons w items' => simp [AlikeItems]
  | cons v items ih =>
    cases items' with
    | nil => simp [AlikeItems]
    | cons w items' => rw [AlikeItems, List.forall₂_cons, ih]

def AlikeMember (isSecret : String → Bool) (below : Bool) (p q : String × Value) : Prop :=
  p.1 = q.1 ∧ Alike isSecret (below || isSecret p.1) p.2 q.2

theorem alikeFields_iff (fields fields' : List (String × Value)) :
    AlikeFields isSecret below fields fields' ↔
      List.Forall₂ (AlikeMember isSecret below) fields fields' := by
  induction fields generalizing fields' with
  | nil =>
    cases fields' with
    | nil => simp [AlikeFields]
    | cons q fields' => simp [AlikeFields]
  | cons p fields ih =>
    cases fields' with
    | nil => simp [AlikeFields]
    | cons q fields' => rw [AlikeFields, List.forall₂_cons, ih, AlikeMember, and_assoc]

theorem alike_cases {v w : Value} (h : Alike isSecret below v w) :
    (v = w ∧ v.isScalar = true) ∨ (below = true ∧ v.isScalar = true ∧ w.isScalar = true) ∨
      (∃ items items', v = .array items ∧ w = .array items' ∧
        List.Forall₂ (Alike isSecret below) items items') ∨
      ∃ fields fields', v = .object fields ∧ w = .object fields' ∧
        List.Forall₂ (AlikeMember isSecret below) fields fields' := by
  unfold Alike at h
  split at h
  · rename_i fields fields'
    exact Or.inr (Or.inr (Or.inr ⟨fields, fields', rfl, rfl, (alikeFields_iff _ _).1 h⟩))
  · rename_i items items'
    exact Or.inr (Or.inr (Or.inl ⟨items, items', rfl, rfl, (alikeItems_iff _ _).1 h⟩))
  · rename_i hobject harray
    rcases h with rfl | h
    · refine Or.inl ⟨rfl, ?_⟩
      cases v with
      | object fields => exact absurd rfl (hobject fields fields rfl)
      | array items => exact absurd rfl (harray items items rfl)
      | _ => rfl
    · exact Or.inr (Or.inl h)

theorem alike_array {items items' : List Value} :
    Alike isSecret below (.array items) (.array items') ↔
      List.Forall₂ (Alike isSecret below) items items' := by
  rw [Alike]
  exact alikeItems_iff items items'

theorem alike_object {fields fields' : List (String × Value)} :
    Alike isSecret below (.object fields) (.object fields') ↔
      List.Forall₂ (AlikeMember isSecret below) fields fields' := by
  rw [Alike]
  exact alikeFields_iff fields fields'

theorem alike_secret {v w : Value} (hv : v.isScalar = true) (hw : w.isScalar = true) :
    Alike isSecret true v w := by
  unfold Alike
  split
  · exact nomatch hv
  · exact nomatch hv
  · exact Or.inr ⟨rfl, hv, hw⟩

/-- what a relation says of the elements of the first list, element by element -/
theorem forall₂_of_mem {α β : Type*} {R S : α → β → Prop} {l : List α} {l' : List β}
    (hR : List.Forall₂ R l l') (h : ∀ a ∈ l, ∀ b, R a b → S a b) : List.Forall₂ S l l' := by
  induction hR with
  | nil => exact List.Forall₂.nil
  | cons hab _ ih =>
    exact List.Forall₂.cons (h _ List.mem_cons_self _ hab)
      (ih (fun a ha => h a (List.mem_cons_of_mem _ ha)))

theorem alike_refl (v : Value) : ∀ below, Alike isSecret below v v := by
  induction v using Value.induction with
  | array items ih =>
    intro below
    exact alike_array.2 (List.forall₂_same.2 (fun v hv => ih v hv below))
  | object fields ih =>
    intro below
    exact alike_object.2 (List.forall₂_same.2 (fun p hp => ⟨rfl, ih p hp _⟩))
  | null => exact fun _ => Or.inl rfl
  | bool b => exact fun _ => Or.inl rfl
  | number n => exact fun _ => Or.inl rfl
  | string text => exact fun _ => Or.inl rfl

/-- **Alike rule**: what holds of a scalar and itself, of two scalars under a secret's name, and of two
containers if of what they hold, holds of alike values. -/
theorem alike_induction {P : Bool → Value → Value → Prop}
    (same : ∀ below v, v.isScalar = true → P below v v)
    (secret : ∀ v w, v.isScalar = true → w.isScalar = true → P true v w)
    (array : ∀ below items items', List.Forall₂ (P below) items items' →
      P below (.array items) (.array items'))
    (object : ∀ below fields fields', List.Forall₂ (fun p q : String × Value =>
      p.1 = q.1 ∧ P (below || isSecret p.1) p.2 q.2) fields fields' →
      P below (.object fields) (.object fields')) (v : Value) :
    ∀ {below : Bool} {w : Value}, Alike isSecret below v w → P below v w := by
  have hscalar : ∀ {v : Value}, v.isScalar = true → ∀ {below : Bool} {w : Value},
      Alike isSecret below v w → P below v w := by
    intro v hv below w h
    rcases alike_cases h with ⟨rfl, -⟩ | ⟨rfl, -, hw⟩ | ⟨_, _, rfl, -⟩ | ⟨_, _, rfl, -⟩
    · exact same below _ hv
    · exact secret _ w hv hw
    · exact nomatch hv
    · exact nomatch hv
  induction v using Value.induction with
  | array items ih =>
    intro below w h
    rcases alike_cases h with ⟨-, h⟩ | ⟨-, h, -⟩ | ⟨l, items', hl, rfl, h⟩ | ⟨_, _, h, -⟩
    · exact nomatch h
    · exact nomatch h
    · obtain rfl := Value.array.inj hl
      exact array below items items' (forall₂_of_mem h (fun v hv w hw => ih v hv hw))
    · exact nomatch h
  | object fields ih =>
    intro below w h
    rcases alike_cases h with ⟨-, h⟩ | ⟨-, h, -⟩ | ⟨_, _, h, -⟩ | ⟨l, fields', hl, rfl, h⟩
    · exact nomatch h
    · exact nomatch h
    · exact nomatch h
    · obtain rfl := Value.object.inj hl
      exact object below fields fields' (forall₂_of_mem h (fun p hp q hq => ⟨hq.1, ih p hp hq.2⟩))
  | null => exact hscalar rfl
  | bool b => exact hscalar rfl
  | number n => exact hscalar rfl
  | string text => exact hscalar rfl

theorem alike_symm {v w : Value} (h : Alike isSecret below v w) : Alike isSecret below w v := by
  refine alike_induction (P := fun below v w => Alike isSecret below w v)
    (fun below v _ => alike_refl v below) (fun v w hv hw => alike_secret hw hv)
    (fun below items items' h => alike_array.2 h.flip) (fun below fields fields' h => ?_) v h
  refine alike_object.2 (h.flip.imp (fun p q hpq => ⟨hpq.1.symm, ?_⟩))
  show Alike isSecret (below || isSecret p.1) p.2 q.2
  rw [← hpq.1]
  exact hpq.2

theorem eq_of_alike {v w : Value} (h : Alike isSecret below v w) (hnone : ¬ HasSecret isSecret below v) :
    v = w := by
  refine alike_induction (P := fun below v w => ¬ HasSecret isSecret below v → v = w)
    (fun _ _ _ _ => rfl) (fun v _ hv _ hnone => absurd (HasSecret.scalar hv) hnone)
    (fun below items items' h hnone => ?_) (fun below fields fields' h hnone => ?_) v h hnone
  · have heq := forall₂_of_mem (S := Eq) h
      (fun v hv w hvw => hvw (fun hc => hnone (HasSecret.item hv hc)))
    rw [List.forall₂_eq_eq_eq] at heq
    rw [heq]
  · have heq := forall₂_of_mem (S := Eq) h (fun p hp q hpq =>
      Prod.ext hpq.1 (hpq.2 (fun hc => hnone (HasSecret.member hp hc))))
    rw [List.forall₂_eq_eq_eq] at heq
    rw [heq]

theorem keys_of_forall₂ {R : String × Value → String × Value → Prop} (hR : ∀ p q, R p q → p.1 = q.1)
    {fields fields' : List (String × Value)} (h : List.Forall₂ R fields fields') :
    fields.map Prod.fst = fields'.map Prod.fst := by
  induction h with
  | nil => rfl
  | cons hpq _ ih => rw [List.map_cons, List.map_cons, hR _ _ hpq, ih]

theorem ordered_of_alike {v w : Value} (h : Alike isSecret below v w) (hv : v.Ordered) : w.Ordered := by
  refine alike_induction (P := fun _ v w => v.Ordered → w.Ordered) (fun _ _ _ h => h)
    (fun v w _ hw _ => ?_) (fun below items items' h hord => ?_)
    (fun below fields fields' h hord => ?_) v h hv
  · cases w with
    | object fields => exact nomatch hw
    | array items => exact nomatch hw
    | _ => exact trivial
  · induction h with
    | nil => exact trivial
    | cons hvw _ ih => exact ⟨hvw hord.1, ih hord.2⟩
  · obtain ⟨hkeys, hmembers⟩ := hord
    refine ⟨?_, ?_⟩
    · have hkeys := List.pairwise_map.2 hkeys
      rw [keys_of_forall₂ (fun p q hpq => hpq.1) h] at hkeys
      exact List.pairwise_map.1 hkeys
    · clear hkeys
      induction h with
      | nil => exact trivial
      | cons hpq _ ih => exact ⟨hpq.2 hmembers.1, ih hmembers.2⟩

/-! ## what stands in alike values -/

theorem alikeOpt_symm {c c' : Option Value} (h : AlikeOpt isSecret below c c') :
    AlikeOpt isSecret below c' c := by
  cases c with
  | none =>
    cases c' with
    | none => exact trivial
    | some w => exact nomatch h
  | some v =>
    cases c' with
    | none => exact nomatch h
    | some w => exact alike_symm h

theorem alikeOpt_item {items items' : List Value}
    (h : List.Forall₂ (Alike isSecret below) items items') (i : Nat) :
    AlikeOpt isSecret below items[i]? items'[i]? := by
  induction h generalizing i with
  | nil => exact trivial
  | cons hvw _ ih =>
    cases i with
    | zero => exact hvw
    | succ i => exact ih i

theorem alikeOpt_member {fields fields' : List (String × Value)}
    (h : List.Forall₂ (AlikeMember isSecret below) fields fields') (key : String) :
    AlikeOpt isSecret (below || isSecret key) (fields.lookup key) (fields'.lookup key) := by
  induction h with
  | nil => exact trivial
  | @cons p q _ _ hpq _ ih =>
    obtain ⟨k, v⟩ := p
    obtain ⟨k', w⟩ := q
    obtain ⟨rfl, hv⟩ := hpq
    rw [List.lookup_cons, List.lookup_cons]
    cases hk : key == k with
    | true =>
      rw [beq_iff_eq.1 hk]
      exact hv
    | false => exact ih

/-! ## secrets replaced -/

variable {mark : String}

theorem blindItems_eq (items : List Value) :
    blindItems isSecret mark below items = items.map (blind isSecret mark below) := by
  induction items with
  | nil => rfl
  | cons v items ih => rw [blindItems, ih, List.map_cons]

theorem blindFields_eq (fields : List (String × Value)) : blindFields isSecret mark below fields
    = fields.map (fun p => (p.1, blind isSecret mark (below || isSecret p.1) p.2)) := by
  induction fields with
  | nil => rfl
  | cons p fields ih =>
    obtain ⟨key, v⟩ := p
    rw [blindFields, ih, List.map_cons]

theorem blind_scalar {v : Value} (h : v.isScalar = true) :
    blind isSecret mark below v = if below then .string mark else v := by
  cases v with
  | object fields => exact nomatch h
  | array items => exact nomatch h
  | _ => rfl

/-- **Every scalar under a secret's name may be replaced.** -/
theorem alike_blind (v : Value) : ∀ below, Alike isSecret below v (blind isSecret mark below v) := by
  have hscalar : ∀ {v : Value} (below : Bool), v.isScalar = true →
      Alike isSecret below v (blind isSecret mark below v) := by
    intro v below h
    rw [blind_scalar h]
    cases below with
    | true => exact alike_secret h rfl
    | false => exact alike_refl v false
  induction v using Value.induction with
  | array items ih =>
    intro below
    rw [blind, blindItems_eq, alike_array, List.forall₂_map_right_iff]
    exact List.forall₂_same.2 (fun v hv => ih v hv below)
  | object fields ih =>
    intro below
    rw [blind, blindFields_eq, alike_object, List.forall₂_map_right_iff]
    exact List.forall₂_same.2 (fun p hp => ⟨rfl, ih p hp _⟩)
  | null => exact fun below => hscalar below rfl
  | bool b => exact fun below => hscalar below rfl
  | number n => exact fun below => hscalar below rfl
  | string text => exact fun below => hscalar below rfl

/-! ## texts -/

theorem mem_itemTexts {items : List Value} {text : String} :
    text ∈ itemTexts items ↔ ∃ v ∈ items, text ∈ v.texts := by
  induction items with
  | nil => simp [itemTexts]
  | cons v items ih => rw [itemTexts, List.mem_append, ih, List.exists_mem_cons_iff]

theorem mem_fieldTexts {fields : List (String × Value)} {text : String} :
    text ∈ fieldTexts fields ↔ ∃ p ∈ fields, text ∈ p.2.texts := by
  induction fields with
  | nil => simp [fieldTexts]
  | cons p fields ih =>
    obtain ⟨key, v⟩ := p
    rw [fieldTexts, List.mem_append, ih, List.exists_mem_cons_iff]

theorem mark_mem_blind {v : Value} (h : HasSecret isSecret below v) :
    mark ∈ (blind isSecret mark below v).texts := by
  induction h with
  | scalar hv =>
    rw [blind_scalar hv]
    exact List.mem_singleton_self mark
  | item hv _ ih =>
    rw [blind, blindItems_eq]
    exact mem_itemTexts.2 ⟨_, List.mem_map_of_mem hv, ih⟩
  | member hv _ ih =>
    rw [blind, blindFields_eq]
    exact mem_fieldTexts.2 ⟨_, List.mem_map_of_mem hv, ih⟩

theorem exists_fresh (l : List String) : ∃ text, text ∉ l := by
  have : Infinite String := Infinite.of_injective String.ofList (fun a b h => by
    have hlist := congrArg String.toList h
    rwa [String.toList_ofList, String.toList_ofList] at hlist)
  obtain ⟨text, h⟩ := Infinite.exists_notMem_finset l.toFinset
  exact ⟨text, fun hc => h (List.mem_toFinset.2 hc)⟩

end

end Value

end Portal
