import Mathlib.Data.List.Sort
import Portal.Base.JsonText

/-!
# The canonical text of a manifest, here and in the browser (`ops/verdict.rs`: `digest_of`,
`canonicalize`; `ui/src/api/digest.ts`: `canonicalizeJson`, `digestOf`)

A verdict names the manifest it judged by the digest of its canonical text, which the Portal and the
form in the browser each write on their own.  The Portal sorts an object's keys by code points; the
browser sorts them by UTF-16 units and then builds an object, which keeps array indices before all
other keys and takes `__proto__` for its prototype.

* `canonicalize`, `canonicalizeJson`   the two canonical forms;
* `Same`                               equal up to the order of keys;
* `canonicalText_inj`                  the Portal's texts are equal exactly for such documents;
* `Aligned`                            no object has `__proto__` or two keys the two orders differ on;
* `texts_agree_iff`                    when the texts agree.
-/

namespace Portal

namespace Verdicts

/-! ## the Portal's form -/

mutual

/-- every object in the order of its keys -/
def canonicalize : Value → Value
  | .object fields => .object (OrdMap.ofList (canonicalizeFields fields)).toList
  | .array items => .array (canonicalizeItems items)
  | .null => .null
  | .bool b => .bool b
  | .number n => .number n
  | .string text => .string text

def canonicalizeItems : List Value → List Value
  | [] => []
  | v :: items => canonicalize v :: canonicalizeItems items

def canonicalizeFields : List (String × Value) → List (String × Value)
  | [] => []
  | (key, v) :: fields => (key, canonicalize v) :: canonicalizeFields fields

end

/-! ## the browser's form -/

def utf16 (s : String) : List Nat :=
  s.toList.flatMap (fun c =>
    if c.toNat < 0x10000 then [c.toNat]
    else [0xD800 + (c.toNat - 0x10000) / 0x400, 0xDC00 + (c.toNat - 0x10000) % 0x400])

/-- the array index a key is, written as numbers are -/
def arrayIndex (key : String) : Option Nat :=
  let n := Text.digitsValue key.toList
  if n.repr = key ∧ n < 2 ^ 32 - 1 then some n else none

/-- members in the order an object keeps them: array indices by number, then the others as they
were added -/
def ownOrder {α : Type} (added : List (String × α)) : List (String × α) :=
  (added.filter (fun p => (arrayIndex p.1).isSome)).insertionSort
      (fun p q => (arrayIndex p.1).getD 0 ≤ (arrayIndex q.1).getD 0)
    ++ added.filter (fun p => (arrayIndex p.1).isNone)

/-- an object built member by member in the order of its sorted keys; setting `__proto__` adds no
member -/
def rebuilt {α : Type} (members : List (String × α)) : List (String × α) :=
  ownOrder ((members.insertionSort (fun p q => utf16 p.1 ≤ utf16 q.1)).filter
    (fun p => p.1 ≠ "__proto__"))

mutual

def canonicalizeJson : Value → Value
  | .object members => .object (rebuilt (canonicalizeMembers members))
  | .array items => .array (canonicalizeElements items)
  | .null => .null
  | .bool b => .bool b
  | .number n => .number n
  | .string text => .string text

def canonicalizeElements : List Value → List Value
  | [] => []
  | v :: items => canonicalizeJson v :: canonicalizeElements items

def canonicalizeMembers : List (String × Value) → List (String × Value)
  | [] => []
  | (key, v) :: members => (key, canonicalizeJson v) :: canonicalizeMembers members

end

/-! ## documents -/

/-- a JSON document: each object has a key once, and every number is a safe integer -/
structure Document where
  value : Value
  distinct : value.All (fun _ => True) List.Nodup
  safe : value.Safe

/-- equal up to the order of keys -/
inductive Same : Value → Value → Prop
  | null : Same .null .null
  | bool (b : Bool) : Same (.bool b) (.bool b)
  | number (n : Number) : Same (.number n) (.number n)
  | string (text : String) : Same (.string text) (.string text)
  | array {items items' : List Value} (h : List.Forall₂ Same items items') :
      Same (.array items) (.array items')
  | object {fields fields' : List (String × Value)}
      (h : ∀ key, Option.Rel Same (fields.lookup key) (fields'.lookup key)) :
      Same (.object fields) (.object fields')

section
variable (rust js : Number → List Char)

def canonicalText (d : Document) : List Char := (canonicalize d.value).chars rust

def browserText (d : Document) : List Char := (canonicalizeJson d.value).chars js

/-- what the digests of two documents are to be: one in both languages, and equal exactly for equal
documents -/
structure TextsAgree (d e : Document) : Prop where
  left : browserText js d = canonicalText rust d
  right : browserText js e = canonicalText rust e
  same : canonicalText rust d = canonicalText rust e ↔ Same d.value e.value
  same_browser : browserText js d = browserText js e ↔ Same d.value e.value

end

/-- an object keeps the one key before the other -/
def Precedes (a b : String) : Prop :=
  match arrayIndex a, arrayIndex b with
  | some i, some j => i < j
  | some _, none => True
  | none, some _ => False
  | none, none => utf16 a < utf16 b

instance (a b : String) : Decidable (Precedes a b) := by
  unfold Precedes
  cases arrayIndex a with
  | none =>
    cases arrayIndex b with
    | none => exact inferInstanceAs (Decidable (utf16 a < utf16 b))
    | some j => exact inferInstanceAs (Decidable False)
  | some i =>
    cases arrayIndex b with
    | none => exact inferInstanceAs (Decidable True)
    | some j => exact inferInstanceAs (Decidable (i < j))

/-- keys both orders agree on, and none that is no member in the browser -/
def KeysAligned (keys : List String) : Prop :=
  "__proto__" ∉ keys ∧ ∀ a ∈ keys, ∀ b ∈ keys, a < b → Precedes a b

def Aligned (d : Document) : Prop := d.value.All (fun _ => True) KeysAligned

/-! ## the forms, member by member -/

theorem canonicalizeItems_eq (items : List Value) :
    canonicalizeItems items = items.map canonicalize := by
  induction items with
  | nil => rfl
  | cons v items ih => rw [canonicalizeItems, ih, List.map_cons]

theorem canonicalizeFields_eq (fields : List (String × Value)) :
    canonicalizeFields fields = fields.map (fun p => (p.1, canonicalize p.2)) := by
  induction fields with
  | nil => rfl
  | cons p fields ih =>
    obtain ⟨key, v⟩ := p
    rw [canonicalizeFields, ih, List.map_cons]

theorem canonicalizeElements_eq (items : List Value) :
    canonicalizeElements items = items.map canonicalizeJson := by
  induction items with
  | nil => rfl
  | cons v items ih => rw [canonicalizeElements, ih, List.map_cons]

theorem canonicalizeMembers_eq (members : List (String × Value)) :
    canonicalizeMembers members = members.map (fun p => (p.1, canonicalizeJson p.2)) := by
  induction members with
  | nil => rfl
  | cons p members ih =>
    obtain ⟨key, v⟩ := p
    rw [canonicalizeMembers, ih, List.map_cons]

theorem keys_map {β γ : Type} (f : β → γ) (fields : List (String × β)) :
    (fields.map (fun p => (p.1, f p.2))).map Prod.fst = fields.map Prod.fst := by
  rw [List.map_map]
  rfl

/-! ## the order of an object's keys in the browser -/

theorem utf16_cons_inj {c d : Char} {a b : List Nat}
    (h : (if c.toNat < 0x10000 then [c.toNat]
        else [0xD800 + (c.toNat - 0x10000) / 0x400, 0xDC00 + (c.toNat - 0x10000) % 0x400]) ++ a
      = (if d.toNat < 0x10000 then [d.toNat]
        else [0xD800 + (d.toNat - 0x10000) / 0x400, 0xDC00 + (d.toNat - 0x10000) % 0x400]) ++ b) :
    c = d ∧ a = b := by
  have hvalid : ∀ e : Char, e.toNat < 0xD800 ∨ 0xDFFF < e.toNat ∧ e.toNat < 0x110000 := fun e => e.valid
  have hc := hvalid c
  have hd := hvalid d
  have hinj : c.toNat = d.toNat → c = d := fun hn => by
    rw [← Char.ofNat_toNat c, hn, Char.ofNat_toNat]
  split_ifs at h with hsmall hsmall' hsmall'
  · obtain ⟨hn, hrest⟩ := List.cons.inj h
    exact ⟨hinj hn, hrest⟩
  · have hn := (List.cons.inj h).1
    omega
  · have hn := (List.cons.inj h).1
    omega
  · obtain ⟨hhigh, htail⟩ := List.cons.inj h
    obtain ⟨hlow, hrest⟩ := List.cons.inj htail
    exact ⟨hinj (by omega), hrest⟩

theorem utf16_injective {s t : String} (h : utf16 s = utf16 t) : s = t := by
  apply String.toList_inj.mp
  unfold utf16 at h
  generalize s.toList = a at h ⊢
  generalize t.toList = b at h ⊢
  induction a generalizing b with
  | nil =>
    cases b with
    | nil => rfl
    | cons d b =>
      rw [List.flatMap_nil, List.flatMap_cons] at h
      split at h <;> exact absurd h (by simp)
  | cons c a ih =>
    cases b with
    | nil =>
      rw [List.flatMap_nil, List.flatMap_cons] at h
      split at h <;> exact absurd h (by simp)
    | cons d b =>
      rw [List.flatMap_cons, List.flatMap_cons] at h
      obtain ⟨rfl, hrest⟩ := utf16_cons_inj h
      rw [ih b hrest]

theorem arrayIndex_eq_some {key : String} {n : Nat} (h : arrayIndex key = some n) : n.repr = key := by
  unfold arrayIndex at h
  simp only at h
  split at h
  · rename_i hkey
    rw [← Option.some.inj h]
    exact hkey.1
  · exact absurd h (by simp)

theorem Precedes.asymm {a b : String} (h : Precedes a b) : ¬ Precedes b a := by
  unfold Precedes at h ⊢
  cases ha : arrayIndex a with
  | none =>
    cases hb : arrayIndex b with
    | none =>
      simp only [ha, hb] at h ⊢
      exact lt_asymm h
    | some j => simp [ha, hb] at h
  | some i =>
    cases hb : arrayIndex b with
    | none => simp
    | some j =>
      simp only [ha, hb] at h ⊢
      omega

section
variable {α : Type}

theorem rebuilt_perm (members : List (String × α)) :
    (rebuilt members).Perm (members.filter (fun p => p.1 ≠ "__proto__")) := by
  have hown : ∀ added : List (String × α), (ownOrder added).Perm added := by
    intro added
    unfold ownOrder
    refine ((List.perm_insertionSort _ _).append_right _).trans ?_
    have hsplit := List.filter_append_perm (fun p => (arrayIndex p.1).isSome) added
    have hnone : (fun p : String × α => (arrayIndex p.1).isNone)
        = fun p => !(arrayIndex p.1).isSome := funext (fun p => by cases arrayIndex p.1 <;> rfl)
    rw [hnone]
    exact hsplit
  exact (hown _).trans ((List.perm_insertionSort _ _).filter _)

theorem nodup_keys_perm {l l' : List (String × α)} (h : l.Perm l') (hl : (l'.map Prod.fst).Nodup) :
    l.Pairwise (fun p q => p.1 ≠ q.1) :=
  List.pairwise_map.mp (((h.map Prod.fst).nodup_iff).mpr hl)

/-- **An object keeps its members in one order**, whatever order they came in. -/
theorem rebuilt_pairwise {members : List (String × α)} (h : (members.map Prod.fst).Nodup) :
    (rebuilt members).Pairwise (fun p q => Precedes p.1 q.1) := by
  have htotal : Std.Total (fun p q : String × α => utf16 p.1 ≤ utf16 q.1) := ⟨fun _ _ => le_total _ _⟩
  have htrans : IsTrans (String × α) (fun p q => utf16 p.1 ≤ utf16 q.1) := ⟨fun _ _ _ => le_trans⟩
  have htotal' : Std.Total (fun p q : String × α =>
      (arrayIndex p.1).getD 0 ≤ (arrayIndex q.1).getD 0) := ⟨fun _ _ => le_total _ _⟩
  have htrans' : IsTrans (String × α) (fun p q =>
      (arrayIndex p.1).getD 0 ≤ (arrayIndex q.1).getD 0) := ⟨fun _ _ _ => le_trans⟩
  have hadded : ((members.insertionSort (fun p q => utf16 p.1 ≤ utf16 q.1)).filter
      (fun p => p.1 ≠ "__proto__")).Pairwise (fun p q => utf16 p.1 < utf16 q.1) := by
    have hsorted := List.pairwise_insertionSort (fun p q : String × α => utf16 p.1 ≤ utf16 q.1) members
    have hkeys := nodup_keys_perm (List.perm_insertionSort
      (fun p q : String × α => utf16 p.1 ≤ utf16 q.1) members) h
    refine ((hsorted.and hkeys).imp (fun {p q} hpq => ?_)).filter _
    exact lt_of_le_of_ne hpq.1 (fun heq => hpq.2 (utf16_injective heq))
  unfold rebuilt
  generalize ((members.insertionSort (fun p q => utf16 p.1 ≤ utf16 q.1)).filter
    (fun p => p.1 ≠ "__proto__")) = added at hadded
  unfold ownOrder
  rw [List.pairwise_append]
  refine ⟨?_, ?_, ?_⟩
  · have hsorted := List.pairwise_insertionSort (fun p q : String × α =>
      (arrayIndex p.1).getD 0 ≤ (arrayIndex q.1).getD 0) (added.filter (fun p => (arrayIndex p.1).isSome))
    have hne : (added.filter (fun p => (arrayIndex p.1).isSome)).Pairwise
        (fun p q => p.1 ≠ q.1) :=
      (hadded.imp (fun hlt heq => ne_of_lt hlt (congrArg utf16 heq))).filter _
    have hkeys := nodup_keys_perm (List.perm_insertionSort (fun p q : String × α =>
      (arrayIndex p.1).getD 0 ≤ (arrayIndex q.1).getD 0) _) (List.pairwise_map.mpr hne)
    refine (hsorted.and hkeys).imp_of_mem (fun {p q} hp hq hpq => ?_)
    have hpi := (List.mem_filter.mp ((List.mem_insertionSort _).mp hp)).2
    have hqi := (List.mem_filter.mp ((List.mem_insertionSort _).mp hq)).2
    obtain ⟨i, hi⟩ := Option.isSome_iff_exists.mp hpi
    obtain ⟨j, hj⟩ := Option.isSome_iff_exists.mp hqi
    obtain ⟨hle, hne⟩ := hpq
    unfold Precedes
    simp only [hi, hj, Option.getD_some] at hle ⊢
    refine lt_of_le_of_ne hle (fun heq => hne ?_)
    rw [← arrayIndex_eq_some hi, ← arrayIndex_eq_some hj, heq]
  · refine (hadded.filter _).imp_of_mem (fun {p q} hp hq hpq => ?_)
    have hpi := (List.mem_filter.mp hp).2
    have hqi := (List.mem_filter.mp hq).2
    unfold Precedes
    rw [Option.isNone_iff_eq_none.mp hpi, Option.isNone_iff_eq_none.mp hqi]
    exact hpq
  · intro p hp q hq
    have hpi := (List.mem_filter.mp ((List.mem_insertionSort _).mp hp)).2
    have hqi := (List.mem_filter.mp hq).2
    obtain ⟨i, hi⟩ := Option.isSome_iff_exists.mp hpi
    unfold Precedes
    rw [hi, Option.isNone_iff_eq_none.mp hqi]
    trivial

end

/-! ## where the two forms are one -/

theorem canonicalize_object (fields : List (String × Value)) : canonicalize (.object fields)
    = .object (OrdMap.ofList (fields.map (fun p => (p.1, canonicalize p.2)))).toList := by
  rw [canonicalize, canonicalizeFields_eq]

theorem canonicalizeJson_object (members : List (String × Value)) : canonicalizeJson (.object members)
    = .object (rebuilt (members.map (fun p => (p.1, canonicalizeJson p.2)))) := by
  rw [canonicalizeJson, canonicalizeMembers_eq]

theorem sorted_perm {fields : List (String × Value)} (h : (fields.map Prod.fst).Nodup) :
    (OrdMap.ofList (fields.map (fun p => (p.1, canonicalize p.2)))).toList.Perm
      (fields.map (fun p => (p.1, canonicalize p.2))) :=
  OrdMap.toList_ofList_perm (by rw [keys_map]; exact h)

theorem precedes_of_pairwise {α : Type} {l : List (String × α)}
    (hlt : l.Pairwise (fun p q => p.1 < q.1)) (hprecedes : l.Pairwise (fun p q => Precedes p.1 q.1))
    {p q : String × α} (hp : p ∈ l) (hq : q ∈ l) (h : p.1 < q.1) : Precedes p.1 q.1 := by
  have hforth : l.Pairwise (fun p q => p.1 < q.1 → Precedes p.1 q.1) := by
    refine hprecedes.imp ?_
    intro p q hpq _
    exact hpq
  have hback : l.Pairwise (fun p q => q.1 < p.1 → Precedes q.1 p.1) :=
    hlt.imp (fun hpq hqp => absurd hqp (lt_asymm hpq))
  exact List.Pairwise.forall_of_forall_of_flip (fun x _ hx => absurd hx (lt_irrefl _)) hforth hback
    hp hq h

/-- **The two forms of a document are one exactly where its keys are aligned.** -/
theorem forms_agree_iff {v : Value} (hv : v.All (fun _ => True) List.Nodup) :
    canonicalizeJson v = canonicalize v ↔ v.All (fun _ => True) KeysAligned := by
  induction v using Value.induction with
  | null | bool | number | string => exact iff_of_true rfl trivial
  | array items ih =>
    have hitems := Value.all_array.mp hv
    rw [Value.all_array, canonicalizeJson, canonicalize, canonicalizeElements_eq,
      canonicalizeItems_eq, Value.array.injEq, List.map_inj_left]
    exact forall₂_congr (fun v hmem => ih v hmem (hitems v hmem))
  | object fields ih =>
    obtain ⟨hnodup, hfields⟩ := Value.all_object.mp hv
    have hperm := sorted_perm hnodup
    have hkeys : ((fields.map (fun p => (p.1, canonicalizeJson p.2))).map Prod.fst).Nodup := by
      rw [keys_map]
      exact hnodup
    have hbuilt := rebuilt_pairwise hkeys
    have hbuiltperm := rebuilt_perm (fields.map (fun p => (p.1, canonicalizeJson p.2)))
    have hsorted := (OrdMap.ofList (fields.map (fun p => (p.1, canonicalize p.2)))).sorted
    rw [Value.all_object, canonicalizeJson_object, canonicalize_object, Value.object.injEq]
    constructor
    · intro heq
      rw [heq] at hbuilt hbuiltperm
      have hproto : "__proto__" ∉ fields.map Prod.fst := by
        intro hmem
        obtain ⟨p, hp, hkey⟩ := List.mem_map.mp hmem
        have hin := hperm.mem_iff.mpr (List.mem_map_of_mem hp)
        have hnot := (List.mem_filter.mp (hbuiltperm.mem_iff.mp hin)).2
        simp [hkey] at hnot
      refine ⟨⟨hproto, fun a ha b hb hab => ?_⟩, fun p hp => ?_⟩
      · obtain ⟨p, hp, rfl⟩ := List.mem_map.mp ha
        obtain ⟨q, hq, rfl⟩ := List.mem_map.mp hb
        exact precedes_of_pairwise hsorted hbuilt (p := (p.1, canonicalize p.2))
          (q := (q.1, canonicalize q.2)) (hperm.mem_iff.mpr (List.mem_map_of_mem hp))
          (hperm.mem_iff.mpr (List.mem_map_of_mem hq)) hab
      · -- the member under this key is the same in both forms
        rw [← ih p hp (hfields p hp)]
        have hne : p.1 ≠ "__proto__" := fun hkey => hproto (hkey ▸ List.mem_map_of_mem hp)
        have hin : (p.1, canonicalizeJson p.2) ∈ fields.map (fun p => (p.1, canonicalize p.2)) :=
          hperm.mem_iff.mp (hbuiltperm.mem_iff.mpr (List.mem_filter.mpr
            ⟨List.mem_map.mpr ⟨p, hp, rfl⟩, by simpa using hne⟩))
        obtain ⟨q, hq, hqp⟩ := List.mem_map.mp hin
        obtain ⟨hkey, hvalue⟩ := Prod.mk.inj hqp
        obtain rfl := List.inj_on_of_nodup_map hnodup hq hp hkey
        exact hvalue.symm
    · rintro ⟨⟨hproto, haligned⟩, hchildren⟩
      have hsame : fields.map (fun p => (p.1, canonicalizeJson p.2))
          = fields.map (fun p => (p.1, canonicalize p.2)) := by
        refine List.map_congr_left (fun p hp => ?_)
        rw [(ih p hp (hfields p hp)).mpr (hchildren p hp)]
      have hfilter : (fields.map (fun p => (p.1, canonicalizeJson p.2))).filter
          (fun p => p.1 ≠ "__proto__") = fields.map (fun p => (p.1, canonicalize p.2)) := by
        rw [hsame, List.filter_eq_self]
        intro q hq
        obtain ⟨p, hp, rfl⟩ := List.mem_map.mp hq
        have hne : p.1 ≠ "__proto__" := fun hkey => hproto (hkey ▸ List.mem_map_of_mem hp)
        simpa using hne
      have hprecedes : (OrdMap.ofList (fields.map (fun p => (p.1, canonicalize p.2)))).toList.Pairwise
          (fun p q => Precedes p.1 q.1) := by
        refine hsorted.imp_of_mem (fun {p q} hp hq hlt => ?_)
        obtain ⟨p', hp', rfl⟩ := List.mem_map.mp (hperm.mem_iff.mp hp)
        obtain ⟨q', hq', rfl⟩ := List.mem_map.mp (hperm.mem_iff.mp hq)
        exact haligned p'.1 (List.mem_map.mpr ⟨p', hp', rfl⟩) q'.1
          (List.mem_map.mpr ⟨q', hq', rfl⟩) hlt
      rw [hfilter] at hbuiltperm
      exact (hbuiltperm.trans hperm.symm).eq_of_pairwise
        (fun p q _ _ hpq hqp => absurd hqp hpq.asymm) hbuilt hprecedes

/-! ## equal up to the order of keys -/

theorem map_eq_map_iff {α β : Type} {f : α → β} {R : α → α → Prop} {l l' : List α}
    (h : ∀ a ∈ l, ∀ b ∈ l', f a = f b ↔ R a b) : l.map f = l'.map f ↔ List.Forall₂ R l l' := by
  induction l generalizing l' with
  | nil => cases l' <;> simp
  | cons a l ih =>
    cases l' with
    | nil => simp
    | cons b l' =>
      rw [List.map_cons, List.map_cons, List.cons.injEq, List.forall₂_cons,
        h a List.mem_cons_self b List.mem_cons_self, ih (fun a ha b hb =>
          h a (List.mem_cons_of_mem _ ha) b (List.mem_cons_of_mem _ hb))]

theorem get?_sorted {fields : List (String × Value)} (h : (fields.map Prod.fst).Nodup)
    (key : String) : (OrdMap.ofList (fields.map (fun p => (p.1, canonicalize p.2)))).get? key
      = (fields.lookup key).map canonicalize := by
  ext a
  rw [← OrdMap.mem_toList, (sorted_perm h).mem_iff, List.mem_map, Option.map_eq_some_iff]
  constructor
  · rintro ⟨p, hp, heq⟩
    obtain ⟨rfl, rfl⟩ := Prod.mk.inj heq
    exact ⟨p.2, (OrdMap.lookup_iff_mem h _ _).mpr hp, rfl⟩
  · rintro ⟨v, hv, rfl⟩
    exact ⟨(key, v), (OrdMap.lookup_iff_mem h _ _).mp hv, rfl⟩

theorem rel_iff_map_eq {R : Value → Value → Prop} {o o' : Option Value}
    (h : ∀ v, o = some v → ∀ w, o' = some w → (canonicalize v = canonicalize w ↔ R v w)) :
    o.map canonicalize = o'.map canonicalize ↔ Option.Rel R o o' := by
  cases o with
  | none => cases o' <;> simp [Option.rel_none_none]
  | some v =>
    cases o' with
    | none => simp
    | some w =>
      rw [Option.map_some, Option.map_some, Option.some.injEq, h v rfl w rfl]
      simp

/-- **The Portal's forms are equal exactly for documents equal up to the order of keys.** -/
theorem canonicalize_inj {v w : Value} (hv : v.All (fun _ => True) List.Nodup)
    (hw : w.All (fun _ => True) List.Nodup) : canonicalize v = canonicalize w ↔ Same v w := by
  induction v using Value.induction generalizing w with
  | null =>
    cases w with
    | null => exact iff_of_true rfl .null
    | _ => exact iff_of_false (by simp [canonicalize]) nofun
  | bool b =>
    cases w with
    | bool b' =>
      constructor
      · rintro ⟨⟩
        exact .bool b
      · rintro ⟨⟩
        rfl
    | _ => exact iff_of_false (by simp [canonicalize]) nofun
  | number n =>
    cases w with
    | number n' =>
      constructor
      · rintro ⟨⟩
        exact .number n
      · rintro ⟨⟩
        rfl
    | _ => exact iff_of_false (by simp [canonicalize]) nofun
  | string text =>
    cases w with
    | string text' =>
      constructor
      · rintro ⟨⟩
        exact .string text
      · rintro ⟨⟩
        rfl
    | _ => exact iff_of_false (by simp [canonicalize]) nofun
  | array items ih =>
    cases w with
    | array items' =>
      have hitems := Value.all_array.mp hv
      have hitems' := Value.all_array.mp hw
      rw [canonicalize, canonicalize, canonicalizeItems_eq, canonicalizeItems_eq, Value.array.injEq,
        map_eq_map_iff (fun v hmem w hmem' => ih v hmem (hitems v hmem) (hitems' w hmem'))]
      exact ⟨.array, fun h => by cases h with | array h => exact h⟩
    | _ => exact iff_of_false (by simp [canonicalize]) nofun
  | object fields ih =>
    cases w with
    | object fields' =>
      obtain ⟨hnodup, hfields⟩ := Value.all_object.mp hv
      obtain ⟨hnodup', hfields'⟩ := Value.all_object.mp hw
      have hmembers : ∀ key, (fields.lookup key).map canonicalize = (fields'.lookup key).map canonicalize
          ↔ Option.Rel Same (fields.lookup key) (fields'.lookup key) := by
        refine fun key => rel_iff_map_eq (fun v hget w hget' => ?_)
        have hmem := (OrdMap.lookup_iff_mem hnodup _ _).mp hget
        have hmem' := (OrdMap.lookup_iff_mem hnodup' _ _).mp hget'
        exact ih (key, v) hmem (hfields _ hmem) (hfields' _ hmem')
      rw [canonicalize_object, canonicalize_object, Value.object.injEq]
      constructor
      · intro heq
        refine .object (fun key => (hmembers key).mp ?_)
        rw [← get?_sorted hnodup, ← get?_sorted hnodup']
        exact congrArg (fun l => l.lookup key) heq
      · intro hsame
        cases hsame with
        | object hsame =>
          have hmap : OrdMap.ofList (fields.map (fun p => (p.1, canonicalize p.2)))
              = OrdMap.ofList (fields'.map (fun p => (p.1, canonicalize p.2))) := by
            refine OrdMap.ext_get? (fun key => ?_)
            rw [get?_sorted hnodup, get?_sorted hnodup']
            exact (hmembers key).mpr (hsame key)
          rw [hmap]
    | _ => exact iff_of_false (by simp [canonicalize]) nofun

/-! ## the texts -/

theorem safe_canonicalize {v : Value} (hv : v.Safe) (hd : v.All (fun _ => True) List.Nodup) :
    (canonicalize v).Safe := by
  induction v using Value.induction with
  | null | bool | number | string => exact hv
  | array items ih =>
    rw [canonicalize, canonicalizeItems_eq]
    refine Value.all_array.mpr (fun w hw => ?_)
    obtain ⟨v, hmem, rfl⟩ := List.mem_map.mp hw
    exact ih v hmem (Value.all_array.mp hv v hmem) (Value.all_array.mp hd v hmem)
  | object fields ih =>
    obtain ⟨hnodup, hfields⟩ := Value.all_object.mp hd
    rw [canonicalize_object]
    refine Value.all_object.mpr ⟨trivial, fun q hq => ?_⟩
    obtain ⟨p, hp, rfl⟩ := List.mem_map.mp ((sorted_perm hnodup).mem_iff.mp hq)
    exact ih p hp ((Value.all_object.mp hv).2 p hp) (hfields p hp)

theorem safe_canonicalizeJson {v : Value} (hv : v.Safe) : (canonicalizeJson v).Safe := by
  induction v using Value.induction with
  | null | bool | number | string => exact hv
  | array items ih =>
    rw [canonicalizeJson, canonicalizeElements_eq]
    refine Value.all_array.mpr (fun w hw => ?_)
    obtain ⟨v, hmem, rfl⟩ := List.mem_map.mp hw
    exact ih v hmem (Value.all_array.mp hv v hmem)
  | object fields ih =>
    rw [canonicalizeJson_object]
    refine Value.all_object.mpr ⟨trivial, fun q hq => ?_⟩
    have hmem := (List.mem_filter.mp ((rebuilt_perm _).mem_iff.mp hq)).1
    obtain ⟨p, hp, rfl⟩ := List.mem_map.mp hmem
    exact ih p hp ((Value.all_object.mp hv).2 p hp)

section
variable {rust js : Number → List Char}

theorem canonicalText_inj (d e : Document) :
    canonicalText rust d = canonicalText rust e ↔ Same d.value e.value := by
  unfold canonicalText
  rw [Value.chars_inj (safe_canonicalize d.safe d.distinct) (safe_canonicalize e.safe e.distinct)]
  exact canonicalize_inj d.distinct e.distinct

theorem chars_eq_of_safe {v : Value} (hv : v.Safe) : v.chars js = v.chars rust := by
  induction v using Value.induction with
  | null | string => rfl
  | bool b => cases b <;> rfl
  | number n =>
    obtain ⟨i, rfl, hi⟩ := Number.chars_of_isSafe js (show n.IsSafe from hv)
    obtain ⟨j, hj, hj'⟩ := Number.chars_of_isSafe rust (show (Number.int i).IsSafe from hv)
    cases hj
    exact hi.trans hj'.symm
  | array items ih =>
    have hitems := Value.all_array.mp hv
    have hrest : ∀ items' ⊆ items, Value.charsItems js items' = Value.charsItems rust items' := by
      intro items' hsub
      induction items' with
      | nil => rfl
      | cons v items' ihrest =>
        rw [Value.charsItems, Value.charsItems, ih v (hsub List.mem_cons_self)
          (hitems v (hsub List.mem_cons_self)),
          ihrest (fun w hw => hsub (List.mem_cons_of_mem _ hw))]
    cases items with
    | nil => rfl
    | cons v items =>
      rw [Value.chars, Value.chars, ih v List.mem_cons_self (hitems v List.mem_cons_self),
        hrest items (List.subset_cons_self v items)]
  | object fields ih =>
    have hfields := (Value.all_object.mp hv).2
    have hrest : ∀ fields' ⊆ fields, Value.charsFields js fields' = Value.charsFields rust fields' := by
      intro fields' hsub
      induction fields' with
      | nil => rfl
      | cons p fields' ihrest =>
        obtain ⟨key, v⟩ := p
        rw [Value.charsFields, Value.charsFields, ih (key, v) (hsub List.mem_cons_self)
          (hfields (key, v) (hsub List.mem_cons_self)),
          ihrest (fun w hw => hsub (List.mem_cons_of_mem _ hw))]
    cases fields with
    | nil => rfl
    | cons p fields =>
      obtain ⟨key, v⟩ := p
      rw [Value.chars, Value.chars, ih (key, v) List.mem_cons_self
        (hfields (key, v) List.mem_cons_self), hrest fields (List.subset_cons_self _ fields)]

theorem browserText_eq_iff (d : Document) : browserText js d = canonicalText rust d ↔ Aligned d := by
  have hjs := safe_canonicalizeJson d.safe
  unfold browserText canonicalText
  have htexts : (canonicalizeJson d.value).chars js = (canonicalizeJson d.value).chars rust :=
    chars_eq_of_safe hjs
  rw [htexts, Value.chars_inj hjs (safe_canonicalize d.safe d.distinct)]
  exact forms_agree_iff d.distinct

end

/-- **The digests of two documents agree across the languages exactly where their keys are
aligned**: no object of either has a member `__proto__`, or two keys of which code points put the
one first and the browser's objects the other. -/
theorem texts_agree_iff (rust js : Number → List Char) (d e : Document) :
    TextsAgree rust js d e ↔ Aligned d ∧ Aligned e := by
  constructor
  · intro h
    exact ⟨(browserText_eq_iff d).mp h.left, (browserText_eq_iff e).mp h.right⟩
  · rintro ⟨hd, he⟩
    have hleft : browserText js d = canonicalText rust d := (browserText_eq_iff d).mpr hd
    have hright : browserText js e = canonicalText rust e := (browserText_eq_iff e).mpr he
    refine ⟨hleft, hright, canonicalText_inj d e, ?_⟩
    rw [hleft, hright]
    exact canonicalText_inj d e

/-- a document of two ports, written as numbers -/
def ports : Document where
  value := .object [("10", .bool true), ("9", .bool true)]
  distinct := by simp [Value.All, Value.AllFields]
  safe := by simp [Value.All, Value.AllFields]

/-- **Two keys of digits**: the Portal puts `10` first, the browser `9`. -/
theorem ports_differ : ¬ TextsAgree (fun _ => []) (fun _ => []) ports ports := by
  intro h
  have hdiffer : browserText (fun _ => []) ports ≠ canonicalText (fun _ => []) ports := by
    decide +kernel
  exact hdiffer h.left

end Verdicts
end Portal
