import Portal.Plan.Diff

/-!
# What a diff tells apart (`plan.rs`: `diff`, read by an approver)

The lines of a diff say of each leaf what it was and what it becomes.  A container that loses all it
holds leaves the lines of what it held, whether it stays, empty, or goes.

* `PlainKeys`         a value whose keys hold neither `.` nor `[`;
* `Alike`             two values that differ only in containers the current value holds something in, and
                      that are empty in the one and absent in the other, or emptied further down;
* `diffAt_eq_iff`     the values with the same lines are the alike ones;
* `diff_identifies`   a diff identifies its outcome but for emptied containers.
-/

namespace Portal

/-! ## plain keys -/

def PlainKey (key : String) : Prop := '.' ∉ key.toList ∧ '[' ∉ key.toList

instance (key : String) : Decidable (PlainKey key) := inferInstanceAs (Decidable (_ ∧ _))

mutual

/-- no key of a value holds a `.` or a `[` -/
def Value.PlainKeys : Value → Prop
  | .array items => PlainItems items
  | .object fields => PlainFields fields
  | _ => True

def Value.PlainItems : List Value → Prop
  | [] => True
  | v :: items => v.PlainKeys ∧ PlainItems items

def Value.PlainFields : List (String × Value) → Prop
  | [] => True
  | (key, v) :: fields => PlainKey key ∧ v.PlainKeys ∧ PlainFields fields

end

def PlainOpt (v : Option Value) : Prop := ∀ w, v = some w → w.PlainKeys

theorem plainOpt_some {v : Value} (h : v.PlainKeys) : PlainOpt (some v) := fun w hw => by
  obtain rfl := Option.some.inj hw
  exact h

theorem plainFields_iff (fields : List (String × Value)) :
    Value.PlainFields fields ↔ ∀ p ∈ fields, PlainKey p.1 ∧ p.2.PlainKeys := by
  induction fields with
  | nil => simp [Value.PlainFields]
  | cons p fields ih =>
    obtain ⟨key, v⟩ := p
    rw [Value.PlainFields, ih, List.forall_mem_cons, and_assoc]

theorem plainItems_iff (items : List Value) :
    Value.PlainItems items ↔ ∀ v ∈ items, v.PlainKeys := by
  induction items with
  | nil => simp [Value.PlainItems]
  | cons v items ih => rw [Value.PlainItems, ih, List.forall_mem_cons]

/-- two values that differ only in containers the current value holds something in: empty in the one and
absent in the other, or alike further down -/
inductive Alike : Option Value → Option Value → Option Value → Prop
  | same (c d : Option Value) : Alike c d d
  | members {cs ds₁ ds₂ : List (String × Value)} {d₁ d₂ : Option Value} (hne : cs ≠ [])
      (h₁ : Compared (some (.object cs)) d₁ cs ds₁) (h₂ : Compared (some (.object cs)) d₂ cs ds₂)
      (h : ∀ key, Alike (cs.lookup key) (ds₁.lookup key) (ds₂.lookup key)) :
      Alike (some (.object cs)) d₁ d₂
  | items {cs ds₁ ds₂ : List Value} {d₁ d₂ : Option Value} (hne : cs ≠ [])
      (h₁ : ComparedItems (some (.array cs)) d₁ cs ds₁)
      (h₂ : ComparedItems (some (.array cs)) d₂ cs ds₂)
      (h : ∀ i : Nat, Alike cs[i]? ds₁[i]? ds₂[i]?) : Alike (some (.array cs)) d₁ d₂

/-! ## the lines of alike values -/

section
variable {ι : Type}

theorem flatMap_filter_of_nil {α : Type} (l : List ι) (keep : ι → Bool) (b : ι → List α)
    (h : ∀ k ∈ l, keep k = false → b k = []) : (l.filter keep).flatMap b = l.flatMap b := by
  induction l with
  | nil => rfl
  | cons k l ih =>
    have hrest := ih fun k' hk' => h k' (List.mem_cons_of_mem _ hk')
    cases hkeep : keep k with
    | true => rw [List.filter_cons_of_pos hkeep, List.flatMap_cons, List.flatMap_cons, hrest]
    | false =>
      rw [List.filter_cons_of_neg (by simp [hkeep]), List.flatMap_cons,
        h k List.mem_cons_self hkeep, List.nil_append, hrest]

theorem flatMap_keySet {α : Type} {l : List String} (l' : List String) (b : String → List α)
    (h : ∀ k, k ∉ l → b k = []) :
    (OrdMap.keySet l).flatMap b = (OrdMap.keySet (l ++ l')).flatMap b := by
  have hfilter : (OrdMap.keySet (l ++ l')).filter (fun k => k ∈ l) = OrdMap.keySet l :=
    ((OrdMap.keySet_sorted _).filter _).eq_of_mem_iff (OrdMap.keySet_sorted _) fun k => by
      rw [List.mem_filter, OrdMap.mem_keySet, OrdMap.mem_keySet, List.mem_append, decide_eq_true_eq]
      exact ⟨fun hk => hk.2, fun hk => ⟨.inl hk, hk⟩⟩
  rw [← hfilter]
  exact flatMap_filter_of_nil _ _ _ fun k _ hk => h k (by simpa using hk)

theorem flatMap_keySet_congr {α : Type} {l l' : List String} {b b' : String → List α}
    (h : ∀ k, k ∉ l → b k = []) (h' : ∀ k, k ∉ l' → b' k = []) (heq : ∀ k, b k = b' k) :
    (OrdMap.keySet l).flatMap b = (OrdMap.keySet l').flatMap b' := by
  have hb : b = b' := funext heq
  subst hb
  rw [flatMap_keySet l' b h, flatMap_keySet l b h']
  exact congrArg (List.flatMap b) (OrdMap.keySet_congr fun k => by
    rw [List.mem_append, List.mem_append, or_comm])

theorem flatMap_range_congr {α : Type} {n n' : Nat} {b b' : Nat → List α}
    (h : ∀ i, n ≤ i → b i = []) (h' : ∀ i, n' ≤ i → b' i = []) (heq : ∀ i, b i = b' i) :
    (List.range n).flatMap b = (List.range n').flatMap b' := by
  have hb : b = b' := funext heq
  subst hb
  have hlonger : ∀ m k : Nat, (∀ i, m ≤ i → b i = []) →
      (List.range (m + k)).flatMap b = (List.range m).flatMap b := by
    intro m k hm
    rw [List.range_add, List.flatMap_append, List.flatMap_map]
    have hnil : (List.range k).flatMap (fun i => b (m + i)) = [] := by
      rw [List.flatMap_eq_nil_iff]
      exact fun i _ => hm _ (Nat.le_add_right m i)
    rw [hnil, List.append_nil]
  rcases Nat.le_total n n' with hle | hle
  · obtain ⟨k, rfl⟩ := Nat.exists_eq_add_of_le hle
    exact (hlonger n k h).symm
  · obtain ⟨k, rfl⟩ := Nat.exists_eq_add_of_le hle
    exact hlonger n' k h'

end

section
variable {c d d₁ d₂ : Option Value} {path : String}

theorem block_nil {cs ds : List (String × Value)} {key : String}
    (h : key ∉ cs.map Prod.fst ++ ds.map Prod.fst) :
    diffAt (memberPath path key) (cs.lookup key) (ds.lookup key) = [] := by
  have hkey : key ∉ unionKeys cs ds := fun hmem => h ((OrdMap.mem_keySet _ _).mp hmem)
  obtain ⟨hnone, hnone'⟩ := lookup_none_of_not_mem_unionKeys hkey
  rw [hnone, hnone', diffAt_self]

theorem block_nil_item {cs ds : List Value} {i : Nat} (h : max cs.length ds.length ≤ i) :
    diffAt (itemPath path i) cs[i]? ds[i]? = [] := by
  rw [List.getElem?_eq_none (by omega), List.getElem?_eq_none (by omega), diffAt_self]

theorem diffAt_of_alike (h : Alike c d₁ d₂) (hc : OrderedOpt c) (h₁ : OrderedOpt d₁)
    (h₂ : OrderedOpt d₂) : diffAt path c d₁ = diffAt path c d₂ := by
  induction h generalizing path with
  | same c d => rfl
  | members hne hcompared hcompared' _ ih =>
    obtain ⟨⟨-, hcs⟩, -, hds⟩ := hcompared.ordered hc h₁
    obtain ⟨-, -, hds'⟩ := hcompared'.ordered hc h₂
    rw [diffAt_members hcompared hc h₁, diffAt_members hcompared' hc h₂]
    exact flatMap_keySet_congr (fun key => block_nil) (fun key => block_nil) fun key =>
      ih key (hcs key) (hds key) (hds' key)
  | items hne hcompared hcompared' _ ih =>
    rw [diffAt_items hcompared, diffAt_items hcompared']
    exact flatMap_range_congr (fun i => block_nil_item) (fun i => block_nil_item) fun i =>
      ih i (hcompared.ordered hc h₁ i).1 (hcompared.ordered hc h₁ i).2 (hcompared'.ordered hc h₂ i).2

end

/-! ## one path, one member -/

theorem cut_stop {α : Type} {stop : α → Bool} {l l' r r' : List α} (hl : ∀ a ∈ l, stop a = false)
    (hl' : ∀ a ∈ l', stop a = false) (hr : ∀ a ∈ r.head?, stop a) (hr' : ∀ a ∈ r'.head?, stop a)
    (h : l ++ r = l' ++ r') : l = l' := by
  have htake : ∀ {l r : List α}, (∀ a ∈ l, stop a = false) → (∀ a ∈ r.head?, stop a) →
      (l ++ r).takeWhile (fun a => !stop a) = l := by
    intro l r hl hr
    rw [List.takeWhile_append_of_pos fun a ha => by rw [hl a ha]; rfl]
    cases r with
    | nil => simp
    | cons a r => simp [hr a rfl]
  rw [← htake hl hr, h, htake hl' hr']

theorem under_iff {path p : String} :
    Under path p → ∃ r, p.toList = path.toList ++ r ∧ ∀ a ∈ r.head?, a = '.' ∨ a = '[' := by
  rintro (rfl | ⟨rest, rfl | rfl⟩)
  · exact ⟨[], (List.append_nil _).symm, fun a ha => by cases ha⟩
  · refine ⟨'.' :: rest.toList, by simp [String.toList_append], fun a ha => ?_⟩
    exact .inl (Option.some.inj ha).symm
  · refine ⟨'[' :: rest.toList, by simp [String.toList_append], fun a ha => ?_⟩
    exact .inr (Option.some.inj ha).symm

/-- **A path is under one member** of plain keys. -/
theorem member_eq_of_under {path p key key' : String} (hkey : PlainKey key) (hkey' : PlainKey key')
    (h : Under (memberPath path key) p) (h' : Under (memberPath path key') p) : key = key' := by
  obtain ⟨r, hr, hstop⟩ := under_iff h
  obtain ⟨r', hr', hstop'⟩ := under_iff h'
  have hstops : ∀ {key : String}, PlainKey key →
      ∀ a ∈ key.toList, (a == '.' || a == '[') = false := by
    intro key hkey a ha
    have hdot : a ≠ '.' := fun e => hkey.1 (e ▸ ha)
    have hbracket : a ≠ '[' := fun e => hkey.2 (e ▸ ha)
    simp [hdot, hbracket]
  have heq := hr.symm.trans hr'
  simp only [memberPath, String.toList_append, List.append_assoc] at heq
  have htail := List.append_cancel_left (List.append_cancel_left heq)
  refine String.toList_injective (cut_stop (hstops hkey) (hstops hkey') ?_ ?_ htail)
  · intro a ha
    rcases hstop a ha with rfl | rfl <;> rfl
  · intro a ha
    rcases hstop' a ha with rfl | rfl <;> rfl

theorem item_eq_of_under {path p : String} {i j : Nat} (h : Under (itemPath path i) p)
    (h' : Under (itemPath path j) p) : i = j := by
  obtain ⟨r, hr, -⟩ := under_iff h
  obtain ⟨r', hr', -⟩ := under_iff h'
  have hdigits : ∀ n : Nat, ']' ∉ (toString n).toList := by
    intro n hmem
    have hrepr : (toString n).toList = Nat.toDigits 10 n := Nat.toList_repr
    rw [hrepr] at hmem
    exact absurd (Nat.isDigit_of_mem_toDigits (by decide) (by decide) hmem) (by decide)
  have heq := hr.symm.trans hr'
  simp only [itemPath, String.toList_append, List.append_assoc] at heq
  have htail := List.append_cancel_left (List.append_cancel_left heq)
  have htext := (Text.cut_first (hdigits i) (hdigits j) htail).1
  exact natRepr_inj (String.toList_injective htext)

/-! ## the blocks of a list of lines -/

theorem filter_block {ι α : Type} {l : List ι} {b : ι → List α} {keep : α → Bool} {k : ι}
    (hnodup : l.Nodup) (hk : ∀ a ∈ b k, keep a) (hothers : ∀ k' ∈ l, k' ≠ k → ∀ a ∈ b k', keep a = false)
    (hnil : k ∉ l → b k = []) : (l.flatMap b).filter keep = b k := by
  induction l with
  | nil => exact (hnil List.not_mem_nil).symm
  | cons k' l ih =>
    obtain ⟨hnew, hnodup⟩ := List.nodup_cons.mp hnodup
    rw [List.flatMap_cons, List.filter_append]
    by_cases heq : k' = k
    · subst heq
      have hrest : (l.flatMap b).filter keep = [] := by
        rw [List.filter_eq_nil_iff]
        intro a ha
        obtain ⟨k₁, hk₁, ha⟩ := List.mem_flatMap.mp ha
        have hne : k₁ ≠ k' := fun e => hnew (e ▸ hk₁)
        simp [hothers k₁ (List.mem_cons_of_mem _ hk₁) hne a ha]
      rw [hrest, List.append_nil, List.filter_eq_self]
      exact hk
    · have hfirst : (b k').filter keep = [] := by
        rw [List.filter_eq_nil_iff]
        intro a ha
        simp [hothers k' List.mem_cons_self heq a ha]
      rw [hfirst, List.nil_append]
      refine ih hnodup (fun k₁ hk₁ => hothers k₁ (List.mem_cons_of_mem _ hk₁)) fun hmem => ?_
      exact hnil fun hmem' => (List.mem_cons.mp hmem').elim (fun e => heq e.symm) hmem

section
variable {c d d₁ d₂ : Option Value} {path : String}

theorem Compared.plain {cs ds : List (String × Value)} (h : Compared c d cs ds) (hc : PlainOpt c)
    (hd : PlainOpt d) : Value.PlainFields cs ∧ Value.PlainFields ds := by
  cases h with
  | both => exact ⟨hc _ rfl, hd _ rfl⟩
  | removed => exact ⟨hc _ rfl, trivial⟩
  | added => exact ⟨trivial, hd _ rfl⟩

theorem ComparedItems.plain {cs ds : List Value} (h : ComparedItems c d cs ds) (hc : PlainOpt c)
    (hd : PlainOpt d) : Value.PlainItems cs ∧ Value.PlainItems ds := by
  cases h with
  | both => exact ⟨hc _ rfl, hd _ rfl⟩
  | removed => exact ⟨hc _ rfl, trivial⟩
  | added => exact ⟨trivial, hd _ rfl⟩

theorem plain_lookup {fields : List (String × Value)} (h : Value.PlainFields fields) {key : String}
    {v : Value} (hv : fields.lookup key = some v) : PlainKey key ∧ v.PlainKeys := by
  obtain ⟨l, l', rfl, -⟩ := List.lookup_eq_some_iff.mp hv
  exact (plainFields_iff _).mp h (key, v) (by simp)

theorem plainOpt_lookup {fields : List (String × Value)} (h : Value.PlainFields fields)
    (key : String) : PlainOpt (fields.lookup key) :=
  fun _ hv => (plain_lookup h hv).2

theorem plainOpt_item {items : List Value} (h : Value.PlainItems items) (i : Nat) :
    PlainOpt items[i]? :=
  fun v hv => (plainItems_iff items).mp h v (List.mem_of_getElem? hv)

theorem plainKey_of_mem {cs ds : List (String × Value)} (hcs : Value.PlainFields cs)
    (hds : Value.PlainFields ds) {key : String} (h : key ∈ unionKeys cs ds) : PlainKey key := by
  rcases (mem_unionKeys cs ds key).mp h with h | h
  · obtain ⟨p, hp, rfl⟩ := List.mem_map.mp h
    exact ((plainFields_iff cs).mp hcs p hp).1
  · obtain ⟨p, hp, rfl⟩ := List.mem_map.mp h
    exact ((plainFields_iff ds).mp hds p hp).1

theorem member_lines {cs ds : List (String × Value)} (h : Compared c d cs ds) (hc : OrderedOpt c)
    (hd : OrderedOpt d) (hpc : PlainOpt c) (hpd : PlainOpt d) {key : String} (hkey : PlainKey key)
    {keep : FieldChange → Bool}
    (hkeep : ∀ line, keep line = true ↔ Under (memberPath path key) line.path) :
    (diffAt path c d).filter keep = diffAt (memberPath path key) (cs.lookup key) (ds.lookup key) := by
  obtain ⟨⟨-, hcs⟩, -, hds⟩ := h.ordered hc hd
  obtain ⟨hpcs, hpds⟩ := h.plain hpc hpd
  rw [diffAt_members h hc hd]
  refine filter_block (unionKeys_nodup cs ds) (fun line hline => ?_) (fun key' hkey' hne line hline => ?_)
    (fun hmem => ?_)
  · rw [hkeep]
    exact under_of_mem (hcs key) (hds key) (.inl (nested_member path key)) hline
  · rw [← Bool.not_eq_true, hkeep]
    intro hunder
    have hunder' := under_of_mem (hcs key') (hds key') (.inl (nested_member path key')) hline
    exact hne (member_eq_of_under (plainKey_of_mem hpcs hpds hkey') hkey hunder' hunder)
  · obtain ⟨hnone, hnone'⟩ := lookup_none_of_not_mem_unionKeys hmem
    rw [hnone, hnone', diffAt_self]

theorem item_lines {cs ds : List Value} (h : ComparedItems c d cs ds) (hc : OrderedOpt c)
    (hd : OrderedOpt d) {i : Nat} {keep : FieldChange → Bool}
    (hkeep : ∀ line, keep line = true ↔ Under (itemPath path i) line.path) :
    (diffAt path c d).filter keep = diffAt (itemPath path i) cs[i]? ds[i]? := by
  rw [diffAt_items h]
  refine filter_block List.nodup_range (fun line hline => ?_) (fun j _ hne line hline => ?_)
    (fun hmem => ?_)
  · rw [hkeep]
    exact under_of_mem (h.ordered hc hd i).1 (h.ordered hc hd i).2 (.inl (nested_item path i)) hline
  · rw [← Bool.not_eq_true, hkeep]
    intro hunder
    have hunder' := under_of_mem (h.ordered hc hd j).1 (h.ordered hc hd j).2
      (.inl (nested_item path j)) hline
    exact hne (item_eq_of_under hunder' hunder)
  · exact block_nil_item (by simpa using hmem)

theorem exists_member {cs ds : List (String × Value)} (h : Compared c d cs ds) (hc : OrderedOpt c)
    (hd : OrderedOpt d) {line : FieldChange} (hline : line ∈ diffAt path c d) :
    ∃ key, Under (memberPath path key) line.path := by
  obtain ⟨⟨-, hcs⟩, -, hds⟩ := h.ordered hc hd
  rw [diffAt_members h hc hd, List.mem_flatMap] at hline
  obtain ⟨key, -, hline⟩ := hline
  exact ⟨key, under_of_mem (hcs key) (hds key) (.inl (nested_member path key)) hline⟩

theorem exists_item {cs ds : List Value} (h : ComparedItems c d cs ds) (hc : OrderedOpt c)
    (hd : OrderedOpt d) {line : FieldChange} (hline : line ∈ diffAt path c d) :
    ∃ i, Under (itemPath path i) line.path := by
  rw [diffAt_items h, List.mem_flatMap] at hline
  obtain ⟨i, -, hline⟩ := hline
  exact ⟨i, under_of_mem (h.ordered hc hd i).1 (h.ordered hc hd i).2 (.inl (nested_item path i)) hline⟩

theorem not_item_of_member {p key : String} {i : Nat} (h : Under (memberPath path key) p) :
    ¬ Under (itemPath path i) p := by
  intro h'
  obtain ⟨r, hr, -⟩ := under_iff h
  obtain ⟨r', hr', -⟩ := under_iff h'
  have heq := hr.symm.trans hr'
  simp only [memberPath, itemPath, String.toList_append, List.append_assoc] at heq
  exact absurd (List.cons.inj (List.append_cancel_left heq)).1 (by decide)

theorem alike_none (h : Alike none d₁ d₂) : d₁ = d₂ := by
  cases h
  rfl

theorem alike_members {cs cs' ds₁ ds₂ : List (String × Value)} (h₁ : Compared c d₁ cs ds₁)
    (h₂ : Compared c d₂ cs' ds₂) (ho₁ : OrderedOpt d₁) (ho₂ : OrderedOpt d₂)
    (h : ∀ key, Alike (cs.lookup key) (ds₁.lookup key) (ds₂.lookup key)) : Alike c d₁ d₂ := by
  have hsame : ∀ {ds₁ ds₂ : List (String × Value)}, OrderedOpt (some (.object ds₁)) →
      OrderedOpt (some (.object ds₂)) →
      (∀ key, Alike none (ds₁.lookup key) (ds₂.lookup key)) →
      Alike c (some (.object ds₁)) (some (.object ds₂)) := by
    intro ds₁ ds₂ ho₁ ho₂ hmembers
    rw [object_ext (ho₁ _ rfl).1 (ho₂ _ rfl).1 fun key => alike_none (hmembers key)]
    exact .same _ _
  cases h₁ with
  | added hne =>
    cases h₂ with
    | added hne' => exact hsame ho₁ ho₂ h
  | removed hne =>
    cases h₂ with
    | both => exact .members hne (.removed hne) (.both _ _) h
    | removed _ => exact .same _ _
  | both =>
    cases h₂ with
    | both =>
      by_cases hne : cs = []
      · subst hne
        exact hsame ho₁ ho₂ h
      · exact .members hne (.both _ _) (.both _ _) h
    | removed hne => exact .members hne (.both _ _) (.removed hne) h

theorem alike_items {cs cs' ds₁ ds₂ : List Value} (h₁ : ComparedItems c d₁ cs ds₁)
    (h₂ : ComparedItems c d₂ cs' ds₂) (h : ∀ i : Nat, Alike cs[i]? ds₁[i]? ds₂[i]?) :
    Alike c d₁ d₂ := by
  have hsame : ∀ {ds₁ ds₂ : List Value}, (∀ i : Nat, Alike none ds₁[i]? ds₂[i]?) →
      Alike c (some (.array ds₁)) (some (.array ds₂)) := by
    intro ds₁ ds₂ hitems
    rw [List.ext_getElem? fun i => alike_none (hitems i)]
    exact .same _ _
  cases h₁ with
  | added hne =>
    cases h₂ with
    | added hne' => exact hsame h
  | removed hne =>
    cases h₂ with
    | both => exact .items hne (.removed hne) (.both _ _) h
    | removed _ => exact .same _ _
  | both =>
    cases h₂ with
    | both =>
      by_cases hne : cs = []
      · subst hne
        exact hsame h
      · exact .items hne (.both _ _) (.both _ _) h
    | removed hne => exact .items hne (.both _ _) (.removed hne) h

theorem Compared.fields_eq {cs cs' ds₁ ds₂ : List (String × Value)} (h₁ : Compared c d₁ cs ds₁)
    (h₂ : Compared c d₂ cs' ds₂) : cs' = cs := by
  cases h₁ <;> cases h₂ <;> rfl

theorem ComparedItems.items_eq {cs cs' ds₁ ds₂ : List Value} (h₁ : ComparedItems c d₁ cs ds₁)
    (h₂ : ComparedItems c d₂ cs' ds₂) : cs' = cs := by
  cases h₁ <;> cases h₂ <;> rfl

theorem alike_of_diffAt (hc : OrderedOpt c) (h₁ : OrderedOpt d₁) (h₂ : OrderedOpt d₂)
    (hpc : PlainOpt c) (hp₁ : PlainOpt d₁) (hp₂ : PlainOpt d₂) (hr₁ : Rooted path c d₁)
    (hr₂ : Rooted path c d₂) (h : diffAt path c d₁ = diffAt path c d₂) : Alike c d₁ d₂ := by
  classical
  induction c, d₁ using diff_induction generalizing path d₂ with
  | same c =>
    rw [diffAt_self, eq_comm, diffAt_eq_nil hc h₂ hr₂] at h
    rw [h]
    exact .same _ _
  | whole c d₁ hne hwhole =>
    rw [diffAt_whole hne hwhole hr₁] at h
    have hline : (⟨path, c, d₁⟩ : FieldChange) ∈ diffAt path c d₂ := by
      rw [← h]
      exact List.mem_singleton_self _
    by_cases hmembers : ∃ cs ds, Compared c d₂ cs ds
    · obtain ⟨cs, ds, hcompared⟩ := hmembers
      obtain ⟨key, hunder⟩ := exists_member hcompared hc h₂ hline
      exact absurd rfl (below_of_member hunder).ne
    · by_cases hitems : ∃ cs ds, ComparedItems c d₂ cs ds
      · obtain ⟨cs, ds, hcompared⟩ := hitems
        obtain ⟨i, hunder⟩ := exists_item hcompared hc h₂ hline
        exact absurd rfl (below_of_item hunder).ne
      · have hdiffer : c ≠ d₂ := by
          rintro rfl
          rw [diffAt_self] at hline
          cases hline
        rw [diffAt_whole hdiffer ⟨fun cs ds h => hmembers ⟨cs, ds, h⟩,
          fun cs ds h => hitems ⟨cs, ds, h⟩⟩ hr₂] at h
        rw [(FieldChange.mk.inj (List.cons.inj h).1).2.2]
        exact .same _ _
  | members c d₁ cs ds₁ hne hcompared ih =>
    obtain ⟨line, hline⟩ := List.exists_mem_of_ne_nil _ fun hnil =>
      hne ((diffAt_eq_nil hc h₁ hr₁).mp hnil)
    obtain ⟨key₀, hunder₀⟩ := exists_member hcompared hc h₁ hline
    rw [h] at hline
    by_cases hmembers : ∃ cs' ds, Compared c d₂ cs' ds
    · obtain ⟨cs', ds₂, hcompared'⟩ := hmembers
      obtain rfl := hcompared.fields_eq hcompared'
      obtain ⟨⟨-, hcs⟩, -, hds₁⟩ := hcompared.ordered hc h₁
      obtain ⟨-, -, hds₂⟩ := hcompared'.ordered hc h₂
      obtain ⟨hpcs, hpds₁⟩ := hcompared.plain hpc hp₁
      obtain ⟨-, hpds₂⟩ := hcompared'.plain hpc hp₂
      refine alike_members hcompared hcompared' h₁ h₂ fun key => ?_
      by_cases hkey : PlainKey key
      · -- the lines of the member are the same
        have hkeep : ∀ line : FieldChange, decide (Under (memberPath path key) line.path) = true ↔
            Under (memberPath path key) line.path := fun line => decide_eq_true_iff
        have hblock := congrArg (List.filter fun line : FieldChange =>
          decide (Under (memberPath path key) line.path)) h
        rw [member_lines hcompared hc h₁ hpc hp₁ hkey hkeep,
          member_lines hcompared' hc h₂ hpc hp₂ hkey hkeep] at hblock
        exact ih key (hcs key) (hds₁ key) (hds₂ key) (plainOpt_lookup hpcs key)
          (plainOpt_lookup hpds₁ key) (plainOpt_lookup hpds₂ key) (.inl (nested_member path key))
          (.inl (nested_member path key)) hblock
      · -- no value has such a key
        have hnone : ∀ {fields : List (String × Value)}, Value.PlainFields fields →
            fields.lookup key = none := by
          intro fields hplain
          rw [Option.eq_none_iff_forall_ne_some]
          exact fun v hv => hkey (plain_lookup hplain hv).1
        rw [hnone hpds₁, hnone hpds₂]
        exact .same _ _
    · exfalso
      by_cases hitems : ∃ cs ds, ComparedItems c d₂ cs ds
      · obtain ⟨cs', ds', hcompared'⟩ := hitems
        obtain ⟨i, hunder⟩ := exists_item hcompared' hc h₂ hline
        exact not_item_of_member hunder₀ hunder
      · have hdiffer : c ≠ d₂ := by
          rintro rfl
          rw [diffAt_self] at hline
          cases hline
        rw [diffAt_whole hdiffer ⟨fun cs ds h => hmembers ⟨cs, ds, h⟩,
          fun cs ds h => hitems ⟨cs, ds, h⟩⟩ hr₂, List.mem_singleton] at hline
        rw [hline] at hunder₀
        exact (below_of_member hunder₀).ne rfl
  | items c d₁ cs ds₁ hne hcompared ih =>
    obtain ⟨line, hline⟩ := List.exists_mem_of_ne_nil _ fun hnil =>
      hne ((diffAt_eq_nil hc h₁ hr₁).mp hnil)
    obtain ⟨i₀, hunder₀⟩ := exists_item hcompared hc h₁ hline
    rw [h] at hline
    by_cases hitems : ∃ cs' ds, ComparedItems c d₂ cs' ds
    · obtain ⟨cs', ds₂, hcompared'⟩ := hitems
      obtain rfl := hcompared.items_eq hcompared'
      obtain ⟨hpcs, hpds₁⟩ := hcompared.plain hpc hp₁
      obtain ⟨-, hpds₂⟩ := hcompared'.plain hpc hp₂
      refine alike_items hcompared hcompared' fun i => ?_
      have hkeep : ∀ line : FieldChange, decide (Under (itemPath path i) line.path) = true ↔
          Under (itemPath path i) line.path := fun line => decide_eq_true_iff
      have hblock := congrArg (List.filter fun line : FieldChange =>
        decide (Under (itemPath path i) line.path)) h
      rw [item_lines hcompared hc h₁ hkeep, item_lines hcompared' hc h₂ hkeep] at hblock
      obtain ⟨hcs, hds₁⟩ := hcompared.ordered hc h₁ i
      obtain ⟨-, hds₂⟩ := hcompared'.ordered hc h₂ i
      exact ih i hcs hds₁ hds₂ (plainOpt_item hpcs i) (plainOpt_item hpds₁ i)
        (plainOpt_item hpds₂ i) (.inl (nested_item path i)) (.inl (nested_item path i)) hblock
    · exfalso
      by_cases hmembers : ∃ cs ds, Compared c d₂ cs ds
      · obtain ⟨cs', ds', hcompared'⟩ := hmembers
        obtain ⟨key, hunder⟩ := exists_member hcompared' hc h₂ hline
        exact not_item_of_member hunder hunder₀
      · have hdiffer : c ≠ d₂ := by
          rintro rfl
          rw [diffAt_self] at hline
          cases hline
        rw [diffAt_whole hdiffer ⟨fun cs ds h => hmembers ⟨cs, ds, h⟩,
          fun cs ds h => hitems ⟨cs, ds, h⟩⟩ hr₂, List.mem_singleton] at hline
        rw [hline] at hunder₀
        exact (below_of_item hunder₀).ne rfl

/-- **The values with the same lines are the alike ones.** -/
theorem diffAt_eq_iff (hc : OrderedOpt c) (h₁ : OrderedOpt d₁) (h₂ : OrderedOpt d₂)
    (hpc : PlainOpt c) (hp₁ : PlainOpt d₁) (hp₂ : PlainOpt d₂) (hr₁ : Rooted path c d₁)
    (hr₂ : Rooted path c d₂) : diffAt path c d₁ = diffAt path c d₂ ↔ Alike c d₁ d₂ :=
  ⟨alike_of_diffAt hc h₁ h₂ hpc hp₁ hp₂ hr₁ hr₂, fun h => diffAt_of_alike h hc h₁ h₂⟩

end

/-! ## whole manifests -/

section
variable {M : Type} (json : M → Value)

/-- two desired manifests that differ, and only in containers the current one holds something in -/
def DifferInEmptied (c d₁ d₂ : ResourceEnvelope M) : Prop :=
  Alike (some (json c.metadata)) (some (json d₁.metadata)) (some (json d₂.metadata)) ∧
    Alike (some c.spec) (some d₁.spec) (some d₂.spec) ∧
    ¬ (json d₁.metadata = json d₂.metadata ∧ d₁.spec = d₂.spec)

structure PlainEnvelope (env : ResourceEnvelope M) : Prop where
  ordered : env.spec.Ordered
  metadata : (json env.metadata).PlainKeys
  spec : env.spec.PlainKeys

variable {json}

theorem not_under_both {p : String} (h : Under "metadata" p) : ¬ Under "spec" p := by
  intro h'
  obtain ⟨r, hr, -⟩ := under_iff h
  obtain ⟨r', hr', -⟩ := under_iff h'
  have heq := hr.symm.trans hr'
  exact absurd (List.cons.inj heq).1 (by decide)

/-- the lines of two manifests are the same where those of their metadata are, and of their specs -/
theorem fields_eq_iff (hjson : ∀ m, (json m).Ordered) {c d₁ d₂ : ResourceEnvelope M}
    (hc : c.spec.Ordered) (h₁ : d₁.spec.Ordered) (h₂ : d₂.spec.Ordered) :
    (diff json (some c) (some d₁)).fields = (diff json (some c) (some d₂)).fields ↔
      diffAt "metadata" (some (json c.metadata)) (some (json d₁.metadata))
          = diffAt "metadata" (some (json c.metadata)) (some (json d₂.metadata)) ∧
        diffAt "spec" (some c.spec) (some d₁.spec) = diffAt "spec" (some c.spec) (some d₂.spec) := by
  classical
  rw [fields_diff, fields_diff]
  constructor
  · intro h
    have hmeta : ∀ d : ResourceEnvelope M, d.spec.Ordered →
        (diffAt "metadata" (some (json c.metadata)) (some (json d.metadata))
          ++ diffAt "spec" (some c.spec) (some d.spec)).filter
            (fun line => decide (Under "metadata" line.path))
          = diffAt "metadata" (some (json c.metadata)) (some (json d.metadata)) := by
      intro d hd
      have hfirst : ∀ line ∈ diffAt "metadata" (some (json c.metadata)) (some (json d.metadata)),
          decide (Under "metadata" line.path) = true := fun line hline =>
        decide_eq_true (under_of_mem (orderedOpt_some (hjson _)) (orderedOpt_some (hjson _))
          (.inr ⟨rfl, rfl⟩) hline)
      have hlast : ∀ line ∈ diffAt "spec" (some c.spec) (some d.spec),
          ¬ decide (Under "metadata" line.path) = true := fun line hline hunder =>
        not_under_both (of_decide_eq_true hunder)
          (under_of_mem (orderedOpt_some hc) (orderedOpt_some hd) (.inr ⟨rfl, rfl⟩) hline)
      rw [List.filter_append, List.filter_eq_self.mpr hfirst, List.filter_eq_nil_iff.mpr hlast,
        List.append_nil]
    have hsame := congrArg (List.filter fun line => decide (Under "metadata" line.path)) h
    rw [hmeta d₁ h₁, hmeta d₂ h₂] at hsame
    rw [hsame] at h
    exact ⟨hsame, List.append_cancel_left h⟩
  · rintro ⟨hmeta, hspec⟩
    rw [hmeta, hspec]

/-- **A diff identifies its outcome, but for emptied containers.** -/
theorem diff_identifies (hinj : Function.Injective json) (hjson : ∀ m, (json m).Ordered)
    {c d₁ d₂ : ResourceEnvelope M} (hc : PlainEnvelope json c) (h₁ : PlainEnvelope json d₁)
    (h₂ : PlainEnvelope json d₂) :
    ((diff json (some c) (some d₁)).fields = (diff json (some c) (some d₂)).fields →
        d₁.metadata = d₂.metadata ∧ d₁.spec = d₂.spec) ↔
      ¬ DifferInEmptied json c d₁ d₂ := by
  have halike : (diff json (some c) (some d₁)).fields = (diff json (some c) (some d₂)).fields ↔
      Alike (some (json c.metadata)) (some (json d₁.metadata)) (some (json d₂.metadata)) ∧
        Alike (some c.spec) (some d₁.spec) (some d₂.spec) := by
    rw [fields_eq_iff hjson hc.ordered h₁.ordered h₂.ordered]
    refine and_congr ?_ ?_
    · exact diffAt_eq_iff (orderedOpt_some (hjson _)) (orderedOpt_some (hjson _))
        (orderedOpt_some (hjson _)) (plainOpt_some hc.metadata) (plainOpt_some h₁.metadata)
        (plainOpt_some h₂.metadata) (.inr ⟨rfl, rfl⟩) (.inr ⟨rfl, rfl⟩)
    · exact diffAt_eq_iff (orderedOpt_some hc.ordered) (orderedOpt_some h₁.ordered)
        (orderedOpt_some h₂.ordered) (plainOpt_some hc.spec) (plainOpt_some h₁.spec)
        (plainOpt_some h₂.spec) (.inr ⟨rfl, rfl⟩) (.inr ⟨rfl, rfl⟩)
  rw [halike, DifferInEmptied, hinj.eq_iff]
  tauto

end

/-! ### an endpoint's `limits` -/

/-- an endpoint with some limits, or none -/
def endpointWith (spec : List (String × Value)) : ResourceEnvelope { v : Value // v.Ordered } :=
  ⟨"Endpoint", plainMeta, .object spec⟩

theorem plainEnvelope_limits {v : Value} (ho : v.Ordered) (hp : v.PlainKeys) :
    PlainEnvelope Subtype.val (endpointWith [("limits", v)]) where
  ordered := ⟨List.pairwise_singleton _ _, ho, trivial⟩
  metadata := ⟨by decide, trivial, trivial⟩
  spec := ⟨by decide, hp, trivial⟩

/-- what a limit per minute is set to can be read off the diff -/
theorem diff_identifies_limit :
    (diff Subtype.val (some (endpointWith [("limits", .number (.int 1))]))
        (some (endpointWith [("limits", .number (.int 2))]))).fields
      ≠ (diff Subtype.val (some (endpointWith [("limits", .number (.int 1))]))
        (some (endpointWith [("limits", .number (.int 3))]))).fields := by
  intro h
  have hsame := (diff_identifies Subtype.val_injective
    (fun m : { v : Value // v.Ordered } => m.2)
    (plainEnvelope_limits (v := .number (.int 1)) trivial trivial)
    (plainEnvelope_limits (v := .number (.int 2)) trivial trivial)
    (plainEnvelope_limits (v := .number (.int 3)) trivial trivial)).mpr ?_ h
  · exact absurd hsame.2 (by decide)
  · rintro ⟨-, halike, -⟩
    cases halike with
    | members hne hcompared hcompared' hmembers =>
      cases hcompared
      cases hcompared'
      have hlimits := hmembers "limits"
      simp only [List.lookup_cons, beq_self_eq_true] at hlimits
      cases hlimits

/-- **Emptied limits and no limits have one diff.** -/
theorem emptied_or_removed :
    ¬ ∀ c d₁ d₂ : ResourceEnvelope { v : Value // v.Ordered },
      PlainEnvelope Subtype.val c → PlainEnvelope Subtype.val d₁ → PlainEnvelope Subtype.val d₂ →
      (diff Subtype.val (some c) (some d₁)).fields = (diff Subtype.val (some c) (some d₂)).fields →
      d₁.metadata = d₂.metadata ∧ d₁.spec = d₂.spec := by
  intro hall
  have hlimits : PlainEnvelope Subtype.val
      (endpointWith [("limits", .object [("perMinute", .number (.int 60))])]) :=
    plainEnvelope_limits ⟨List.pairwise_singleton _ _, trivial, trivial⟩ ⟨by decide, trivial, trivial⟩
  have hemptied : PlainEnvelope Subtype.val (endpointWith [("limits", .object [])]) :=
    plainEnvelope_limits ⟨.nil, trivial⟩ trivial
  have hremoved : PlainEnvelope Subtype.val (endpointWith []) :=
    ⟨⟨.nil, trivial⟩, ⟨by decide, trivial, trivial⟩, trivial⟩
  have hsame := hall _ _ _ hlimits hemptied hremoved (by decide +kernel)
  exact absurd hsame.2 (by decide)

end Portal
