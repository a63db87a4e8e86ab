import Portal.Plan.Merge
import Portal.Base.Text

/-!
# The diff of two manifests (`plan.rs`: `diff`, `diff_values`, `collect_leaves`, `restarts_stream`)

A diff lists the leaves that changed, each under its printed path, with the old value and the new one.  A
side that is missing gives all leaves of the other; an empty container is a leaf, except the whole of
`metadata` or `spec`.

* `diffAt`                 the lines of two values under a path, either of which may be absent;
* `diffAt_eq_nil`          no line where the two are equal, and only there;
* `Under`, `Below`         the lines of a value are under its path; and where some are not at it;
* `restartsStream_iff`     what restarts a pipeline's stream.
-/

namespace Portal

structure FieldChange where
  path : String
  fromValue : Option Value
  toValue : Option Value
deriving DecidableEq

structure PlanSummary where
  create : Nat
  update : Nat
  delete : Nat
deriving DecidableEq

structure PlanDiff where
  summary : PlanSummary
  fields : List FieldChange
deriving DecidableEq

/-- a manifest; its metadata is of a type with a JSON form -/
structure ResourceEnvelope (M : Type) where
  kind : String
  metadata : M
  spec : Value

/-! ## leaves -/

def memberPath (path key : String) : String := path ++ "." ++ key

def itemPath (path : String) (i : Nat) : String := path ++ "[" ++ toString i ++ "]"

mutual

def collectLeaves (path : String) : Value → List (String × Value)
  | .object [] => if path ≠ "metadata" ∧ path ≠ "spec" then [(path, .object [])] else []
  | .object (p :: fields) => memberLeaves path (p :: fields)
  | .array [] => [(path, .array [])]
  | .array (v :: items) => itemLeaves path 0 (v :: items)
  | v => [(path, v)]

def memberLeaves (path : String) : List (String × Value) → List (String × Value)
  | [] => []
  | (key, v) :: fields => collectLeaves (memberPath path key) v ++ memberLeaves path fields

def itemLeaves (path : String) (i : Nat) : List Value → List (String × Value)
  | [] => []
  | v :: items => collectLeaves (itemPath path i) v ++ itemLeaves path (i + 1) items

end

/-! ## the diff -/

/-- the lines of two values; of a side that is absent, the leaves of the other -/
def diffAt (path : String) (curr des : Option Value) : List FieldChange :=
  match curr, des with
  | none, none => []
  | some c, none => (collectLeaves path c).map fun leaf => ⟨leaf.1, some leaf.2, none⟩
  | none, some d => (collectLeaves path d).map fun leaf => ⟨leaf.1, none, some leaf.2⟩
  | some c, some d =>
    if c = d then []
    else
      match c, d with
      | .object cs, .object ds =>
        (unionKeys cs ds).flatMap fun key =>
          diffAt (memberPath path key) (cs.lookup key) (ds.lookup key)
      | .array cs, .array ds =>
        -- the items of both, then what is left of the longer
        (List.range (max cs.length ds.length)).flatMap fun i =>
          diffAt (itemPath path i) cs[i]? ds[i]?
      | c, d => [⟨path, some c, some d⟩]
termination_by Value.weightOpt curr
decreasing_by
  · exact Value.weightOpt_lookup cs key
  · exact Value.weightOpt_getElem cs i

section
variable {M : Type} (json : M → Value)

def envelopeLeaves (env : ResourceEnvelope M) : List (String × Value) :=
  collectLeaves "metadata" (json env.metadata) ++ collectLeaves "spec" env.spec

def diff (current desired : Option (ResourceEnvelope M)) : PlanDiff :=
  match current, desired with
  | none, none => ⟨⟨0, 0, 0⟩, []⟩
  | none, some des =>
    ⟨⟨1, 0, 0⟩, (envelopeLeaves json des).map fun leaf => ⟨leaf.1, none, some leaf.2⟩⟩
  | some curr, none =>
    ⟨⟨0, 0, 1⟩, (envelopeLeaves json curr).map fun leaf => ⟨leaf.1, some leaf.2, none⟩⟩
  | some curr, some des =>
    let fields := diffAt "metadata" (some (json curr.metadata)) (some (json des.metadata))
      ++ diffAt "spec" (some curr.spec) (some des.spec)
    ⟨⟨0, if fields.isEmpty then 0 else 1, 0⟩, fields⟩

end

/-- whether the change restarts the pipeline's stream -/
def restartsStream (kind : String) (diff : PlanDiff) : Bool :=
  kind = "Pipeline" && diff.fields.any fun field =>
    (field.path = "spec" || Text.startsWith "spec." field.path) && field.path ≠ "spec.enabled"

/-! ## the cases of a diff -/

/-- two values whose members are compared, those of a missing side as an empty object's -/
inductive Compared : Option Value → Option Value → List (String × Value) → List (String × Value) → Prop
  | both (cs ds : List (String × Value)) : Compared (some (.object cs)) (some (.object ds)) cs ds
  | removed {cs : List (String × Value)} (h : cs ≠ []) : Compared (some (.object cs)) none cs []
  | added {ds : List (String × Value)} (h : ds ≠ []) : Compared none (some (.object ds)) [] ds

inductive ComparedItems : Option Value → Option Value → List Value → List Value → Prop
  | both (cs ds : List Value) : ComparedItems (some (.array cs)) (some (.array ds)) cs ds
  | removed {cs : List Value} (h : cs ≠ []) : ComparedItems (some (.array cs)) none cs []
  | added {ds : List Value} (h : ds ≠ []) : ComparedItems none (some (.array ds)) [] ds

def Whole (c d : Option Value) : Prop :=
  (∀ cs ds, ¬ Compared c d cs ds) ∧ ∀ cs ds, ¬ ComparedItems c d cs ds

/-- a path below a whole document -/
def Nested (path : String) : Prop := path ≠ "metadata" ∧ path ≠ "spec"

def OrderedOpt (v : Option Value) : Prop := ∀ w, v = some w → w.Ordered

theorem orderedOpt_none : OrderedOpt none := fun w h => by cases h

theorem orderedOpt_some {v : Value} (h : v.Ordered) : OrderedOpt (some v) := fun w hw => by
  obtain rfl := Option.some.inj hw
  exact h

theorem orderedItems_iff (items : List Value) :
    Value.OrderedItems items ↔ ∀ v ∈ items, v.Ordered := by
  induction items with
  | nil => simp [Value.OrderedItems]
  | cons v items ih => rw [Value.OrderedItems, ih, List.forall_mem_cons]

theorem OrderedOpt.member {fields : List (String × Value)} (h : OrderedOpt (some (.object fields)))
    (key : String) : OrderedOpt (fields.lookup key) :=
  fun _ hv => ordered_lookup (h _ rfl) hv

theorem OrderedOpt.item {items : List Value} (h : OrderedOpt (some (.array items))) (i : Nat) :
    OrderedOpt items[i]? :=
  fun v hv => (orderedItems_iff items).mp (h _ rfl) v (List.mem_of_getElem? hv)

section
variable {c d : Option Value} {path : String}

theorem diffAt_self (path : String) (c : Option Value) : diffAt path c c = [] := by
  unfold diffAt
  cases c with
  | none => rfl
  | some v => exact if_pos rfl

theorem memberLeaves_eq (path : String) (fields : List (String × Value)) :
    memberLeaves path fields = fields.flatMap fun p => collectLeaves (memberPath path p.1) p.2 := by
  induction fields with
  | nil => rfl
  | cons p fields ih =>
    obtain ⟨key, v⟩ := p
    rw [memberLeaves, ih, List.flatMap_cons]

theorem itemLeaves_eq (path : String) (i : Nat) (items : List Value) :
    itemLeaves path i items = (List.range items.length).flatMap fun j =>
      (items[j]?.map (collectLeaves (itemPath path (i + j)))).getD [] := by
  induction items generalizing i with
  | nil => rfl
  | cons v items ih =>
    rw [itemLeaves, ih, List.length_cons, List.range_succ_eq_map, List.flatMap_cons,
      List.flatMap_map]
    congr 1
    refine List.flatMap_congr fun j _ => ?_
    rw [List.getElem?_cons_succ, Nat.succ_eq_add_one, Nat.add_right_comm, Nat.add_assoc]

theorem unionKeys_nil {fields : List (String × Value)} (h : fields.Pairwise (fun p q => p.1 < q.1)) :
    unionKeys fields [] = fields.map Prod.fst :=
  (OrdMap.keySet_sorted _).eq_of_mem_iff (List.pairwise_map.mpr h) fun key => by
    rw [OrdMap.mem_keySet, List.map_nil, List.append_nil]

theorem collectLeaves_object {fields : List (String × Value)} (hne : fields ≠ [])
    (h : fields.Pairwise (fun p q => p.1 < q.1)) :
    collectLeaves path (.object fields) = (unionKeys fields []).flatMap fun key =>
      ((fields.lookup key).map (collectLeaves (memberPath path key))).getD [] := by
  have hleaves : collectLeaves path (.object fields) = memberLeaves path fields := by
    cases fields with
    | nil => exact absurd rfl hne
    | cons => rfl
  rw [hleaves, memberLeaves_eq, unionKeys_nil h, List.flatMap_map]
  refine List.flatMap_congr fun p hp => ?_
  rw [(OrdMap.lookup_eq_of_mem h p.1 p.2).mp hp]
  rfl

theorem collectLeaves_array {items : List Value} (hne : items ≠ []) :
    collectLeaves path (.array items) = (List.range items.length).flatMap fun i =>
      (items[i]?.map (collectLeaves (itemPath path i))).getD [] := by
  have hleaves : collectLeaves path (.array items) = itemLeaves path 0 items := by
    cases items with
    | nil => exact absurd rfl hne
    | cons => rfl
  rw [hleaves, itemLeaves_eq]
  refine List.flatMap_congr fun i _ => ?_
  rw [Nat.zero_add]

theorem diffAt_removed (path : String) (c : Option Value) :
    diffAt path c none = ((c.map (collectLeaves path)).getD []).map fun leaf =>
      ⟨leaf.1, some leaf.2, none⟩ := by
  cases c <;> (unfold diffAt; rfl)

theorem diffAt_added (path : String) (d : Option Value) :
    diffAt path none d = ((d.map (collectLeaves path)).getD []).map fun leaf =>
      ⟨leaf.1, none, some leaf.2⟩ := by
  cases d <;> (unfold diffAt; rfl)

theorem diffAt_members {cs ds : List (String × Value)} (h : Compared c d cs ds) (hc : OrderedOpt c)
    (hd : OrderedOpt d) : diffAt path c d = (unionKeys cs ds).flatMap fun key =>
      diffAt (memberPath path key) (cs.lookup key) (ds.lookup key) := by
  cases h with
  | both =>
    rw [diffAt]
    split
    · -- equal objects have equal members
      rename_i heq
      obtain rfl := Value.object.inj heq
      rw [eq_comm, List.flatMap_eq_nil_iff]
      exact fun key _ => diffAt_self ..
    · rfl
  | removed hne =>
    rw [diffAt_removed, Option.map_some, Option.getD_some,
      collectLeaves_object hne (hc _ rfl).1, List.map_flatMap]
    exact List.flatMap_congr fun key _ => (diffAt_removed ..).symm
  | added hne =>
    rw [diffAt_added, Option.map_some, Option.getD_some,
      collectLeaves_object hne (hd _ rfl).1, List.map_flatMap, unionKeys_comm]
    exact List.flatMap_congr fun key _ => (diffAt_added ..).symm

theorem diffAt_items {cs ds : List Value} (h : ComparedItems c d cs ds) :
    diffAt path c d = (List.range (max cs.length ds.length)).flatMap fun i =>
      diffAt (itemPath path i) cs[i]? ds[i]? := by
  cases h with
  | both =>
    rw [diffAt]
    split
    · rename_i heq
      obtain rfl := Value.array.inj heq
      rw [eq_comm, List.flatMap_eq_nil_iff]
      exact fun i _ => diffAt_self ..
    · rfl
  | removed hne =>
    rw [diffAt_removed, Option.map_some, Option.getD_some, collectLeaves_array hne, List.map_flatMap,
      List.length_nil, Nat.max_zero]
    exact List.flatMap_congr fun i _ => (diffAt_removed ..).symm
  | added hne =>
    rw [diffAt_added, Option.map_some, Option.getD_some, collectLeaves_array hne, List.map_flatMap,
      List.length_nil, Nat.zero_max]
    exact List.flatMap_congr fun i _ => (diffAt_added ..).symm

theorem collectLeaves_leaf {v : Value} (hpath : Nested path)
    (hobject : ∀ fields, v = .object fields → fields = [])
    (harray : ∀ items, v = .array items → items = []) : collectLeaves path v = [(path, v)] := by
  cases v with
  | object fields =>
    rw [hobject fields rfl]
    exact if_pos hpath
  | array items =>
    rw [harray items rfl]
    rfl
  | _ => rfl

theorem diffAt_whole (hne : c ≠ d) (h : Whole c d) (hpath : Nested path ∨ (c.isSome ∧ d.isSome)) :
    diffAt path c d = [⟨path, c, d⟩] := by
  have hleaf : ∀ v : Value, (∀ cs, cs ≠ [] → v ≠ .object cs) → (∀ cs, cs ≠ [] → v ≠ .array cs) →
      Nested path → collectLeaves path v = [(path, v)] := by
    intro v hobject harray hnested
    refine collectLeaves_leaf hnested (fun fields hv => ?_) (fun items hv => ?_)
    · exact not_not.mp fun hfields => hobject fields hfields hv
    · exact not_not.mp fun hitems => harray items hitems hv
  cases c with
  | none =>
    cases d with
    | none => exact absurd rfl hne
    | some v =>
      have hnested : Nested path := hpath.resolve_right fun hsome => by simpa using hsome.1
      rw [diffAt_added, Option.map_some, Option.getD_some, hleaf v ?_ ?_ hnested]
      · rfl
      · rintro cs hcs rfl
        exact h.1 _ _ (.added hcs)
      · rintro cs hcs rfl
        exact h.2 _ _ (.added hcs)
  | some c =>
    cases d with
    | none =>
      have hnested : Nested path := hpath.resolve_right fun hsome => by simpa using hsome.2
      rw [diffAt_removed, Option.map_some, Option.getD_some, hleaf c ?_ ?_ hnested]
      · rfl
      · rintro cs hcs rfl
        exact h.1 _ _ (.removed hcs)
      · rintro cs hcs rfl
        exact h.2 _ _ (.removed hcs)
    | some d =>
      rw [diffAt, if_neg fun heq => hne (congrArg some heq)]
      · rintro cs ds rfl rfl
        exact h.1 _ _ (.both cs ds)
      · rintro cs ds rfl rfl
        exact h.2 _ _ (.both cs ds)

theorem Compared.weight_lt {cs ds : List (String × Value)} (h : Compared c d cs ds) (key : String) :
    Value.weightOpt (cs.lookup key) + Value.weightOpt (ds.lookup key)
      < Value.weightOpt c + Value.weightOpt d := by
  have hc := Value.weightOpt_lookup cs key
  have hd := Value.weightOpt_lookup ds key
  cases h with
  | both => omega
  | removed =>
    show Value.weightOpt (cs.lookup key) + 0 < Value.weightOpt (some (.object cs)) + 0
    omega
  | added =>
    show 0 + Value.weightOpt (ds.lookup key) < 0 + Value.weightOpt (some (.object ds))
    omega

theorem ComparedItems.weight_lt {cs ds : List Value} (h : ComparedItems c d cs ds) (i : Nat) :
    Value.weightOpt cs[i]? + Value.weightOpt ds[i]? < Value.weightOpt c + Value.weightOpt d := by
  have hc := Value.weightOpt_getElem cs i
  have hd := Value.weightOpt_getElem ds i
  cases h with
  | both => omega
  | removed =>
    show Value.weightOpt cs[i]? + 0 < Value.weightOpt (some (.array cs)) + 0
    omega
  | added =>
    show 0 + Value.weightOpt ds[i]? < 0 + Value.weightOpt (some (.array ds))
    omega

/-- **Diff rule**: what holds of equal values, of values compared whole, and of values compared member
by member or item by item if of each pair, holds of all. -/
theorem diff_induction {P : Option Value → Option Value → Prop} (same : ∀ c, P c c)
    (whole : ∀ c d, c ≠ d → Whole c d → P c d)
    (members : ∀ c d cs ds, c ≠ d → Compared c d cs ds →
      (∀ key, P (cs.lookup key) (ds.lookup key)) → P c d)
    (items : ∀ c d cs ds, c ≠ d → ComparedItems c d cs ds → (∀ i : Nat, P cs[i]? ds[i]?) → P c d)
    (c d : Option Value) : P c d := by
  induction hn : Value.weightOpt c + Value.weightOpt d using Nat.strong_induction_on
    generalizing c d with
  | _ n ih =>
    subst hn
    by_cases heq : c = d
    · rw [heq]
      exact same d
    · by_cases hmembers : ∃ cs ds, Compared c d cs ds
      · obtain ⟨cs, ds, h⟩ := hmembers
        exact members c d cs ds heq h fun key => ih _ (h.weight_lt key) _ _ rfl
      · by_cases hitems : ∃ cs ds, ComparedItems c d cs ds
        · obtain ⟨cs, ds, h⟩ := hitems
          exact items c d cs ds heq h fun i => ih _ (h.weight_lt i) _ _ rfl
        · exact whole c d heq
            ⟨fun cs ds h => hmembers ⟨cs, ds, h⟩, fun cs ds h => hitems ⟨cs, ds, h⟩⟩

theorem Compared.ordered {cs ds : List (String × Value)} (h : Compared c d cs ds)
    (hc : OrderedOpt c) (hd : OrderedOpt d) :
    (cs.Pairwise (fun p q => p.1 < q.1) ∧ ∀ key, OrderedOpt (cs.lookup key)) ∧
      ds.Pairwise (fun p q => p.1 < q.1) ∧ ∀ key, OrderedOpt (ds.lookup key) := by
  cases h with
  | both => exact ⟨⟨(hc _ rfl).1, hc.member⟩, (hd _ rfl).1, hd.member⟩
  | removed => exact ⟨⟨(hc _ rfl).1, hc.member⟩, .nil, fun _ => orderedOpt_none⟩
  | added => exact ⟨⟨.nil, fun _ => orderedOpt_none⟩, (hd _ rfl).1, hd.member⟩

theorem ComparedItems.ordered {cs ds : List Value} (h : ComparedItems c d cs ds) (hc : OrderedOpt c)
    (hd : OrderedOpt d) (i : Nat) : OrderedOpt cs[i]? ∧ OrderedOpt ds[i]? := by
  cases h with
  | both => exact ⟨hc.item i, hd.item i⟩
  | removed => exact ⟨hc.item i, orderedOpt_none⟩
  | added => exact ⟨orderedOpt_none, hd.item i⟩

theorem Compared.eq {cs ds : List (String × Value)} (h : Compared c d cs ds) (hc : OrderedOpt c)
    (hd : OrderedOpt d) (hmembers : ∀ key, cs.lookup key = ds.lookup key) : c = d := by
  obtain ⟨⟨hcs, -⟩, hds, -⟩ := h.ordered hc hd
  have hmaps : (⟨cs, hcs⟩ : OrdMap String Value) = ⟨ds, hds⟩ := OrdMap.ext_get? hmembers
  have heq : cs = ds := congrArg OrdMap.toList hmaps
  cases h with
  | both => rw [heq]
  | removed hne => exact absurd heq hne
  | added hne => exact absurd heq.symm hne

theorem ComparedItems.eq {cs ds : List Value} (h : ComparedItems c d cs ds)
    (hitems : ∀ i : Nat, cs[i]? = ds[i]?) : c = d := by
  have heq : cs = ds := List.ext_getElem? hitems
  cases h with
  | both => rw [heq]
  | removed hne => exact absurd heq hne
  | added hne => exact absurd heq.symm hne

/-! ## paths -/

/-- a printed path of a value, or of what is in it -/
def Under (path p : String) : Prop :=
  p = path ∨ ∃ rest, p = path ++ "." ++ rest ∨ p = path ++ "[" ++ rest

/-- a printed path of what is in a value -/
def Below (path p : String) : Prop := ∃ rest, p = path ++ "." ++ rest ∨ p = path ++ "[" ++ rest

theorem below_of_member {key p : String} (h : Under (memberPath path key) p) : Below path p := by
  unfold memberPath at h
  rcases h with rfl | ⟨rest, rfl | rfl⟩
  · exact ⟨key, .inl rfl⟩
  · exact ⟨key ++ "." ++ rest, .inl (by simp only [String.append_assoc])⟩
  · exact ⟨key ++ "[" ++ rest, .inl (by simp only [String.append_assoc])⟩

theorem below_of_item {i : Nat} {p : String} (h : Under (itemPath path i) p) : Below path p := by
  unfold itemPath at h
  rcases h with rfl | ⟨rest, rfl | rfl⟩
  · exact ⟨toString i ++ "]", .inr (by simp only [String.append_assoc])⟩
  · exact ⟨toString i ++ "]" ++ "." ++ rest, .inr (by simp only [String.append_assoc])⟩
  · exact ⟨toString i ++ "]" ++ "[" ++ rest, .inr (by simp only [String.append_assoc])⟩

theorem Below.under {p : String} (h : Below path p) : Under path p := .inr h

theorem Below.ne {p : String} (h : Below path p) : p ≠ path := by
  rintro rfl
  obtain ⟨rest, h | h⟩ := h
  · have hlength := congrArg String.length h
    simp only [String.length_append] at hlength
    have : ".".length = 1 := rfl
    omega
  · have hlength := congrArg String.length h
    simp only [String.length_append] at hlength
    have : "[".length = 1 := rfl
    omega

theorem nested_of_below {root p : String} (h : Below root p) : Nested p := by
  have hstop : '.' ∈ p.toList ∨ '[' ∈ p.toList := by
    obtain ⟨rest, rfl | rfl⟩ := h
    · left
      simp [String.toList_append]
    · right
      simp [String.toList_append]
  refine ⟨?_, ?_⟩
  · rintro rfl
    revert hstop
    decide
  · rintro rfl
    revert hstop
    decide

theorem nested_member (path key : String) : Nested (memberPath path key) :=
  nested_of_below (below_of_member (.inl rfl))

theorem nested_item (path : String) (i : Nat) : Nested (itemPath path i) :=
  nested_of_below (below_of_item (.inl rfl))

/-- a path a diff may be taken under: the whole of a document, where it has one on both sides -/
def Rooted (path : String) (c d : Option Value) : Prop := Nested path ∨ (c.isSome ∧ d.isSome)

/-- **The lines of two values are under their path.** -/
theorem under_of_mem (hc : OrderedOpt c) (hd : OrderedOpt d) (hpath : Rooted path c d)
    {line : FieldChange} (h : line ∈ diffAt path c d) : Under path line.path := by
  induction c, d using diff_induction generalizing path with
  | same c =>
    rw [diffAt_self] at h
    cases h
  | whole c d hne hwhole =>
    rw [diffAt_whole hne hwhole hpath, List.mem_singleton] at h
    rw [h]
    exact .inl rfl
  | members c d cs ds hne hcompared ih =>
    obtain ⟨⟨-, hcs⟩, -, hds⟩ := hcompared.ordered hc hd
    rw [diffAt_members hcompared hc hd, List.mem_flatMap] at h
    obtain ⟨key, -, hline⟩ := h
    exact (below_of_member (ih key (hcs key) (hds key) (.inl (nested_member path key)) hline)).under
  | items c d cs ds hne hcompared ih =>
    rw [diffAt_items hcompared, List.mem_flatMap] at h
    obtain ⟨i, -, hline⟩ := h
    obtain ⟨hcs, hds⟩ := hcompared.ordered hc hd i
    exact (below_of_item (ih i hcs hds (.inl (nested_item path i)) hline)).under

/-- **No line, no difference.** -/
theorem diffAt_eq_nil (hc : OrderedOpt c) (hd : OrderedOpt d) (hpath : Rooted path c d) :
    diffAt path c d = [] ↔ c = d := by
  constructor
  · intro h
    induction c, d using diff_induction generalizing path with
    | same c => rfl
    | whole c d hne hwhole =>
      rw [diffAt_whole hne hwhole hpath] at h
      cases h
    | members c d cs ds hne hcompared ih =>
      obtain ⟨⟨-, hcs⟩, -, hds⟩ := hcompared.ordered hc hd
      rw [diffAt_members hcompared hc hd, List.flatMap_eq_nil_iff] at h
      refine hcompared.eq hc hd fun key => ?_
      by_cases hkey : key ∈ unionKeys cs ds
      · exact ih key (hcs key) (hds key) (.inl (nested_member path key)) (h key hkey)
      · obtain ⟨hnone, hnone'⟩ := lookup_none_of_not_mem_unionKeys hkey
        rw [hnone, hnone']
    | items c d cs ds hne hcompared ih =>
      rw [diffAt_items hcompared, List.flatMap_eq_nil_iff] at h
      refine hcompared.eq fun i => ?_
      obtain ⟨hcs, hds⟩ := hcompared.ordered hc hd i
      by_cases hi : i < max cs.length ds.length
      · exact ih i hcs hds (.inl (nested_item path i)) (h i (List.mem_range.mpr hi))
      · rw [List.getElem?_eq_none (by omega), List.getElem?_eq_none (by omega)]
  · rintro rfl
    exact diffAt_self ..

end

/-! ## what restarts a stream -/

/-- two values that differ below their path: both objects, or both arrays, or the one absent and the
other with members or items -/
def DifferBelow (c d : Option Value) : Prop :=
  c ≠ d ∧ ((∃ cs ds, Compared c d cs ds) ∨ ∃ cs ds, ComparedItems c d cs ds)

/-- two specs that differ in a member other than `enabled`, or below `enabled` -/
def StreamDiffers (as bs : List (String × Value)) : Prop :=
  (∃ key, key ≠ "enabled" ∧ as.lookup key ≠ bs.lookup key) ∨
    DifferBelow (as.lookup "enabled") (bs.lookup "enabled")

section
variable {c d : Option Value} {path : String}

theorem line_below_iff (hc : OrderedOpt c) (hd : OrderedOpt d) (hpath : Nested path) :
    (∃ line ∈ diffAt path c d, line.path ≠ path) ↔ DifferBelow c d := by
  constructor
  · rintro ⟨line, hline, hne⟩
    have hdiffer : c ≠ d := by
      rintro rfl
      rw [diffAt_self] at hline
      cases hline
    refine ⟨hdiffer, not_not.mp fun hnot => hne ?_⟩
    have hwhole : Whole c d :=
      ⟨fun cs ds h => hnot (.inl ⟨cs, ds, h⟩), fun cs ds h => hnot (.inr ⟨cs, ds, h⟩)⟩
    rw [diffAt_whole hdiffer hwhole (.inl hpath), List.mem_singleton] at hline
    rw [hline]
  · rintro ⟨hdiffer, hcompared⟩
    obtain ⟨line, hline⟩ := List.exists_mem_of_ne_nil _ fun hnil =>
      hdiffer ((diffAt_eq_nil hc hd (.inl hpath)).mp hnil)
    refine ⟨line, hline, ?_⟩
    rcases hcompared with ⟨cs, ds, h⟩ | ⟨cs, ds, h⟩
    · obtain ⟨⟨-, hcs⟩, -, hds⟩ := h.ordered hc hd
      rw [diffAt_members h hc hd, List.mem_flatMap] at hline
      obtain ⟨key, -, hline⟩ := hline
      exact (below_of_member
        (under_of_mem (hcs key) (hds key) (.inl (nested_member path key)) hline)).ne
    · rw [diffAt_items h, List.mem_flatMap] at hline
      obtain ⟨i, -, hline⟩ := hline
      obtain ⟨hcs, hds⟩ := h.ordered hc hd i
      exact (below_of_item (under_of_mem hcs hds (.inl (nested_item path i)) hline)).ne

/-- nothing under another member has the path of `enabled` -/
theorem eq_enabled {key : String} (h : Under (memberPath "spec" key) "spec.enabled") :
    key = "enabled" := by
  unfold memberPath at h
  have hkey : ∀ rest : String, "spec.enabled" = "spec" ++ "." ++ key ++ rest →
      "enabled".toList = key.toList ++ rest.toList := by
    intro rest heq
    have hlist := congrArg String.toList heq
    simp only [String.toList_append] at hlist
    have hspec : "spec.".toList ++ "enabled".toList = "spec.".toList ++ (key.toList ++ rest.toList) := by
      simpa using hlist
    exact List.append_cancel_left hspec
  rcases h with h | ⟨rest, h | h⟩
  · have hlist := hkey "" (by rw [h]; simp)
    exact String.toList_injective (by simpa using hlist.symm)
  · have hlist := hkey ("." ++ rest) (by rw [h]; simp [String.append_assoc])
    have hmem : '.' ∈ "enabled".toList := by
      rw [hlist]
      simp
    exact absurd hmem (by decide)
  · have hlist := hkey ("[" ++ rest) (by rw [h]; simp [String.append_assoc])
    have hmem : '[' ∈ "enabled".toList := by
      rw [hlist]
      simp
    exact absurd hmem (by decide)

def restarts (field : FieldChange) : Bool :=
  (field.path = "spec" || Text.startsWith "spec." field.path) && field.path ≠ "spec.enabled"

theorem not_restarts_of_metadata {field : FieldChange} (h : Under "metadata" field.path) :
    restarts field = false := by
  have hhead : field.path.toList.head? = some 'm' := by
    rcases h with h | ⟨rest, h | h⟩
    · rw [h]
      rfl
    · rw [h, String.toList_append, String.toList_append]
      rfl
    · rw [h, String.toList_append, String.toList_append]
      rfl
  have hspec : field.path ≠ "spec" := by
    intro heq
    rw [heq] at hhead
    revert hhead
    decide
  have hstart : Text.startsWith "spec." field.path = false := by
    unfold Text.startsWith
    cases hlist : field.path.toList with
    | nil => rfl
    | cons c rest =>
      rw [hlist] at hhead
      obtain rfl := Option.some.inj hhead
      rfl
  simp [restarts, hspec, hstart]

theorem restarts_of_member {field : FieldChange} {key : String}
    (h : Under (memberPath "spec" key) field.path) :
    restarts field = true ↔ field.path ≠ "spec.enabled" := by
  have hstart : Text.startsWith "spec." field.path = true := by
    obtain ⟨rest, hrest⟩ : ∃ rest, field.path = "spec" ++ "." ++ rest := by
      unfold memberPath at h
      rcases h with h | ⟨rest, h | h⟩
      · exact ⟨key, h⟩
      · exact ⟨key ++ "." ++ rest, by rw [h]; simp only [String.append_assoc]⟩
      · exact ⟨key ++ "[" ++ rest, by rw [h]; simp only [String.append_assoc]⟩
    unfold Text.startsWith
    rw [hrest, List.isPrefixOf_iff_prefix, String.toList_append]
    exact List.prefix_append _ _
  simp [restarts, hstart]

end

theorem fields_diff {M : Type} (json : M → Value) (a b : ResourceEnvelope M) :
    (diff json (some a) (some b)).fields
      = diffAt "metadata" (some (json a.metadata)) (some (json b.metadata))
        ++ diffAt "spec" (some a.spec) (some b.spec) := rfl

/-- **A pipeline restarts where its spec differs** in a member other than `enabled`, or below it. -/
theorem restartsStream_iff {M : Type} (json : M → Value) (hjson : ∀ m, (json m).Ordered)
    {a b : ResourceEnvelope M} {as bs : List (String × Value)} (ha : a.spec = .object as)
    (hb : b.spec = .object bs) (hoa : a.spec.Ordered) (hob : b.spec.Ordered) :
    restartsStream "Pipeline" (diff json (some a) (some b)) = true ↔ StreamDiffers as bs := by
  rw [ha] at hoa
  rw [hb] at hob
  have hca := orderedOpt_some hoa
  have hcb := orderedOpt_some hob
  have hfields : restartsStream "Pipeline" (diff json (some a) (some b)) = true ↔
      ∃ key, ∃ field ∈ diffAt (memberPath "spec" key) (as.lookup key) (bs.lookup key),
        field.path ≠ "spec.enabled" := by
    show (true && (diff json (some a) (some b)).fields.any restarts) = true ↔ _
    rw [Bool.true_and, fields_diff, List.any_append, Bool.or_eq_true, ha, hb,
      diffAt_members (.both as bs) hca hcb]
    constructor
    · rintro (hmeta | hspec)
      · obtain ⟨field, hfield, hrestarts⟩ := List.any_eq_true.mp hmeta
        have hunder := under_of_mem (orderedOpt_some (hjson a.metadata))
          (orderedOpt_some (hjson b.metadata)) (.inr ⟨rfl, rfl⟩) hfield
        rw [not_restarts_of_metadata hunder] at hrestarts
        cases hrestarts
      · obtain ⟨field, hfield, hrestarts⟩ := List.any_eq_true.mp hspec
        obtain ⟨key, -, hline⟩ := List.mem_flatMap.mp hfield
        have hunder := under_of_mem (hca.member key) (hcb.member key)
          (.inl (nested_member "spec" key)) hline
        exact ⟨key, field, hline, (restarts_of_member hunder).mp hrestarts⟩
    · rintro ⟨key, field, hline, hne⟩
      refine .inr (List.any_eq_true.mpr ⟨field, List.mem_flatMap.mpr ⟨key, ?_, hline⟩, ?_⟩)
      · by_contra hkey
        obtain ⟨hnone, hnone'⟩ := lookup_none_of_not_mem_unionKeys hkey
        rw [hnone, hnone', diffAt_self] at hline
        cases hline
      · have hunder := under_of_mem (hca.member key) (hcb.member key)
          (.inl (nested_member "spec" key)) hline
        exact (restarts_of_member hunder).mpr hne
  rw [hfields]
  have henabled := line_below_iff (hca.member "enabled") (hcb.member "enabled")
    (nested_member "spec" "enabled")
  have hpath : memberPath "spec" "enabled" = "spec.enabled" := by decide
  constructor
  · rintro ⟨key, field, hline, hne⟩
    by_cases hkey : key = "enabled"
    · subst hkey
      exact .inr (henabled.mp ⟨field, hline, hpath ▸ hne⟩)
    · refine .inl ⟨key, hkey, fun heq => ?_⟩
      rw [heq, diffAt_self] at hline
      cases hline
  · rintro (⟨key, hkey, hdiffer⟩ | hbelow)
    · obtain ⟨field, hfield⟩ := List.exists_mem_of_ne_nil _ fun hnil => hdiffer
        ((diffAt_eq_nil (hca.member key) (hcb.member key) (.inl (nested_member "spec" key))).mp hnil)
      have hunder := under_of_mem (hca.member key) (hcb.member key)
        (.inl (nested_member "spec" key)) hfield
      refine ⟨key, field, hfield, fun heq => hkey (eq_enabled ?_)⟩
      rw [← heq]
      exact hunder
    · obtain ⟨field, hfield, hne⟩ := henabled.mpr hbelow
      exact ⟨"enabled", field, hfield, hpath ▸ hne⟩

/-- **A diff is empty where metadata and spec are equal, and only there.** -/
theorem diff_fields_eq_nil {M : Type} (json : M → Value) (hinj : Function.Injective json)
    (hjson : ∀ m, (json m).Ordered) {a b : ResourceEnvelope M} (ha : a.spec.Ordered)
    (hb : b.spec.Ordered) :
    (diff json (some a) (some b)).fields = [] ↔ a.metadata = b.metadata ∧ a.spec = b.spec := by
  rw [fields_diff, List.append_eq_nil_iff,
    diffAt_eq_nil (orderedOpt_some (hjson _)) (orderedOpt_some (hjson _)) (.inr ⟨rfl, rfl⟩),
    diffAt_eq_nil (orderedOpt_some ha) (orderedOpt_some hb) (.inr ⟨rfl, rfl⟩), Option.some.injEq,
    Option.some.injEq, hinj.eq_iff]

/-! ## a pipeline turned off -/

/-- a value without members or items, or none -/
def Scalar : Option Value → Prop
  | some (.object _) | some (.array _) => False
  | _ => True

/-- two specs that differ somewhere else than in a scalar `enabled` -/
def DifferElsewhere (as bs : List (String × Value)) : Prop :=
  (∃ key, key ≠ "enabled" ∧ as.lookup key ≠ bs.lookup key) ∨
    (as.lookup "enabled" ≠ bs.lookup "enabled" ∧
      ¬ (Scalar (as.lookup "enabled") ∧ Scalar (bs.lookup "enabled")))

/-- **A pipeline restarts exactly when its stream can differ**, but for `enabled` itself, and its diff is
empty exactly when nothing changes. -/
theorem pipeline_restarts {M : Type} (json : M → Value) (hinj : Function.Injective json)
    (hjson : ∀ m, (json m).Ordered) {a b : ResourceEnvelope M} (hoa : a.spec.Ordered)
    (hob : b.spec.Ordered) :
    (∀ as bs, a.spec = .object as → b.spec = .object bs →
      (restartsStream "Pipeline" (diff json (some a) (some b)) = true ↔ StreamDiffers as bs)) ∧
    ((diff json (some a) (some b)).fields = [] ↔ a.metadata = b.metadata ∧ a.spec = b.spec) :=
  ⟨fun _ _ ha hb => restartsStream_iff json hjson ha hb hoa hob,
    diff_fields_eq_nil json hinj hjson hoa hob⟩

/-- the metadata of the pipeline `p1` -/
def plainMeta : { v : Value // v.Ordered } :=
  ⟨.object [("name", .string "p1")], by decide +kernel, trivial, trivial⟩

/-- the pipeline `p1`, with a value under `enabled` -/
def enabledAs (v : Value) : ResourceEnvelope { v : Value // v.Ordered } :=
  ⟨"Pipeline", plainMeta, .object [("enabled", v)]⟩

theorem ordered_enabledAs {v : Value} (h : v.Ordered) : (enabledAs v).spec.Ordered :=
  ⟨List.pairwise_singleton _ _, h, trivial⟩

/-- a pipeline that is turned off does not restart, and the diff says so -/
theorem pipeline_restarts_of_off :
    restartsStream "Pipeline" (diff Subtype.val (some (enabledAs (.bool true)))
        (some (enabledAs (.bool false)))) = false ∧
      (diff Subtype.val (some (enabledAs (.bool true))) (some (enabledAs (.bool false)))).fields
        ≠ [] := by
  obtain ⟨hrestarts, hempty⟩ := pipeline_restarts Subtype.val Subtype.val_injective
    (fun m : { v : Value // v.Ordered } => m.2)
    (ordered_enabledAs (v := .bool true) trivial) (ordered_enabledAs (v := .bool false) trivial)
  constructor
  · rw [← Bool.not_eq_true, hrestarts _ _ rfl rfl]
    rintro (⟨key, hkey, hdiffer⟩ | ⟨-, ⟨cs, ds, h⟩ | ⟨cs, ds, h⟩⟩)
    · have hne : (key == "enabled") = false := by simpa using hkey
      simp only [List.lookup_cons, hne] at hdiffer
      exact hdiffer rfl
    · cases h
    · cases h
  · rw [Ne, hempty]
    rintro ⟨-, hspec⟩
    exact absurd hspec (by decide)

/-- a pipeline whose `enabled` becomes an empty object is not said to restart -/
theorem enabled_object_unsaid :
    ¬ ∀ (a b : ResourceEnvelope { v : Value // v.Ordered }) (as bs : List (String × Value)),
      a.spec = .object as → b.spec = .object bs → a.spec.Ordered → b.spec.Ordered →
      (restartsStream "Pipeline" (diff Subtype.val (some a) (some b)) = true ↔
        DifferElsewhere as bs) := by
  intro hall
  have hsays := (hall (enabledAs (.bool true)) (enabledAs (.object [])) _ _ rfl rfl
    (ordered_enabledAs trivial) (ordered_enabledAs ⟨.nil, trivial⟩)).mpr
    (.inr ⟨by decide, fun hscalar => hscalar.2⟩)
  revert hsays
  decide +kernel

end Portal
