import Portal.Base.Document

/-!
# The three-way merge of two documents (`plan.rs`: `merge3`, `merge_at`)

A field only one side changed takes that side's value, a field both changed alike takes it once,
and two objects are merged key by key, whatever their base was.  What is left is a conflict: the
side a person picked, or an entry of the list the merge fails with.

* `Differ`, `Clash`     three values of which no two are equal; and the sides are not both objects;
* `merge_keeps_edits`   a merge without conflicts takes at every path the side that changed there;
* `mergeAt_swap`        the sides exchanged and every pick with them;
* `mergeAt_conflicts`   the conflicts are the topmost clashes, each once;
* `merge_conflicts`     the three of them, for whole documents.
-/

namespace Portal

inductive Side where
  | ours
  | theirs
deriving DecidableEq, Repr

def Side.flip : Side → Side
  | .ours => .theirs
  | .theirs => .ours

structure FieldConflict where
  path : String
  ours : Value
  theirs : Value
  base : Value
deriving DecidableEq

/-- the conflict as the other side sees it -/
def FieldConflict.swap (c : FieldConflict) : FieldConflict := ⟨c.path, c.theirs, c.ours, c.base⟩

/-! ## the merge -/

/-- the path of a member: `spec.rateLimit.perMinute` -/
def childPath (path key : String) : String := if path = "" then key else path ++ "." ++ key

/-- the keys of two objects, in order -/
def unionKeys (o t : List (String × Value)) : List String :=
  OrdMap.keySet (o.map Prod.fst ++ t.map Prod.fst)

def conflictOf (path : String) (base ours theirs : Option Value) : FieldConflict :=
  ⟨path, ours.getD .null, theirs.getD .null, base.getD .null⟩

/-- the merged value, and the conflicts found on the way -/
def mergeAt (pick : String → Option Side) (path : String) (base ours theirs : Option Value) :
    Option Value × List FieldConflict :=
  if ours = theirs ∨ theirs = base then (ours, [])
  else if ours = base then (theirs, [])
  else
    match ours, theirs with
    | some (.object o), some (.object t) =>
      let merged := fun key =>
        mergeAt pick (childPath path key) (member base key) (o.lookup key) (t.lookup key)
      (some (.object ((unionKeys o t).filterMap (fun key =>
          (merged key).1.map (fun value => (key, value))))),
        (unionKeys o t).flatMap (fun key => (merged key).2))
    | _, _ =>
      match pick path with
      | some .ours => (ours, [])
      | some .theirs => (theirs, [])
      | none => (ours, [conflictOf path base ours theirs])
termination_by sizeOpt ours
decreasing_by exact sizeOpt_lookup o key

def merge3 (base : Option Value) (ours theirs : Value) (pick : String → Option Side) :
    Except (List FieldConflict) Value :=
  let (merged, conflicts) := mergeAt pick "" base (some ours) (some theirs)
  if conflicts.isEmpty then .ok (merged.getD .null) else .error conflicts

/-! ## its cases -/

/-- no two of the three are equal -/
def Differ (base ours theirs : Option Value) : Prop :=
  ours ≠ theirs ∧ theirs ≠ base ∧ ours ≠ base

def BothObjects (ours theirs : Option Value) : Prop :=
  ∃ o t, ours = some (.object o) ∧ theirs = some (.object t)

/-- what the merge cannot decide: both sides changed it, and not both to objects -/
def Clash (base ours theirs : Option Value) : Prop :=
  Differ base ours theirs ∧ ¬ BothObjects ours theirs

section
variable {pick : String → Option Side} {path : String} {base ours theirs : Option Value}

theorem Differ.swap (h : Differ base ours theirs) : Differ base theirs ours :=
  ⟨fun e => h.1 e.symm, h.2.2, h.2.1⟩

theorem BothObjects.swap (h : BothObjects ours theirs) : BothObjects theirs ours := by
  obtain ⟨o, t, ho, ht⟩ := h
  exact ⟨t, o, ht, ho⟩

theorem Clash.swap (h : Clash base ours theirs) : Clash base theirs ours :=
  ⟨h.1.swap, fun hb => h.2 hb.swap⟩

theorem Differ.of_valueAt {p : List String}
    (h : Differ (valueAt base p) (valueAt ours p) (valueAt theirs p)) :
    Differ base ours theirs :=
  ⟨fun e => h.1 (by rw [e]), fun e => h.2.1 (by rw [e]), fun e => h.2.2 (by rw [e])⟩

theorem mergeAt_same (h : ours = theirs ∨ theirs = base) :
    mergeAt pick path base ours theirs = (ours, []) := by
  unfold mergeAt
  rw [if_pos h]

theorem mergeAt_theirs (h : ours = base) : mergeAt pick path base ours theirs = (theirs, []) := by
  by_cases hs : ours = theirs ∨ theirs = base
  · rw [mergeAt_same hs]
    rcases hs with hs | hs
    · rw [hs]
    · rw [h, hs]
  · unfold mergeAt
    rw [if_neg hs, if_pos h]

theorem mergeAt_objects {o t : List (String × Value)}
    (h : Differ base (some (.object o)) (some (.object t))) :
    mergeAt pick path base (some (.object o)) (some (.object t)) =
      (some (.object ((unionKeys o t).filterMap (fun key =>
          (mergeAt pick (childPath path key) (member base key) (o.lookup key)
            (t.lookup key)).1.map (fun value => (key, value))))),
        (unionKeys o t).flatMap (fun key =>
          (mergeAt pick (childPath path key) (member base key) (o.lookup key)
            (t.lookup key)).2)) := by
  rw [mergeAt, if_neg (not_or.mpr ⟨h.1, h.2.1⟩), if_neg h.2.2]

theorem mergeAt_clash (h : Clash base ours theirs) :
    mergeAt pick path base ours theirs =
      match pick path with
      | some .ours => (ours, [])
      | some .theirs => (theirs, [])
      | none => (ours, [conflictOf path base ours theirs]) := by
  obtain ⟨⟨h1, h2, h3⟩, hb⟩ := h
  unfold mergeAt
  rw [if_neg (not_or.mpr ⟨h1, h2⟩), if_neg h3]
  split
  · rename_i o t
    exact absurd ⟨o, t, rfl, rfl⟩ hb
  · rfl

end

theorem mem_unionKeys (o t : List (String × Value)) (key : String) :
    key ∈ unionKeys o t ↔ key ∈ o.map Prod.fst ∨ key ∈ t.map Prod.fst := by
  unfold unionKeys
  rw [OrdMap.mem_keySet, List.mem_append]

theorem unionKeys_nodup (o t : List (String × Value)) : (unionKeys o t).Nodup :=
  (OrdMap.keySet_sorted _).imp (fun h => ne_of_lt h)

theorem unionKeys_comm (o t : List (String × Value)) : unionKeys o t = unionKeys t o :=
  OrdMap.keySet_congr (fun key => by rw [List.mem_append, List.mem_append, or_comm])

theorem lookup_none_of_not_mem_unionKeys {o t : List (String × Value)} {key : String}
    (h : key ∉ unionKeys o t) : o.lookup key = none ∧ t.lookup key = none := by
  rw [mem_unionKeys, not_or] at h
  have hnone : ∀ l : List (String × Value), key ∉ l.map Prod.fst → l.lookup key = none := by
    intro l hl
    rw [List.lookup_eq_none_iff]
    intro p hp
    simp only [ne_eq, bne_iff_ne]
    exact fun e => hl (e ▸ List.mem_map_of_mem hp)
  exact ⟨hnone o h.1, hnone t h.2⟩

theorem member_mergeAt_objects {pick : String → Option Side} {path : String} {base : Option Value}
    {o t : List (String × Value)} (h : Differ base (some (.object o)) (some (.object t)))
    (key : String) :
    member (mergeAt pick path base (some (.object o)) (some (.object t))).1 key =
      (mergeAt pick (childPath path key) (member base key) (o.lookup key) (t.lookup key)).1 := by
  rw [mergeAt_objects h]
  show List.lookup key _ = _
  rw [OrdMap.lookup_filterMap _ (unionKeys_nodup o t)]
  split
  · rfl
  · rename_i hk
    obtain ⟨h1, h2⟩ := lookup_none_of_not_mem_unionKeys hk
    rw [h1, h2, mergeAt_same (Or.inl rfl)]

theorem mergeAt_objects_conflicts {pick : String → Option Side} {path : String}
    {base : Option Value} {o t : List (String × Value)}
    (h : Differ base (some (.object o)) (some (.object t))) :
    (mergeAt pick path base (some (.object o)) (some (.object t))).2 =
      (unionKeys o t).flatMap (fun key => (mergeAt pick (childPath path key) (member base key)
        (o.lookup key) (t.lookup key)).2) := by
  rw [mergeAt_objects h]

theorem mergeAt_member_conflicts {pick : String → Option Side} {path : String}
    {base : Option Value} {o t : List (String × Value)}
    (h : Differ base (some (.object o)) (some (.object t)))
    (hc : (mergeAt pick path base (some (.object o)) (some (.object t))).2 = []) (key : String) :
    (mergeAt pick (childPath path key) (member base key) (o.lookup key) (t.lookup key)).2 = [] := by
  rw [mergeAt_objects_conflicts h, List.flatMap_eq_nil_iff] at hc
  by_cases hk : key ∈ unionKeys o t
  · exact hc key hk
  · obtain ⟨h1, h2⟩ := lookup_none_of_not_mem_unionKeys hk
    rw [h1, h2, mergeAt_same (Or.inl rfl)]

/-- the cases of a merge: a side taken whole, a clash, and two objects with all their members -/
theorem merge_induction {P : Option Value → Option Value → Option Value → Prop}
    (same : ∀ b o t, o = t ∨ t = b → P b o t) (theirs : ∀ b o t, o = b → P b o t)
    (clash : ∀ b o t, Clash b o t → P b o t)
    (objects : ∀ b o t, Differ b (some (.object o)) (some (.object t)) →
      (∀ key, P (member b key) (o.lookup key) (t.lookup key)) →
      P b (some (.object o)) (some (.object t))) (b o t : Option Value) : P b o t := by
  have cases : ∀ b o t, (Differ b o t → P b o t) → P b o t := by
    intro b o t h
    by_cases h1 : o = t ∨ t = b
    · exact same b o t h1
    · by_cases h2 : o = b
      · exact theirs b o t h2
      · exact h ⟨fun e => h1 (Or.inl e), fun e => h1 (Or.inr e), h2⟩
  refine threeWay_induction ?_ ?_ b o t
  · intro b o t hno
    refine cases b o t (fun hd => clash b o t ⟨hd, ?_⟩)
    rintro ⟨fo, ft, hb⟩
    exact hno fo ft hb
  · intro b fo ft ih
    exact cases b _ _ (fun hd => objects b fo ft hd ih)

/-! ## no edit is lost -/

/-- at `p` the merged value is the side that changed, where one did or both did alike -/
def KeepsEdits (merged base ours theirs : Option Value) (p : List String) : Prop :=
  (valueAt theirs p = valueAt base p → valueAt merged p = valueAt ours p) ∧
  (valueAt ours p = valueAt base p → valueAt merged p = valueAt theirs p) ∧
  (valueAt ours p = valueAt theirs p → valueAt merged p = valueAt ours p)

theorem mergeAt_keeps_edits (base ours theirs : Option Value) (path : String)
    (hc : (mergeAt (fun _ => none) path base ours theirs).2 = []) (p : List String) :
    KeepsEdits (mergeAt (fun _ => none) path base ours theirs).1 base ours theirs p := by
  induction base, ours, theirs using merge_induction generalizing path p with
  | same b o t h =>
    rw [mergeAt_same h]
    refine ⟨fun _ => rfl, fun he => ?_, fun _ => rfl⟩
    rcases h with rfl | rfl
    · rfl
    · exact he
  | theirs b o t h =>
    rw [mergeAt_theirs h]
    subst h
    exact ⟨fun he => he, fun _ => rfl, fun he => he.symm⟩
  | clash b o t h =>
    rw [mergeAt_clash h] at hc
    exact absurd hc (by simp)
  | objects b o t h ih =>
    cases p with
    | nil => exact ⟨fun e => absurd e h.2.1, fun e => absurd e h.2.2, fun e => absurd e h.1⟩
    | cons key p =>
      have hm := ih key (childPath path key) (mergeAt_member_conflicts h hc key) p
      rw [← member_mergeAt_objects h] at hm
      exact hm

theorem mergeAt_isSome (pick : String → Option Side) (path : String) (base : Option Value)
    (ours theirs : Value) : (mergeAt pick path base (some ours) (some theirs)).1.isSome := by
  by_cases h1 : some ours = some theirs ∨ some theirs = base
  · rw [mergeAt_same h1]
    rfl
  by_cases h2 : some ours = base
  · rw [mergeAt_theirs h2]
    rfl
  have hd : Differ base (some ours) (some theirs) :=
    ⟨fun e => h1 (Or.inl e), fun e => h1 (Or.inr e), h2⟩
  by_cases hb : BothObjects (some ours) (some theirs)
  · obtain ⟨o, t, ho, ht⟩ := hb
    cases ho
    cases ht
    rw [mergeAt_objects hd]
    rfl
  · rw [mergeAt_clash ⟨hd, hb⟩]
    split <;> rfl

theorem merge3_eq_ok {base : Option Value} {ours theirs merged : Value}
    {pick : String → Option Side} : merge3 base ours theirs pick = .ok merged ↔
      mergeAt pick "" base (some ours) (some theirs) = (some merged, []) := by
  have hs := mergeAt_isSome pick "" base ours theirs
  unfold merge3
  generalize mergeAt pick "" base (some ours) (some theirs) = r at *
  obtain ⟨value, conflicts⟩ := r
  obtain ⟨v, rfl⟩ := Option.isSome_iff_exists.mp hs
  cases conflicts <;> simp

theorem merge3_eq_error {base : Option Value} {ours theirs : Value}
    {pick : String → Option Side} {conflicts : List FieldConflict} :
    merge3 base ours theirs pick = .error conflicts ↔
      conflicts ≠ [] ∧ (mergeAt pick "" base (some ours) (some theirs)).2 = conflicts := by
  unfold merge3
  generalize mergeAt pick "" base (some ours) (some theirs) = r
  obtain ⟨value, found⟩ := r
  cases found <;> grind

/-- **A merge without conflicts loses no edit**: at every path it has the side that changed. -/
theorem merge_keeps_edits (base : Option Value) (ours theirs merged : Value)
    (h : merge3 base ours theirs (fun _ => none) = .ok merged) (p : List String) :
    (valueAt (some theirs) p = valueAt base p → valueAt (some merged) p = valueAt (some ours) p) ∧
    (valueAt (some ours) p = valueAt base p → valueAt (some merged) p = valueAt (some theirs) p) ∧
    (valueAt (some ours) p = valueAt (some theirs) p →
      valueAt (some merged) p = valueAt (some ours) p) := by
  rw [merge3_eq_ok] at h
  have hk := mergeAt_keeps_edits base (some ours) (some theirs) "" (by rw [h]) p
  rw [h] at hk
  exact hk

/-- ours drops `b` and theirs adds `c`: both are done -/
theorem merge_keeps_edits_of_two :
    merge3 (some (.object [("a", .null), ("b", .null)])) (.object [("a", .null)])
        (.object [("a", .null), ("b", .null), ("c", .bool true)]) (fun _ => none)
      = .ok (.object [("a", .null), ("c", .bool true)]) ∧
    valueAt (some (.object [("a", .null), ("c", .bool true)])) ["b"] = none := by
  have h : merge3 (some (.object [("a", .null), ("b", .null)])) (.object [("a", .null)])
      (.object [("a", .null), ("b", .null), ("c", .bool true)]) (fun _ => none)
      = .ok (.object [("a", .null), ("c", .bool true)]) := by decide +kernel
  exact ⟨h, (merge_keeps_edits _ _ _ _ h ["b"]).1 (by decide)⟩

/-! ## the merged document -/

theorem ordered_lookup {fields : List (String × Value)} (h : (Value.object fields).Ordered)
    {key : String} {v : Value} (hv : fields.lookup key = some v) : v.Ordered := by
  have hm : (key, v) ∈ fields := (OrdMap.lookup_eq_of_mem h.1 key v).mpr hv
  exact (Value.orderedFields_iff fields).mp h.2 (key, v) hm

theorem object_ext {o t : List (String × Value)} (ho : o.Pairwise (fun p q => p.1 < q.1))
    (ht : t.Pairwise (fun p q => p.1 < q.1)) (h : ∀ key, o.lookup key = t.lookup key) :
    Value.object o = .object t := by
  have heq : (⟨o, ho⟩ : OrdMap String Value) = ⟨t, ht⟩ := OrdMap.ext_get? h
  exact congrArg Value.object (congrArg OrdMap.toList heq)

/-! ## the sides exchanged -/

/-- **The merge favours no side**: with the sides exchanged, and every pick with them, it finds the
same conflicts, and without any it merges to the same value. -/
theorem mergeAt_swap (pick : String → Option Side) (base ours theirs : Option Value)
    (path : String) :
    (mergeAt (fun p => (pick p).map Side.flip) path base theirs ours).2 =
        (mergeAt pick path base ours theirs).2.map FieldConflict.swap ∧
      ((mergeAt pick path base ours theirs).2 = [] →
        (mergeAt (fun p => (pick p).map Side.flip) path base theirs ours).1 =
          (mergeAt pick path base ours theirs).1) := by
  induction base, ours, theirs using merge_induction generalizing path with
  | same b o t h =>
    rw [mergeAt_same h]
    rcases h with rfl | rfl
    · rw [mergeAt_same (Or.inl rfl)]
      exact ⟨rfl, fun _ => rfl⟩
    · rw [mergeAt_theirs rfl]
      exact ⟨rfl, fun _ => rfl⟩
  | theirs b o t h =>
    subst h
    rw [mergeAt_theirs rfl, mergeAt_same (Or.inr rfl)]
    exact ⟨rfl, fun _ => rfl⟩
  | clash b o t h =>
    rw [mergeAt_clash h, mergeAt_clash h.swap]
    cases pick path with
    | none => exact ⟨rfl, fun hc => absurd hc (by simp)⟩
    | some side => cases side <;> exact ⟨rfl, fun _ => rfl⟩
  | objects b o t h ih =>
    refine ⟨?_, fun hc => ?_⟩
    · rw [mergeAt_objects_conflicts h, mergeAt_objects_conflicts h.swap, unionKeys_comm t o,
        List.map_flatMap]
      exact List.flatMap_congr (fun key _ => (ih key (childPath path key)).1)
    · have hm := fun key => (ih key (childPath path key)).2 (mergeAt_member_conflicts h hc key)
      rw [mergeAt_objects h, mergeAt_objects h.swap, unionKeys_comm t o]
      simp only [hm]

/-! ## the conflicts -/

theorem mergeAt_decided {pick : String → Option Side} (hp : ∀ path, pick path ≠ none)
    (base ours theirs : Option Value) (path : String) :
    (mergeAt pick path base ours theirs).2 = [] := by
  induction base, ours, theirs using merge_induction generalizing path with
  | same b o t h => rw [mergeAt_same h]
  | theirs b o t h => rw [mergeAt_theirs h]
  | clash b o t h =>
    rw [mergeAt_clash h]
    obtain ⟨side, hs⟩ := Option.ne_none_iff_exists'.mp (hp path)
    rw [hs]
    cases side <;> rfl
  | objects b o t h ih =>
    rw [mergeAt_objects_conflicts h, List.flatMap_eq_nil_iff]
    exact fun key _ => ih key (childPath path key)

/-- a clash that lies in no other: every path that ends before it is decided -/
def TopClash (base ours theirs : Option Value) (q : List String) : Prop :=
  Clash (valueAt base q) (valueAt ours q) (valueAt theirs q) ∧
  ∀ p, p <+: q → p ≠ q → ¬ Clash (valueAt base p) (valueAt ours p) (valueAt theirs p)

section
variable {base ours theirs : Option Value}

theorem TopClash.differ {q : List String} (h : TopClash base ours theirs q) :
    Differ base ours theirs := h.1.1.of_valueAt

theorem topClash_of_clash (h : Clash base ours theirs) (q : List String) :
    TopClash base ours theirs q ↔ q = [] := by
  constructor
  · intro hq
    by_contra hne
    exact hq.2 [] List.nil_prefix (Ne.symm hne) h
  · rintro rfl
    exact ⟨h, fun p hp hne => absurd (List.prefix_nil.mp hp) hne⟩

theorem not_topClash_nil (h : BothObjects ours theirs) : ¬ TopClash base ours theirs [] :=
  fun hq => hq.1.2 h

theorem topClash_cons {o t : List (String × Value)} (key : String) (q : List String) :
    TopClash base (some (.object o)) (some (.object t)) (key :: q) ↔
      TopClash (member base key) (o.lookup key) (t.lookup key) q := by
  constructor
  · intro h
    refine ⟨h.1, fun p hp hne => ?_⟩
    exact h.2 (key :: p) (List.cons_prefix_cons.mpr ⟨rfl, hp⟩) (fun e => hne (List.cons.inj e).2)
  · intro h
    refine ⟨h.1, fun p hp hne => ?_⟩
    cases p with
    | nil => exact fun hc => hc.2 ⟨o, t, rfl, rfl⟩
    | cons k p =>
      obtain ⟨rfl, hp'⟩ := List.cons_prefix_cons.mp hp
      exact h.2 p hp' (fun e => hne (by rw [e]))

theorem exists_topClash {q : List String}
    (h : Clash (valueAt base q) (valueAt ours q) (valueAt theirs q)) :
    ∃ p, p <+: q ∧ TopClash base ours theirs p := by
  induction hn : q.length using Nat.strong_induction_on generalizing q with
  | _ n ih =>
    subst hn
    by_cases ht : TopClash base ours theirs q
    · exact ⟨q, List.prefix_refl q, ht⟩
    · have hp : ∃ p, p <+: q ∧ p ≠ q ∧
          Clash (valueAt base p) (valueAt ours p) (valueAt theirs p) := by
        by_contra hno
        exact ht ⟨h, fun p hp hne hc => hno ⟨p, hp, hne, hc⟩⟩
      obtain ⟨p, hp, hne, hc⟩ := hp
      have hlt : p.length < q.length :=
        lt_of_le_of_ne hp.length_le (fun e => hne (hp.eq_of_length e))
      obtain ⟨r, hr, ht⟩ := ih p.length hlt hc rfl
      exact ⟨r, hr.trans hp, ht⟩

end

/-- the conflict at a key path below `path` -/
def conflictAt (path : String) (base ours theirs : Option Value) (q : List String) :
    FieldConflict :=
  conflictOf (q.foldl childPath path) (valueAt base q) (valueAt ours q) (valueAt theirs q)

/-- **The conflicts of a merge without picks are the topmost clashes**, each once. -/
theorem mergeAt_conflicts (base ours theirs : Option Value) (path : String) :
    ∃ qs : List (List String), qs.Nodup ∧ (∀ q, q ∈ qs ↔ TopClash base ours theirs q) ∧
      (mergeAt (fun _ => none) path base ours theirs).2 =
        qs.map (conflictAt path base ours theirs) := by
  induction base, ours, theirs using merge_induction generalizing path with
  | same b o t h =>
    refine ⟨[], List.nodup_nil, fun q => ?_, by rw [mergeAt_same h]; rfl⟩
    refine iff_of_false List.not_mem_nil (fun ht => ?_)
    exact h.elim ht.differ.1 ht.differ.2.1
  | theirs b o t h =>
    refine ⟨[], List.nodup_nil, fun q => ?_, by rw [mergeAt_theirs h]; rfl⟩
    exact iff_of_false List.not_mem_nil (fun ht => ht.differ.2.2 h)
  | clash b o t h =>
    refine ⟨[[]], List.nodup_singleton _, fun q => ?_, by rw [mergeAt_clash h]; rfl⟩
    rw [List.mem_singleton, topClash_of_clash h]
  | objects b o t h ih =>
    -- below each key, in key order, the paths of its member
    choose qs hnd hmem hcs using fun key => ih key (childPath path key)
    refine ⟨(unionKeys o t).flatMap (fun key => (qs key).map (key :: ·)), ?_, fun q => ?_, ?_⟩
    · rw [List.nodup_flatMap]
      refine ⟨fun key _ => (hnd key).map (fun _ _ e => (List.cons.inj e).2), ?_⟩
      refine (unionKeys_nodup o t).imp (fun {k k'} hne => ?_)
      intro q hq hq'
      obtain ⟨p, -, rfl⟩ := List.mem_map.mp hq
      obtain ⟨p', -, e⟩ := List.mem_map.mp hq'
      exact hne (List.cons.inj e).1.symm
    · cases q with
      | nil =>
        refine iff_of_false (fun hq => ?_) (not_topClash_nil ⟨o, t, rfl, rfl⟩)
        obtain ⟨key, -, hq⟩ := List.mem_flatMap.mp hq
        obtain ⟨p, -, e⟩ := List.mem_map.mp hq
        exact absurd e (List.cons_ne_nil _ _)
      | cons key q =>
        rw [topClash_cons, ← hmem key]
        constructor
        · intro hq
          obtain ⟨k, -, hq⟩ := List.mem_flatMap.mp hq
          obtain ⟨p, hp, e⟩ := List.mem_map.mp hq
          obtain ⟨rfl, rfl⟩ := List.cons.inj e
          exact hp
        · intro hq
          refine List.mem_flatMap.mpr ⟨key, ?_, List.mem_map.mpr ⟨q, hq, rfl⟩⟩
          -- a key of neither object has no value on either side, so nothing clashes there
          by_contra hk
          obtain ⟨h1, h2⟩ := lookup_none_of_not_mem_unionKeys hk
          exact ((hmem key q).mp hq).differ.1 (h1.trans h2.symm)
    · rw [mergeAt_objects_conflicts h, List.map_flatMap]
      refine List.flatMap_congr (fun key _ => ?_)
      rw [hcs key, List.map_map]
      rfl

theorem merge3_swap (base : Option Value) (ours theirs : Value) (pick : String → Option Side) :
    merge3 base theirs ours (fun p => (pick p).map Side.flip) =
      (merge3 base ours theirs pick).mapError (List.map FieldConflict.swap) := by
  obtain ⟨h1, h2⟩ := mergeAt_swap pick base (some ours) (some theirs) ""
  unfold merge3
  generalize mergeAt (fun p => (pick p).map Side.flip) "" base (some theirs) (some ours) = r' at *
  generalize mergeAt pick "" base (some ours) (some theirs) = r at *
  obtain ⟨value, conflicts⟩ := r
  obtain ⟨value', conflicts'⟩ := r'
  subst h1
  cases conflicts with
  | nil =>
    have hv : value' = value := h2 rfl
    rw [hv]
    rfl
  | cons c cs => rfl

theorem merge3_decided (base : Option Value) (ours theirs : Value) {pick : String → Option Side}
    (hp : ∀ path, pick path ≠ none) : ∃ merged, merge3 base ours theirs pick = .ok merged := by
  obtain ⟨merged, hm⟩ := Option.isSome_iff_exists.mp (mergeAt_isSome pick "" base ours theirs)
  exact ⟨merged, merge3_eq_ok.mpr (Prod.ext hm (mergeAt_decided hp ..))⟩

/-- **The merge is symmetric and its conflicts are complete.**  Exchanging the sides, and every
pick with them, gives the same merged value or the same conflicts seen from the other side; picks
for every path always merge; and without picks the merge fails exactly where a path has three
values no two of which are equal, the sides not both objects, listing the topmost such paths. -/
theorem merge_conflicts (base : Option Value) (ours theirs : Value)
    (pick : String → Option Side) :
    merge3 base theirs ours (fun p => (pick p).map Side.flip) =
        (merge3 base ours theirs pick).mapError (List.map FieldConflict.swap) ∧
    ((∀ path, pick path ≠ none) → ∃ merged, merge3 base ours theirs pick = .ok merged) ∧
    ((∃ conflicts, merge3 base ours theirs (fun _ => none) = .error conflicts) ↔
      ∃ q, Clash (valueAt base q) (valueAt (some ours) q) (valueAt (some theirs) q)) ∧
    (∀ conflicts, merge3 base ours theirs (fun _ => none) = .error conflicts →
      ∃ qs : List (List String), qs.Nodup ∧
        (∀ q, q ∈ qs ↔ TopClash base (some ours) (some theirs) q) ∧
        conflicts = qs.map (conflictAt "" base (some ours) (some theirs))) := by
  obtain ⟨qs, hnd, hmem, hcs⟩ := mergeAt_conflicts base (some ours) (some theirs) ""
  refine ⟨merge3_swap base ours theirs pick, merge3_decided base ours theirs, ⟨?_, ?_⟩, ?_⟩
  · rintro ⟨conflicts, he⟩
    obtain ⟨hne, he⟩ := merge3_eq_error.mp he
    rw [hcs] at he
    obtain ⟨q, hq⟩ := List.exists_mem_of_ne_nil qs (fun e => hne (by rw [← he, e]; rfl))
    exact ⟨q, ((hmem q).mp hq).1⟩
  · rintro ⟨q, hq⟩
    obtain ⟨p, -, hp⟩ := exists_topClash hq
    refine ⟨_, merge3_eq_error.mpr ⟨?_, rfl⟩⟩
    rw [hcs]
    exact fun e => List.ne_nil_of_mem ((hmem p).mpr hp) (List.map_eq_nil_iff.mp e)
  · intro conflicts he
    obtain ⟨-, he⟩ := merge3_eq_error.mp he
    exact ⟨qs, hnd, hmem, by rw [← he, hcs]⟩

/-- both sides changed `a`: without a pick it is the one conflict, with picks it merges -/
theorem merge_conflicts_of_one :
    (∃ q, Clash (valueAt (some (.object [("a", .null)])) q)
      (valueAt (some (.object [("a", .bool true)])) q)
      (valueAt (some (.object [("a", .bool false)])) q)) ∧
    ∃ merged, merge3 (some (.object [("a", .null)])) (.object [("a", .bool true)])
      (.object [("a", .bool false)]) (fun _ => some .ours) = .ok merged := by
  obtain ⟨-, hd, hc, -⟩ := merge_conflicts (some (.object [("a", .null)]))
    (.object [("a", .bool true)]) (.object [("a", .bool false)]) (fun _ => some .ours)
  have he : merge3 (some (.object [("a", .null)])) (.object [("a", .bool true)])
      (.object [("a", .bool false)]) (fun _ => none)
      = .error [⟨"a", .bool true, .bool false, .null⟩] := by decide +kernel
  exact ⟨hc.mp ⟨_, he⟩, hd (fun _ => Option.some_ne_none _)⟩

/-- both sides put an object where the base had a number: no two of the three are equal and not
all are objects, and still the objects merge -/
theorem merge_of_objects_over_scalar :
    ∃ (base ours theirs merged : Value) (q : List String),
      Differ (valueAt (some base) q) (valueAt (some ours) q) (valueAt (some theirs) q) ∧
      (¬ ∃ b o t, valueAt (some base) q = some (.object b) ∧
        valueAt (some ours) q = some (.object o) ∧ valueAt (some theirs) q = some (.object t)) ∧
      merge3 (some base) ours theirs (fun _ => none) = .ok merged := by
  refine ⟨.object [("a", .bool true)], .object [("a", .object [("x", .null)])],
    .object [("a", .object [("y", .null)])], .object [("a", .object [("x", .null), ("y", .null)])],
    ["a"], ⟨by decide, by decide, by decide⟩, ?_, by decide +kernel⟩
  rintro ⟨b, o, t, hb, -, -⟩
  exact absurd hb (by simp [member, Value.get?, Value.asObject])

end Portal
