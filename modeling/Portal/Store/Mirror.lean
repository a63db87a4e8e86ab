import Mathlib.Data.List.Destutter
import Mathlib.Data.Prod.Lex
import Portal.Base.Document

/-!
# The mirror (`store.rs`: `Mirror`)

The manifests of the repository, each under its namespace, kind and name and in this order.  Of a
manifest the models read the spec; its name is its key's.

* `Mirror.get`, `Mirror.list`   one manifest, and all of a namespace and kind by name, which is one
                                range of the map;
* `Mirror.namespaces`           the projects, each once;
* `Mirror.write`, `Mirror.put`  one manifest put into its place, or taken from it;
* `list_get?`, `list_write`     the range is what is found under its keys.
-/

namespace Portal

/-- a manifest by namespace, kind and name, in this order -/
abbrev ResourceKey := Lex (String × Lex (String × String))

instance : LawfulBEq ResourceKey := inferInstance

namespace ResourceKey

def of (ns kind name : String) : ResourceKey := toLex (ns, toLex (kind, name))

def ns (key : ResourceKey) : String := (ofLex key).1

def kind (key : ResourceKey) : String := (ofLex (ofLex key).2).1

def name (key : ResourceKey) : String := (ofLex (ofLex key).2).2

@[simp] theorem ns_of (ns kind name : String) : (of ns kind name).ns = ns := rfl

@[simp] theorem kind_of (ns kind name : String) : (of ns kind name).kind = kind := rfl

@[simp] theorem name_of (ns kind name : String) : (of ns kind name).name = name := rfl

@[simp] theorem of_inj {ns kind name ns' kind' name' : String} :
    of ns kind name = of ns' kind' name' ↔ ns = ns' ∧ kind = kind' ∧ name = name' := by
  refine ⟨fun h => ⟨congrArg ResourceKey.ns h, congrArg ResourceKey.kind h,
    congrArg ResourceKey.name h⟩, ?_⟩
  rintro ⟨rfl, rfl, rfl⟩
  rfl

theorem lt_iff (a b : ResourceKey) :
    a < b ↔ a.ns < b.ns ∨ a.ns = b.ns ∧ (a.kind < b.kind ∨ a.kind = b.kind ∧ a.name < b.name) := by
  rw [Prod.Lex.lt_iff, Prod.Lex.lt_iff]
  rfl

theorem start_le (key : ResourceKey) : of key.ns key.kind "" ≤ key := by
  refine not_lt.mp (fun h => ?_)
  rw [lt_iff] at h
  rcases h with h | ⟨_, h | ⟨_, h⟩⟩
  · exact lt_irrefl _ h
  · exact lt_irrefl _ h
  · exact absurd (String.lt_iff_toList_lt.mp h) (by simp)

/-- **One kind is one range**: what stands under a namespace and kind is what the map holds from their
first key on, up to the first key of another, whatever text the one begins with. -/
theorem takeWhile_kind {α : Type*} (m : OrdMap ResourceKey α) (ns kind : String) :
    (m.range (of ns kind "")).takeWhile (fun p => p.1.ns = ns && p.1.kind = kind)
      = m.toList.filter (fun p => p.1.ns = ns && p.1.kind = kind) := by
  refine m.takeWhile_range (q := fun k => k.ns = ns && k.kind = kind) (fun k hk => ?_)
    (fun k k' hstart hlt hk' => ?_)
  · rw [Bool.and_eq_true, decide_eq_true_eq, decide_eq_true_eq] at hk
    obtain ⟨rfl, rfl⟩ := hk
    exact k.start_le
  · -- between the start of the range and one of its keys stand only keys of the range
    rw [Bool.and_eq_true, decide_eq_true_eq, decide_eq_true_eq] at hk' ⊢
    rw [lt_iff, hk'.1, hk'.2] at hlt
    rw [← not_lt, lt_iff] at hstart
    simp only [ns_of, kind_of, not_or, not_and] at hstart
    rcases hlt with h | ⟨hns, h | ⟨hkind, _⟩⟩
    · exact absurd h hstart.1
    · exact absurd h (hstart.2 hns).1
    · exact ⟨hns, hkind⟩

end ResourceKey

/-- the namespace of the manifests that belong to no project -/
def orgNamespace : String := "org"

structure Mirror where
  resources : OrdMap ResourceKey Value

namespace Mirror

def get (m : Mirror) (ns kind name : String) : Option Value :=
  m.resources.get? (ResourceKey.of ns kind name)

def kindRange (m : Mirror) (ns kind : String) : List (ResourceKey × Value) :=
  (m.resources.range (ResourceKey.of ns kind "")).takeWhile
    (fun p => p.1.ns = ns && p.1.kind = kind)

theorem kindRange_sorted (m : Mirror) (ns kind : String) :
    (m.kindRange ns kind).Pairwise (fun p q => p.1 < q.1) :=
  m.resources.sorted.sublist
    ((List.takeWhile_prefix _).sublist.trans (m.resources.range_sublist _))

theorem mem_kindRange (m : Mirror) (ns kind : String) (p : ResourceKey × Value) :
    p ∈ m.kindRange ns kind ↔ p ∈ m.resources.toList ∧ p.1.ns = ns ∧ p.1.kind = kind := by
  unfold kindRange
  rw [ResourceKey.takeWhile_kind, List.mem_filter, Bool.and_eq_true, decide_eq_true_eq,
    decide_eq_true_eq]

/-- the manifests of a namespace and kind by name, all on one page -/
def list (m : Mirror) (ns kind : String) : OrdMap String Value where
  toList := (m.kindRange ns kind).map (fun p => (p.1.name, p.2))
  sorted := by
    rw [List.pairwise_map]
    refine List.Pairwise.imp_of_mem ?_ (m.kindRange_sorted ns kind)
    intro p q hp hq hlt
    obtain ⟨_, hp1, hp2⟩ := (m.mem_kindRange ns kind p).mp hp
    obtain ⟨_, hq1, hq2⟩ := (m.mem_kindRange ns kind q).mp hq
    rw [ResourceKey.lt_iff, hp1, hp2, hq1, hq2] at hlt
    rcases hlt with h | ⟨_, h | ⟨_, h⟩⟩
    · exact absurd h (lt_irrefl ns)
    · exact absurd h (lt_irrefl kind)
    · exact h

/-- every project of the repository: the namespaces of its manifests but for the organization's -/
def namespaces (m : Mirror) : List String :=
  ((m.resources.keys.map ResourceKey.ns).filter (fun ns => ns ≠ "" && ns ≠ orgNamespace)).destutter
    (· ≠ ·)

/-- the mirror with one manifest written, over the one of its name or beside the others -/
def write (m : Mirror) (ns kind name : String) (spec : Value) : Mirror :=
  ⟨m.resources.insert (ResourceKey.of ns kind name) spec⟩

/-- the mirror with one manifest written, or removed -/
def put (m : Mirror) (ns kind name : String) (spec : Option Value) : Mirror :=
  ⟨m.resources.alter (ResourceKey.of ns kind name) (fun _ => spec)⟩

/-! ## what is listed is what is found -/

theorem list_get? (m : Mirror) (ns kind name : String) :
    (m.list ns kind).get? name = m.get ns kind name := by
  refine Option.ext (fun spec => ?_)
  rw [← OrdMap.mem_toList]
  unfold Mirror.get
  rw [← OrdMap.mem_toList]
  show (name, spec) ∈ (m.kindRange ns kind).map (fun p => (p.1.name, p.2)) ↔ _
  rw [List.mem_map]
  constructor
  · rintro ⟨p, hp, he⟩
    obtain ⟨hmem, rfl, rfl⟩ := (m.mem_kindRange ns kind p).mp hp
    obtain ⟨rfl, rfl⟩ := Prod.mk.inj he
    exact hmem
  · intro h
    exact ⟨_, (m.mem_kindRange ns kind _).mpr ⟨h, rfl, rfl⟩, rfl⟩

theorem get_write (m : Mirror) (ns kind name ns' kind' name' : String) (spec : Value) :
    (m.write ns kind name spec).get ns' kind' name'
      = if ns' = ns ∧ kind' = kind ∧ name' = name then some spec else m.get ns' kind' name' := by
  unfold Mirror.get write
  rw [OrdMap.get?_insert]
  simp only [ResourceKey.of_inj]

theorem list_write (m : Mirror) (ns kind name : String) (spec : Value) :
    (m.write ns kind name spec).list ns kind = (m.list ns kind).insert name spec := by
  refine OrdMap.ext_get? (fun k => ?_)
  rw [list_get?, get_write, OrdMap.get?_insert, list_get?]
  simp

theorem list_write_of_ne (m : Mirror) {ns kind ns' kind' : String} (h : ¬ (ns' = ns ∧ kind' = kind))
    (name : String) (spec : Value) :
    (m.write ns kind name spec).list ns' kind' = m.list ns' kind' := by
  refine OrdMap.ext_get? (fun k => ?_)
  rw [list_get?, list_get?, get_write, if_neg]
  exact fun hc => h ⟨hc.1, hc.2.1⟩

theorem get_put (m : Mirror) (ns kind name ns' kind' name' : String) (spec : Option Value) :
    (m.put ns kind name spec).get ns' kind' name'
      = if ns' = ns ∧ kind' = kind ∧ name' = name then spec else m.get ns' kind' name' := by
  unfold Mirror.get put
  rw [OrdMap.get?_alter]
  simp only [ResourceKey.of_inj]

theorem list_put (m : Mirror) (ns kind name : String) (spec : Option Value) :
    (m.put ns kind name spec).list ns kind = (m.list ns kind).alter name (fun _ => spec) := by
  refine OrdMap.ext_get? (fun k => ?_)
  rw [list_get?, get_put, OrdMap.get?_alter, list_get?]
  simp

theorem list_put_of_ne (m : Mirror) {ns kind ns' kind' : String} (h : ¬ (ns' = ns ∧ kind' = kind))
    (name : String) (spec : Option Value) :
    (m.put ns kind name spec).list ns' kind' = m.list ns' kind' := by
  refine OrdMap.ext_get? (fun k => ?_)
  rw [list_get?, list_get?, get_put, if_neg]
  exact fun hc => h ⟨hc.1, hc.2.1⟩

/-- **Each project once**, in order. -/
theorem namespaces_sorted (m : Mirror) : m.namespaces.Pairwise (· < ·) := by
  have hkeys : (m.resources.keys.map ResourceKey.ns).Pairwise (· ≤ ·) := by
    rw [List.pairwise_map]
    show (m.resources.toList.map Prod.fst).Pairwise _
    rw [List.pairwise_map]
    refine m.resources.sorted.imp (fun h => ?_)
    rcases (ResourceKey.lt_iff _ _).mp h with h | ⟨h, _⟩
    · exact le_of_lt h
    · exact le_of_eq h
  have hle : m.namespaces.Pairwise (· ≤ ·) :=
    hkeys.sublist ((List.destutter_sublist _ _).trans List.filter_sublist)
  have hne : m.namespaces.IsChain (· ≠ ·) := List.isChain_destutter _ _
  -- neighbours differ, so of a list in order no later one is the same
  generalize m.namespaces = l at hle hne ⊢
  induction l with
  | nil => exact List.Pairwise.nil
  | cons x l ih =>
    obtain ⟨h1, h2⟩ := List.pairwise_cons.mp hle
    refine List.pairwise_cons.mpr ⟨fun y hy => ?_, ih h2 hne.tail⟩
    cases l with
    | nil => exact absurd hy List.not_mem_nil
    | cons z l =>
      have hz : x < z := lt_of_le_of_ne (h1 z List.mem_cons_self) (List.isChain_cons_cons.mp hne).1
      rcases List.mem_cons.mp hy with rfl | hy
      · exact hz
      · exact lt_of_lt_of_le hz ((List.pairwise_cons.mp h2).1 y hy)

theorem mem_destutter_ne {α : Type} [DecidableEq α] {b : α} (l : List α) (a : α) :
    b ∈ l.destutter' (· ≠ ·) a ↔ b = a ∨ b ∈ l := by
  induction l generalizing a with
  | nil => simp
  | cons c l ih =>
    by_cases h : a = c
    · rw [List.destutter'_cons_neg _ (by simpa using h), ih, List.mem_cons, h]
      tauto
    · rw [List.destutter'_cons_pos _ h, List.mem_cons, ih, List.mem_cons]

theorem mem_namespaces (m : Mirror) (ns : String) :
    ns ∈ m.namespaces ↔
      ns ≠ "" ∧ ns ≠ orgNamespace ∧ ∃ kind name, (m.get ns kind name).isSome = true := by
  have hmem : ns ∈ m.namespaces ↔ ns ∈ (m.resources.keys.map ResourceKey.ns).filter
      (fun ns => ns ≠ "" && ns ≠ orgNamespace) := by
    unfold namespaces
    generalize (m.resources.keys.map ResourceKey.ns).filter _ = l
    cases l with
    | nil => rfl
    | cons a l => rw [List.destutter_cons', mem_destutter_ne, List.mem_cons]
  rw [hmem, List.mem_filter, List.mem_map]
  simp only [OrdMap.mem_keys, ne_eq, decide_not, Bool.and_eq_true, Bool.not_eq_true',
    decide_eq_false_iff_not, Option.isSome_iff_exists]
  constructor
  · rintro ⟨⟨key, ⟨spec, hspec⟩, rfl⟩, h1, h2⟩
    exact ⟨h1, h2, key.kind, key.name, spec, hspec⟩
  · rintro ⟨h1, h2, kind, name, spec, hspec⟩
    exact ⟨⟨ResourceKey.of ns kind name, ⟨spec, hspec⟩, rfl⟩, h1, h2⟩

end Mirror

end Portal
