import Mathlib.Data.List.DropRight
import Portal.Base.OrdMap
import Portal.Store.Mirror

/-!
# A condition's `lastTransitionTime` (`reconciler/transitions.rs`)

Every run compiles the conditions afresh and stamps each; one that says what it said when the run
started is given the time it had then.  A run writes a whole fresh mirror and after it single
envelopes, all of them through `keep` with the conditions the run started from.

* `Transitions.of`, `keep`, `keepAll`   the source, over the envelopes of the mirror (`store.rs`);
* `Resources`               envelopes under their own keys, each under a name of its kind;
* `apply_slot`              what one run makes of one condition: `settle`;
* `settled`, `foldl_settle` the same over a history, and what it comes to;
* `lastTransitionTime_true` **the time of a condition is when the runs began to say it**.
-/

namespace Portal.Transitions

structure Condition where
  type : String
  status : String
  reason : Option String
  message : Option String
  lastTransitionTime : Option Int
deriving DecidableEq

structure Status where
  conditions : List Condition
  rest : Value

/-- `ResourceEnvelope`; a cluster-scoped one has no namespace -/
structure Envelope where
  ns : Option String
  kind : String
  name : String
  spec : Value
  status : Option Status

def Envelope.key (env : Envelope) : ResourceKey := .of (env.ns.getD "") env.kind env.name

def Envelope.conditions (env : Envelope) : List Condition :=
  (env.status.map Status.conditions).getD []

def Envelope.hasConditions (env : Envelope) : Bool :=
  match env.status with
  | some status => !status.conditions.isEmpty
  | none => false

/-- the names `jc_core` accepts: DNS-1123 labels and the names of spaces -/
structure Names where
  label : String → Bool
  space : String → Bool

def Names.isManifestName (names : Names) (kind name : String) : Bool :=
  if kind = "ContextSpace" then names.space name else names.label name

def Names.admits (names : Names) (key : ResourceKey) : Bool :=
  names.label key.ns && names.isManifestName key.kind key.name

/-- the resources of a mirror, which only `upsert` puts there -/
structure Resources (names : Names) where
  map : OrdMap ResourceKey Envelope
  filed : ∀ key env, map.get? key = some env → env.key = key ∧ names.admits key

namespace Resources
variable {names : Names}

def empty : Resources names := ⟨OrdMap.empty, fun _ _ h => nomatch h⟩

def get? (m : Resources names) (key : ResourceKey) : Option Envelope := m.map.get? key

/-- a manifest whose namespace or name is not a name of its kind is left out -/
def upsert (m : Resources names) (env : Envelope) : Resources names :=
  if h : names.admits env.key then
    ⟨m.map.insert env.key env, fun key env' hget => by
      rw [OrdMap.get?_insert] at hget
      split at hget
      · next hk =>
        obtain rfl : env = env' := Option.some.inj hget
        exact ⟨hk.symm, hk ▸ h⟩
      · exact m.filed key env' hget⟩
  else m

def matching (m : Resources names) (p : Envelope → Bool) : List Envelope :=
  (m.map.toList.map Prod.snd).filter p

end Resources

abbrev Slot := Lex (ResourceKey × String)

def slot (env : Envelope) (type : String) : Slot := toLex (env.key, type)

/-- status, reason and the time of the last transition -/
abbrev Said := String × Option String × Int

/-- what a run puts into the map of one condition -/
def said (env : Envelope) (c : Condition) : Option (Slot × Said) :=
  c.lastTransitionTime.map (fun time => (slot env c.type, c.status, c.reason, time))

/-- the conditions the mirror holds now -/
def of {names : Names} (m : Resources names) : OrdMap Slot Said :=
  OrdMap.ofList ((m.matching Envelope.hasConditions).flatMap
    (fun env => env.conditions.filterMap (said env)))

/-- one condition, and whether its time changed -/
def keepOne (was : Option Said) (c : Condition) : Condition × Bool :=
  match was with
  | none => (c, false)
  | some (status, reason, time) =>
    if status = c.status ∧ reason = c.reason ∧ c.lastTransitionTime ≠ some time then
      ({ c with lastTransitionTime := some time }, true)
    else (c, false)

def keep (t : OrdMap Slot Said) (env : Envelope) : Envelope × Bool :=
  match env.status with
  | none => (env, false)
  | some status =>
    let kept := status.conditions.map (fun c => keepOne (t.get? (slot env c.type)) c)
    ({ env with status := some { status with conditions := kept.map Prod.fst } },
      kept.any Prod.snd)

/-- `keep` on every resource that carries a condition -/
def keepAll {names : Names} (t : OrdMap Slot Said) (m : Resources names) : Resources names :=
  (m.matching Envelope.hasConditions).foldl
    (fun m env => if (keep t env).2 then m.upsert (keep t env).1 else m) m

/-- what one run writes: its fresh mirror, then single envelopes -/
structure Run (names : Names) where
  fresh : Resources names
  later : List Envelope

/-- the mirror after a run that found `m` -/
def Run.apply {names : Names} (m : Resources names) (r : Run names) : Resources names :=
  let t := of m
  r.later.foldl (fun m env => m.upsert (keep t env).1) (keepAll t r.fresh)

/-- what the run wrote of a resource last, before any time was kept -/
def Run.wrote {names : Names} (r : Run names) (key : ResourceKey) : Option Envelope :=
  (r.later.foldl (fun m env => m.upsert env) r.fresh).get? key

/-! ## one condition -/

def Envelope.condition (env : Envelope) (type : String) : Option Condition :=
  env.conditions.find? (fun c => c.type = type)

def Envelope.Unique (env : Envelope) : Prop := (env.conditions.map Condition.type).Nodup

namespace Resources
variable {names : Names}

def condition (m : Resources names) (key : ResourceKey) (type : String) : Option Condition :=
  (m.get? key).bind (fun env => env.condition type)

def Unique (m : Resources names) : Prop := ∀ key env, m.get? key = some env → env.Unique

theorem get?_upsert (m : Resources names) (env : Envelope) (key : ResourceKey) :
    (m.upsert env).get? key
      = if names.admits env.key ∧ key = env.key then some env else m.get? key := by
  unfold upsert
  split
  · next h =>
    show (m.map.insert env.key env).get? key = _
    rw [OrdMap.get?_insert]
    simp only [h, true_and]
    rfl
  · next h =>
    rw [if_neg (fun h' => h h'.1)]

theorem mem_matching {m : Resources names} {p : Envelope → Bool} {env : Envelope} :
    env ∈ m.matching p ↔ m.get? env.key = some env ∧ p env := by
  unfold matching
  rw [List.mem_filter, List.mem_map]
  constructor
  · rintro ⟨⟨⟨key, env'⟩, hmem, rfl⟩, hp⟩
    have hget := (OrdMap.mem_toList m.map key env').1 hmem
    rw [← (m.filed key env' hget).1] at hget
    exact ⟨hget, hp⟩
  · rintro ⟨hget, hp⟩
    exact ⟨⟨(env.key, env), (OrdMap.mem_toList m.map env.key env).2 hget, rfl⟩, hp⟩

theorem matching_keys_nodup (m : Resources names) (p : Envelope → Bool) :
    ((m.matching p).map Envelope.key).Nodup := by
  have hkeys : (m.map.toList.map Prod.snd).map Envelope.key = m.map.keys := by
    rw [List.map_map, OrdMap.keys]
    apply List.map_congr_left
    intro q hq
    exact (m.filed q.1 q.2 ((OrdMap.mem_toList m.map q.1 q.2).1 hq)).1
  have hsub : ((m.matching p).map Envelope.key).Sublist m.map.keys := by
    rw [← hkeys]
    exact List.filter_sublist.map Envelope.key
  exact m.map.keys_nodup.sublist hsub

end Resources

theorem Envelope.hasConditions_iff {env : Envelope} : env.hasConditions ↔ env.conditions ≠ [] := by
  unfold hasConditions conditions
  cases env.status with
  | none => simp
  | some status => simp

theorem Envelope.condition_eq_some {env : Envelope} (hu : env.Unique) {type : String}
    {c : Condition} : env.condition type = some c ↔ c ∈ env.conditions ∧ c.type = type := by
  unfold condition
  constructor
  · intro h
    exact ⟨List.mem_of_find?_eq_some h, by simpa using List.find?_some h⟩
  · rintro ⟨hmem, rfl⟩
    cases hf : env.conditions.find? (fun d => d.type = c.type) with
    | none =>
      have := List.find?_eq_none.1 hf c hmem
      simp at this
    | some d =>
      have hd : d.type = c.type := by simpa using List.find?_some hf
      rw [List.inj_on_of_nodup_map hu (List.mem_of_find?_eq_some hf) hmem hd]

theorem said_eq_some {env : Envelope} {c : Condition} {q : Slot × Said} :
    said env c = some q ↔
      ∃ time, c.lastTransitionTime = some time ∧ (slot env c.type, c.status, c.reason, time) = q := by
  rw [said, Option.map_eq_some_iff]

theorem entries_nodup {names : Names} {m : Resources names} (hu : m.Unique) :
    (((m.matching Envelope.hasConditions).flatMap
      (fun env => env.conditions.filterMap (said env))).map Prod.fst).Nodup := by
  rw [List.map_flatMap, List.nodup_flatMap]
  constructor
  · intro env henv
    have hpair : env.conditions.Pairwise (fun a b => a.type ≠ b.type) :=
      List.pairwise_map.1 (hu env.key env (Resources.mem_matching.1 henv).1)
    show List.Pairwise _ _
    rw [List.pairwise_map]
    refine hpair.filterMap (said env) (fun a b hne q hq q' hq' => ?_)
    obtain ⟨_, -, rfl⟩ := said_eq_some.1 hq
    obtain ⟨_, -, rfl⟩ := said_eq_some.1 hq'
    intro heq
    exact hne (Prod.mk.inj (toLex.injective heq)).2
  · have hkeys : (m.matching Envelope.hasConditions).Pairwise (fun a b => a.key ≠ b.key) :=
      List.pairwise_map.1 (m.matching_keys_nodup Envelope.hasConditions)
    refine hkeys.imp (fun {a b} hne x hx hx' => ?_)
    obtain ⟨q, hq, rfl⟩ := List.mem_map.1 hx
    obtain ⟨q', hq', heq⟩ := List.mem_map.1 hx'
    obtain ⟨c, -, hc⟩ := List.mem_filterMap.1 hq
    obtain ⟨d, -, hd⟩ := List.mem_filterMap.1 hq'
    obtain ⟨_, -, rfl⟩ := said_eq_some.1 hc
    obtain ⟨_, -, rfl⟩ := said_eq_some.1 hd
    exact hne (Prod.mk.inj (toLex.injective heq)).1.symm

/-- what a run remembers of a condition: what it says, once it has a time -/
def Condition.said (c : Condition) : Option Said :=
  c.lastTransitionTime.map (fun time => (c.status, c.reason, time))

theorem get?_of {names : Names} {m : Resources names} (hu : m.Unique) (key : ResourceKey)
    (type : String) :
    (of m).get? (toLex (key, type)) = (m.condition key type).bind Condition.said := by
  have hrev : (((m.matching Envelope.hasConditions).flatMap
      (fun env => env.conditions.filterMap (said env))).reverse.map Prod.fst).Nodup := by
    rw [List.map_reverse]
    exact List.nodup_reverse.2 (entries_nodup hu)
  apply Option.ext
  intro v
  rw [of, OrdMap.get?_ofList, OrdMap.lookup_iff_mem hrev, List.mem_reverse, List.mem_flatMap,
    Option.bind_eq_some_iff]
  constructor
  · rintro ⟨env, henv, hq⟩
    obtain ⟨c, hc, hs⟩ := List.mem_filterMap.1 hq
    obtain ⟨time, htime, heq⟩ := said_eq_some.1 hs
    obtain ⟨hslot, rfl⟩ := Prod.mk.inj heq
    obtain ⟨rfl, rfl⟩ := Prod.mk.inj (toLex.injective hslot)
    have hget := (Resources.mem_matching.1 henv).1
    refine ⟨c, ?_, by rw [Condition.said, htime]; rfl⟩
    rw [Resources.condition, hget]
    exact (Envelope.condition_eq_some (hu _ _ hget)).2 ⟨hc, rfl⟩
  · rintro ⟨c, hc, hs⟩
    rw [Resources.condition, Option.bind_eq_some_iff] at hc
    obtain ⟨env, hget, hc⟩ := hc
    obtain ⟨hmem, rfl⟩ := (Envelope.condition_eq_some (hu _ _ hget)).1 hc
    obtain ⟨time, htime, rfl⟩ := Option.map_eq_some_iff.1 hs
    have hkey : env.key = key := (m.filed key env hget).1
    refine ⟨env, ?_, List.mem_filterMap.2 ⟨c, hmem, said_eq_some.2 ⟨time, htime, ?_⟩⟩⟩
    · rw [Resources.mem_matching, hkey, Envelope.hasConditions_iff]
      exact ⟨hget, List.ne_nil_of_mem hmem⟩
    · rw [slot, hkey]

/-! ## one run -/

/-- a condition beside what was said of it when the run started -/
def settle (was : Option Condition) (c : Condition) : Condition :=
  (keepOne (was.bind Condition.said) c).1

@[simp] theorem keepOne_type (was : Option Said) (c : Condition) :
    (keepOne was c).1.type = c.type := by
  unfold keepOne
  split
  · rfl
  · split <;> rfl

theorem keepOne_of_not {was : Option Said} {c : Condition} (h : (keepOne was c).2 = false) :
    (keepOne was c).1 = c := by
  unfold keepOne at h ⊢
  split
  · rfl
  · split
    · next hc =>
      simp only [if_pos hc] at h
      exact nomatch h
    · rfl

@[simp] theorem keep_key (t : OrdMap Slot Said) (env : Envelope) :
    (keep t env).1.key = env.key := by
  unfold keep
  split <;> rfl

theorem keep_conditions (t : OrdMap Slot Said) (env : Envelope) :
    (keep t env).1.conditions
      = env.conditions.map (fun c => (keepOne (t.get? (slot env c.type)) c).1) := by
  obtain ⟨ns, kind, name, spec, status⟩ := env
  cases status with
  | none => rfl
  | some status =>
    show (status.conditions.map _).map Prod.fst = status.conditions.map _
    rw [List.map_map]
    rfl

theorem keep_of_not {t : OrdMap Slot Said} {env : Envelope} (h : (keep t env).2 = false) :
    (keep t env).1 = env := by
  obtain ⟨ns, kind, name, spec, status⟩ := env
  cases status with
  | none => rfl
  | some status =>
    simp only [keep, List.any_eq_false] at h ⊢
    congr
    rw [List.map_map]
    conv => rhs; rw [← List.map_id status.conditions]
    apply List.map_congr_left
    intro c hc
    have hc' := h _ (List.mem_map_of_mem hc)
    exact keepOne_of_not (by simpa using hc')

theorem keep_condition (t : OrdMap Slot Said) (env : Envelope) (type : String) :
    (keep t env).1.condition type
      = (env.condition type).map (fun c => (keepOne (t.get? (toLex (env.key, type))) c).1) := by
  unfold Envelope.condition
  rw [keep_conditions, List.find?_map]
  have hp : (fun c => decide (c.type = type)) ∘ (fun c => (keepOne (t.get? (slot env c.type)) c).1)
      = fun c : Condition => decide (c.type = type) := by
    funext c
    simp
  rw [hp]
  cases hf : env.conditions.find? (fun c => decide (c.type = type)) with
  | none => rfl
  | some c =>
    have htype : c.type = type := by simpa using List.find?_some hf
    rw [Option.map_some, Option.map_some, slot, htype]

theorem keep_unique {t : OrdMap Slot Said} {env : Envelope} (hu : env.Unique) :
    (keep t env).1.Unique := by
  have htypes : (keep t env).1.conditions.map Condition.type = env.conditions.map Condition.type := by
    rw [keep_conditions, List.map_map]
    apply List.map_congr_left
    intro c _
    exact keepOne_type _ c
  rw [Envelope.Unique, htypes]
  exact hu

/-- one turn of the loop of `keepAll` -/
theorem get?_turn {names : Names} {t : OrdMap Slot Said} {m : Resources names} {env : Envelope}
    (hget : m.get? env.key = some env) (key : ResourceKey) :
    (if (keep t env).2 then m.upsert (keep t env).1 else m).get? key
      = if key = env.key then some (keep t env).1 else m.get? key := by
  by_cases hc : (keep t env).2 = true
  · rw [if_pos hc, Resources.get?_upsert, keep_key]
    simp only [(m.filed _ _ hget).2, true_and]
  · rw [Bool.not_eq_true] at hc
    rw [if_neg (by rw [hc]; exact Bool.false_ne_true), keep_of_not hc]
    by_cases hk : key = env.key
    · rw [if_pos hk, hk, hget]
    · rw [if_neg hk]

theorem get?_loop {names : Names} {t : OrdMap Slot Said} (l : List Envelope) (m : Resources names)
    (hl : (l.map Envelope.key).Nodup) (hget : ∀ env ∈ l, m.get? env.key = some env)
    (key : ResourceKey) :
    (l.foldl (fun m env => if (keep t env).2 then m.upsert (keep t env).1 else m) m).get? key
      = if key ∈ l.map Envelope.key then (m.get? key).map (fun env => (keep t env).1)
        else m.get? key := by
  induction l generalizing m with
  | nil => rfl
  | cons env l ih =>
    rw [List.map_cons] at hl ⊢
    obtain ⟨hnot, hl⟩ := List.nodup_cons.1 hl
    have henv := hget env (List.mem_cons_self ..)
    rw [List.foldl_cons, ih _ hl]
    · simp only [get?_turn henv, List.mem_cons]
      by_cases hk : key = env.key
      · subst hk
        rw [if_neg hnot, if_pos rfl, if_pos (Or.inl rfl), henv]
        rfl
      · rw [if_neg hk]
        simp only [hk, false_or]
    · intro other hmem
      have hne : other.key ≠ env.key := fun h => hnot (h ▸ List.mem_map_of_mem hmem)
      rw [get?_turn henv, if_neg hne]
      exact hget other (List.mem_cons_of_mem _ hmem)

theorem keep_of_bare {t : OrdMap Slot Said} {env : Envelope} (h : ¬ env.hasConditions) :
    (keep t env).1 = env := by
  rw [Envelope.hasConditions_iff, not_not] at h
  apply keep_of_not
  obtain ⟨ns, kind, name, spec, status⟩ := env
  cases status with
  | none => rfl
  | some status =>
    have hnil : status.conditions = [] := h
    simp only [keep, hnil]
    rfl

/-- **`keepAll`** is `keep` on every resource. -/
theorem get?_keepAll {names : Names} (t : OrdMap Slot Said) (m : Resources names)
    (key : ResourceKey) :
    (keepAll t m).get? key = (m.get? key).map (fun env => (keep t env).1) := by
  rw [keepAll, get?_loop _ m (m.matching_keys_nodup _)
    (fun env henv => (Resources.mem_matching.1 henv).1)]
  by_cases hmem : key ∈ (m.matching Envelope.hasConditions).map Envelope.key
  · rw [if_pos hmem]
  · rw [if_neg hmem]
    cases hget : m.get? key with
    | none => rfl
    | some env =>
      obtain rfl : env.key = key := (m.filed key env hget).1
      have hbare : ¬ env.hasConditions := fun h =>
        hmem (List.mem_map_of_mem (Resources.mem_matching.2 ⟨hget, h⟩))
      rw [Option.map_some, keep_of_bare hbare]

theorem get?_later {names : Names} {t : OrdMap Slot Said} (l : List Envelope)
    (m m' : Resources names)
    (hm : ∀ key, m'.get? key = (m.get? key).map (fun env => (keep t env).1)) (key : ResourceKey) :
    (l.foldl (fun m env => m.upsert (keep t env).1) m').get? key
      = ((l.foldl (fun m env => m.upsert env) m).get? key).map (fun env => (keep t env).1) := by
  induction l generalizing m m' with
  | nil => exact hm key
  | cons env l ih =>
    rw [List.foldl_cons, List.foldl_cons]
    apply ih
    intro k
    rw [Resources.get?_upsert, Resources.get?_upsert, keep_key, hm k]
    split <;> rfl

theorem get?_apply {names : Names} (m : Resources names) (r : Run names) (key : ResourceKey) :
    (r.apply m).get? key = (r.wrote key).map (fun env => (keep (of m) env).1) :=
  get?_later r.later r.fresh (keepAll (of m) r.fresh) (get?_keepAll (of m) r.fresh) key

/-- the types of the conditions a run writes into one resource are different -/
def Run.Unique {names : Names} (r : Run names) : Prop :=
  r.fresh.Unique ∧ ∀ env ∈ r.later, env.Unique

theorem wrote_spec {names : Names} {r : Run names} {key : ResourceKey} {env : Envelope}
    (h : r.wrote key = some env) : env.key = key :=
  (Resources.filed _ key env h).1

theorem unique_upserts {names : Names} (l : List Envelope) (m : Resources names)
    (hm : m.Unique) (hl : ∀ env ∈ l, env.Unique) :
    (l.foldl (fun m env => m.upsert env) m).Unique := by
  induction l generalizing m with
  | nil => exact hm
  | cons env l ih =>
    apply ih
    · intro key env' hget
      rw [Resources.get?_upsert] at hget
      split at hget
      · obtain rfl := Option.some.inj hget
        exact hl env (List.mem_cons_self ..)
      · exact hm key env' hget
    · exact fun other hmem => hl other (List.mem_cons_of_mem _ hmem)

theorem Run.Unique.apply {names : Names} {r : Run names} (hr : r.Unique) (m : Resources names) :
    (r.apply m).Unique := by
  intro key env hget
  rw [get?_apply, Option.map_eq_some_iff] at hget
  obtain ⟨raw, hraw, rfl⟩ := hget
  exact keep_unique (unique_upserts r.later r.fresh hr.1 hr.2 key raw hraw)

/-- the condition a run wrote last, before its time was kept -/
def Run.stated {names : Names} (r : Run names) (key : ResourceKey) (type : String) :
    Option Condition :=
  (r.wrote key).bind (fun env => env.condition type)

/-- **Step**: a run settles each condition it wrote with the one it found. -/
theorem apply_condition {names : Names} {m : Resources names} (hm : m.Unique) (r : Run names)
    (key : ResourceKey) (type : String) :
    (r.apply m).condition key type
      = (r.stated key type).map (settle (m.condition key type)) := by
  unfold Resources.condition Run.stated
  rw [get?_apply]
  cases hw : r.wrote key with
  | none => rfl
  | some env =>
    show (keep (of m) env).1.condition type = (env.condition type).map _
    rw [keep_condition, wrote_spec hw, get?_of hm]
    rfl

/-! ## histories -/

/-- what the runs said of one condition, oldest first, after what they found at the start -/
def history {names : Names} (start : Resources names) (runs : List (Run names))
    (key : ResourceKey) (type : String) : List (Option Condition) :=
  start.condition key type :: runs.map (fun r => r.stated key type)

def after {names : Names} (start : Resources names) (runs : List (Run names)) : Resources names :=
  runs.foldl Run.apply start

def settled (h : List (Option Condition)) : Option Condition :=
  h.foldl (fun was x => x.map (settle was)) none

/-- `x` says what `c` says -/
def agrees (c : Condition) (x : Option Condition) : Bool :=
  match x with
  | some d => decide (d.status = c.status ∧ d.reason = c.reason)
  | none => false

def stamp (t : List (Option Condition)) : Option Int :=
  t.findSome? (fun x => x.bind Condition.lastTransitionTime)

theorem after_settled {names : Names} {start : Resources names} {runs : List (Run names)}
    (hs : start.Unique) (hr : ∀ r ∈ runs, r.Unique) (key : ResourceKey) (type : String) :
    (after start runs).Unique ∧
      (after start runs).condition key type = settled (history start runs key type) := by
  induction runs using List.reverseRecOn with
  | nil =>
    refine ⟨hs, ?_⟩
    show start.condition key type = (start.condition key type).map (settle none)
    cases start.condition key type <;> rfl
  | append_singleton runs r ih =>
    have ih := ih (fun r' hmem => hr r' (List.mem_append_left _ hmem))
    have hstep : after start (runs ++ [r]) = r.apply (after start runs) := by
      rw [after, List.foldl_append]
      rfl
    have hhist : history start (runs ++ [r]) key type
        = history start runs key type ++ [r.stated key type] := by
      rw [history, List.map_append]
      rfl
    rw [hstep, hhist, apply_condition ih.1, ih.2, settled, settled, List.foldl_append]
    exact ⟨(hr r (by simp)).apply _, rfl⟩

theorem settle_eq (was : Option Condition) (c : Condition) :
    settle was c = { c with
      lastTransitionTime := if agrees c was then
        (was.bind Condition.lastTransitionTime).or c.lastTransitionTime
        else c.lastTransitionTime } := by
  unfold settle
  cases was with
  | none => rfl
  | some p =>
    show (keepOne p.said c).1 = _
    unfold Condition.said
    cases hp : p.lastTransitionTime with
    | none => simp [keepOne, hp]
    | some time =>
      by_cases hsame : p.status = c.status ∧ p.reason = c.reason
      · by_cases htime : c.lastTransitionTime = some time
        · obtain ⟨ctype, status, reason, message, ctime⟩ := c
          obtain rfl : ctime = some time := htime
          simp [keepOne, agrees, hp, hsame]
        · simp [keepOne, agrees, hp, hsame, htime]
      · have hnot : ¬ (p.status = c.status ∧ p.reason = c.reason ∧
            c.lastTransitionTime ≠ some time) := fun h => hsame ⟨h.1, h.2.1⟩
        simp [keepOne, agrees, if_neg hnot, hsame]

@[simp] theorem agrees_self (c : Condition) : agrees c (some c) = true := by
  simp [agrees]

theorem agrees_congr {c d : Condition} (h : agrees c (some d) = true) : agrees d = agrees c := by
  have hcd : d.status = c.status ∧ d.reason = c.reason := of_decide_eq_true h
  funext x
  cases x with
  | none => rfl
  | some e =>
    unfold agrees
    rw [hcd.1, hcd.2]

theorem stamp_concat (t : List (Option Condition)) (c : Condition) :
    stamp (t ++ [some c]) = (stamp t).or c.lastTransitionTime := by
  unfold stamp
  rw [List.findSome?_append]
  cases hc : c.lastTransitionTime <;> simp [hc]

/-- **Run over a history**: what is left is the newest word on the condition, with the oldest time
of the row of words that agree with it. -/
theorem settled_eq (h : List (Option Condition)) :
    settled h = h.getLast?.join.map (fun newest =>
      { newest with lastTransitionTime := stamp (h.rtakeWhile (agrees newest)) }) := by
  induction h using List.reverseRecOn with
  | nil => rfl
  | append_singleton h x ih =>
    have hstep : settled (h ++ [x]) = x.map (settle (settled h)) := by
      rw [settled, List.foldl_append]
      rfl
    rw [hstep, List.getLast?_concat, Option.join_some]
    cases x with
    | none => rfl
    | some d =>
      rw [Option.map_some, Option.map_some, settle_eq,
        List.rtakeWhile_concat_pos _ _ _ (agrees_self d), stamp_concat, ih]
      congr 2
      rcases List.eq_nil_or_concat h with rfl | ⟨h', y, rfl⟩
      · rfl
      · rw [List.concat_eq_append, List.getLast?_concat, Option.join_some]
        cases y with
        | none =>
          rw [List.rtakeWhile_concat_neg _ _ _ (by simp [agrees])]
          rfl
        | some n =>
          by_cases hn : agrees d (some n) = true
          · rw [Option.map_some, agrees_congr hn]
            exact if_pos hn
          · rw [List.rtakeWhile_concat_neg _ _ _ hn]
            exact if_neg hn

theorem row_of_last {h : List (Option Condition)} {d : Condition}
    (hlast : h.getLast? = some (some d)) :
    ∃ earlier first row, h = earlier ++ some first :: row ∧
      h.rtakeWhile (agrees d) = some first :: row ∧
      (∀ x ∈ some first :: row, agrees d x) ∧ (∀ x ∈ earlier.getLast?, ¬ agrees d x) := by
  have hrow : ∀ x ∈ h.rtakeWhile (agrees d), agrees d x := fun x hx => List.mem_rtakeWhile_imp hx
  have hsplit := List.rdropWhile_append_rtakeWhile (l := h) (p := agrees d)
  cases htake : h.rtakeWhile (agrees d) with
  | nil =>
    obtain ⟨hne, hl⟩ := List.mem_getLast?_eq_getLast hlast
    have hnot := List.rtakeWhile_eq_nil_iff.1 htake hne
    rw [← hl, agrees_self] at hnot
    exact absurd rfl hnot
  | cons x row =>
    rw [htake] at hrow hsplit
    cases x with
    | none => exact nomatch hrow none (List.mem_cons_self ..)
    | some first =>
      refine ⟨h.rdropWhile (agrees d), first, row, hsplit.symm, rfl, hrow, fun x hx => ?_⟩
      obtain ⟨hne, rfl⟩ := List.mem_getLast?_eq_getLast hx
      exact List.rdropWhile_last_not _ _ hne

/-- every field but the time -/
def Condition.untimed (c : Condition) : Condition := { c with lastTransitionTime := none }

/-- **The time of a condition is true to its history**: after any runs over any mirror, a condition
says what the run that wrote it last said, and its time is the oldest stamp of the unbroken row of
runs that ends with that one and said the same, which is the stamp of the first of them unless that
one is a condition found at the start without any. -/
theorem lastTransitionTime_true {names : Names} {start : Resources names} {runs : List (Run names)}
    (hs : start.Unique) (hr : ∀ r ∈ runs, r.Unique) (key : ResourceKey) (type : String) :
    ((after start runs).condition key type).map Condition.untimed
      = (history start runs key type).getLast?.join.map Condition.untimed ∧
    ∀ c, (after start runs).condition key type = some c →
      ∃ earlier first row, history start runs key type = earlier ++ some first :: row ∧
        (∀ x ∈ some first :: row, agrees c x) ∧ (∀ x ∈ earlier.getLast?, ¬ agrees c x) ∧
        c.lastTransitionTime = stamp (some first :: row) ∧
        (first.lastTransitionTime.isSome → c.lastTransitionTime = first.lastTransitionTime) := by
  rw [(after_settled hs hr key type).2, settled_eq]
  generalize history start runs key type = h
  constructor
  · rw [Option.map_map]
    rfl
  · intro c hc
    obtain ⟨newest, hn, rfl⟩ := Option.map_eq_some_iff.1 hc
    rw [Option.join_eq_some_iff] at hn
    have hagrees : agrees { newest with
        lastTransitionTime := stamp (h.rtakeWhile (agrees newest)) } = agrees newest := rfl
    obtain ⟨earlier, first, row, hh, htake, hrow, hbefore⟩ := row_of_last hn
    refine ⟨earlier, first, row, hh, hrow, hbefore, by rw [← htake], fun hfirst => ?_⟩
    obtain ⟨time, htime⟩ := Option.isSome_iff_exists.1 hfirst
    show stamp (h.rtakeWhile (agrees newest)) = _
    rw [htake, stamp, List.findSome?_cons, Option.bind_some, htime]

/-! ## a published App that no build was written back for -/

def app (status reason : String) (time : Int) : Envelope :=
  ⟨some "helsinki", "App", "alerts-desk", .null,
    some ⟨[⟨"Ready", status, some reason, some "said", some time⟩], .null⟩⟩

def lowercase : Names where
  label s := s.toList.all (fun c => c.isLower || c.isDigit || c = '-') && s ≠ ""
  space s := s.toList.all (fun c => c.isLower || c.isDigit || c = '-' || c = '/') && s ≠ ""

/-- the App is served -/
def built (time : Int) : Run lowercase where
  fresh := Resources.empty.upsert (app "True" "Served" time)
  later := []

/-- and no build is found for it after the swap -/
def unbuilt (time : Int) : Run lowercase where
  fresh := Resources.empty.upsert (app "True" "Served" time)
  later := [app "False" "NoBuild" time]

theorem unique_empty : (Resources.empty : Resources lowercase).Unique := by
  intro key env hget
  exact nomatch hget

theorem unique_app (status reason : String) (time : Int) : (app status reason time).Unique :=
  List.nodup_singleton _

theorem unique_fresh (time : Int) :
    (Resources.empty.upsert (app "True" "Served" time) : Resources lowercase).Unique := by
  intro key env hget
  rw [Resources.get?_upsert] at hget
  split at hget
  · obtain rfl := Option.some.inj hget
    exact unique_app _ _ _
  · exact nomatch hget

/-- the time of the second run, which was the first to find no build -/
theorem lastTransitionTime_of_unbuilt :
    ∃ c first row, (after Resources.empty [built 1, unbuilt 2, unbuilt 3]).condition
        (.of "helsinki" "App" "alerts-desk") "Ready" = some c ∧
      stamp (some first :: row) = some 2 ∧ c.lastTransitionTime = stamp (some first :: row) := by
  have hr : ∀ r ∈ [built 1, unbuilt 2, unbuilt 3], r.Unique := by
    intro r hmem
    rcases List.mem_cons.1 hmem with rfl | hmem
    · exact ⟨unique_fresh 1, fun env henv => nomatch henv⟩
    · rcases List.mem_cons.1 hmem with rfl | hmem
      · exact ⟨unique_fresh 2, fun env henv => List.mem_singleton.1 henv ▸ unique_app _ _ _⟩
      · obtain rfl := List.mem_singleton.1 hmem
        exact ⟨unique_fresh 3, fun env henv => List.mem_singleton.1 henv ▸ unique_app _ _ _⟩
  have hstored : (after Resources.empty [built 1, unbuilt 2, unbuilt 3]).condition
      (.of "helsinki" "App" "alerts-desk") "Ready"
        = some ⟨"Ready", "False", some "NoBuild", some "said", some 2⟩ := by
    decide +kernel
  obtain ⟨earlier, first, row, -, -, -, htime, -⟩ :=
    (lastTransitionTime_true unique_empty hr _ _).2 _ hstored
  exact ⟨_, first, row, hstored, htime.symm, htime⟩

end Portal.Transitions
