import Portal.Base.OrdMap
import Portal.Base.Recency

/-!
# The cache bounded by bytes (`cache.rs`)

The entries by key, and their keys by the tick of their last use, so that the first key of the order
is the least recently used.  What the two maps and the counter of bytes amount to is a list by
recency of use: every operation does of the maps what its namesake does of the list.

* `ByteLru`            the source's maps, `get`, `insert` and `remove`;
* `view`, `Sound`      the list they amount to, and when they do;
* `refines`            **the law**: the answers are those of the list, the bytes what it weighs;
* `leaves_oldest`      **the law**: an entry leaves only where it does not fit beside what was used
                       since;
* `answers_last`       **the law**: what is answered is what was last inserted, and not too old.
-/

namespace Portal
namespace Cache
open Recency

structure Entry (ν : Type*) where
  value : ν
  bytes : Nat
  tick : Nat
  since : Nat

structure ByteLru (κ ν : Type*) [LinearOrder κ] where
  maxBytes : Nat
  ttl : Option Nat
  bytes : Nat
  tick : Nat
  entries : OrdMap κ (Entry ν)
  /-- the keys by their last use, the oldest tick first -/
  order : OrdMap Nat κ

section
variable {κ ν : Type*} [LinearOrder κ]

namespace ByteLru

def new (maxBytes : Nat) (ttl : Option Nat) : ByteLru κ ν :=
  ⟨maxBytes, ttl, 0, 0, OrdMap.empty, OrdMap.empty⟩

def remove (c : ByteLru κ ν) (key : κ) : ByteLru κ ν :=
  match c.entries.get? key with
  | some gone =>
    { c with
      entries := c.entries.erase key
      order := c.order.erase gone.tick
      bytes := c.bytes - gone.bytes }
  | none => c

/-- the value unless it expired; a hit makes it the most recently used -/
def get (c : ByteLru κ ν) (key : κ) (now : Nat) : Option ν × ByteLru κ ν :=
  match c.entries.get? key with
  | none => (none, c)
  | some entry =>
    if c.ttl.any (fun ttl => ttl ≤ now - entry.since) then (none, c.remove key)
    else (some entry.value,
      { c with
        tick := c.tick + 1
        order := (c.order.erase entry.tick).insert (c.tick + 1) key
        entries := c.entries.insert key { entry with tick := c.tick + 1 } })

/-- the item as the most recently used one -/
def add (c : ByteLru κ ν) (i : Item κ ν) : ByteLru κ ν :=
  { c with
    tick := c.tick + 1
    order := c.order.insert (c.tick + 1) i.key
    entries := c.entries.insert i.key ⟨i.value, i.weight, c.tick + 1, i.since⟩
    bytes := c.bytes + i.weight }

def pop (c : ByteLru κ ν) (tick : Nat) (oldest : κ) : ByteLru κ ν :=
  match c.entries.get? oldest with
  | some gone =>
    { c with
      order := c.order.erase tick
      entries := c.entries.erase oldest
      bytes := c.bytes - gone.bytes }
  | none => { c with order := c.order.erase tick }

/-- the loop of `insert`, over the order as it pops -/
def evict (c : ByteLru κ ν) : List (Nat × κ) → ByteLru κ ν
  | [] => c
  | (tick, oldest) :: rest =>
    if c.maxBytes < c.bytes then evict (c.pop tick oldest) rest else c

/-- one heavier than the whole cap is not kept -/
def insert (c : ByteLru κ ν) (key : κ) (value : ν) (bytes now : Nat) : ByteLru κ ν :=
  if (c.remove key).maxBytes < bytes then c.remove key
  else
    let c := (c.remove key).add ⟨key, value, bytes, now⟩
    c.evict c.order.toList

end ByteLru

/-! ## the list of a cache -/

def item (entries : OrdMap κ (Entry ν)) (p : Nat × κ) : Option (Item κ ν) :=
  (entries.get? p.2).map (fun e => ⟨p.2, e.value, e.bytes, e.since⟩)

/-- the entries, the least recently used first -/
def view (c : ByteLru κ ν) : List (Item κ ν) := c.order.toList.filterMap (item c.entries)

/-- **Invariant**: the order is the entries by their ticks, and the bytes are what they weigh. -/
structure Sound (c : ByteLru κ ν) : Prop where
  indexed : ∀ t k, c.order.get? t = some k ↔ ∃ e, c.entries.get? k = some e ∧ e.tick = t
  ticks : ∀ t k, c.order.get? t = some k → t ≤ c.tick
  weighed : c.bytes = total (view c)

variable {c : ByteLru κ ν} {key : κ} {e : Entry ν}

theorem toList_erase {α : Type*} (m : OrdMap κ α) (k : κ) :
    (m.erase k).toList = m.toList.filter (fun p => p.1 ≠ k) := by
  have heq : m.erase k = m.filterKeys (fun k' => k' ≠ k) := by
    apply OrdMap.ext_get?
    intro k'
    rw [OrdMap.get?_erase, OrdMap.get?_filterKeys]
    by_cases hk : k' = k <;> simp [hk]
  rw [heq]
  rfl

theorem toList_insert_last {α : Type*} (m : OrdMap κ α) {k : κ} (a : α)
    (hlast : ∀ p ∈ m.toList, p.1 < k) : (m.insert k a).toList = m.toList ++ [(k, a)] := by
  have hsorted : (m.toList ++ [(k, a)]).Pairwise (fun p q => p.1 < q.1) := by
    refine List.pairwise_append.2 ⟨m.sorted, List.pairwise_singleton _ _, ?_⟩
    intro p hp q hq
    obtain rfl := List.mem_singleton.1 hq
    exact hlast p hp
  have heq : m.insert k a = ⟨m.toList ++ [(k, a)], hsorted⟩ := by
    apply OrdMap.ext_get?
    intro k'
    rw [OrdMap.get?_insert]
    show _ = (m.toList ++ [(k, a)]).lookup k'
    rw [List.lookup_append]
    split
    · rename_i hk
      subst hk
      have hnone : m.toList.lookup k' = none := by
        cases hget : m.get? k' with
        | none => exact hget
        | some b => exact absurd (hlast _ ((OrdMap.mem_toList m k' b).2 hget)) (lt_irrefl _)
      rw [hnone]
      simp
    · rename_i hk
      have hb : (k' == k) = false := by simpa using hk
      simp [List.lookup_cons, hb, OrdMap.get?]
  rw [heq]

theorem Sound.entry (hsound : Sound c) {p : Nat × κ} (hp : p ∈ c.order.toList) :
    ∃ e, c.entries.get? p.2 = some e ∧ e.tick = p.1 :=
  (hsound.indexed p.1 p.2).1 ((OrdMap.mem_toList _ _ _).1 hp)

theorem Sound.mem_view (hsound : Sound c) {i : Item κ ν} :
    i ∈ view c ↔ ∃ e, c.entries.get? i.key = some e ∧ i = ⟨i.key, e.value, e.bytes, e.since⟩ := by
  unfold view
  rw [List.mem_filterMap]
  constructor
  · rintro ⟨p, -, hitem⟩
    obtain ⟨e, he, rfl⟩ := Option.map_eq_some_iff.1 hitem
    exact ⟨e, he, rfl⟩
  · rintro ⟨e, he, hi⟩
    refine ⟨(e.tick, i.key), (OrdMap.mem_toList _ _ _).2 ((hsound.indexed _ _).2 ⟨e, he, rfl⟩), ?_⟩
    unfold item
    rw [he, hi]
    rfl

theorem Sound.keys (hsound : Sound c) : ((view c).map Item.key).Nodup := by
  have hnodup : (c.order.toList.map Prod.snd).Nodup := by
    refine List.Nodup.map_on ?_ (List.Nodup.of_map Prod.fst c.order.keys_nodup)
    intro p hp q hq heq
    obtain ⟨e, he, htick⟩ := hsound.entry hp
    obtain ⟨e', he', htick'⟩ := hsound.entry hq
    rw [heq] at he
    obtain rfl := Option.some.inj (he.symm.trans he')
    exact Prod.ext (htick.symm.trans htick') heq
  have hkeys : ∀ l : List (Nat × κ), ((l.filterMap (item c.entries)).map Item.key).Sublist
      (l.map Prod.snd) := by
    intro l
    induction l with
    | nil => exact List.Sublist.refl _
    | cons p l ih =>
      cases hitem : item c.entries p with
      | none =>
        rw [List.filterMap_cons_none hitem]
        exact ih.cons p.2
      | some i =>
        rw [List.filterMap_cons_some hitem]
        obtain ⟨e, -, rfl⟩ := Option.map_eq_some_iff.1 hitem
        exact ih.cons_cons p.2
  exact hnodup.sublist (hkeys _)

/-! ## the operations -/

theorem filterMap_erase {entries : OrdMap κ (Entry ν)} (l : List (Nat × κ))
    (hl : ∀ p ∈ l, p.1 = e.tick ↔ p.2 = key) :
    (l.filter (fun p => p.1 ≠ e.tick)).filterMap (item (entries.erase key))
      = without key (l.filterMap (item entries)) := by
  induction l with
  | nil => rfl
  | cons p l ih =>
    have ih := ih (fun q hq => hl q (List.mem_cons_of_mem _ hq))
    have hp := hl p List.mem_cons_self
    by_cases hkey : p.2 = key
    · rw [List.filter_cons_of_neg (by simp [hp.2 hkey]), ih]
      cases hitem : item entries p with
      | none => rw [List.filterMap_cons_none hitem]
      | some i =>
        obtain ⟨e', -, rfl⟩ := Option.map_eq_some_iff.1 hitem
        rw [List.filterMap_cons_some hitem]
        unfold without
        rw [List.filter_cons_of_neg (by simp [hkey])]
    · have hsame : item (entries.erase key) p = item entries p := by
        unfold item
        rw [OrdMap.get?_erase, if_neg hkey]
      rw [List.filter_cons_of_pos (by simpa using fun h => hkey (hp.1 h))]
      cases hitem : item entries p with
      | none =>
        rw [List.filterMap_cons_none hitem, List.filterMap_cons_none (hsame.trans hitem), ih]
      | some i =>
        obtain ⟨e', -, rfl⟩ := Option.map_eq_some_iff.1 hitem
        rw [List.filterMap_cons_some hitem, List.filterMap_cons_some (hsame.trans hitem), ih]
        unfold without
        rw [List.filter_cons_of_pos (by simp [hkey])]

theorem Sound.find (hsound : Sound c) (key : κ) :
    find key (view c) = (c.entries.get? key).map (fun e => ⟨key, e.value, e.bytes, e.since⟩) := by
  cases hget : c.entries.get? key with
  | none =>
    refine List.find?_eq_none.2 (fun i hi heq => ?_)
    obtain ⟨e, he, -⟩ := hsound.mem_view.1 hi
    rw [of_decide_eq_true heq] at he
    exact absurd (hget.symm.trans he) (by simp)
  | some e =>
    exact find_of_mem (i := ⟨key, e.value, e.bytes, e.since⟩) hsound.keys
      (hsound.mem_view.2 ⟨e, hget, rfl⟩)

theorem remove_of_get? (hget : c.entries.get? key = some e) : c.remove key =
    { c with
      entries := c.entries.erase key
      order := c.order.erase e.tick
      bytes := c.bytes - e.bytes } := by
  unfold ByteLru.remove
  rw [hget]

theorem view_remove (hsound : Sound c) (key : κ) : view (c.remove key) = without key (view c) := by
  cases hget : c.entries.get? key with
  | none =>
    have hremove : c.remove key = c := by
      unfold ByteLru.remove
      rw [hget]
    rw [hremove, without_of_fresh]
    intro hmem
    obtain ⟨i, hi, rfl⟩ := List.mem_map.1 hmem
    obtain ⟨e, he, -⟩ := hsound.mem_view.1 hi
    exact absurd (hget.symm.trans he) (by simp)
  | some e =>
    rw [remove_of_get? hget]
    show (c.order.erase e.tick).toList.filterMap (item (c.entries.erase key)) = _
    rw [toList_erase]
    apply filterMap_erase
    intro p hp
    obtain ⟨e', he', htick⟩ := hsound.entry hp
    constructor
    · intro heq
      have horder := (hsound.indexed e.tick key).2 ⟨e, hget, rfl⟩
      rw [← heq, (OrdMap.mem_toList _ _ _).1 hp] at horder
      exact Option.some.inj horder
    · rintro rfl
      obtain rfl := Option.some.inj (hget.symm.trans he')
      exact htick.symm

theorem Sound.remove (hsound : Sound c) (key : κ) : Sound (c.remove key) := by
  cases hget : c.entries.get? key with
  | none =>
    have hremove : c.remove key = c := by
      unfold ByteLru.remove
      rw [hget]
    exact hremove.symm ▸ hsound
  | some e =>
    have hview := view_remove hsound key
    rw [remove_of_get? hget] at hview ⊢
    refine ⟨?_, ?_, ?_⟩
    · intro t k
      show (c.order.erase e.tick).get? t = some k ↔
        ∃ e', (c.entries.erase key).get? k = some e' ∧ e'.tick = t
      rw [OrdMap.get?_erase, OrdMap.get?_erase]
      have hplace := (hsound.indexed e.tick key).2 ⟨e, hget, rfl⟩
      by_cases ht : t = e.tick
      · rw [if_pos ht]
        refine ⟨fun h => absurd h (by simp), ?_⟩
        rintro ⟨e', he', rfl⟩
        split at he'
        · exact absurd he' (by simp)
        · rename_i hk
          have hother := (hsound.indexed e'.tick k).2 ⟨e', he', rfl⟩
          rw [ht, hplace] at hother
          exact absurd (Option.some.inj hother).symm hk
      · rw [if_neg ht, hsound.indexed t k]
        constructor
        · rintro ⟨e', he', rfl⟩
          refine ⟨e', ?_, rfl⟩
          rw [if_neg, he']
          rintro rfl
          exact ht (congrArg Entry.tick (Option.some.inj (hget.symm.trans he'))).symm
        · rintro ⟨e', he', rfl⟩
          split at he'
          · exact absurd he' (by simp)
          · exact ⟨e', he', rfl⟩
    · intro t k hk
      exact hsound.ticks t k (OrdMap.of_get?_erase hk).2
    · rw [hview]
      show c.bytes - e.bytes = _
      have hfind : Recency.find key (view c) = some ⟨key, e.value, e.bytes, e.since⟩ := by
        rw [hsound.find key, hget]
        rfl
      rw [hsound.weighed, total_without hsound.keys hfind]
      exact Nat.add_sub_cancel _ _

@[simp] theorem remove_maxBytes (key : κ) : (c.remove key).maxBytes = c.maxBytes := by
  unfold ByteLru.remove
  split <;> rfl

@[simp] theorem remove_ttl (key : κ) : (c.remove key).ttl = c.ttl := by
  unfold ByteLru.remove
  split <;> rfl

theorem get?_remove (key : κ) : (c.remove key).entries.get? key = none := by
  cases hget : c.entries.get? key with
  | none =>
    unfold ByteLru.remove
    rw [hget]
    exact hget
  | some e =>
    rw [remove_of_get? hget]
    show (c.entries.erase key).get? key = none
    rw [OrdMap.get?_erase, if_pos rfl]

theorem view_add (hsound : Sound c) {i : Item κ ν} (hfresh : c.entries.get? i.key = none) :
    view (c.add i) = view c ++ [i] := by
  show (c.order.insert (c.tick + 1) i.key).toList.filterMap
    (item (c.entries.insert i.key ⟨i.value, i.weight, c.tick + 1, i.since⟩)) = _
  rw [toList_insert_last _ _ (fun p hp => Nat.lt_succ_of_le
    (hsound.ticks p.1 p.2 ((OrdMap.mem_toList _ _ _).1 hp))), List.filterMap_append]
  congr 1
  · apply List.filterMap_congr
    intro p hp
    obtain ⟨e, he, -⟩ := hsound.entry hp
    unfold item
    rw [OrdMap.get?_insert, if_neg]
    rintro heq
    rw [heq, hfresh] at he
    exact absurd he (by simp)
  · have hitem : item (c.entries.insert i.key ⟨i.value, i.weight, c.tick + 1, i.since⟩)
        (c.tick + 1, i.key) = some i := by
      unfold item
      rw [OrdMap.get?_insert, if_pos rfl]
      rfl
    rw [List.filterMap_cons_some hitem, List.filterMap_nil]

theorem Sound.add (hsound : Sound c) {i : Item κ ν} (hfresh : c.entries.get? i.key = none) :
    Sound (c.add i) := by
  refine ⟨?_, ?_, ?_⟩
  · intro t k
    show (c.order.insert (c.tick + 1) i.key).get? t = some k ↔
      ∃ e, (c.entries.insert i.key ⟨i.value, i.weight, c.tick + 1, i.since⟩).get? k = some e ∧
        e.tick = t
    rw [OrdMap.get?_insert, OrdMap.get?_insert]
    by_cases ht : t = c.tick + 1
    · rw [if_pos ht]
      constructor
      · intro h
        rw [if_pos (Option.some.inj h).symm]
        exact ⟨_, rfl, ht.symm⟩
      · rintro ⟨e, he, rfl⟩
        split at he
        · rename_i hk
          rw [hk]
        · have := hsound.ticks e.tick k ((hsound.indexed _ _).2 ⟨e, he, rfl⟩)
          omega
    · rw [if_neg ht, hsound.indexed t k]
      constructor
      · rintro ⟨e, he, rfl⟩
        refine ⟨e, ?_, rfl⟩
        rw [if_neg, he]
        rintro rfl
        exact absurd (hfresh.symm.trans he) (by simp)
      · rintro ⟨e, he, rfl⟩
        split at he
        · exact absurd (congrArg Entry.tick (Option.some.inj he)).symm ht
        · exact ⟨e, he, rfl⟩
  · intro t k hk
    show t ≤ c.tick + 1
    have hk : (c.order.insert (c.tick + 1) i.key).get? t = some k := hk
    rw [OrdMap.get?_insert] at hk
    split at hk
    · omega
    · exact Nat.le_succ_of_le (hsound.ticks t k hk)
  · rw [view_add hsound hfresh, total_append, total_cons, total_nil, ← hsound.weighed]
    rfl

theorem get_hit (hsound : Sound c) (hget : c.entries.get? key = some e) :
    ({ c with
      tick := c.tick + 1
      order := (c.order.erase e.tick).insert (c.tick + 1) key
      entries := c.entries.insert key { e with tick := c.tick + 1 } } : ByteLru κ ν)
      = (c.remove key).add ⟨key, e.value, e.bytes, e.since⟩ := by
  have hentries : c.entries.insert key { e with tick := c.tick + 1 }
      = (c.entries.erase key).insert key { e with tick := c.tick + 1 } := by
    apply OrdMap.ext_get?
    intro k
    rw [OrdMap.get?_insert, OrdMap.get?_insert, OrdMap.get?_erase]
    split <;> rfl
  have hbytes : e.bytes ≤ c.bytes := by
    have hfind : Recency.find key (view c) = some ⟨key, e.value, e.bytes, e.since⟩ := by
      rw [hsound.find key, hget]
      rfl
    rw [hsound.weighed, total_without hsound.keys hfind]
    exact Nat.le_add_left _ _
  rw [remove_of_get? hget, hentries]
  unfold ByteLru.add
  simp only [ByteLru.mk.injEq, true_and, and_true]
  omega

/-- what a cache is to its list: the list of what an operation leaves -/
structure Does (c c' : ByteLru κ ν) (l : List (Item κ ν)) : Prop where
  sound : Sound c'
  view : view c' = l
  maxBytes : c'.maxBytes = c.maxBytes
  ttl : c'.ttl = c.ttl

/-- **Step**: `get` does of the cache what it does of the list. -/
theorem does_get (hsound : Sound c) (key : κ) (now : Nat) :
    (c.get key now).1 = (Recency.get c.ttl key now (view c)).1 ∧
      Does c (c.get key now).2 (Recency.get c.ttl key now (view c)).2 := by
  unfold ByteLru.get Recency.get
  rw [hsound.find key]
  cases hget : c.entries.get? key with
  | none => exact ⟨rfl, hsound, rfl, rfl, rfl⟩
  | some e =>
    simp only [Option.map_some]
    split
    · exact ⟨rfl, hsound.remove key, view_remove hsound key, remove_maxBytes key, remove_ttl key⟩
    · rw [get_hit hsound hget]
      refine ⟨rfl, (hsound.remove key).add (get?_remove key), ?_, remove_maxBytes key,
        remove_ttl key⟩
      rw [view_add (hsound.remove key) (get?_remove key), view_remove hsound key]

/-- **Step**: the loop drops the first items until the rest fits. -/
theorem does_evict (l : List (Nat × κ)) : ∀ c : ByteLru κ ν, Sound c → c.order.toList = l →
    Does c (c.evict l) (trim c.maxBytes (view c)) := by
  induction l with
  | nil =>
    intro c hsound horder
    have hview : view c = [] := by
      unfold view
      rw [horder]
      rfl
    exact ⟨hsound, hview.trans (by rw [hview]; rfl), rfl, rfl⟩
  | cons p rest ih =>
    intro c hsound horder
    obtain ⟨tick, oldest⟩ := p
    obtain ⟨e, hget, htick⟩ := hsound.entry (p := (tick, oldest)) (by rw [horder]; simp)
    have hitem : item c.entries (tick, oldest) = some ⟨oldest, e.value, e.bytes, e.since⟩ := by
      unfold item
      rw [hget]
      rfl
    have hview : view c
        = ⟨oldest, e.value, e.bytes, e.since⟩ :: rest.filterMap (item c.entries) := by
      unfold view
      rw [horder, List.filterMap_cons_some hitem]
    unfold ByteLru.evict
    split
    · rename_i hover
      have hpop : c.pop tick oldest = c.remove oldest := by
        unfold ByteLru.pop ByteLru.remove
        rw [hget]
        simp only [htick]
      rw [hpop]
      have hrest : (c.remove oldest).order.toList = rest := by
        rw [remove_of_get? hget]
        show (c.order.erase e.tick).toList = rest
        rw [htick, toList_erase, horder, List.filter_cons_of_neg (by simp), List.filter_eq_self]
        intro q hq
        have hsorted := c.order.sorted
        rw [horder] at hsorted
        simpa using ((List.pairwise_cons.1 hsorted).1 q hq).ne'
      have hdoes := ih _ (hsound.remove oldest) hrest
      have hlist : view (c.remove oldest) = rest.filterMap (item c.entries) := by
        have hkeys := hsound.keys
        rw [hview, List.map_cons, List.nodup_cons] at hkeys
        rw [view_remove hsound, hview]
        unfold without
        rw [List.filter_cons_of_neg (by simp)]
        exact without_of_fresh hkeys.1
      refine ⟨hdoes.sound, ?_, hdoes.maxBytes.trans (remove_maxBytes oldest),
        hdoes.ttl.trans (remove_ttl oldest)⟩
      rw [hdoes.view, hlist, remove_maxBytes, hview]
      conv_rhs => unfold trim
      rw [if_neg]
      rw [← hview, ← hsound.weighed]
      exact Nat.not_le_of_lt hover
    · rename_i hfits
      refine ⟨hsound, ?_, rfl, rfl⟩
      rw [hview]
      unfold trim
      rw [if_pos]
      rw [← hview, ← hsound.weighed]
      exact Nat.le_of_not_lt hfits

/-- **Step**: `insert` does of the cache what `put` does of the list. -/
theorem does_insert (hsound : Sound c) (key : κ) (value : ν) (bytes now : Nat) :
    Does c (c.insert key value bytes now)
      (put c.maxBytes ⟨key, value, bytes, now⟩ (view c)) := by
  unfold ByteLru.insert put
  simp only [remove_maxBytes]
  split
  · exact ⟨hsound.remove key, view_remove hsound key, remove_maxBytes key, remove_ttl key⟩
  · have hfresh : (c.remove key).entries.get? key = none := get?_remove key
    have hadd := (hsound.remove key).add (i := ⟨key, value, bytes, now⟩) hfresh
    have hdoes := does_evict _ _ hadd rfl
    refine ⟨hdoes.sound, ?_, hdoes.maxBytes.trans (remove_maxBytes key),
      hdoes.ttl.trans (remove_ttl key)⟩
    rw [hdoes.view, view_add (hsound.remove key) hfresh, view_remove hsound key]
    show trim (c.remove key).maxBytes _ = _
    rw [remove_maxBytes]

/-! ## runs -/

inductive Use (κ ν : Type*) where
  | get (key : κ) (now : Nat)
  | insert (key : κ) (value : ν) (bytes now : Nat)

def cached (s : List (Option ν) × ByteLru κ ν) : Use κ ν → List (Option ν) × ByteLru κ ν
  | .get key now => (s.1 ++ [(s.2.get key now).1], (s.2.get key now).2)
  | .insert key value bytes now => (s.1, s.2.insert key value bytes now)

def listed (maxBytes : Nat) (ttl : Option Nat) (s : List (Option ν) × List (Item κ ν)) :
    Use κ ν → List (Option ν) × List (Item κ ν)
  | .get key now => (s.1 ++ [(Recency.get ttl key now s.2).1], (Recency.get ttl key now s.2).2)
  | .insert key value bytes now => (s.1, put maxBytes ⟨key, value, bytes, now⟩ s.2)

structure Refines (maxBytes : Nat) (ttl : Option Nat) (s : List (Option ν) × ByteLru κ ν)
    (l : List (Option ν) × List (Item κ ν)) : Prop where
  sound : Sound s.2
  answers : s.1 = l.1
  view : view s.2 = l.2
  fits : Recency.Held maxBytes l.2
  cap : s.2.maxBytes = maxBytes
  ttl : s.2.ttl = ttl

variable {maxBytes : Nat} {ttl : Option Nat}

theorem refines_new :
    Refines maxBytes ttl (([] : List (Option ν)), (.new maxBytes ttl : ByteLru κ ν)) ([], []) where
  sound := by
    refine ⟨fun t k => ⟨fun h => absurd h (by simp [ByteLru.new]), ?_⟩, ?_, rfl⟩
    · rintro ⟨e, he, -⟩
      exact absurd he (by simp [ByteLru.new])
    · exact fun t k h => absurd h (by simp [ByteLru.new])
  answers := rfl
  view := rfl
  fits := ⟨List.nodup_nil, Nat.zero_le _⟩
  cap := rfl
  ttl := rfl

/-- **Step** of the simulation. -/
theorem Refines.step {s : List (Option ν) × ByteLru κ ν} {l : List (Option ν) × List (Item κ ν)}
    (h : Refines maxBytes ttl s l) (u : Use κ ν) :
    Refines maxBytes ttl (cached s u) (listed maxBytes ttl l u) := by
  cases u with
  | get key now =>
    obtain ⟨hanswer, hdoes⟩ := does_get h.sound key now
    rw [h.ttl, h.view] at hanswer hdoes
    exact ⟨hdoes.sound, congr (congrArg _ h.answers) (congrArg (fun a => [a]) hanswer), hdoes.view,
      h.fits.get ttl key now, hdoes.maxBytes.trans h.cap, hdoes.ttl.trans h.ttl⟩
  | insert key value bytes now =>
    have hdoes := does_insert h.sound key value bytes now
    rw [h.cap, h.view] at hdoes
    exact ⟨hdoes.sound, h.answers, hdoes.view, h.fits.put _, hdoes.maxBytes.trans h.cap,
      hdoes.ttl.trans h.ttl⟩

/-- **Run** of the simulation. -/
theorem refines_run (maxBytes : Nat) (ttl : Option Nat) (uses : List (Use κ ν)) :
    Refines maxBytes ttl (uses.foldl cached ([], .new maxBytes ttl))
      (uses.foldl (listed maxBytes ttl) ([], [])) := by
  induction uses using List.reverseRecOn with
  | nil => exact refines_new
  | append_singleton uses u ih =>
    rw [List.foldl_append, List.foldl_append]
    exact ih.step u

theorem size_eq_length (hsound : Sound c) : c.entries.size = (view c).length := by
  have hperm : c.entries.keys.Perm ((view c).map Item.key) := by
    refine (List.perm_ext_iff_of_nodup c.entries.keys_nodup hsound.keys).2 (fun k => ?_)
    rw [OrdMap.mem_keys]
    constructor
    · rintro ⟨e, he⟩
      exact List.mem_map.2 ⟨⟨k, e.value, e.bytes, e.since⟩, hsound.mem_view.2 ⟨e, he, rfl⟩, rfl⟩
    · intro hk
      obtain ⟨i, hi, rfl⟩ := List.mem_map.1 hk
      obtain ⟨e, he, -⟩ := hsound.mem_view.1 hi
      exact ⟨e, he⟩
  have hlength := hperm.length_eq
  rw [List.length_map] at hlength
  exact (List.length_map Prod.fst).symm.trans hlength

/-! ## the laws -/

/-- **The cache is a list by recency of use**: after any gets and inserts, with any clock, the
answers are those of the list with the same cap and time to live, the bytes are what the list weighs
and no more than the cap, and as many entries are held. -/
theorem refines (maxBytes : Nat) (ttl : Option Nat) (uses : List (Use κ ν)) :
    (uses.foldl cached ([], .new maxBytes ttl)).1
      = (uses.foldl (listed maxBytes ttl) ([], [])).1 ∧
    (uses.foldl cached ([], .new maxBytes ttl)).2.bytes
      = total (uses.foldl (listed maxBytes ttl) ([], [])).2 ∧
    (uses.foldl cached ([], .new maxBytes ttl)).2.bytes ≤ maxBytes ∧
    (uses.foldl cached ([], .new maxBytes ttl)).2.entries.size
      = (uses.foldl (listed maxBytes ttl) ([], [])).2.length := by
  have h := refines_run maxBytes ttl uses
  have hbytes := h.sound.weighed
  rw [h.view] at hbytes
  refine ⟨h.answers, hbytes, hbytes ▸ h.fits.fits, ?_⟩
  rw [size_eq_length h.sound, h.view]

/-- **The least recently used leave first**: after any uses, the next one takes an entry out only
when it reads it too old, inserts under its key, or inserts what does not fit beside it and all that
was used since. -/
theorem leaves_oldest (maxBytes : Nat) (ttl : Option Nat) (uses : List (Use κ ν)) (u : Use κ ν)
    {i : Item κ ν} {before after : List (Item κ ν)}
    (hview : view (uses.foldl cached ([], .new maxBytes ttl)).2 = before ++ i :: after)
    (hleaves : i ∉ view ((uses ++ [u]).foldl cached ([], .new maxBytes ttl)).2) :
    (∃ now, u = .get i.key now ∧ ttl.any (fun ttl => ttl ≤ now - i.since) = true) ∨
    (∃ value bytes now, u = .insert i.key value bytes now) ∨
    ∃ key value bytes now, u = .insert key value bytes now ∧ key ≠ i.key ∧ bytes ≤ maxBytes ∧
      maxBytes < i.weight + total (without key after) + bytes := by
  have h := refines_run maxBytes ttl uses
  have h' := h.step u
  rw [List.foldl_append] at hleaves
  rw [show (([u] : List (Use κ ν)).foldl cached (uses.foldl cached ([], .new maxBytes ttl)))
    = cached (uses.foldl cached ([], .new maxBytes ttl)) u from rfl, h'.view] at hleaves
  rw [h.view] at hview
  generalize (uses.foldl (listed maxBytes ttl) ([], [])) = l at h hview hleaves
  have hi : i ∈ l.2 := by
    rw [hview]
    simp
  cases u with
  | get key now =>
    obtain ⟨rfl, hold⟩ := get_drops h.fits.keys hi hleaves
    exact .inl ⟨now, rfl, hold⟩
  | insert key value bytes now =>
    refine .inr ?_
    by_cases hkey : i.key = key
    · exact .inl ⟨value, bytes, now, by rw [hkey]⟩
    · obtain ⟨hlight, hover⟩ := put_drops hview hkey hleaves
      exact .inr ⟨key, value, bytes, now, rfl, fun heq => hkey heq.symm, hlight, hover⟩

/-- `i` is what the uses inserted last under its key -/
def Last (maxBytes : Nat) (uses : List (Use κ ν)) (i : Item κ ν) : Prop :=
  ∃ l m, uses = l ++ .insert i.key i.value i.weight i.since :: m ∧
    (∀ value bytes now, Use.insert i.key value bytes now ∉ m) ∧ i.weight ≤ maxBytes

omit [LinearOrder κ] in
theorem Last.snoc {uses : List (Use κ ν)} {i : Item κ ν} {u : Use κ ν}
    (h : Last maxBytes uses i) (hother : ∀ value bytes now, u ≠ .insert i.key value bytes now) :
    Last maxBytes (uses ++ [u]) i := by
  obtain ⟨l, m, rfl, hm, hlight⟩ := h
  refine ⟨l, m ++ [u], by simp, ?_, hlight⟩
  intro value bytes now hmem
  rcases List.mem_append.1 hmem with hmem | hmem
  · exact hm value bytes now hmem
  · exact hother value bytes now (List.mem_singleton.1 hmem).symm

theorem last_run (maxBytes : Nat) (ttl : Option Nat) (uses : List (Use κ ν)) :
    ∀ i ∈ (uses.foldl (listed maxBytes ttl) ([], [])).2, Last maxBytes uses i := by
  induction uses using List.reverseRecOn with
  | nil => exact fun i hi => absurd hi List.not_mem_nil
  | append_singleton uses u ih =>
    intro i hi
    rw [List.foldl_append] at hi
    cases u with
    | get key now => exact (ih i (mem_get hi)).snoc (by simp)
    | insert key value bytes now =>
      rcases mem_put hi with ⟨hi, hkey⟩ | ⟨rfl, hlight⟩
      · refine (ih i hi).snoc (fun value' bytes' now' heq => hkey ?_)
        exact (Use.insert.inj heq).1.symm
      · exact ⟨uses, [], rfl, by simp, hlight⟩

/-- **What is answered was inserted last**: after any uses, a value answered under a key is the one
inserted last under it, it weighs no more than the cap, and it is younger than the time to live. -/
theorem answers_last (maxBytes : Nat) (ttl : Option Nat) (uses : List (Use κ ν)) {key : κ}
    {now : Nat} {v : ν}
    (h : ((uses.foldl cached ([], .new maxBytes ttl)).2.get key now).1 = some v) :
    ∃ bytes since, Last maxBytes uses ⟨key, v, bytes, since⟩ ∧
      ∀ t, ttl = some t → now - since < t := by
  have hrefines := refines_run maxBytes ttl uses
  rw [(does_get hrefines.sound key now).1, hrefines.view, hrefines.ttl] at h
  unfold Recency.get at h
  split at h
  · exact absurd h (by simp)
  · rename_i i hfind
    obtain ⟨hi, rfl⟩ := find_eq_some hfind
    split at h
    · exact absurd h (by simp)
    · rename_i hyoung
      obtain rfl := Option.some.inj h
      refine ⟨i.weight, i.since, last_run maxBytes ttl uses i hi, ?_⟩
      rintro t rfl
      simpa using hyoung

end

/-! ## three blobs in ten bytes -/

def blobs : List (Use Nat String) := [.insert 1 "a" 4 0, .insert 2 "b" 4 1, .get 1 2]

/-- the second blob has to make room -/
def third : Use Nat String := .insert 3 "c" 4 3

theorem leaves_oldest_of_blobs :
    ∃ key value bytes now, third = .insert key value bytes now ∧ key ≠ 2 ∧ bytes ≤ 10 ∧
      10 < 4 + total (without key [(⟨1, "a", 4, 0⟩ : Item Nat String)]) + bytes := by
  have hview : view (blobs.foldl cached ([], .new 10 none)).2
      = [] ++ (⟨2, "b", 4, 1⟩ : Item Nat String) :: [⟨1, "a", 4, 0⟩] := by decide
  have hleaves : (⟨2, "b", 4, 1⟩ : Item Nat String) ∉
      view ((blobs ++ [third]).foldl cached ([], .new 10 none)).2 := by decide
  rcases leaves_oldest 10 none blobs third hview hleaves with
    ⟨now, hget, -⟩ | ⟨value, bytes, now, hown⟩ | hother
  · exact absurd hget (by simp [third])
  · exact absurd (Use.insert.inj hown).1 (by simp)
  · exact hother

theorem answers_last_of_blobs : ∃ bytes since, Last 10 blobs ⟨1, "a", bytes, since⟩ ∧
    ∀ t, none = some t → 5 - since < t :=
  answers_last 10 none blobs
    (by decide : ((blobs.foldl cached ([], .new 10 none)).2.get 1 5).1 = some "a")

end Cache
end Portal
