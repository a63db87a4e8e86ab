import Portal.RunQueue.ClockWords
import Portal.RunQueue.Lanes

/-!
# Whose turn it is (`RunQueue::settle`, `RunQueue::queue_due`)

Once the runs that ended are out and what came due has joined, a settle serves the two lanes in
turn.  Each refuses what waits without an account and starts, of the rest, as many as it has room
for, by due time, then by key.  What is left waits in the same order.  A plan that is stale starts
and refuses nothing.

* `RunQueue.serve`      the two lanes of a settle;
* `Turn`                the line of a lane, apart from how the code sorts it;
* `Settled`             what a settle comes to;
* `settle_in_order`     every settle of every reachable queue comes to that;
* `settle_falls_short`  under a stale plan nothing starts and nothing is refused.
-/

namespace Portal

namespace RunQueue

def limitOf (q : RunQueue) : Lane → Nat
  | .batch => q.batch
  | .short => q.short

/-- how many runs a lane may start -/
def room (q : RunQueue) (lane : Lane) : Nat := q.limitOf lane - q.busy lane

/-- what waits in a lane and has an account, in order -/
def line (q : RunQueue) (x : Ext) (lane : Lane) : List (Lex (Int × Key)) :=
  (q.waiting lane).filter (fun w => !q.isUnbound x (waitKey w))

def serve (q : RunQueue) (x : Ext) (now : Int) : RunQueue × List Start :=
  let first := q.settleLane x .batch q.batch (q.fresh now) now
  let second := first.1.settleLane x .short first.1.short (q.fresh now) now
  (second.1, first.2 ++ second.2)

def startedIn (q : RunQueue) (lane : Lane) (starts : List Start) : List Key :=
  (starts.filter (fun s => (q.entries.get? s.key).any (fun e => e.lane = lane))).map Start.key

end RunQueue

open RunQueue (waitKey waits)

/-- `ws` is the line of a lane: what is queued, not running, not to be swept and of an account with
a client, by due time, then by key -/
structure Turn (x : Ext) (q : RunQueue) (lane : Lane) (ws : List (Lex (Int × Key))) : Prop where
  sorted : ws.Pairwise (fun v w => v < w)
  mem : ∀ w, w ∈ ws ↔ ∃ e, q.entries.get? (waitKey w) = some e ∧ e.lane = lane ∧
    e.queued = some (ofLex w).1 ∧ e.running = none ∧ e.sweep = false ∧
    q.isUnbound x (waitKey w) = false

/-- a clock that was read, of a period that fits its word -/
def Clock.Fits (c : Clock) : Prop :=
  (∃ period schedule, Clock.of period schedule = .ok c) ∧
    ∀ p phase, c = .every p phase → Duration.asMillis p < 2 ^ 63

/-- what a settle makes of the queue `d` in which the runs that ended are out and what came due has
joined -/
structure Settled (x : Ext) (now : Int) (d q : RunQueue) (starts : List Start) : Prop where
  /-- a lane starts the first of its line, as many as it has room for, and leaves the others -/
  order : d.fresh now = true → ∀ lane, ∃ ws, Turn x d lane ws ∧
    d.startedIn lane starts = (ws.take (d.room lane)).map waitKey ∧
    Turn x q lane (ws.drop (d.room lane))
  /-- one is left waiting only in a lane that is full, or under a stale plan -/
  full : ∀ lane K e due, q.entries.get? K = some e → waits lane e = some due →
    d.fresh now = true → d.limitOf lane ≤ q.busy lane
  /-- and none that is due later overtakes it -/
  before : ∀ lane K e due, q.entries.get? K = some e → waits lane e = some due →
    ∀ k ∈ d.startedIn lane starts, ∃ e' due', d.entries.get? k = some e' ∧
      e'.queued = some due' ∧ toLex (due', k) < toLex (due, K)
  /-- what waits without an account ends failed -/
  refused : d.fresh now = true → ∀ lane K e due, d.entries.get? K = some e →
    waits lane e = some due → d.isUnbound x K = true →
    q.entries.get? K = some (e.refuse now)
  stale : d.fresh now = false → q = d ∧ starts = []
  once : (starts.map Start.key).Nodup
  apart : ∀ K e, q.entries.get? K = some e → e.running ≠ none → e.queued = none
  onward : Time.Representable now → ∀ K e, q.entries.get? K = some e → e.clock.Fits →
    ∀ n, e.next = some n → now < n

/-! ## a lane's line -/

namespace RunQueue

theorem waiting_sorted (q : RunQueue) (lane : Lane) :
    (q.waiting lane).Pairwise (fun v w => v < w) := by
  have hle : (q.waiting lane).Pairwise (fun v w => v ≤ w) := List.pairwise_insertionSort _ _
  have hne : (q.waiting lane).Pairwise (fun v w => v ≠ w) :=
    List.Nodup.of_map waitKey (q.waiting_nodup lane)
  exact (hle.and hne).imp (fun h => lt_of_le_of_ne h.1 h.2)

theorem waits_iff {lane : Lane} {e : Entry} {due : Int} : waits lane e = some due ↔
    e.lane = lane ∧ e.queued = some due ∧ e.running = none ∧ e.sweep = false := by
  constructor
  · intro h
    obtain ⟨h1, h2, h3, h4⟩ := waits_eq_some h
    exact ⟨h1, h4, h2, h3⟩
  · intro ⟨h1, h2, h3, h4⟩
    unfold waits
    rw [if_pos ⟨h1, h3, h4⟩]
    exact h2

theorem mem_line {q : RunQueue} {x : Ext} {lane : Lane} {w : Lex (Int × Key)} :
    w ∈ q.line x lane ↔ ∃ e, q.entries.get? (waitKey w) = some e ∧
      waits lane e = some (ofLex w).1 ∧ q.isUnbound x (waitKey w) = false := by
  unfold line
  rw [List.mem_filter, mem_waiting]
  constructor
  · intro ⟨⟨e, he, hw⟩, hb⟩
    exact ⟨e, he, hw, by simpa using hb⟩
  · intro ⟨e, he, hw, hb⟩
    exact ⟨⟨e, he, hw⟩, by simpa using hb⟩

theorem line_sorted (q : RunQueue) (x : Ext) (lane : Lane) :
    (q.line x lane).Pairwise (fun v w => v < w) :=
  (q.waiting_sorted lane).filter _

theorem line_nodup (q : RunQueue) (x : Ext) (lane : Lane) : ((q.line x lane).map waitKey).Nodup :=
  (List.Sublist.map _ List.filter_sublist).nodup (q.waiting_nodup lane)

theorem turn_line (q : RunQueue) (x : Ext) (lane : Lane) : Turn x q lane (q.line x lane) where
  sorted := q.line_sorted x lane
  mem w := by
    rw [mem_line]
    constructor
    · intro ⟨e, he, hw, hb⟩
      obtain ⟨h1, h2, h3, h4⟩ := waits_iff.mp hw
      exact ⟨e, he, h1, h2, h3, h4, hb⟩
    · intro ⟨e, he, h1, h2, h3, h4, hb⟩
      exact ⟨e, he, waits_iff.mpr ⟨h1, h2, h3, h4⟩, hb⟩

theorem line_unique {x : Ext} {q q' : RunQueue} {lane : Lane}
    (h : ∀ w, w ∈ q'.line x lane ↔ w ∈ q.line x lane) : q'.line x lane = q.line x lane := by
  have hs' := q'.line_sorted x lane
  have hs := q.line_sorted x lane
  have hp : (q'.line x lane).Perm (q.line x lane) :=
    (List.perm_ext_iff_of_nodup (hs'.imp ne_of_lt) (hs.imp ne_of_lt)).mpr h
  exact hp.eq_of_pairwise (fun a b _ _ h1 h2 => absurd h1 (not_lt_of_gt h2)) hs' hs

/-! ## one lane -/

theorem startAll_all (x : Ext) (now : Int) (ws : List (Lex (Int × Key))) (q : RunQueue)
    (h : ∀ w ∈ ws, (q.entries.get? (waitKey w)).isSome) :
    (startAll x now ws q).2.map Start.key = ws.map waitKey := by
  induction ws generalizing q with
  | nil => rfl
  | cons w ws ih =>
    obtain ⟨e, he⟩ := Option.isSome_iff_exists.mp (h w (List.mem_cons_self ..))
    unfold startAll
    rw [show q.entries.get? (ofLex w).2 = some e from he]
    show waitKey w :: _ = _
    rw [List.map_cons, ih]
    intro v hv
    rw [get?_put]
    split
    · rfl
    · exact h v (List.mem_cons_of_mem _ hv)

variable {q : RunQueue} {x : Ext} {lane : Lane} {limit : Nat} {now : Int}

theorem refuseLane_get? {K : Key} {e : Entry} (he : q.entries.get? K = some e)
    (hb : q.isUnbound x K = false ∨ waits lane e = none) :
    (q.refuseAll ((q.waiting lane).filter (fun w => q.isUnbound x (ofLex w).2)) now).entries.get? K
      = some e := by
  have hn : (((q.waiting lane).filter (fun w => q.isUnbound x (ofLex w).2)).map waitKey).Nodup :=
    (List.Sublist.map _ List.filter_sublist).nodup (q.waiting_nodup lane)
  rw [(refuseAll_get? q _ now K hn).2, he]
  intro hk
  obtain ⟨w, hw, rfl⟩ := List.mem_map.mp hk
  obtain ⟨hwait, hu⟩ := List.mem_filter.mp hw
  obtain ⟨e', he', hdue⟩ := (mem_waiting q lane w).mp hwait
  obtain rfl : e = e' := Option.some.inj (he.symm.trans he')
  rcases hb with hb | hb
  · rw [show q.isUnbound x (ofLex w).2 = false from hb] at hu
    exact absurd hu (by simp)
  · rw [hb] at hdue
    exact absurd hdue (by simp)

theorem settleLane_fresh (q : RunQueue) (x : Ext) (lane : Lane) (limit : Nat) (now : Int) :
    q.settleLane x lane limit true now =
      startAll x now ((q.line x lane).take (limit - q.busy lane))
        (q.refuseAll ((q.waiting lane).filter (fun w => q.isUnbound x (ofLex w).2)) now) := by
  rfl

theorem take_line_nodup (q : RunQueue) (x : Ext) (lane : Lane) (n : Nat) :
    (((q.line x lane).take n).map waitKey).Nodup :=
  ((List.take_sublist _ _).map _).nodup (q.line_nodup x lane)

/-- **A lane starts the first of its line.** -/
theorem settleLane_keys : (q.settleLane x lane limit true now).2.map Start.key =
    ((q.line x lane).take (limit - q.busy lane)).map waitKey := by
  rw [settleLane_fresh]
  refine startAll_all x now _ _ fun w hw => ?_
  obtain ⟨e, he, _, hb⟩ := mem_line.mp (List.mem_of_mem_take hw)
  rw [refuseLane_get? he (Or.inl hb)]
  rfl

theorem settleLane_started {w : Lex (Int × Key)}
    (hw : w ∈ (q.line x lane).take (limit - q.busy lane)) {e : Entry}
    (he : q.entries.get? (waitKey w) = some e) :
    (q.settleLane x lane limit true now).1.entries.get? (waitKey w)
      = some (e.start x (ofLex w).1 now) := by
  obtain ⟨e', he', _, hb⟩ := mem_line.mp (List.mem_of_mem_take hw)
  rw [settleLane_fresh]
  exact ((startAll_get? x now (waitKey w) _ _ (q.take_line_nodup x lane _)).1 w hw rfl e
    (refuseLane_get? he (Or.inl hb))).1

theorem settleLane_unbound {K : Key} {e : Entry} {due : Int} (he : q.entries.get? K = some e)
    (hw : waits lane e = some due) (hu : q.isUnbound x K = true) :
    (q.settleLane x lane limit true now).1.entries.get? K = some (e.refuse now) := by
  have hn : (((q.waiting lane).filter (fun w => q.isUnbound x (ofLex w).2)).map waitKey).Nodup :=
    (List.Sublist.map _ List.filter_sublist).nodup (q.waiting_nodup lane)
  have hmem : toLex (due, K) ∈ (q.waiting lane).filter (fun w => q.isUnbound x (ofLex w).2) :=
    List.mem_filter.mpr ⟨(mem_waiting q lane _).mpr ⟨e, he, hw⟩, hu⟩
  have hline : K ∉ ((q.line x lane).take (limit - q.busy lane)).map waitKey := by
    intro hk
    obtain ⟨w, hin, rfl⟩ := List.mem_map.mp hk
    obtain ⟨_, _, _, hb⟩ := mem_line.mp (List.mem_of_mem_take hin)
    rw [hb] at hu
    exact absurd hu (by simp)
  rw [settleLane_fresh, ((startAll_get? x now K _ _ (q.take_line_nodup x lane _)).2 hline).1,
    (refuseAll_get? q _ now K hn).1 (List.mem_map.mpr ⟨_, hmem, rfl⟩), he]
  rfl

theorem settleLane_left {K : Key} {e : Entry} (he : q.entries.get? K = some e)
    (hk : K ∉ ((q.line x lane).take (limit - q.busy lane)).map waitKey)
    (hb : q.isUnbound x K = false ∨ waits lane e = none) :
    (q.settleLane x lane limit true now).1.entries.get? K = some e := by
  rw [settleLane_fresh, ((startAll_get? x now K _ _ (q.take_line_nodup x lane _)).2 hk).1]
  exact refuseLane_get? he hb

theorem settleLane_other {K : Key} {e : Entry} (he : q.entries.get? K = some e)
    (hl : e.lane ≠ lane) : (q.settleLane x lane limit true now).1.entries.get? K = some e := by
  have hwait : waits lane e = none := by
    unfold waits
    rw [if_neg (fun h => hl h.1)]
  refine settleLane_left he (fun hk => ?_) (Or.inr hwait)
  obtain ⟨w, hw, rfl⟩ := List.mem_map.mp hk
  obtain ⟨e', he', hdue, _⟩ := mem_line.mp (List.mem_of_mem_take hw)
  obtain rfl : e = e' := Option.some.inj (he.symm.trans he')
  rw [hwait] at hdue
  exact absurd hdue (by simp)

theorem settleLane_isUnbound (q : RunQueue) (x : Ext) (lane : Lane) (limit : Nat) (fresh : Bool)
    (now : Int) (K : Key) : (q.settleLane x lane limit fresh now).1.isUnbound x K
      = q.isUnbound x K := by
  rw [settleLane_frame]
  rfl

theorem of_settleLane {fresh : Bool} {K : Key} {e' : Entry}
    (h : (q.settleLane x lane limit fresh now).1.entries.get? K = some e') :
    ∃ e, q.entries.get? K = some e ∧ e'.lane = e.lane := by
  obtain ⟨e, he, m⟩ := settleLane_inv q x lane limit fresh now h
  exact ⟨e, he, m.kept.lane⟩

theorem settleLane_line_other {lane' : Lane} (hne : lane' ≠ lane) :
    (q.settleLane x lane limit true now).1.line x lane' = q.line x lane' ∧
      (q.settleLane x lane limit true now).1.busy lane' = q.busy lane' := by
  have hsame : ∀ K e, e.lane = lane' →
      ((q.settleLane x lane limit true now).1.entries.get? K = some e ↔
        q.entries.get? K = some e) := by
    intro K e hl
    constructor
    · intro h
      obtain ⟨e₀, he₀, hlane⟩ := of_settleLane h
      have hkept : (q.settleLane x lane limit true now).1.entries.get? K = some e₀ :=
        settleLane_other he₀ (by rw [← hlane, hl]; exact hne)
      exact he₀.trans (hkept.symm.trans h)
    · intro h
      exact settleLane_other h (by rw [hl]; exact hne)
  constructor
  · refine line_unique fun w => ?_
    rw [mem_line, mem_line, settleLane_isUnbound]
    refine exists_congr fun e => ?_
    constructor
    · intro ⟨h1, h2, h3⟩
      exact ⟨(hsame _ e (waits_eq_some h2).1).mp h1, h2, h3⟩
    · intro ⟨h1, h2, h3⟩
      exact ⟨(hsame _ e (waits_eq_some h2).1).mpr h1, h2, h3⟩
  · refine le_antisymm (settleLane_busy_other q x lane lane' limit true now hne) (busy_le ?_)
    intro K e he hl hr
    exact ⟨e, (hsame K e hl).mpr he, hl, hr⟩

/-! ## both lanes -/

theorem serve_stale (h : q.fresh now = false) : q.serve x now = (q, []) := by
  unfold serve settleLane
  rw [h]
  rfl

def between (q : RunQueue) (x : Ext) (now : Int) : RunQueue :=
  (q.settleLane x .batch q.batch true now).1

theorem serve_fresh (h : q.fresh now = true) : q.serve x now =
    (((q.between x now).settleLane x .short (q.between x now).short true now).1,
      (q.settleLane x .batch q.batch true now).2 ++
        ((q.between x now).settleLane x .short (q.between x now).short true now).2) := by
  unfold serve between
  rw [h]

theorem between_short (q : RunQueue) (x : Ext) (now : Int) :
    (q.between x now).short = q.short ∧ (q.between x now).line x .short = q.line x .short ∧
      (q.between x now).busy .short = q.busy .short ∧
      ∀ K, (q.between x now).isUnbound x K = q.isUnbound x K := by
  have hother : (q.between x now).line x .short = q.line x .short ∧
      (q.between x now).busy .short = q.busy .short := settleLane_line_other (by decide)
  refine ⟨?_, hother.1, hother.2, q.settleLane_isUnbound x .batch q.batch true now⟩
  unfold between
  rw [settleLane_frame]

theorem take_between (q : RunQueue) (x : Ext) (now : Int) :
    ((q.between x now).line x .short).take
        ((q.between x now).short - (q.between x now).busy .short) =
      (q.line x .short).take (q.room .short) := by
  obtain ⟨h1, h2, h3, _⟩ := q.between_short x now
  rw [h1, h2, h3]
  rfl

theorem serve_started (h : q.fresh now = true) {w : Lex (Int × Key)}
    (hw : w ∈ (q.line x lane).take (q.room lane)) {e : Entry}
    (he : q.entries.get? (waitKey w) = some e) :
    (q.serve x now).1.entries.get? (waitKey w) = some (e.start x (ofLex w).1 now) := by
  obtain ⟨e', he', hdue, _⟩ := mem_line.mp (List.mem_of_mem_take hw)
  obtain rfl : e = e' := Option.some.inj (he.symm.trans he')
  have hl := (waits_eq_some hdue).1
  rw [serve_fresh h]
  cases lane with
  | batch =>
    have hm : (q.between x now).entries.get? (waitKey w) = some (e.start x (ofLex w).1 now) :=
      settleLane_started hw he
    exact settleLane_other hm (show e.lane ≠ .short by rw [hl]; decide)
  | short =>
    have hm : (q.between x now).entries.get? (waitKey w) = some e :=
      settleLane_other he (by rw [hl]; decide)
    rw [← take_between q x now] at hw
    exact settleLane_started hw hm

theorem serve_unbound (h : q.fresh now = true) {K : Key} {e : Entry} {due : Int}
    (he : q.entries.get? K = some e) (hw : waits lane e = some due)
    (hu : q.isUnbound x K = true) :
    (q.serve x now).1.entries.get? K = some (e.refuse now) := by
  have hl := (waits_eq_some hw).1
  rw [serve_fresh h]
  cases lane with
  | batch =>
    have hm : (q.between x now).entries.get? K = some (e.refuse now) :=
      settleLane_unbound he hw hu
    exact settleLane_other hm (show e.lane ≠ .short by rw [hl]; decide)
  | short =>
    have hm : (q.between x now).entries.get? K = some e :=
      settleLane_other he (by rw [hl]; decide)
    refine settleLane_unbound hm hw ?_
    rw [(q.between_short x now).2.2.2]
    exact hu

theorem serve_left (h : q.fresh now = true) {K : Key} {e : Entry}
    (he : q.entries.get? K = some e)
    (hk : K ∉ ((q.line x e.lane).take (q.room e.lane)).map waitKey)
    (hb : q.isUnbound x K = false ∨ waits e.lane e = none) :
    (q.serve x now).1.entries.get? K = some e := by
  rw [serve_fresh h]
  cases hl : e.lane with
  | batch =>
    rw [hl] at hk hb
    have hm : (q.between x now).entries.get? K = some e := settleLane_left he hk hb
    exact settleLane_other hm (by rw [hl]; decide)
  | short =>
    rw [hl] at hk hb
    have hm : (q.between x now).entries.get? K = some e :=
      settleLane_other he (by rw [hl]; decide)
    rw [← take_between q x now] at hk
    refine settleLane_left hm hk ?_
    rw [(q.between_short x now).2.2.2]
    exact hb

/-- **What two lanes make of one entry.** -/
theorem serve_cases (h : q.fresh now = true) {K : Key} {e : Entry}
    (he : q.entries.get? K = some e) :
    (∃ w ∈ (q.line x e.lane).take (q.room e.lane), waitKey w = K ∧
      (q.serve x now).1.entries.get? K = some (e.start x (ofLex w).1 now)) ∨
    (∃ due, waits e.lane e = some due ∧ q.isUnbound x K = true ∧
      (q.serve x now).1.entries.get? K = some (e.refuse now)) ∨
    (K ∉ ((q.line x e.lane).take (q.room e.lane)).map waitKey ∧
      (q.isUnbound x K = false ∨ waits e.lane e = none) ∧
      (q.serve x now).1.entries.get? K = some e) := by
  by_cases hk : K ∈ ((q.line x e.lane).take (q.room e.lane)).map waitKey
  · obtain ⟨w, hw, rfl⟩ := List.mem_map.mp hk
    exact Or.inl ⟨w, hw, rfl, serve_started h hw he⟩
  · cases hu : q.isUnbound x K with
    | false => exact Or.inr (Or.inr ⟨hk, Or.inl rfl, serve_left h he hk (Or.inl hu)⟩)
    | true =>
      cases hw : waits e.lane e with
      | none => exact Or.inr (Or.inr ⟨hk, Or.inr rfl, serve_left h he hk (Or.inr hw)⟩)
      | some due => exact Or.inr (Or.inl ⟨due, rfl, rfl, serve_unbound h he hw hu⟩)

theorem of_serve {K : Key} {e' : Entry} (h : (q.serve x now).1.entries.get? K = some e') :
    ∃ e, q.entries.get? K = some e := by
  unfold serve at h
  obtain ⟨e₁, h1, _⟩ := of_settleLane h
  obtain ⟨e, he, _⟩ := of_settleLane h1
  exact ⟨e, he⟩

theorem serve_keys (h : q.fresh now = true) : (q.serve x now).2.map Start.key =
    ((q.line x .batch).take (q.room .batch)).map waitKey ++
      ((q.line x .short).take (q.room .short)).map waitKey := by
  rw [serve_fresh h, ← take_between q x now, List.map_append, settleLane_keys, settleLane_keys]
  rfl

theorem line_lane {n : Nat} {k : Key} (hk : k ∈ ((q.line x lane).take n).map waitKey)
    (lane' : Lane) :
    (q.entries.get? k).any (fun e => e.lane = lane') = decide (lane = lane') := by
  obtain ⟨w, hw, rfl⟩ := List.mem_map.mp hk
  obtain ⟨e, he, hdue, _⟩ := mem_line.mp (List.mem_of_mem_take hw)
  rw [he, ← (waits_eq_some hdue).1]
  rfl

/-- **Each lane starts the first of its line, as many as it has room for.** -/
theorem serve_startedIn (h : q.fresh now = true) (lane : Lane) :
    q.startedIn lane (q.serve x now).2 = ((q.line x lane).take (q.room lane)).map waitKey := by
  have hmap : q.startedIn lane (q.serve x now).2 = ((q.serve x now).2.map Start.key).filter
      (fun k => (q.entries.get? k).any (fun e => e.lane = lane)) := by
    unfold startedIn
    rw [List.filter_map]
    rfl
  rw [hmap, serve_keys h, List.filter_append]
  have hall : ∀ lane', lane' = lane → (((q.line x lane').take (q.room lane')).map waitKey).filter
      (fun k => (q.entries.get? k).any (fun e => e.lane = lane))
        = ((q.line x lane').take (q.room lane')).map waitKey := by
    intro lane' hl
    refine List.filter_eq_self.mpr fun k hk => ?_
    rw [line_lane hk, hl]
    simp
  have hnone : ∀ lane', lane' ≠ lane → (((q.line x lane').take (q.room lane')).map waitKey).filter
      (fun k => (q.entries.get? k).any (fun e => e.lane = lane)) = [] := by
    intro lane' hl
    refine List.filter_eq_nil_iff.mpr fun k hk => ?_
    rw [line_lane hk]
    simpa using hl
  cases lane with
  | batch => rw [hall .batch rfl, hnone .short (by decide), List.append_nil]
  | short => rw [hall .short rfl, hnone .batch (by decide), List.nil_append]

theorem serve_once : ((q.serve x now).2.map Start.key).Nodup := by
  cases h : q.fresh now with
  | false =>
    rw [serve_stale h]
    exact List.nodup_nil
  | true =>
    rw [serve_keys h]
    refine List.Nodup.append (q.take_line_nodup x .batch _) (q.take_line_nodup x .short _) ?_
    intro k h1 h2
    have e1 := line_lane h1 .batch
    have e2 := line_lane h2 .batch
    rw [e1] at e2
    exact absurd e2 (by decide)

theorem serve_isUnbound (K : Key) : (q.serve x now).1.isUnbound x K = q.isUnbound x K := by
  unfold serve
  rw [settleLane_isUnbound, settleLane_isUnbound]

/-- **What is left of a line waits on.** -/
theorem serve_rest (h : q.fresh now = true) (lane : Lane) :
    Turn x (q.serve x now).1 lane ((q.line x lane).drop (q.room lane)) where
  sorted := (q.line_sorted x lane).sublist (List.drop_sublist _ _)
  mem w := by
    rw [serve_isUnbound]
    constructor
    · intro hw
      obtain ⟨e, he, hdue, hb⟩ := mem_line.mp (List.mem_of_mem_drop hw)
      obtain ⟨h1, h2, h3, h4⟩ := waits_iff.mp hdue
      have hk : waitKey w ∉ ((q.line x e.lane).take (q.room e.lane)).map waitKey := by
        intro hk
        have hn := q.line_nodup x lane
        rw [← List.take_append_drop (q.room lane) (q.line x lane), List.map_append] at hn
        rw [h1] at hk
        exact (List.nodup_append.mp hn).2.2 _ hk _ (List.mem_map_of_mem hw) rfl
      exact ⟨e, serve_left h he hk (Or.inl hb), h1, h2, h3, h4, hb⟩
    · intro ⟨e, he', h1, h2, h3, h4, hb⟩
      obtain ⟨e₀, he⟩ := of_serve he'
      rcases serve_cases h he with ⟨v, _, _, hv⟩ | ⟨_, _, hu, _⟩ | ⟨hk, _, hv⟩
      · obtain rfl : e = e₀.start x (ofLex v).1 now := Option.some.inj (he'.symm.trans hv)
        exact absurd h3 (by simp [Entry.start])
      · rw [hb] at hu
        exact absurd hu (by simp)
      · obtain rfl : e = e₀ := Option.some.inj (he'.symm.trans hv)
        have hline : w ∈ q.line x lane := mem_line.mpr ⟨e, he, waits_iff.mpr ⟨h1, h2, h3, h4⟩, hb⟩
        rw [← List.take_append_drop (q.room lane) (q.line x lane)] at hline
        rcases List.mem_append.mp hline with ht | hd
        · rw [h1] at hk
          exact absurd (List.mem_map_of_mem ht) hk
        · exact hd

theorem mem_rest (h : q.fresh now = true) {K : Key} {e : Entry} {due : Int}
    (he : (q.serve x now).1.entries.get? K = some e) (hw : waits lane e = some due) :
    toLex (due, K) ∈ (q.line x lane).drop (q.room lane) := by
  obtain ⟨h1, h2, h3, h4⟩ := waits_iff.mp hw
  refine ((serve_rest h lane).mem _).mpr ⟨e, he, h1, h2, h3, h4, ?_⟩
  rw [serve_isUnbound]
  obtain ⟨e₀, he₀⟩ := of_serve he
  rcases serve_cases h he₀ with ⟨v, _, _, hv⟩ | ⟨_, _, _, hv⟩ | ⟨_, hb, hv⟩
  · obtain rfl : e = e₀.start x (ofLex v).1 now := Option.some.inj (he.symm.trans hv)
    exact absurd h3 (by simp [Entry.start])
  · obtain rfl : e = e₀.refuse now := Option.some.inj (he.symm.trans hv)
    exact absurd h2 (by simp [Entry.refuse])
  · obtain rfl : e = e₀ := Option.some.inj (he.symm.trans hv)
    refine hb.resolve_right fun hnone => ?_
    rw [h1, hw] at hnone
    exact absurd hnone (by simp)

theorem serve_busy (h : q.fresh now = true) (lane : Lane) :
    q.busy lane + ((q.line x lane).take (q.room lane)).length ≤ (q.serve x now).1.busy lane := by
  have hc := OrdMap.add_length_le_count q.entries (q.serve x now).1.entries
    (fun e => e.lane = lane && e.running.isSome)
    (q.take_line_nodup x lane (q.room lane)) ?_ ?_
  · rw [List.length_map] at hc
    exact hc
  · intro K e he hp
    simp only [Bool.and_eq_true, decide_eq_true_eq] at hp
    have hwait : waits e.lane e = none := by
      unfold waits
      rw [if_neg fun hw => by rw [hw.2.1] at hp; exact absurd hp.2 (by simp)]
    rcases serve_cases h he with ⟨w, hw, hk, _⟩ | ⟨_, hw, _⟩ | ⟨_, _, hv⟩
    · obtain ⟨e', he', hdue, _⟩ := mem_line.mp (List.mem_of_mem_take hw)
      rw [hk, he] at he'
      obtain rfl : e = e' := Option.some.inj he'
      rw [hwait] at hdue
      exact absurd hdue (by simp)
    · rw [hwait] at hw
      exact absurd hw (by simp)
    · exact ⟨e, hv, by simp [hp]⟩
  · intro K hK
    obtain ⟨w, hw, rfl⟩ := List.mem_map.mp hK
    obtain ⟨e, he, hdue, _⟩ := mem_line.mp (List.mem_of_mem_take hw)
    obtain ⟨h1, h2, h3, h4⟩ := waits_iff.mp hdue
    refine ⟨⟨_, serve_started h hw he, by simp [Entry.start, h1]⟩, fun e' he' => ?_⟩
    obtain rfl : e = e' := Option.some.inj (he.symm.trans he')
    simp [h3]

/-- **What two lanes make of a queue.** -/
theorem serve_settled (q : RunQueue) (x : Ext) (now : Int)
    (hapart : ∀ K e, q.entries.get? K = some e → e.running ≠ none → e.queued = none)
    (honward : Time.Representable now → ∀ K e, q.entries.get? K = some e → e.clock.Fits →
      ∀ n, e.next = some n → now < n) :
    Settled x now q (q.serve x now).1 (q.serve x now).2 where
  order h lane := ⟨q.line x lane, q.turn_line x lane, serve_startedIn h lane, serve_rest h lane⟩
  full lane K e due he hw h := by
    have hmem := mem_rest h he hw
    have hlen : q.room lane < (q.line x lane).length := by
      by_contra hge
      rw [List.drop_eq_nil_of_le (not_lt.mp hge)] at hmem
      exact absurd hmem List.not_mem_nil
    have hbusy := serve_busy (x := x) h lane
    rw [List.length_take, Nat.min_eq_left (le_of_lt hlen)] at hbusy
    unfold room at hbusy
    omega
  before lane K e due he hw k hk := by
    cases h : q.fresh now with
    | false =>
      rw [serve_stale h] at hk
      exact absurd hk List.not_mem_nil
    | true =>
      have hmem := mem_rest h he hw
      rw [serve_startedIn h] at hk
      obtain ⟨v, hv, rfl⟩ := List.mem_map.mp hk
      obtain ⟨e', he', hdue, _⟩ := mem_line.mp (List.mem_of_mem_take hv)
      have hs := q.line_sorted x lane
      rw [← List.take_append_drop (q.room lane) (q.line x lane)] at hs
      exact ⟨e', (ofLex v).1, he', (waits_iff.mp hdue).2.1,
        (List.pairwise_append.mp hs).2.2 v hv _ hmem⟩
  refused h lane K e due he hw hu := serve_unbound h he hw hu
  stale h := by
    rw [serve_stale h]
    exact ⟨rfl, rfl⟩
  once := serve_once
  apart K e he hr := by
    cases h : q.fresh now with
    | false =>
      rw [serve_stale h] at he
      exact hapart K e he hr
    | true =>
      obtain ⟨e₀, he₀⟩ := of_serve he
      rcases serve_cases h he₀ with ⟨v, _, _, hv⟩ | ⟨_, _, _, hv⟩ | ⟨_, _, hv⟩
      · rw [Option.some.inj (he.symm.trans hv)]
        rfl
      · rw [Option.some.inj (he.symm.trans hv)]
        rfl
      · obtain rfl : e = e₀ := Option.some.inj (he.symm.trans hv)
        exact hapart K e he₀ hr
  onward ht K e he hc n hn := by
    cases h : q.fresh now with
    | false =>
      rw [serve_stale h] at he
      exact honward ht K e he hc n hn
    | true =>
      obtain ⟨e₀, he₀⟩ := of_serve he
      rcases serve_cases h he₀ with ⟨v, _, _, hv⟩ | ⟨_, _, _, hv⟩ | ⟨_, _, hv⟩
      · rw [Option.some.inj (he.symm.trans hv)] at hc hn
        exact honward ht K e₀ he₀ hc n hn
      · rw [Option.some.inj (he.symm.trans hv)] at hc hn
        exact honward ht K e₀ he₀ hc n hn
      · obtain rfl : e = e₀ := Option.some.inj (he.symm.trans hv)
        exact honward ht K e he₀ hc n hn

end RunQueue

/-! ## what comes before -/

theorem Clock.Fits.lt {c : Clock} (h : c.Fits) {t u : Int} (ht : Time.Representable t)
    (hu : c.nextAfter t = some u) : t < u := by
  obtain ⟨⟨period, schedule, hc⟩, hfit⟩ := h
  cases c with
  | once => exact absurd hu (by simp [Clock.nextAfter])
  | every p phase =>
    obtain ⟨hp, hph⟩ := of_every hc
    rw [every_nextAfter (by omega) (hfit p phase rfl) hph ht] at hu
    split at hu
    · rw [← Option.some.inj hu]
      exact (every_isLeast (show 0 < Duration.asMillis p by omega) phase t).1.1
    · exact absurd hu (by simp)
  | cron c => exact ((c.nextAfter_iff t u).mp hu).1.1.1

theorem Entry.queueDue_next {e : Entry} {now : Int} (hc : e.clock.Fits)
    (ht : Time.Representable now) {n : Int} (hn : (e.queueDue now).next = some n) : now < n := by
  unfold queueDue at hn
  split at hn
  · rename_i hnone
    by_contra hle
    have : e.next.filter (fun due => due ≤ now) = some n := by
      rw [hn]
      exact Option.filter_eq_some_iff.mpr ⟨rfl, by simpa using not_lt.mp hle⟩
    rw [hnone] at this
    exact absurd this (by simp)
  · exact hc.lt ht hn

theorem EntryLaw.settleEnds {x : Ext} {P : Entry → Prop} (hP : EntryLaw x P) (now : Int)
    (states : List (Key × RunState)) (q : RunQueue)
    (h : ∀ K e, q.entries.get? K = some e → P e) :
    ∀ K e, (RunQueue.settleEnds now states q).1.entries.get? K = some e → P e := by
  induction states generalizing q with
  | nil => exact h
  | cons s states ih =>
    obtain ⟨key, state⟩ := s
    rw [RunQueue.settleEnds_cons]
    cases hb : (q.entries.get? key).bind (fun e =>
        (e.ending (some state) now q.timeout).map (fun r => (e, r))) with
    | none => exact ih q h
    | some r =>
      obtain ⟨e, started, state', failure⟩ := r
      refine ih _ fun K e' he' => ?_
      rw [RunQueue.get?_put] at he'
      split at he'
      · obtain ⟨e₀, he₀, hr⟩ := Option.bind_eq_some_iff.mp hb
        obtain ⟨r, hr, heq⟩ := Option.map_eq_some_iff.mp hr
        obtain ⟨rfl, rfl⟩ := Prod.mk.inj heq
        rw [← Option.some.inj he']
        exact hP.move _ _ (.endRun _ _ _ _ _ (Entry.running_of_ending hr)) (h key e₀ he₀)
      · exact h K e' he'

theorem RunQueue.of_settleDue {q : RunQueue} {states : List (Key × RunState)} {now : Int} {K : Key}
    {e : Entry} (h : (q.settleDue states now).1.entries.get? K = some e) :
    ∃ e₀, (settleEnds now states q).1.entries.get? K = some e₀ ∧
      e = (e₀.queueDue now).queueRetry now := by
  unfold settleDue queueRetries queueDue at h
  simp only [OrdMap.get?_mapVal] at h
  obtain ⟨e₁, h1, rfl⟩ := Option.map_eq_some_iff.mp h
  obtain ⟨e₀, h0, rfl⟩ := Option.map_eq_some_iff.mp h1
  exact ⟨e₀, h0, rfl⟩

/-- **Every settle of every reachable queue serves each lane in order**, whatever the runner
answered. -/
theorem settle_in_order (x : Ext) (batch short : Nat) {tr : List (Trans Sys Action)} {s : Sys}
    (hr : Run (step x) (Sys.start batch short) tr s) (states : List (Key × RunState))
    (now : Int) :
    Settled x now (s.queue.settleDue states now).1 (s.queue.settle x states now).1
      (s.queue.settle x states now).2.2 := by
  refine RunQueue.serve_settled (s.queue.settleDue states now).1 x now ?_ ?_
  · intro K e he hrun
    obtain ⟨e₀, he₀, rfl⟩ := RunQueue.of_settleDue he
    have hlaw := runs_law x
    have h0 := hlaw.settleEnds now states s.queue (fun K e he => hlaw.run hr he) K e₀ he₀
    exact (hlaw.move _ _ (.queueRetry ..) (hlaw.move _ _ (.queueDue ..) h0) hrun).1
  · intro ht K e he hc n hn
    obtain ⟨e₀, _, rfl⟩ := RunQueue.of_settleDue he
    rw [(Entry.queueRetry_fields _ now).2.2.1] at hn
    rw [(Entry.queueRetry_fields _ now).1.clock, (Entry.queueDue_fields e₀ now).1.clock] at hc
    exact Entry.queueDue_next hc ht hn

/-- `a` and `b` wait, `b` without an account, and a tick has looked `age` after their plan -/
def planned (age : Int) : List Action :=
  .tell (.ran OrdMap.empty) :: .tell (.unbound {"p/b"}) ::
  .plan (OrdMap.ofList [(keyA, minutely streamA), (keyB, hourly streamA)]) 0 ::
  .tick age :: [.call (.delete keyA true), .call (.delete keyB true)]

theorem settle_starts_a :
    ∃ tr s, Run (step sampleExt) (Sys.start 1 1) tr s ∧
      (s.queue.settle sampleExt [] Time.second).2.2 = [⟨keyA, stamp 0, streamA⟩] ∧
      Settled sampleExt Time.second (s.queue.settleDue [] Time.second).1
        (s.queue.settle sampleExt [] Time.second).1
        (s.queue.settle sampleExt [] Time.second).2.2 := by
  have hr : Run (step sampleExt) (Sys.start 1 1)
      (trace (step sampleExt) (Sys.start 1 1) (planned Time.second))
      (final (step sampleExt) (Sys.start 1 1) (planned Time.second)) :=
    run_trace (by decide +kernel)
  exact ⟨_, _, hr, by decide +kernel, settle_in_order sampleExt 1 1 hr [] Time.second⟩

/-- `a` on a period whose milliseconds are a day below zero as a signed word -/
def overlong : List Action :=
  .tell (.ran OrdMap.empty) ::
  .plan (OrdMap.ofList [(keyA,
    ⟨streamA, .every (Duration.ofMillis 18446744073623151616) 0, true⟩)]) 0 ::
  .tick Time.second :: [.call (.delete keyA true)]

/-- **What a settle does not do.**  Twenty minutes after its plan `a` is due and its lane is free,
and it is not started; `b` has no account, and it stays in the queue.  On a period that does not
fit its word a pipeline is due next in the past. -/
theorem settle_falls_short :
    ¬ (∀ (x : Ext) (batch short : Nat) (tr : List (Trans Sys Action)) (s : Sys)
        (states : List (Key × RunState)) (now : Int),
      Run (step x) (Sys.start batch short) tr s → ∀ lane, ∃ ws,
        Turn x (s.queue.settleDue states now).1 lane ws ∧
        (s.queue.settleDue states now).1.startedIn lane (s.queue.settle x states now).2.2 =
          (ws.take ((s.queue.settleDue states now).1.room lane)).map waitKey) ∧
    ¬ (∀ (x : Ext) (batch short : Nat) (tr : List (Trans Sys Action)) (s : Sys)
        (states : List (Key × RunState)) (now : Int),
      Run (step x) (Sys.start batch short) tr s → ∀ lane K e due,
        (s.queue.settleDue states now).1.entries.get? K = some e → waits lane e = some due →
        (s.queue.settleDue states now).1.isUnbound x K = true →
        ∃ e', (s.queue.settle x states now).1.entries.get? K = some e' ∧ e'.queued = none) ∧
    ¬ (∀ (x : Ext) (batch short : Nat) (tr : List (Trans Sys Action)) (s : Sys)
        (states : List (Key × RunState)) (now : Int),
      Run (step x) (Sys.start batch short) tr s → ∀ K e n,
        (s.queue.settle x states now).1.entries.get? K = some e → e.next = some n → now < n) := by
  have hr : Run (step sampleExt) (Sys.start 1 1)
      (trace (step sampleExt) (Sys.start 1 1) (planned (20 * Time.minute)))
      (final (step sampleExt) (Sys.start 1 1) (planned (20 * Time.minute))) :=
    run_trace (by decide +kernel)
  generalize hs : final (step sampleExt) (Sys.start 1 1) (planned (20 * Time.minute)) = s at hr
  refine ⟨?_, ?_, ?_⟩
  · intro h
    obtain ⟨ws, hturn, hstarts⟩ := h sampleExt 1 1 _ s [] (20 * Time.minute) hr .short
    have hroom : (s.queue.settleDue [] (20 * Time.minute)).1.room .short = 1 := by
      rw [← hs]
      decide +kernel
    have hnone : (s.queue.settle sampleExt [] (20 * Time.minute)).2.2 = [] := by
      rw [← hs]
      decide +kernel
    have hline : toLex ((0 : Int), keyA) ∈
        (s.queue.settleDue [] (20 * Time.minute)).1.line sampleExt .short := by
      rw [← hs]
      decide +kernel
    have hmem := (hturn.mem _).mpr
      (((RunQueue.turn_line _ sampleExt .short).mem (toLex (0, keyA))).mp hline)
    rw [hroom, hnone] at hstarts
    cases ws with
    | nil => exact absurd hmem List.not_mem_nil
    | cons w ws => exact absurd hstarts (by simp [RunQueue.startedIn])
  · intro h
    have hb : ∃ e, (s.queue.settleDue [] (20 * Time.minute)).1.entries.get? keyB = some e ∧
        waits .batch e = some 0 := by
      have hw : toLex ((0 : Int), keyB) ∈
          (s.queue.settleDue [] (20 * Time.minute)).1.waiting .batch := by
        rw [← hs]
        decide +kernel
      exact (RunQueue.mem_waiting _ .batch _).mp hw
    obtain ⟨e, he, hw⟩ := hb
    obtain ⟨e', he', hq⟩ := h sampleExt 1 1 _ s [] (20 * Time.minute) hr .batch keyB e 0 he hw
      (by rw [← hs]; decide +kernel)
    have hstill : ((s.queue.settle sampleExt [] (20 * Time.minute)).1.entries.get? keyB).map
        Entry.queued = some (some 0) := by
      rw [← hs]
      decide +kernel
    rw [he', Option.map_some, hq] at hstill
    exact absurd hstill (by simp)
  · intro h
    have hlong : Run (step sampleExt) (Sys.start 1 1)
        (trace (step sampleExt) (Sys.start 1 1) overlong)
        (final (step sampleExt) (Sys.start 1 1) overlong) := run_trace (by decide +kernel)
    have hnext : (((final (step sampleExt) (Sys.start 1 1) overlong).queue.settle sampleExt []
        Time.second).1.entries.get? keyA).bind Entry.next = some (-Time.day) := by decide +kernel
    obtain ⟨e, he, hn⟩ := Option.bind_eq_some_iff.mp hnext
    exact absurd (h sampleExt 1 1 _ _ [] Time.second hlong keyA e _ he hn) (by decide)

end Portal
