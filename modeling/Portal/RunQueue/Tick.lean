import Portal.Base.Machine
import Portal.RunQueue.Entries

/-!
# The queue against the runner (`reconciler/run_queue.rs`: `tick`)

A tick takes the queue's lock several times and never holds it across a call of the runner, so the
reconciler and the API work on the queue between any two of its steps.  `Tick` is where the one
ticking task stands and what it carries in its local variables, `Action` a step of anyone, and
`step` what it does: one step is one section under the lock or one answered call.

* `step_inv`            a step inverted, one case an action;
* `Trans.starts`, `Trans.ended`, `Trans.Drops`, `Trans.Changes`, ...   what a transition did;
* `entry_inv`           what a step makes of the entry of one key;
* `EntryLaw.run`        a property that every move of an entry keeps holds of every entry;
* `Sys.start`           an empty queue and no tick under way.
-/

namespace Portal

/-- what the reconciler tells the queue outside a plan -/
inductive Tell where
  | ran (ran : OrdMap Key Int)
  | streams (streams : OrdMap Key String)
  | failed (failed : OrdMap Key (String × String))
  | rules (rules : OrdMap String UInt64)
  | unbound (accounts : Finset String)

inductive Call where
  | delete (key : Key) (ok : Bool)
  | state (key : Key) (state : RunState)
  | ended (r : End)
  -- the refusal of the runner, if any
  | start (key : Key) (stream : Value) (refusal : Option String)

inductive Action where
  | tell (t : Tell)
  | plan (wanted : OrdMap Key Planned) (now : Int)
  | runNow (key : Key) (now : Int)
  | tick (now : Int)
  | call (c : Call)
  | settle
  | stuck
  | takeEnds
  | failedToStart
  | done

instance (a : Action) : Decidable (a = .settle) :=
  match a with
  | .settle => .isTrue rfl
  | .tell _ | .plan _ _ | .runNow _ _ | .tick _ | .call _ | .stuck | .takeEnds | .failedToStart
  | .done => .isFalse (by simp)

inductive Tick where
  | idle
  -- the deletes of `sweeps` come first, then the state of each of `running`
  | looking (now : Int) (sweeps running : List Key) (states : List (Key × RunState))
      (asked : (states.map Prod.fst ++ running).Nodup)
  -- the deletes of `ended`
  | ending (now : Int) (ended : List Key) (starts : List Start)
  -- the delete of `key` was answered `false`
  | holding (now : Int) (key : Key) (ended : List Key) (starts : List Start)
  -- the reports of `ends` come first, then the starts
  | telling (now : Int) (ends : List End) (starts : List Start)
  | refusing (now : Int) (key : Key) (reason : String) (starts : List Start)
  | clearing (now : Int) (key : Key) (starts : List Start)

structure Sys where
  queue : RunQueue
  tick : Tick

def Sys.start (batch short : Nat) : Sys := ⟨RunQueue.new batch short, .idle⟩

/-! ## the steps -/

def Tell.apply (q : RunQueue) : Tell → RunQueue
  | .ran m => q.setRan m
  | .streams m => q.setStreams m
  | .failed m => q.setFailed m
  | .rules m => q.setRules m
  | .unbound accounts => q.setUnbound accounts

theorem asked_snoc {states : List (Key × RunState)} {k : Key} {running : List Key}
    (h : (states.map Prod.fst ++ k :: running).Nodup) (st : RunState) :
    ((states ++ [(k, st)]).map Prod.fst ++ running).Nodup := by
  rw [List.map_append, List.append_assoc]
  exact h

def Tick.call : Tick → Call → Option Tick
  | .looking now (k :: sweeps) running states asked, .delete key _ =>
    if key = k then some (.looking now sweeps running states asked) else none
  | .looking now [] (k :: running) states asked, .state key st =>
    if key = k then some (.looking now [] running (states ++ [(k, st)]) (asked_snoc asked st))
    else none
  | .ending now (k :: ended) starts, .delete key ok =>
    if key = k then
      some (if ok then .ending now ended starts else .holding now k ended starts)
    else none
  | .telling now (r :: ends) starts, .ended r' =>
    if r' = r then some (.telling now ends starts) else none
  | .telling now [] (s :: starts), .start key stream refusal =>
    if key = s.key ∧ stream = s.sent then
      match refusal with
      | none => some (.telling now [] starts)
      | some reason => some (.refusing now s.key reason starts)
    else none
  | .clearing now k starts, .delete key _ =>
    if key = k then some (.telling now [] starts) else none
  | _, _ => none

def step (x : Ext) (s : Sys) : Action → Option Sys
  | .tell t => some { s with queue := t.apply s.queue }
  | .plan wanted now => some { s with queue := s.queue.plan x wanted now }
  | .runNow key now => some { s with queue := (s.queue.runNow key now).1 }
  | .tick now =>
    match s.tick with
    | .idle =>
      some ⟨s.queue.sweeps.1, .looking now s.queue.sweeps.2 s.queue.sweeps.1.running []
        s.queue.sweeps.1.running_nodup⟩
    | _ => none
  | .call c => (s.tick.call c).map (fun t => { s with tick := t })
  | .settle =>
    match s.tick with
    | .looking now [] [] states _ =>
      let r := s.queue.settle x states now
      some ⟨r.1, .ending now r.2.1 r.2.2⟩
    | _ => none
  | .stuck =>
    match s.tick with
    | .holding now key ended starts => some ⟨s.queue.stuck key now, .ending now ended starts⟩
    | _ => none
  | .takeEnds =>
    match s.tick with
    | .ending now [] starts => some ⟨s.queue.takeEnds.1, .telling now s.queue.takeEnds.2 starts⟩
    | _ => none
  | .failedToStart =>
    match s.tick with
    | .refusing now key reason starts =>
      some ⟨s.queue.failedToStart key reason now, .clearing now key starts⟩
    | _ => none
  | .done =>
    match s.tick with
    | .telling _ [] [] => some { s with tick := .idle }
    | _ => none

/-! ## inversion -/

/-- the runner's answers, one case a place of the tick -/
inductive Answered : Tick → Call → Tick → Prop
  | swept (now k sweeps running states asked ok) :
      Answered (.looking now (k :: sweeps) running states asked) (.delete k ok)
        (.looking now sweeps running states asked)
  | looked (now k running states asked st) :
      Answered (.looking now [] (k :: running) states asked) (.state k st)
        (.looking now [] running (states ++ [(k, st)]) (asked_snoc asked st))
  | deleted (now k ended starts) :
      Answered (.ending now (k :: ended) starts) (.delete k true) (.ending now ended starts)
  | kept (now k ended starts) :
      Answered (.ending now (k :: ended) starts) (.delete k false) (.holding now k ended starts)
  | told (now r ends starts) :
      Answered (.telling now (r :: ends) starts) (.ended r) (.telling now ends starts)
  | started (now) (s : Start) (starts) :
      Answered (.telling now [] (s :: starts)) (.start s.key s.sent none) (.telling now [] starts)
  | refused (now) (s : Start) (reason starts) :
      Answered (.telling now [] (s :: starts)) (.start s.key s.sent (some reason))
        (.refusing now s.key reason starts)
  | cleared (now k starts ok) :
      Answered (.clearing now k starts) (.delete k ok) (.telling now [] starts)

theorem answered_of_call {t t' : Tick} {c : Call} (h : t.call c = some t') : Answered t c t' := by
  unfold Tick.call at h
  split at h
  · split at h
    · rename_i e
      subst e
      cases h
      exact .swept ..
    · exact absurd h (by simp)
  · split at h
    · rename_i e
      subst e
      cases h
      exact .looked ..
    · exact absurd h (by simp)
  · rename_i ok
    split at h
    · rename_i e
      subst e
      cases ok with
      | true =>
        cases h
        exact .deleted ..
      | false =>
        cases h
        exact .kept ..
    · exact absurd h (by simp)
  · split at h
    · rename_i e
      subst e
      cases h
      exact .told ..
    · exact absurd h (by simp)
  · rename_i refusal
    split at h
    · rename_i e
      obtain ⟨rfl, rfl⟩ := e
      cases refusal with
      | none =>
        cases h
        exact .started ..
      | some reason =>
        cases h
        exact .refused ..
    · exact absurd h (by simp)
  · split at h
    · rename_i e
      subst e
      cases h
      exact .cleared ..
    · exact absurd h (by simp)
  · exact absurd h (by simp)

inductive Stepped (x : Ext) : Sys → Action → Sys → Prop
  | tell (q tk t) : Stepped x ⟨q, tk⟩ (.tell t) ⟨t.apply q, tk⟩
  | plan (q tk wanted now) : Stepped x ⟨q, tk⟩ (.plan wanted now) ⟨q.plan x wanted now, tk⟩
  | runNow (q tk key now) : Stepped x ⟨q, tk⟩ (.runNow key now) ⟨(q.runNow key now).1, tk⟩
  | tick (q now) : Stepped x ⟨q, .idle⟩ (.tick now)
      ⟨q.sweeps.1, .looking now q.sweeps.2 q.sweeps.1.running [] q.sweeps.1.running_nodup⟩
  | call (q tk tk' c) : Answered tk c tk' → Stepped x ⟨q, tk⟩ (.call c) ⟨q, tk'⟩
  | settle (q now states asked) : Stepped x ⟨q, .looking now [] [] states asked⟩ .settle
      ⟨(q.settle x states now).1,
        .ending now (q.settle x states now).2.1 (q.settle x states now).2.2⟩
  | stuck (q now key ended starts) : Stepped x ⟨q, .holding now key ended starts⟩ .stuck
      ⟨q.stuck key now, .ending now ended starts⟩
  | takeEnds (q now starts) : Stepped x ⟨q, .ending now [] starts⟩ .takeEnds
      ⟨q.takeEnds.1, .telling now q.takeEnds.2 starts⟩
  | failedToStart (q now key reason starts) :
      Stepped x ⟨q, .refusing now key reason starts⟩ .failedToStart
        ⟨q.failedToStart key reason now, .clearing now key starts⟩
  | done (q now) : Stepped x ⟨q, .telling now [] []⟩ .done ⟨q, .idle⟩

/-- **Every step is one of these.** -/
theorem step_inv {x : Ext} {s s' : Sys} {a : Action} (h : step x s a = some s') :
    Stepped x s a s' := by
  obtain ⟨q, tk⟩ := s
  cases a with
  | tell t => cases h; exact .tell ..
  | plan wanted now => cases h; exact .plan ..
  | runNow key now => cases h; exact .runNow ..
  | tick now =>
    simp only [step] at h
    split at h
    · cases h
      exact .tick ..
    · exact absurd h (by simp)
  | call c =>
    simp only [step, Option.map_eq_some_iff] at h
    obtain ⟨tk', h1, rfl⟩ := h
    exact .call _ _ _ _ (answered_of_call h1)
  | settle =>
    simp only [step] at h
    split at h
    · cases h
      exact .settle ..
    · exact absurd h (by simp)
  | stuck =>
    simp only [step] at h
    split at h
    · cases h
      exact .stuck ..
    · exact absurd h (by simp)
  | takeEnds =>
    simp only [step] at h
    split at h
    · cases h
      exact .takeEnds ..
    · exact absurd h (by simp)
  | failedToStart =>
    simp only [step] at h
    split at h
    · cases h
      exact .failedToStart ..
    · exact absurd h (by simp)
  | done =>
    simp only [step] at h
    split at h
    · cases h
      exact .done ..
    · exact absurd h (by simp)

/-! ## what a transition did -/

namespace Trans

def starts (t : Trans Sys Action) : List Start :=
  match t.act, t.after.tick with
  | .settle, .ending _ _ starts => starts
  | _, _ => []

/-- the keys whose run a settle ended -/
def ended (t : Trans Sys Action) : List Key :=
  match t.act, t.after.tick with
  | .settle, .ending _ ended _ => ended
  | _, _ => []

/-- the key a `stuck` section holds -/
def held (t : Trans Sys Action) : Option Key :=
  match t.act, t.before.tick with
  | .stuck, .holding _ key _ _ => some key
  | _, _ => none

def refused (t : Trans Sys Action) : Option Key :=
  match t.act, t.before.tick with
  | .failedToStart, .refusing _ key _ _ => some key
  | _, _ => none

/-- the entry of `K` before and after -/
def entry (t : Trans Sys Action) (K : Key) : Option Entry := t.before.queue.entries.get? K

def entryAfter (t : Trans Sys Action) (K : Key) : Option Entry := t.after.queue.entries.get? K

/-- the key whose ended run the runner did not let go of -/
def kept (t : Trans Sys Action) : Option Key :=
  match t.act, t.before.tick with
  | .call (.delete key false), .ending _ _ _ => some key
  | _, _ => none

/-- the key the runner is told to start a run of -/
def startsRun (t : Trans Sys Action) : Option Key :=
  match t.act with
  | .call (.start key _ _) => some key
  | _ => none

/-- the set and the clock reading of a plan -/
def planned (t : Trans Sys Action) : Option (OrdMap Key Planned × Int) :=
  match t.act with
  | .plan wanted now => some (wanted, now)
  | _ => none

theorem act_of_planned {t : Trans Sys Action} {wanted : OrdMap Key Planned} {now : Int}
    (h : t.planned = some (wanted, now)) : t.act = .plan wanted now := by
  unfold planned at h
  split at h
  · rename_i wanted' now' ha
    obtain ⟨rfl, rfl⟩ : wanted' = wanted ∧ now' = now := by simpa using h
    exact ha
  · exact absurd h (by simp)

/-- a plan without `K`, which the queue held -/
def Drops (t : Trans Sys Action) (K : Key) : Prop :=
  ∃ w ∈ t.planned, t.entry K ≠ none ∧ w.1.get? K = none

/-- a plan that gives `K`, which the queue holds, another stream or another clock -/
def Changes (t : Trans Sys Action) (K : Key) : Prop :=
  ∃ w ∈ t.planned, ∃ e ∈ t.entry K, ∃ p ∈ w.1.get? K, ¬(e.stream = p.stream ∧ e.clock = p.clock)

/-- a plan with `K`, which the queue did not hold -/
def Inserts (t : Trans Sys Action) (K : Key) : Prop :=
  ∃ w ∈ t.planned, t.entry K = none ∧ w.1.get? K ≠ none

instance (t : Trans Sys Action) (K : Key) : Decidable (t.Drops K) :=
  inferInstanceAs (Decidable (∃ w ∈ t.planned, t.entry K ≠ none ∧ w.1.get? K = none))

instance (t : Trans Sys Action) (K : Key) : Decidable (t.Changes K) :=
  inferInstanceAs (Decidable (∃ w ∈ t.planned, ∃ e ∈ t.entry K, ∃ p ∈ w.1.get? K,
    ¬(e.stream = p.stream ∧ e.clock = p.clock)))

instance (t : Trans Sys Action) (K : Key) : Decidable (t.Inserts K) :=
  inferInstanceAs (Decidable (∃ w ∈ t.planned, t.entry K = none ∧ w.1.get? K ≠ none))

/-- what a plan finds of a pipeline and wants of it meets `C` -/
def PlanMeets (C : Key → Int → Entry → Planned → Prop) (t : Trans Sys Action) : Prop :=
  ∀ w ∈ t.planned, ∀ K, ∀ e ∈ t.entry K, ∀ p ∈ w.1.get? K, C K w.2 e p

instance {C : Key → Int → Entry → Planned → Prop} [∀ K now e p, Decidable (C K now e p)]
    (t : Trans Sys Action) : Decidable (t.PlanMeets C) :=
  decidable_of_iff (∀ w ∈ t.planned, ∀ k ∈ t.before.queue.entries.toList, ∀ p ∈ w.1.get? k.1,
      C k.1 w.2 k.2 p) (by
    constructor
    · intro h w hw K e he p hp
      exact h w hw (K, e) ((OrdMap.mem_toList _ K e).mpr he) p hp
    · intro h w hw k hk p hp
      exact h w hw k.1 k.2 ((OrdMap.mem_toList _ k.1 k.2).mp hk) p hp)

end Trans

theorem Tell.apply_entries (q : RunQueue) (t : Tell) : (t.apply q).entries = q.entries := by
  cases t <;> rfl

def Tick.starts : Tick → List Start
  | .ending _ _ starts | .holding _ _ _ starts | .telling _ _ starts | .refusing _ _ _ starts
  | .clearing _ _ starts => starts
  | _ => []

theorem Answered.starts_sublist {tk tk' : Tick} {c : Call} (h : Answered tk c tk') :
    tk'.starts.Sublist tk.starts := by
  cases h with
  | started now s starts => exact List.sublist_cons_self s starts
  | refused now s reason starts => exact List.sublist_cons_self s starts
  | _ => exact List.Sublist.refl _

/-! ## clock readings -/

def Tick.reading : Tick → Option Int
  | .idle => none
  | .looking now _ _ _ _ | .ending now _ _ | .holding now _ _ _ | .telling now _ _
  | .refusing now _ _ _ | .clearing now _ _ => some now

/-- the clock reading of a step that reads the clock -/
def Action.reading : Action → Option Int
  | .plan _ now | .runNow _ now | .tick now => some now
  | _ => none

def readings (tr : List (Trans Sys Action)) : List Int := tr.filterMap (fun t => t.act.reading)

theorem readings_snoc (tr : List (Trans Sys Action)) (t : Trans Sys Action) :
    readings (tr ++ [t]) = readings tr ++ t.act.reading.toList := by
  unfold readings
  rw [List.filterMap_append]
  cases h : t.act.reading <;> simp [h]

theorem readings_subset_snoc (tr : List (Trans Sys Action)) (t : Trans Sys Action) :
    readings tr ⊆ readings (tr ++ [t]) := by
  rw [readings_snoc]
  exact List.subset_append_left _ _

theorem mem_readings_snoc (tr : List (Trans Sys Action)) {t : Trans Sys Action} {n : Int}
    (hn : t.act.reading = some n) : n ∈ readings (tr ++ [t]) := by
  rw [readings_snoc, hn]
  exact List.mem_append_right _ (List.mem_singleton.mpr rfl)

theorem reading_step {x : Ext} {s s' : Sys} {a : Action} (h : step x s a = some s') {n : Int}
    (hn : n ∈ s'.tick.reading) : n ∈ s.tick.reading ∨ a.reading = some n := by
  cases step_inv h with
  | tick q now => exact Or.inr hn
  | call q tk tk' c hc => cases hc <;> exact Or.inl hn
  | done => exact absurd hn (by simp [Tick.reading])
  | _ => exact Or.inl hn

theorem ticking_step {x : Ext} {s s' : Sys} {a : Action} {tr : List (Trans Sys Action)}
    (h : step x s a = some s') (hs : ∀ n ∈ s.tick.reading, n ∈ readings tr) :
    ∀ n ∈ s'.tick.reading, n ∈ readings (tr ++ [⟨s, a, s'⟩]) := by
  intro n hn
  rcases reading_step h hn with hn' | hn'
  · exact readings_subset_snoc tr _ (hs n hn')
  · exact mem_readings_snoc tr hn'

/-! ## what a step makes of one entry -/

/-- what a step makes of the entry of `K`, by what the entry was: nothing, or the move of the
section that the step is -/
inductive EntryStep (x : Ext) (K : Key) (s : Sys) : Action → Option Entry → Option Entry → Prop
  | keep (a : Action) (o : Option Entry) : (∀ wanted now, a ≠ .plan wanted now) →
      EntryStep x K s a o o
  | plan (wanted : OrdMap Key Planned) (now : Int) (o : Option Entry) :
      EntryStep x K s (.plan wanted now) o ((wanted.get? K).map (fun p =>
        (s.queue.planEntry x K p now o).retries (s.queue.failed.map (fun failed => failed.get? K))
          (K.project ∈ s.queue.rulesChanged) now))
  | queueNow (key : Key) (now : Int) (e : Entry) : e.running = none → e.stuck = false →
      EntryStep x K s (.runNow key now) (some e)
        (some { e with queued := some (e.queued.getD now) })
  | sweep (now : Int) (e : Entry) : e.running = none →
      EntryStep x K s (.tick now) (some e) (some { e with sweep := false })
  | settle (now : Int) (states : List (Key × RunState)) (asked : (states.map Prod.fst ++ []).Nodup)
      (e e' : Entry) : s.tick = .looking now [] [] states asked →
      LaneMove x K now (s.queue.isUnbound x K) (e.settled (states.lookup K) now s.queue.timeout) e'
        ((s.queue.settle x states now).2.2.filter (fun s => s.key = K)) →
      EntryStep x K s .settle (some e) (some e')
  | hold (now : Int) (ended : List Key) (starts : List Start) (e : Entry) :
      s.tick = .holding now K ended starts →
      EntryStep x K s .stuck (some e) (some (e.hold now))
  | fail (now : Int) (reason : String) (starts : List Start) (e : Entry) :
      s.tick = .refusing now K reason starts →
      EntryStep x K s .failedToStart (some e) (some (e.failedToStart reason now))

/-- **Whatever a step makes of an entry is one of these.** -/
theorem entry_inv {x : Ext} {s s' : Sys} {a : Action} (h : step x s a = some s') (K : Key) :
    EntryStep x K s a (s.queue.entries.get? K) (s'.queue.entries.get? K) := by
  cases step_inv h with
  | tell q tk t =>
    rw [show (t.apply q).entries = q.entries from t.apply_entries q]
    exact .keep _ _ (by simp)
  | plan q tk wanted now =>
    rw [RunQueue.plan_get?]
    exact .plan wanted now _
  | runNow q tk key now =>
    rw [RunQueue.runNow_get?]
    cases q.entries.get? K with
    | none => exact .keep _ _ (by simp)
    | some e =>
      simp only [Option.map_some]
      split
      · rename_i hc
        exact .queueNow key now e hc.2.1 hc.2.2
      · exact .keep _ _ (by simp)
  | tick q now =>
    rw [RunQueue.sweeps_get?]
    cases q.entries.get? K with
    | none => exact .keep _ _ (by simp)
    | some e =>
      simp only [Option.map_some, RunQueue.swept]
      split
      · rename_i hc
        simp only [Bool.and_eq_true, Option.isNone_iff_eq_none] at hc
        exact .sweep now e hc.2
      · exact .keep _ _ (by simp)
  | call q tk tk' c hc => exact .keep _ _ (by simp)
  | settle q now states asked =>
    have hn := asked
    rw [List.append_nil] at hn
    cases he : q.entries.get? K with
    | none =>
      rw [(RunQueue.settle_none q x states now hn he).1]
      exact .keep _ _ (by simp)
    | some e =>
      obtain ⟨e', he', m⟩ := RunQueue.settle_get? q x states now hn he
      rw [he']
      exact .settle now states asked e e' rfl m
  | stuck q now key ended starts =>
    rw [RunQueue.stuck_get?]
    cases q.entries.get? K with
    | none => exact .keep _ _ (by simp)
    | some e =>
      simp only [Option.map_some]
      split
      · rename_i hk
        exact .hold now ended starts e (by rw [hk])
      · exact .keep _ _ (by simp)
  | takeEnds q now starts => exact .keep _ _ (by simp)
  | failedToStart q now key reason starts =>
    rw [RunQueue.failedToStart_get?]
    cases q.entries.get? K with
    | none => exact .keep _ _ (by simp)
    | some e =>
      simp only [Option.map_some]
      split
      · rename_i hk
        exact .fail now reason starts e (by rw [hk])
      · exact .keep _ _ (by simp)
  | done q now => exact .keep _ _ (by simp)

theorem run_kept {x : Ext} {s s' : Sys} {a : Action} (h : step x s a = some s')
    (hp : ∀ wanted now, a ≠ .plan wanted now) (ha : a ≠ .settle) {K : Key} {e' : Entry}
    (he' : s'.queue.entries.get? K = some e') (hr : e'.running ≠ none) :
    ∃ e, s.queue.entries.get? K = some e ∧ e'.running = e.running ∧ e'.run = e.run ∧
      e'.runStream = e.runStream ∧ e'.lane = e.lane := by
  have hm := entry_inv h K
  rw [he'] at hm
  generalize s.queue.entries.get? K = o at hm ⊢
  generalize ho' : some e' = o' at hm
  cases hm with
  | keep a o _ => exact ⟨e', ho'.symm, rfl, rfl, rfl, rfl⟩
  | plan wanted now o => exact absurd rfl (hp wanted now)
  | settle => exact absurd rfl ha
  | queueNow key now e _ _ =>
    cases ho'
    exact ⟨e, rfl, rfl, rfl, rfl, rfl⟩
  | sweep now e _ =>
    cases ho'
    exact ⟨e, rfl, rfl, rfl, rfl, rfl⟩
  | hold now ended starts e _ =>
    cases ho'
    exact ⟨e, rfl, rfl, rfl, rfl, rfl⟩
  | fail now reason starts e _ =>
    cases ho'
    exact absurd (e.failedToStart_fields reason now).2.1 hr

/-! ## laws about one entry

Whatever a step does to an entry that stays is one of these moves, or several of them one after
another; a property of entries that they all keep holds of every entry of every state. -/

inductive EntryMove (x : Ext) : Entry → Entry → Prop
  | change (e p now) : ¬(e.stream = p.stream ∧ e.clock = p.clock) → EntryMove x e (e.change p now)
  | arm (e run cause now) : EntryMove x e (e.arm run cause now)
  | clear (e) : EntryMove x e e.clearRetry
  | hurry (e now) : EntryMove x e (e.hurry now)
  | sweep (e) : e.running = none → EntryMove x e { e with sweep := false }
  | endRun (e started state failure now) : e.running = some started →
      EntryMove x e (e.endRun started state failure now)
  | queueDue (e now) : EntryMove x e (e.queueDue now)
  | queueRetry (e now) : EntryMove x e (e.queueRetry now)
  | refuse (e now) : e.running = none → EntryMove x e (e.refuse now)
  | start (e due now) : e.queued = some due → e.running = none → EntryMove x e (e.start x due now)
  | queueNow (e now) : e.running = none → e.stuck = false →
      EntryMove x e { e with queued := some (e.queued.getD now) }
  | hold (e now) : EntryMove x e (e.hold now)
  | fail (e reason now) : EntryMove x e (e.failedToStart reason now)

structure EntryLaw (x : Ext) (P : Entry → Prop) : Prop where
  new : ∀ p next now, P (Entry.new p next now)
  move : ∀ e e', EntryMove x e e' → P e → P e'

namespace EntryLaw

variable {x : Ext} {P : Entry → Prop}

theorem judge (hP : EntryLaw x P) {e : Entry} (h : P e)
    (failed : Option (Option (String × String))) (now : Int) : P (e.judge failed now) := by
  unfold Entry.judge
  split
  · exact h
  · exact hP.move _ _ (.arm ..) h
  · exact hP.move _ _ (.clear ..) h

theorem retries (hP : EntryLaw x P) {e : Entry} (h : P e)
    (failed : Option (Option (String × String))) (changed : Bool) (now : Int) :
    P (e.retries failed changed now) := by
  unfold Entry.retries
  split
  · exact hP.move _ _ (.hurry ..) (hP.judge h failed now)
  · exact hP.judge h failed now

theorem plan (hP : EntryLaw x P) (q : RunQueue) {K : Key} {p : Planned} {now : Int}
    {o : Option Entry} (h : ∀ e, o = some e → P e) : P (q.planEntry x K p now o) := by
  cases o with
  | none => exact hP.new ..
  | some e =>
    show P (e.plan p now)
    unfold Entry.plan
    split
    · exact h e rfl
    · rename_i hne
      exact hP.move _ _ (.change _ _ _ hne) (h e rfl)

theorem settled (hP : EntryLaw x P) {e : Entry} (h : P e) (state : Option RunState) (now : Int)
    (timeout : Nat) : P (e.settled state now timeout) := by
  refine hP.move _ _ (.queueRetry ..) (hP.move _ _ (.queueDue ..) ?_)
  unfold Entry.afterEnd
  cases hr : e.ending state now timeout with
  | none => exact h
  | some r => exact hP.move _ _ (.endRun _ _ _ _ _ (Entry.running_of_ending hr)) h

theorem lanes (hP : EntryLaw x P) {K : Key} {now : Int} {unbound : Bool} {e e' : Entry}
    {l : List Start} (h : LaneMove x K now unbound e e' l) (he : P e) : P e' := by
  cases h with
  | stay => exact he
  | refuse _ h2 => exact hP.move _ _ (.refuse _ _ h2) he
  | start h1 h2 => exact hP.move _ _ (.start _ _ _ h1 h2) he

theorem step (hP : EntryLaw x P) {s s' : Sys} {a : Action} (h : step x s a = some s')
    (hs : ∀ K e, s.queue.entries.get? K = some e → P e) :
    ∀ K e, s'.queue.entries.get? K = some e → P e := by
  intro K e' he'
  have hm := entry_inv h K
  have hs := hs K
  rw [he'] at hm
  generalize s.queue.entries.get? K = o at hm hs
  generalize ho' : some e' = o' at hm
  cases hm with
  | keep a o ha => exact hs e' ho'.symm
  | plan wanted now o =>
    obtain ⟨p, _, rfl⟩ := Option.map_eq_some_iff.mp ho'.symm
    exact hP.retries (hP.plan s.queue hs) _ _ _
  | queueNow key now e hr hst =>
    cases ho'
    exact hP.move _ _ (.queueNow _ _ hr hst) (hs e rfl)
  | sweep now e hr =>
    cases ho'
    exact hP.move _ _ (.sweep _ hr) (hs e rfl)
  | settle now states asked e e' ht m =>
    cases ho'
    exact hP.lanes m (hP.settled (hs e rfl) _ _ _)
  | hold now ended starts e ht =>
    cases ho'
    exact hP.move _ _ (.hold ..) (hs e rfl)
  | fail now reason starts e ht =>
    cases ho'
    exact hP.move _ _ (.fail ..) (hs e rfl)

/-- **A law of entries holds of every entry of every reachable state.** -/
theorem run (hP : EntryLaw x P) {batch short : Nat} {tr : List (Trans Sys Action)} {s : Sys}
    (hr : Run (Portal.step x) (Sys.start batch short) tr s) {K : Key} {e : Entry}
    (he : s.queue.entries.get? K = some e) : P e := by
  have h0 : ∀ K e, (Sys.start batch short).queue.entries.get? K = some e → P e :=
    fun K e h => absurd h (by simp [Sys.start, RunQueue.new])
  have hinv := Run.invariant (I := fun s : Sys => ∀ K e, s.queue.entries.get? K = some e → P e)
    (C := fun _ => True) h0 (fun s a s' h _ hs => hP.step h hs) hr (fun _ _ => trivial)
  exact hinv K e he

end EntryLaw

/-- **An entry whose run is in the runner is not in the queue, and its run has an id and a
stream.** -/
theorem runs_law (x : Ext) : EntryLaw x (fun e => e.running ≠ none →
    e.queued = none ∧ e.run ≠ none ∧ e.runStream ≠ none) where
  new := by
    intro p next now h
    exact absurd rfl h
  move := by
    intro e e' h
    cases h with
    | change p now _ => exact id
    | arm run cause now =>
      have h := e.arm_retryOnly run cause now
      rw [h.running, h.queued, h.run, h.runStream]
      exact id
    | clear => exact id
    | hurry now => exact id
    | sweep => exact id
    | endRun started state failure now _ => exact fun _ hr => absurd rfl hr
    | queueDue now =>
      unfold Entry.queueDue
      split
      · exact id
      · intro h hr
        obtain ⟨h1, h2, h3⟩ := h hr
        have hf : ¬ e.free := fun hf => hr hf.2.1
        simp only [if_neg hf]
        exact ⟨h1, h2, h3⟩
    | queueRetry now =>
      unfold Entry.queueRetry
      split
      · exact id
      · split
        · rename_i hf
          intro _ hr
          exact absurd hf.2.1 hr
        · exact id
    | refuse now h0 => exact fun _ hr => absurd h0 hr
    | start due now _ _ => exact fun _ _ => ⟨rfl, by simp [Entry.start], by simp [Entry.start]⟩
    | queueNow now h0 _ => exact fun _ hr => absurd h0 hr
    | hold now => exact fun h hr => ⟨rfl, (h hr).2⟩
    | fail reason now =>
      intro _ hr
      exact absurd (e.failedToStart_fields reason now).2.1 hr

/-! ## a concrete queue

Two streams with the SHA-256 of their texts, and the pipelines the runs of this development use. -/

def streamA : Value := .object [("input", .null)]
def streamB : Value := .object [("output", .null)]

def sampleExt : Ext where
  streamHash v :=
    if v = streamA then "73c92acd67f108f29ffc7b792c22978979900de72197dd828950c5c98456efb6"
    else if v = streamB then "7b3a021a00765f982fb2cecbf31d233100938a555627d8db9b86a19a08237286"
    else ""
  accountName name := name

def keyA : Key := Key.of "p" "a"
def keyB : Key := Key.of "p" "b"

def minutely (stream : Value) : Planned := ⟨stream, .every (Duration.ofSecs 60) 0, true⟩
def hourly (stream : Value) : Planned := ⟨stream, .every (Duration.ofSecs 3600) 0, true⟩

/-- a tick up to its settle: the leftovers of `sweeps` are deleted, `states` is answered -/
def tickTo (now : Int) (sweeps : List Key) (states : List (Key × RunState)) : List Action :=
  .tick now :: (sweeps.map (fun k => .call (.delete k true)) ++
    states.map (fun p => .call (.state p.1 p.2)) ++ [.settle])

end Portal
