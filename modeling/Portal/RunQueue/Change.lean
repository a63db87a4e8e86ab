import Portal.RunQueue.Held

/-!
# A change is taken up

A plan that changes the stream of a `replace` pipeline, or of one that runs once, makes it due at
once by writing the plan's own time into `next`.  The next settle queues it, if the pipeline is free
by then; if a run of the old stream is still in the runner, `queueDue` moves `next` on all the same
and the mark is gone.

* `change_taken_up`   the change is queued, started or refused if the first settle after it reads no
                      earlier clock and leaves no old run in the runner;
* `change_lost`       otherwise it may wait for its clock.
-/

namespace Portal

namespace Trans

/-- what the runner answered for `K` when a settle comes -/
def answer (t : Trans Sys Action) (K : Key) : Option RunState :=
  match t.before.tick with
  | .looking _ _ _ states _ => states.lookup K
  | _ => none

/-- a settle that reads a clock of `time` or later and ends the run of `K`, if it has one -/
def Ready (t : Trans Sys Action) (K : Key) (time : Int) : Prop :=
  ∀ now ∈ t.before.tick.reading, time ≤ now ∧ ∀ e ∈ t.entry K, e.running ≠ none →
    (e.ending (t.answer K) now t.before.queue.timeout).isSome = true

instance (t : Trans Sys Action) (K : Key) (time : Int) : Decidable (t.Ready K time) :=
  inferInstanceAs (Decidable (∀ now ∈ t.before.tick.reading, time ≤ now ∧ ∀ e ∈ t.entry K,
    e.running ≠ none → (e.ending (t.answer K) now t.before.queue.timeout).isSome = true))

/-- a settle after which `K` waits in the queue with `stream`, or was refused with it for want of an
account, or that started it -/
def TakesUp (t : Trans Sys Action) (K : Key) (stream : Value) : Prop :=
  t.act = .settle ∧ ((∃ e ∈ t.entryAfter K, e.stream = stream ∧ (e.queued ≠ none ∨
      ∃ now ∈ t.before.tick.reading, e.last = some (.failed now Entry.unboundReason))) ∨
    ∃ st ∈ t.starts, st.key = K ∧ st.stream = stream)

instance (t : Trans Sys Action) (K : Key) (stream : Value) : Decidable (t.TakesUp K stream) :=
  inferInstanceAs (Decidable (t.act = .settle ∧ ((∃ e ∈ t.entryAfter K, e.stream = stream ∧
    (e.queued ≠ none ∨ ∃ now ∈ t.before.tick.reading,
      e.last = some (.failed now Entry.unboundReason))) ∨
    ∃ st ∈ t.starts, st.key = K ∧ st.stream = stream)))

end Trans

/-- the first settle of a part of a run meets `C` -/
def FirstSettle (C : Trans Sys Action → Prop) (l : List (Trans Sys Action)) : Prop :=
  ∀ w ∈ l.find? (fun w => w.act = .settle), C w

instance {C : Trans Sys Action → Prop} [DecidablePred C] (l : List (Trans Sys Action)) :
    Decidable (FirstSettle C l) :=
  inferInstanceAs (Decidable (∀ w ∈ l.find? (fun w => w.act = .settle), C w))

/-! ## one step -/

theorem step_due {x : Ext} {s s' : Sys} {a : Action} {K : Key} {e : Entry}
    (h : step x s a = some s') (ha : a ≠ .settle)
    (hk : ¬ Trans.Drops ⟨s, a, s'⟩ K ∧ ¬ Trans.Changes ⟨s, a, s'⟩ K)
    (he : s.queue.entries.get? K = some e) :
    ∃ e', s'.queue.entries.get? K = some e' ∧ e'.stream = e.stream ∧ e'.next = e.next ∧
      (e.stuck = true → e'.stuck = true) := by
  have hm := entry_inv h K
  rw [he] at hm
  generalize ho' : s'.queue.entries.get? K = o' at hm
  generalize ho : some e = o at hm
  cases hm with
  | keep a o ha => exact ⟨e, ho.symm, rfl, rfl, id⟩
  | plan wanted now o =>
    cases h
    obtain ⟨e', he', hsame⟩ := plan_kept (x := x) he hk.1 hk.2
    rw [← ho', he']
    exact ⟨e', rfl, hsame.stream, hsame.next, fun hs => hsame.stuck.trans hs⟩
  | queueNow key now e hr hst =>
    cases ho
    exact ⟨_, rfl, rfl, rfl, id⟩
  | sweep now e hr =>
    cases ho
    exact ⟨_, rfl, rfl, rfl, id⟩
  | settle => exact absurd rfl ha
  | hold now ended starts e ht =>
    cases ho
    exact ⟨_, rfl, rfl, rfl, fun _ => rfl⟩
  | fail now reason starts e ht =>
    cases ho
    obtain ⟨f1, _, _, f4⟩ := e.failedToStart_fields reason now
    exact ⟨_, rfl, f1.stream, f4, fun hs => f1.stuck.trans hs⟩

theorem settle_entry {x : Ext} {v : Trans Sys Action} {K : Key} {e : Entry}
    (hs : step x v.before v.act = some v.after) (hv : v.act = .settle) (he : v.entry K = some e) :
    ∃ now e', v.before.tick.reading = some now ∧ v.entryAfter K = some e' ∧
      LaneMove x K now (v.before.queue.isUnbound x K)
        (e.settled (v.answer K) now v.before.queue.timeout) e'
        (v.starts.filter (fun s => s.key = K)) := by
  obtain ⟨s, a, s'⟩ := v
  obtain rfl : a = .settle := hv
  cases step_inv hs with
  | settle q now states asked =>
    rw [List.append_nil] at asked
    obtain ⟨e', h1, m⟩ := RunQueue.settle_get? q x states now asked he
    exact ⟨now, e', rfl, h1, m⟩

/-- nothing but a plan frees a held pipeline -/
theorem stuck_step {x : Ext} {s s' : Sys} {a : Action} {K : Key} (h : step x s a = some s')
    (hk : ¬ Trans.Drops ⟨s, a, s'⟩ K ∧ ¬ Trans.Changes ⟨s, a, s'⟩ K)
    (hs : ∃ e, s.queue.entries.get? K = some e ∧ e.stuck = true) :
    ∃ e, s'.queue.entries.get? K = some e ∧ e.stuck = true := by
  obtain ⟨e, he, hst⟩ := hs
  by_cases ha : a = .settle
  · obtain ⟨now, e', _, he', m⟩ := settle_entry (v := ⟨s, a, s'⟩) h ha he
    refine ⟨e', he', ?_⟩
    rw [m.kept.stuck, (Entry.settled_inPlace ..).stuck]
    exact hst
  · obtain ⟨e', he', _, _, g⟩ := step_due h ha hk he
    exact ⟨e', he', g hst⟩

theorem settled_queued_of_due {e : Entry} {state : Option RunState} {now due : Int} {timeout : Nat}
    (hn : e.next = some due) (hd : due ≤ now) (hs : e.stuck = false)
    (hr : (e.afterEnd state now timeout).running = none) :
    (e.settled state now timeout).queued ≠ none := by
  obtain ⟨f1, f2, f3⟩ := e.afterEnd_fields state now timeout
  have hq : ((e.afterEnd state now timeout).queueDue now).queued ≠ none := by
    unfold Entry.queueDue
    rw [f3, hn, Option.filter_some_pos (by simpa using hd)]
    simp only
    split
    · simp
    · rename_i hfree
      intro hq
      exact hfree ⟨hq, hr, f1.stuck.trans hs⟩
  unfold Entry.settled Entry.queueRetry
  split
  · exact hq
  · split
    · simp
    · exact hq

/-! ## whole runs -/

/-- the new stream waits under the plan's own time -/
def Marked (K : Key) (stream : Value) (time : Int) (s : Sys) : Prop :=
  ∃ e, s.queue.entries.get? K = some e ∧ e.stream = stream ∧ e.next = some time

theorem marked_of_plan {x : Ext} {c : Trans Sys Action} {K : Key} {wanted : OrdMap Key Planned}
    {time : Int} {p : Planned} (hs : step x c.before c.act = some c.after)
    (hc : c.planned = some (wanted, time)) (hp : wanted.get? K = some p)
    (hne : ∃ e ∈ c.entry K, e.stream ≠ p.stream) (hkind : p.replace = true ∨ p.clock = .once) :
    Marked K p.stream time c.after := by
  obtain ⟨e, he, hne⟩ := hne
  have hact := Trans.act_of_planned hc
  obtain ⟨s₀, act, s₁⟩ := c
  obtain rfl : act = .plan wanted time := hact
  cases step_inv hs with
  | plan q tk _ _ =>
    have he' : q.entries.get? K = some e := he
    refine ⟨_, by rw [RunQueue.plan_get?, hp]; rfl, ?_⟩
    have hsame := (q.planEntry x K p time (q.entries.get? K)).retries_retryOnly
      (q.failed.map (fun failed => failed.get? K)) (K.project ∈ q.rulesChanged) time
    have hplan : q.planEntry x K p time (q.entries.get? K) = e.change p time := by
      rw [he']
      exact if_neg (fun h => hne h.1)
    rw [hplan] at hsame
    simp only
    rw [hplan, hsame.stream, hsame.next]
    refine ⟨rfl, ?_⟩
    show (if p.replace = true ∧ e.stream ≠ p.stream then some time else p.clock.first time) = _
    rcases hkind with hrep | honce
    · rw [if_pos ⟨hrep, hne⟩]
    · split
      · rfl
      · rw [honce]
        rfl

theorem marked_step {x : Ext} {s s' : Sys} {a : Action} {K : Key} {stream : Value} {time : Int}
    (h : step x s a = some s') (ha : a ≠ .settle)
    (hk : ¬ Trans.Drops ⟨s, a, s'⟩ K ∧ ¬ Trans.Changes ⟨s, a, s'⟩ K)
    (hs : Marked K stream time s) : Marked K stream time s' := by
  obtain ⟨e, h1, h2, h3⟩ := hs
  obtain ⟨e', g1, g2, g3, _⟩ := step_due h ha hk h1
  exact ⟨e', g1, g2.trans h2, g3.trans h3⟩

/-- a settle that is ready for the mark takes it up, unless the pipeline is held -/
theorem takesUp_of_marked {x : Ext} {w : Trans Sys Action} {K : Key} {stream : Value} {time : Int}
    (hs : step x w.before w.act = some w.after) (hw : w.act = .settle)
    (hm : Marked K stream time w.before) (hready : w.Ready K time) :
    w.TakesUp K stream ∨ ∃ e, w.before.queue.entries.get? K = some e ∧ e.stuck = true := by
  obtain ⟨e, h1, h2, h3⟩ := hm
  cases hstuck : e.stuck with
  | true => exact Or.inr ⟨e, h1, hstuck⟩
  | false =>
    left
    obtain ⟨now, e', hnow, h4, m⟩ := settle_entry hs hw h1
    obtain ⟨htime, hend⟩ := hready now hnow
    have hrun : (e.afterEnd (w.answer K) now w.before.queue.timeout).running = none := by
      rw [Entry.afterEnd_running]
      by_cases hr : e.running = none
      · rw [hr, ite_self]
      · rw [if_pos (hend e h1 hr)]
    have hq : (e.settled (w.answer K) now w.before.queue.timeout).queued ≠ none :=
      settled_queued_of_due h3 htime hstuck hrun
    have hstream : (e.settled (w.answer K) now w.before.queue.timeout).stream = stream :=
      (e.settled_inPlace _ now _).stream.trans h2
    refine ⟨hw, ?_⟩
    generalize hst : w.starts.filter (fun s => s.key = K) = l at m
    cases m with
    | stay => exact Or.inl ⟨_, h4, hstream, Or.inl hq⟩
    | refuse => exact Or.inl ⟨_, h4, hstream, Or.inr ⟨now, hnow, rfl⟩⟩
    | @start due =>
      refine Or.inr ⟨⟨K, stamp due, _⟩, ?_, rfl, hstream⟩
      exact List.mem_of_mem_filter (by rw [hst]; exact List.mem_singleton_self _)

theorem settle_keeps_plan {v : Trans Sys Action} (hv : v.act = .settle) (K : Key) :
    ¬ v.Drops K ∧ ¬ v.Changes K := by
  have hnone : v.planned = none := by
    rw [Trans.planned, hv]
  constructor
  · intro ⟨_, hpl, _⟩
    rw [hnone] at hpl
    exact absurd hpl (by simp)
  · intro ⟨_, hpl, _⟩
    rw [hnone] at hpl
    exact absurd hpl (by simp)

/-- **A change is taken up by the first settle after it, if that reads no earlier clock and leaves
no old run in the runner.**  The plan `c` changes the stream of `K` at `time`; no plan of `b` drops
or changes it again, and after the settle `v` its entry is neither running nor held. -/
theorem change_taken_up (x : Ext) (batch short : Nat) (K : Key) (a b d : List (Trans Sys Action))
    (c v : Trans Sys Action) (s : Sys) (wanted : OrdMap Key Planned) (time : Int) (p : Planned)
    (hr : Run (step x) (Sys.start batch short) (a ++ c :: (b ++ v :: d)) s)
    (hc : c.planned = some (wanted, time)) (hp : wanted.get? K = some p)
    (hne : ∃ e ∈ c.entry K, e.stream ≠ p.stream) (hkind : p.replace = true ∨ p.clock = .once)
    (hb : ∀ w ∈ b, ¬ w.Drops K ∧ ¬ w.Changes K) (hv : v.act = .settle)
    (hfree : ∃ e' ∈ v.entryAfter K, e'.running = none ∧ e'.stuck = false)
    (hready : FirstSettle (fun w => w.Ready K time) (b ++ [v])) :
    ∃ w ∈ b ++ [v], w.TakesUp K p.stream := by
  obtain ⟨_, sc, r2⟩ := hr.at
  obtain ⟨r3, sv, _⟩ := r2.at
  have rbv : Run (step x) c.after (b ++ [v]) v.after := r3.snoc sv
  have hbv : ∀ w ∈ b ++ [v], ¬ w.Drops K ∧ ¬ w.Changes K := by
    intro w hw
    rcases List.mem_append.mp hw with hw | hw
    · exact hb w hw
    · obtain rfl := List.mem_singleton.mp hw
      exact settle_keeps_plan hv K
  have hmark := marked_of_plan sc hc hp hne hkind
  cases hfind : (b ++ [v]).find? (fun w => w.act = .settle) with
  | none =>
    have hnone := List.find?_eq_none.mp hfind v (by simp)
    exact absurd hv (by simpa using hnone)
  | some w =>
    obtain ⟨hw, b₁, b₂, hsplit, hb₁⟩ := List.find?_eq_some_iff_append.mp hfind
    have hwset : w.act = .settle := by simpa using hw
    have hcond := hready w hfind
    rw [hsplit] at rbv hbv ⊢
    obtain ⟨r₁, sw, r₂⟩ := rbv.at
    have hmarkw : Marked K p.stream time w.before :=
      Run.invariant (I := Marked K p.stream time)
        (C := fun t => t.act ≠ .settle ∧ ¬ t.Drops K ∧ ¬ t.Changes K) hmark
        (fun s a s' h hC hs => marked_step h hC.1 hC.2 hs) r₁
        (fun t ht => ⟨by simpa using hb₁ t ht, hbv t (List.mem_append_left _ ht)⟩)
    rcases takesUp_of_marked sw hwset hmarkw hcond with hup | hstuck
    · exact ⟨w, by simp, hup⟩
    · -- held at the first settle, it would be held after `v`
      have hw' := stuck_step sw (hbv w (by simp)) hstuck
      have hv' := Run.invariant (I := fun s : Sys => ∃ e, s.queue.entries.get? K = some e ∧
        e.stuck = true) (C := fun t => ¬ t.Drops K ∧ ¬ t.Changes K) hw'
        (fun s a s' h hk hs => stuck_step h hk hs) r₂ (fun t ht => hbv t (by simp [ht]))
      obtain ⟨e₃, g1, g2⟩ := hv'
      obtain ⟨e₄, g3, _, g4⟩ := hfree
      obtain rfl : e₃ = e₄ := Option.some.inj (g1.symm.trans g3)
      exact absurd (g2.symm.trans g4) (by simp)

/-- a run of `a` is in the runner when its stream changes -/
def changedInRun : List Action := List.flatten [
  [.tell (.ran OrdMap.empty), .plan (OrdMap.ofList [(keyA, hourly streamA)]) 0],
  tickTo 0 [keyA] [],
  [.takeEnds, .call (.start keyA streamA none), .done,
    .plan (OrdMap.ofList [(keyA, hourly streamB)]) (60 * Time.second)]]

/-- the next tick finds it finished and starts the new stream, whose run the tick after ends -/
def changedThenEnded : List Action := List.flatten [
  changedInRun,
  tickTo (120 * Time.second) [] [(keyA, .finished)],
  [.call (.delete keyA true), .takeEnds,
    .call (.ended ⟨keyA, stamp 0, true, sampleExt.streamHash streamA⟩),
    .call (.start keyA streamB none), .done],
  tickTo (180 * Time.second) [] [(keyA, .finished)]]

/-- the next tick finds it running, the one after finished -/
def changedWhileRunning : List Action := List.flatten [
  changedInRun,
  tickTo (120 * Time.second) [] [(keyA, .running)],
  [.takeEnds, .done],
  tickTo (180 * Time.second) [] [(keyA, .finished)]]

theorem changedThenEnded_taken_up :
    ∃ (a b d : List (Trans Sys Action)) (c v : Trans Sys Action) (s : Sys),
      Run (step sampleExt) (Sys.start 1 1) (a ++ c :: (b ++ v :: d)) s ∧ c.Changes keyA ∧
      v.act = .settle ∧ ∃ w ∈ b ++ [v], w.TakesUp keyA streamB := by
  have hr : Run (step sampleExt) (Sys.start 1 1)
      (trace (step sampleExt) (Sys.start 1 1) changedThenEnded)
      (final (step sampleExt) (Sys.start 1 1) changedThenEnded) := run_trace (by decide +kernel)
  rw [← cut (trace (step sampleExt) (Sys.start 1 1) changedThenEnded) 8 (by decide +kernel),
    ← cut (List.drop 9 (trace (step sampleExt) (Sys.start 1 1) changedThenEnded)) 10
      (by decide +kernel)] at hr
  refine ⟨_, _, _, _, _, _, hr, by decide +kernel, by decide +kernel, ?_⟩
  refine change_taken_up sampleExt 1 1 keyA _ _ _ _ _ _
    (OrdMap.ofList [(keyA, hourly streamB)]) (60 * Time.second) (hourly streamB) hr
    ?_ ?_ ?_ (Or.inl rfl) ?_ ?_ ?_ ?_ <;> decide +kernel

/-- **A change that comes while a run of the old stream is in the runner is lost** to the first
settle that finds the run still there. -/
theorem change_lost :
    ¬ ∀ (x : Ext) (batch short : Nat) (K : Key) (a b d : List (Trans Sys Action))
      (c v : Trans Sys Action) (s : Sys) (wanted : OrdMap Key Planned) (time : Int) (p : Planned),
      Run (step x) (Sys.start batch short) (a ++ c :: (b ++ v :: d)) s →
      c.planned = some (wanted, time) → wanted.get? K = some p →
      (∃ e ∈ c.entry K, e.stream ≠ p.stream) → p.replace = true ∨ p.clock = .once →
      (∀ w ∈ b, ¬ w.Drops K ∧ ¬ w.Changes K) → v.act = .settle →
      (∃ e' ∈ v.entryAfter K, e'.running = none ∧ e'.stuck = false) →
      (∀ w ∈ b, w.act = .settle → ∀ e' ∈ w.entryAfter K, e'.running ≠ none ∨ e'.stuck = true) →
      ∃ w ∈ b ++ [v], w.TakesUp K p.stream := by
  intro h
  have hr : Run (step sampleExt) (Sys.start 1 1)
      (trace (step sampleExt) (Sys.start 1 1) changedWhileRunning)
      (final (step sampleExt) (Sys.start 1 1) changedWhileRunning) := run_trace (by decide +kernel)
  rw [← cut (trace (step sampleExt) (Sys.start 1 1) changedWhileRunning) 8 (by decide +kernel),
    ← cut (List.drop 9 (trace (step sampleExt) (Sys.start 1 1) changedWhileRunning)) 7
      (by decide +kernel)] at hr
  refine absurd (h sampleExt 1 1 keyA _ _ _ _ _ _
    (OrdMap.ofList [(keyA, hourly streamB)]) (60 * Time.second) (hourly streamB) hr
    ?_ ?_ ?_ (Or.inl rfl) ?_ ?_ ?_ ?_) ?_ <;> decide +kernel

end Portal
