import Portal.RunQueue.Tick

/-!
# Held pipelines

A run the runner does not let go of holds its pipeline: `stuck` marks the entry and takes it out of
the queue, and nothing queues it again until a plan changes it.  Two things come too early or too
late for that.  The settle that ends a run may start the pipeline again before the delete of the
ended run is answered, and a plan may have changed the pipeline by then.

* `held_not_started`      a pipeline that was not due when its run ended stays held;
* `restarted_while_held`  one that was due is started by the tick that holds it;
* `held_for_its_stream`   what is held is the stream that looped, while no plan replaces the stream
                          of a run still to be judged;
* `held_for_old_stream`   a plan that does.
-/

namespace Portal

/-- the keys whose ended run's delete is not answered, or answered `false` and not yet held -/
def Tick.undecided : Tick → List Key
  | .ending _ ended _ => ended
  | .holding _ key ended _ => key :: ended
  | _ => []

theorem Answered.undecided_subset {tk tk' : Tick} {c : Call} (h : Answered tk c tk') :
    tk'.undecided ⊆ tk.undecided := by
  cases h with
  | deleted now k ended starts => exact List.subset_cons_self k ended
  | kept now k ended starts => exact List.Subset.refl _
  | _ => exact List.nil_subset _

theorem Answered.start_mem {tk tk' : Tick} {K : Key} {stream : Value} {refusal : Option String}
    (h : Answered tk (.start K stream refusal) tk') : K ∈ tk.starts.map Start.key := by
  generalize hc : Call.start K stream refusal = c at h
  cases h with
  | started now s starts =>
    obtain ⟨rfl, _⟩ := Call.start.inj hc
    exact List.mem_cons_self ..
  | refused now s reason starts =>
    obtain ⟨rfl, _⟩ := Call.start.inj hc
    exact List.mem_cons_self ..
  | _ => exact absurd hc (by simp)

theorem plan_kept {x : Ext} {q : RunQueue} {tk : Tick} {wanted : OrdMap Key Planned} {now : Int}
    {s' : Sys} {K : Key} {e : Entry} (he : q.entries.get? K = some e)
    (hd : ¬ Trans.Drops ⟨⟨q, tk⟩, .plan wanted now, s'⟩ K)
    (hc : ¬ Trans.Changes ⟨⟨q, tk⟩, .plan wanted now, s'⟩ K) :
    ∃ e', (q.plan x wanted now).entries.get? K = some e' ∧ RetryOnly e e' := by
  cases hw : wanted.get? K with
  | none => exact absurd ⟨(wanted, now), rfl, by simp [Trans.entry, he], hw⟩ hd
  | some p =>
    have hsame : e.stream = p.stream ∧ e.clock = p.clock := by
      by_contra hne
      exact hc ⟨(wanted, now), rfl, e, he, p, hw, hne⟩
    refine ⟨_, by rw [RunQueue.plan_get?, hw]; rfl, ?_⟩
    have hplan : q.planEntry x K p now (q.entries.get? K) = e := by
      rw [he]
      exact if_pos hsame
    show RetryOnly e ((q.planEntry x K p now (q.entries.get? K)).retries _ _ now)
    rw [hplan]
    exact Entry.retries_retryOnly ..

theorem plan_running {x : Ext} {q : RunQueue} {wanted : OrdMap Key Planned} {now : Int} {K : Key}
    {e' : Entry} (he' : (q.plan x wanted now).entries.get? K = some e') :
    e'.running = none ∨ ∃ e, q.entries.get? K = some e ∧ e'.running = e.running := by
  rw [RunQueue.plan_get?, Option.map_eq_some_iff] at he'
  obtain ⟨p, _, rfl⟩ := he'
  rw [(Entry.retries_retryOnly ..).running]
  cases he : q.entries.get? K with
  | none => exact Or.inl rfl
  | some e =>
    refine Or.inr ⟨e, rfl, ?_⟩
    show (e.plan p now).running = e.running
    unfold Entry.plan
    split <;> rfl

/-! ## a held pipeline is not started -/

/-- neither its clock nor its retry has come -/
def Entry.NotDue (e : Entry) (now : Int) : Prop :=
  (∀ due ∈ e.next, now < due) ∧ ∀ retry ∈ e.retry, now < retry.due

instance (e : Entry) (now : Int) : Decidable (e.NotDue now) :=
  inferInstanceAs (Decidable ((∀ due ∈ e.next, now < due) ∧ ∀ retry ∈ e.retry, now < retry.due))

namespace Trans

/-- `K` was not due at the clock reading of a settle -/
def NotDue (t : Trans Sys Action) (K : Key) : Prop :=
  ∀ now ∈ t.before.tick.reading, ∀ e ∈ t.entry K, e.NotDue now

instance (t : Trans Sys Action) (K : Key) : Decidable (t.NotDue K) :=
  inferInstanceAs (Decidable (∀ now ∈ t.before.tick.reading, ∀ e ∈ t.entry K, e.NotDue now))

end Trans

/-- an ended run still to be judged: its pipeline was not started again -/
def Undecided (K : Key) (s : Sys) : Prop :=
  K ∈ s.tick.undecided → K ∉ s.tick.starts.map Start.key ∧
    ∀ e, s.queue.entries.get? K = some e → e.running = none

/-- `K` is held, or will be by the next step of the tick -/
def Held (K : Key) (s : Sys) : Prop :=
  K ∉ s.tick.starts.map Start.key ∧ ∃ e, s.queue.entries.get? K = some e ∧ e.running = none ∧
    ((e.queued = none ∧ e.stuck = true) ∨
      ∃ now ended starts, s.tick = .holding now K ended starts)

theorem settled_queued_of_notDue {e : Entry} {state : Option RunState} {now : Int} {timeout : Nat}
    (hd : e.NotDue now) (hq : e.queued = none) :
    (e.settled state now timeout).queued = none := by
  have hf := e.afterEnd_fields state now timeout
  have h1 : (e.afterEnd state now timeout).queueDue now = e.afterEnd state now timeout := by
    unfold Entry.queueDue
    rw [hf.2.2]
    cases hn : e.next with
    | none => rfl
    | some due =>
      have hlt := hd.1 due hn
      rw [Option.filter_some_neg (by simpa using hlt)]
  have hr : ∀ retry, (e.afterEnd state now timeout).retry = some retry → now < retry.due := by
    intro retry h
    unfold Entry.afterEnd at h
    split at h
    · exact hd.2 retry h
    · rename_i started st failure _
      have h' : (e.armLost st failure now).retry = some retry := h
      unfold Entry.armLost at h'
      split at h'
      · -- the retry that its own end arms comes after a wait
        rename_i run _ _
        by_cases harm : e.armedFor = some run
        · unfold Entry.arm at h'
          rw [if_pos harm] at h'
          exact hd.2 retry h'
        · obtain ⟨⟨wait, _, hpos, hdue⟩, _⟩ := Entry.arm_retry harm h'
          omega
      · exact hd.2 retry h'
  unfold Entry.settled
  rw [h1]
  unfold Entry.queueRetry
  cases hn : (e.afterEnd state now timeout).retry with
  | none => exact hf.2.1.trans hq
  | some retry =>
    have hlt := hr retry hn
    rw [Option.filter_some_neg (by simpa using hlt)]
    exact hf.2.1.trans hq

theorem laneMove_of_not_queued {x : Ext} {K : Key} {now : Int} {unbound : Bool} {e e' : Entry}
    {l : List Start} (h : LaneMove x K now unbound e e' l) (hq : e.queued = none) :
    e' = e ∧ l = [] := by
  cases h with
  | stay => exact ⟨rfl, rfl⟩
  | refuse h1 => exact absurd (hq.symm.trans h1) (by simp)
  | start h1 => exact absurd (hq.symm.trans h1) (by simp)

theorem not_mem_keys {l : List Start} {K : Key} (h : l.filter (fun s => s.key = K) = []) :
    K ∉ l.map Start.key := by
  intro hk
  obtain ⟨s, hs, hsk⟩ := List.mem_map.mp hk
  have hm : s ∈ l.filter (fun s => s.key = K) := List.mem_filter.mpr ⟨hs, by simp [hsk]⟩
  rw [h] at hm
  exact absurd hm (by simp)

theorem undecided_settle {x : Ext} {v : Trans Sys Action} {K : Key}
    (hs : step x v.before v.act = some v.after) (hv : v.act = .settle) (hd : v.NotDue K)
    (hw : ∀ e, v.entry K = some e → e.running ≠ none → e.queued = none) :
    Undecided K v.after := by
  obtain ⟨s, a, s'⟩ := v
  obtain rfl : a = .settle := hv
  cases step_inv hs with
  | settle q now states asked =>
    rw [List.append_nil] at asked
    intro hmem
    obtain ⟨e, he, hend⟩ := (RunQueue.mem_settle_ended q x states now K asked).mp hmem
    obtain ⟨r, hr⟩ := Option.isSome_iff_exists.mp hend
    have hrun : e.running ≠ none := by
      rw [Entry.running_of_ending hr]
      simp
    obtain ⟨e', h1, m⟩ := RunQueue.settle_get? q x states now asked he
    obtain ⟨rfl, hl⟩ := laneMove_of_not_queued m
      (settled_queued_of_notDue (hd now rfl e he) (hw e he hrun))
    refine ⟨not_mem_keys hl, fun e₂ h2 => ?_⟩
    have h2' : (q.settle x states now).1.entries.get? K = some e₂ := h2
    rw [h1] at h2'
    obtain rfl := Option.some.inj h2'
    rw [Entry.settled_running, if_pos hend]

theorem undecided_step {x : Ext} {s s' : Sys} {a : Action} {K : Key} (h : step x s a = some s')
    (ha : a ≠ .settle) (hs : Undecided K s) : Undecided K s' := by
  cases step_inv h with
  | tell q tk t =>
    intro hk
    obtain ⟨h1, h2⟩ := hs hk
    refine ⟨h1, fun e he => h2 e ?_⟩
    rw [← t.apply_entries q]
    exact he
  | plan q tk wanted now =>
    intro hk
    obtain ⟨h1, h2⟩ := hs hk
    refine ⟨h1, fun e' he' => ?_⟩
    rcases plan_running he' with hr | ⟨e, he, hr⟩
    · exact hr
    · rw [hr]
      exact h2 e he
  | runNow q tk key now =>
    intro hk
    obtain ⟨h1, h2⟩ := hs hk
    refine ⟨h1, fun e' he' => ?_⟩
    rw [RunQueue.runNow_get?, Option.map_eq_some_iff] at he'
    obtain ⟨e, he, rfl⟩ := he'
    split <;> exact h2 e he
  | tick q now => exact fun hk => absurd hk (by simp [Tick.undecided])
  | call q tk tk' c hc =>
    intro hk
    obtain ⟨h1, h2⟩ := hs (hc.undecided_subset hk)
    exact ⟨fun hm => h1 ((hc.starts_sublist.map _).subset hm), h2⟩
  | settle q now states asked => exact absurd rfl ha
  | stuck q now key ended starts =>
    intro hk
    obtain ⟨h1, h2⟩ := hs (List.mem_cons_of_mem _ hk)
    refine ⟨h1, fun e' he' => ?_⟩
    rw [RunQueue.stuck_get?, Option.map_eq_some_iff] at he'
    obtain ⟨e, he, rfl⟩ := he'
    split <;> exact h2 e he
  | takeEnds q now starts => exact fun hk => absurd hk (by simp [Tick.undecided])
  | failedToStart q now key reason starts =>
    exact fun hk => absurd hk (by simp [Tick.undecided])
  | done q now => exact fun hk => absurd hk (by simp [Tick.undecided])

theorem settled_held {e : Entry} (state : Option RunState) (now : Int) (timeout : Nat)
    (hr : e.running = none) (hq : e.queued = none) (hs : e.stuck = true) :
    (e.settled state now timeout).queued = none ∧ (e.settled state now timeout).running = none ∧
      (e.settled state now timeout).stuck = true := by
  have hend : e.ending state now timeout = none := by
    unfold Entry.ending
    rw [hr]
  refine ⟨?_, ?_, (e.settled_inPlace state now timeout).stuck.trans hs⟩
  · have hfree : ∀ e' : Entry, e'.stuck = true → ¬ e'.free := by
      intro e' h hf
      rw [hf.2.2] at h
      exact absurd h (by simp)
    unfold Entry.settled Entry.afterEnd
    rw [hend]
    have h1 : (e.queueDue now).queued = none := by
      unfold Entry.queueDue
      split
      · exact hq
      · simp only [if_neg (hfree e hs)]
        exact hq
    have h2 : (e.queueDue now).stuck = true := (e.queueDue_fields now).1.stuck.trans hs
    simp only
    unfold Entry.queueRetry
    split
    · exact h1
    · rw [if_neg (hfree _ h2)]
      exact h1
  · rw [Entry.settled_running, hend]
    exact hr

theorem held_step {x : Ext} {s s' : Sys} {a : Action} {K : Key} (h : step x s a = some s')
    (hk : ¬ Trans.Drops ⟨s, a, s'⟩ K ∧ ¬ Trans.Changes ⟨s, a, s'⟩ K) (hs : Held K s) :
    Held K s' := by
  obtain ⟨h1, e, he, hr, hheld⟩ := hs
  cases step_inv h with
  | tell q tk t =>
    refine ⟨h1, e, ?_, hr, hheld⟩
    rw [show (t.apply q).entries = q.entries from t.apply_entries q]
    exact he
  | plan q tk wanted now =>
    obtain ⟨e', he', hsame⟩ := plan_kept (x := x) he hk.1 hk.2
    refine ⟨h1, e', he', hsame.running.trans hr, ?_⟩
    rcases hheld with ⟨hq, hst⟩ | hh
    · exact Or.inl ⟨hsame.queued.trans hq, hsame.stuck.trans hst⟩
    · exact Or.inr hh
  | runNow q tk key now =>
    refine ⟨h1, ?_⟩
    rcases hheld with ⟨hq, hst⟩ | hh
    · refine ⟨e, ?_, hr, Or.inl ⟨hq, hst⟩⟩
      rw [RunQueue.runNow_get?, show q.entries.get? K = some e from he]
      simp [hst]
    · refine ⟨_, by rw [RunQueue.runNow_get?, show q.entries.get? K = some e from he]; rfl, ?_,
        Or.inr hh⟩
      simp only
      split <;> exact hr
  | tick q now =>
    rcases hheld with ⟨hq, hst⟩ | ⟨_, _, _, hh⟩
    · refine ⟨by simp [Tick.starts], RunQueue.swept e, ?_, ?_, ?_⟩
      · rw [RunQueue.sweeps_get?, show q.entries.get? K = some e from he]
        rfl
      · unfold RunQueue.swept
        split <;> exact hr
      · left
        unfold RunQueue.swept
        split <;> exact ⟨hq, hst⟩
    · exact absurd hh (by simp)
  | call q tk tk' c hc =>
    refine ⟨fun hm => h1 ((hc.starts_sublist.map _).subset hm), e, he, hr, ?_⟩
    rcases hheld with hh | ⟨now, ended, starts, hh⟩
    · exact Or.inl hh
    · obtain rfl : tk = .holding now K ended starts := hh
      cases hc
  | settle q now states asked =>
    rw [List.append_nil] at asked
    rcases hheld with ⟨hq, hst⟩ | ⟨_, _, _, hh⟩
    · obtain ⟨e', g1, m⟩ := RunQueue.settle_get? q x states now asked he
      obtain ⟨k1, k2, k3⟩ := settled_held (states.lookup K) now q.timeout hr hq hst
      obtain ⟨rfl, hl⟩ := laneMove_of_not_queued m k1
      exact ⟨not_mem_keys hl, _, g1, k2, Or.inl ⟨k1, k3⟩⟩
    · exact absurd hh (by simp)
  | stuck q now key ended starts =>
    refine ⟨h1, ?_⟩
    by_cases hkey : K = key
    · refine ⟨e.hold now, ?_, hr, Or.inl ⟨rfl, rfl⟩⟩
      rw [RunQueue.stuck_get?, show q.entries.get? K = some e from he]
      simp [hkey]
    · refine ⟨e, ?_, hr, ?_⟩
      · rw [RunQueue.stuck_get?, show q.entries.get? K = some e from he]
        simp [hkey]
      · rcases hheld with hh | ⟨_, _, _, hh⟩
        · exact Or.inl hh
        · simp only [Tick.holding.injEq] at hh
          exact absurd hh.2.1.symm hkey
  | takeEnds q now starts =>
    rcases hheld with hh | ⟨_, _, _, hh⟩
    · exact ⟨h1, e, he, hr, Or.inl hh⟩
    · exact absurd hh (by simp)
  | failedToStart q now key reason starts =>
    rcases hheld with ⟨hq, hst⟩ | ⟨_, _, _, hh⟩
    · by_cases hkey : K = key
      · obtain ⟨f1, f2, f3, _⟩ := e.failedToStart_fields reason now
        refine ⟨h1, e.failedToStart reason now, ?_, f2, Or.inl ⟨f3.trans hq, f1.stuck.trans hst⟩⟩
        rw [RunQueue.failedToStart_get?, show q.entries.get? K = some e from he]
        simp [hkey]
      · refine ⟨h1, e, ?_, hr, Or.inl ⟨hq, hst⟩⟩
        rw [RunQueue.failedToStart_get?, show q.entries.get? K = some e from he]
        simp [hkey]
    · exact absurd hh (by simp)
  | done q now =>
    rcases hheld with hh | ⟨_, _, _, hh⟩
    · exact ⟨by simp [Tick.starts], e, he, hr, Or.inl hh⟩
    · exact absurd hh (by simp)

theorem kept_inv {x : Ext} {t : Trans Sys Action} {K : Key}
    (hs : step x t.before t.act = some t.after) (ht : t.kept = some K) :
    ∃ now ended starts, t.before.tick = .ending now (K :: ended) starts ∧
      t.after = ⟨t.before.queue, .holding now K ended starts⟩ := by
  obtain ⟨s, a, s'⟩ := t
  unfold Trans.kept at ht
  split at ht
  · rename_i key now ended starts h1 h2
    obtain rfl : key = K := by simpa using ht
    obtain rfl : a = .call (.delete key false) := h1
    cases step_inv hs with
    | call q tk tk' _ hc =>
      obtain rfl : tk = .ending now ended starts := h2
      cases hc with
      | kept now k ended starts => exact ⟨now, ended, starts, rfl, rfl⟩
  · exact absurd ht (by simp)

theorem startsRun_inv {x : Ext} {t : Trans Sys Action} {K : Key}
    (hs : step x t.before t.act = some t.after) (ht : t.startsRun = some K) :
    K ∈ t.before.tick.starts.map Start.key := by
  obtain ⟨s, a, s'⟩ := t
  unfold Trans.startsRun at ht
  split at ht
  · rename_i key stream refusal h1
    obtain rfl : key = K := by simpa using ht
    obtain rfl : a = .call (.start key stream refusal) := h1
    cases step_inv hs with
    | call q tk tk' _ hc => exact hc.start_mem
  · exact absurd ht (by simp)

/-- **A pipeline that was not due when its run ended stays held.**  `v` is the settle of the tick
in which `t` is answered; no later plan drops or changes `K` before `u`. -/
theorem held_not_started (x : Ext) (batch short : Nat) (K : Key)
    (a b c d : List (Trans Sys Action)) (v t u : Trans Sys Action) (s : Sys)
    (hr : Run (step x) (Sys.start batch short) (a ++ v :: (b ++ t :: (c ++ u :: d))) s)
    (hv : v.act = .settle) (hb : ∀ w ∈ b, w.act ≠ .settle) (hdue : v.NotDue K)
    (ht : t.kept = some K) (hheld : t.entry K ≠ none)
    (hc : ∀ w ∈ c, ¬ w.Drops K ∧ ¬ w.Changes K) : u.startsRun ≠ some K := by
  obtain ⟨r1, sv, r2⟩ := hr.at
  obtain ⟨r3, st, r4⟩ := r2.at
  obtain ⟨r5, su, _⟩ := r4.at
  have hund : Undecided K t.before := by
    refine Run.invariant (I := Undecided K) (C := fun w => w.act ≠ .settle) ?_
      (fun s a s' h ha hs => undecided_step h ha hs) r3 hb
    exact undecided_settle sv hv hdue (fun e he hrun => ((runs_law x).run r1 he hrun).1)
  have hheldt : Held K t.after := by
    obtain ⟨now, ended, starts, htick, hact⟩ := kept_inv st ht
    obtain ⟨h1, h2⟩ := hund (by rw [htick]; exact List.mem_cons_self ..)
    obtain ⟨⟨q, tk⟩, act, s'⟩ := t
    obtain rfl : tk = .ending now (K :: ended) starts := htick
    obtain rfl : s' = ⟨q, .holding now K ended starts⟩ := hact
    cases he : q.entries.get? K with
    | none => exact absurd he hheld
    | some e => exact ⟨h1, e, he, h2 e he, Or.inr ⟨_, _, _, rfl⟩⟩
  have hheldu : Held K u.before :=
    Run.invariant (I := Held K) (C := fun w => ¬ w.Drops K ∧ ¬ w.Changes K) hheldt
      (fun s a s' h hk hs => held_step h hk hs) r5 hc
  intro hu
  exact hheldu.1 (startsRun_inv su hu)

/-- what the queue reports of a run of `a` past its cap -/
def lateEnd (due : Int) : End := ⟨keyA, stamp due, false, sampleExt.streamHash streamA⟩

/-- an hourly pipeline runs past its cap and is held; an hour later it is due, and not started -/
def heldHourly : List Action := List.flatten [
  [.tell (.ran OrdMap.empty), .plan (OrdMap.ofList [(keyA, hourly streamA)]) 0],
  tickTo 0 [keyA] [],
  [.takeEnds, .call (.start keyA streamA none), .done],
  tickTo (960 * Time.second) [] [(keyA, .running)],
  [.call (.delete keyA false), .stuck, .takeEnds, .call (.ended (lateEnd 0)), .done,
    .plan (OrdMap.ofList [(keyA, hourly streamA)]) (3600 * Time.second)],
  tickTo (3601 * Time.second) [] [],
  [.takeEnds, .done]]

/-- a minutely one is due again when the settle ends its run: the same tick starts it -/
def restarted : List Action := List.flatten [
  [.tell (.ran OrdMap.empty), .plan (OrdMap.ofList [(keyA, minutely streamA)]) 0],
  tickTo 0 [keyA] [],
  [.takeEnds, .call (.start keyA streamA none), .done],
  tickTo (200 * Time.second) [] [(keyA, .running)],
  [.call (.delete keyA false), .stuck, .takeEnds, .call (.ended (lateEnd 0)),
    .call (.start keyA streamA none)]]

theorem heldHourly_not_started :
    ∃ (a b c d : List (Trans Sys Action)) (v t u : Trans Sys Action) (s : Sys),
      Run (step sampleExt) (Sys.start 1 1) (a ++ v :: (b ++ t :: (c ++ u :: d))) s ∧
      t.kept = some keyA ∧ u.act = .settle ∧ u.startsRun ≠ some keyA := by
  have hr : Run (step sampleExt) (Sys.start 1 1) (trace (step sampleExt) (Sys.start 1 1) heldHourly)
      (final (step sampleExt) (Sys.start 1 1) heldHourly) := run_trace (by decide +kernel)
  rw [← cut (trace (step sampleExt) (Sys.start 1 1) heldHourly) 10 (by decide +kernel),
    ← cut (List.drop 11 (trace (step sampleExt) (Sys.start 1 1) heldHourly)) 0 (by decide +kernel),
    ← cut (List.drop 1 (List.drop 11 (trace (step sampleExt) (Sys.start 1 1) heldHourly))) 6
      (by decide +kernel)] at hr
  refine ⟨_, _, _, _, _, _, _, _, hr, by decide +kernel, by decide +kernel, ?_⟩
  refine held_not_started sampleExt 1 1 keyA _ _ _ _ _ _ _ _ hr ?_ ?_ ?_ ?_ ?_ ?_ <;>
    decide +kernel

/-- **The settle that ends a run may start the pipeline before it is held.** -/
theorem restarted_while_held :
    ¬ ∀ (x : Ext) (batch short : Nat) (K : Key) (a c d : List (Trans Sys Action))
      (t u : Trans Sys Action) (s : Sys),
      Run (step x) (Sys.start batch short) (a ++ t :: (c ++ u :: d)) s → t.kept = some K →
        (∀ w ∈ c, ¬ w.Drops K ∧ ¬ w.Changes K) → u.startsRun ≠ some K := by
  intro h
  have hr : Run (step sampleExt) (Sys.start 1 1) (trace (step sampleExt) (Sys.start 1 1) restarted)
      (final (step sampleExt) (Sys.start 1 1) restarted) := run_trace (by decide +kernel)
  rw [← cut (trace (step sampleExt) (Sys.start 1 1) restarted) 11 (by decide +kernel),
    ← cut (List.drop 12 (trace (step sampleExt) (Sys.start 1 1) restarted)) 3
      (by decide +kernel)] at hr
  refine h sampleExt 1 1 keyA _ _ _ _ _ _ hr ?_ ?_ ?_ <;> decide +kernel

/-! ## what is held is the stream that looped -/

/-- what a run of the queue shows of the runs of one pipeline: the last one a settle started, the
last one a settle ended, and the one the runner did not let go of when the pipeline was held -/
structure Watch where
  started : Option Start
  ended : Option Start
  held : Option Start

namespace Watch

def next (K : Key) (w : Watch) (t : Trans Sys Action) : Watch where
  started := ((t.starts.filter (fun s => s.key = K)).getLast?).or w.started
  ended := if K ∈ t.ended then w.started else w.ended
  held := if t.held = some K then w.ended else w.held

theorem next_of_quiet (K : Key) (w : Watch) {t : Trans Sys Action} (hs : t.starts = [])
    (he : t.ended = []) (hh : t.held = none) : next K w t = w := by
  unfold next
  rw [hs, he, hh]
  rfl

end Watch

def watch (K : Key) (tr : List (Trans Sys Action)) : Watch :=
  tr.foldl (Watch.next K) ⟨none, none, none⟩

theorem watch_snoc (K : Key) (tr : List (Trans Sys Action)) (t : Trans Sys Action) :
    watch K (tr ++ [t]) = Watch.next K (watch K tr) t := by
  unfold watch
  rw [List.foldl_append]
  rfl

/-- a plan leaves the stream of a pipeline whose run is in the runner, or is ended and not yet
judged, as it is -/
def KeepsStreams (t : Trans Sys Action) : Prop :=
  ∀ w ∈ t.planned, ∀ K, ∀ p ∈ w.1.get? K,
    (∀ e ∈ t.entry K, e.running ≠ none ∨ K ∈ t.before.tick.undecided → p.stream = e.stream) ∧
    (t.entry K = none → K ∉ t.before.tick.undecided)

instance (t : Trans Sys Action) : Decidable (KeepsStreams t) :=
  decidable_of_iff (∀ w ∈ t.planned, ∀ k ∈ w.1.toList,
      (∀ e ∈ t.entry k.1, e.running ≠ none ∨ k.1 ∈ t.before.tick.undecided →
        k.2.stream = e.stream) ∧
      (t.entry k.1 = none → k.1 ∉ t.before.tick.undecided)) (by
    constructor
    · intro h w hw K p hp
      exact h w hw (K, p) ((OrdMap.mem_toList _ K p).mpr hp)
    · intro h w hw k hk
      exact h w hw k.1 k.2 ((OrdMap.mem_toList _ k.1 k.2).mp hk))

/-- a start of the stream `e` has now -/
def StartOf (e : Entry) (o : Option Start) : Prop := ∃ st, o = some st ∧ st.stream = e.stream

/-- the runs of a pipeline, as far as they can still hold it, are runs of its stream -/
def HeldFor (e : Entry) (w : Watch) (undecided : Prop) : Prop :=
  (e.running ≠ none → StartOf e w.started) ∧ (undecided → StartOf e w.ended) ∧
    (e.stuck = true → StartOf e w.held)

theorem HeldFor.mono {e e' : Entry} {w : Watch} {u u' : Prop} (h : HeldFor e w u)
    (hst : e'.stream = e.stream) (hr : e'.running ≠ none → e.running ≠ none) (hu : u' → u)
    (hs : e'.stuck = true → e.stuck = true) : HeldFor e' w u' := by
  have hof : ∀ {o : Option Start}, StartOf e o → StartOf e' o := by
    intro o ⟨st, h1, h2⟩
    exact ⟨st, h1, h2.trans hst.symm⟩
  exact ⟨fun g => hof (h.1 (hr g)), fun g => hof (h.2.1 (hu g)), fun g => hof (h.2.2 (hs g))⟩

theorem heldFor_plan {x : Ext} {q : RunQueue} {tk : Tick} {wanted : OrdMap Key Planned} {now : Int}
    {s' : Sys} {K : Key} {e' : Entry} {w : Watch}
    (hk : KeepsStreams ⟨⟨q, tk⟩, .plan wanted now, s'⟩)
    (hs : ∀ e, q.entries.get? K = some e → HeldFor e w (K ∈ tk.undecided))
    (he' : (q.plan x wanted now).entries.get? K = some e') :
    HeldFor e' w (K ∈ tk.undecided) := by
  rw [RunQueue.plan_get?, Option.map_eq_some_iff] at he'
  obtain ⟨p, hp, rfl⟩ := he'
  obtain ⟨k1, k2⟩ := hk (wanted, now) rfl K p hp
  have hsame := (q.planEntry x K p now (q.entries.get? K)).retries_retryOnly
    (q.failed.map (fun failed => failed.get? K)) (K.project ∈ q.rulesChanged) now
  have hentry : HeldFor (q.planEntry x K p now (q.entries.get? K)) w (K ∈ tk.undecided) := by
    cases he : q.entries.get? K with
    | none => exact ⟨fun h => absurd rfl h, fun h => absurd h (k2 he), fun h => absurd h (by simp [
        RunQueue.planEntry, Entry.new])⟩
    | some e =>
      show HeldFor (e.plan p now) w _
      unfold Entry.plan
      split
      · exact hs e he
      · -- a changed stream is not held any more, and no run of the old one is to be judged
        obtain ⟨h1, h2, _⟩ := hs e he
        refine ⟨fun hr => ?_, fun hu => ?_, fun h => absurd h (by simp [Entry.change])⟩
        · obtain ⟨st, g1, g2⟩ := h1 hr
          exact ⟨st, g1, g2.trans (k1 e he (Or.inl hr)).symm⟩
        · obtain ⟨st, g1, g2⟩ := h2 hu
          exact ⟨st, g1, g2.trans (k1 e he (Or.inr hu)).symm⟩
  refine hentry.mono hsame.stream ?_ id ?_
  · rw [hsame.running]
    exact id
  · rw [hsame.stuck]
    exact id

theorem heldFor_settle {x : Ext} {q : RunQueue} {now : Int} {states : List (Key × RunState)}
    (asked : (states.map Prod.fst).Nodup) {s : Sys} {K : Key} {e' : Entry} {w : Watch}
    (hs : ∀ e, q.entries.get? K = some e → HeldFor e w False)
    (he' : (q.settle x states now).1.entries.get? K = some e') :
    HeldFor e' (Watch.next K w ⟨s, .settle, ⟨(q.settle x states now).1,
        .ending now (q.settle x states now).2.1 (q.settle x states now).2.2⟩⟩)
      (K ∈ (q.settle x states now).2.1) := by
  obtain ⟨e, he, m⟩ := RunQueue.settle_inv q x states now asked he'
  obtain ⟨g1, _, g3⟩ := hs e he
  have hstream : e'.stream = e.stream :=
    m.kept.stream.trans (e.settled_inPlace _ now q.timeout).stream
  have hstuck : e'.stuck = e.stuck :=
    m.kept.stuck.trans (e.settled_inPlace _ now q.timeout).stuck
  have hof : ∀ {o : Option Start}, StartOf e o → StartOf e' o := by
    intro o ⟨st, h1, h2⟩
    exact ⟨st, h1, h2.trans hstream.symm⟩
  refine ⟨fun hr => ?_, fun hu => ?_, fun h => ?_⟩
  · show StartOf e' (((q.settle x states now).2.2.filter (fun s => s.key = K)).getLast?.or
      w.started)
    generalize (q.settle x states now).2.2.filter (fun s => s.key = K) = l at m
    cases m with
    | stay =>
      rw [Entry.settled_running] at hr
      split at hr
      · exact absurd rfl hr
      · exact hof (g1 hr)
    | refuse _ h2 => exact absurd h2 hr
    | start => exact ⟨_, rfl, rfl⟩
  · show StartOf e' (if K ∈ (q.settle x states now).2.1 then w.started else w.ended)
    rw [if_pos hu]
    obtain ⟨e₂, h2, hend⟩ := (RunQueue.mem_settle_ended q x states now K asked).mp hu
    rw [he] at h2
    obtain rfl := Option.some.inj h2
    obtain ⟨r, hr⟩ := Option.isSome_iff_exists.mp hend
    exact hof (g1 (by rw [Entry.running_of_ending hr]; simp))
  · exact hof (g3 (hstuck.symm.trans h))

theorem heldFor_step {x : Ext} {s s' : Sys} {a : Action} (h : step x s a = some s')
    (hk : KeepsStreams ⟨s, a, s'⟩) {K : Key} {w : Watch}
    (hs : ∀ e, s.queue.entries.get? K = some e → HeldFor e w (K ∈ s.tick.undecided)) :
    ∀ e, s'.queue.entries.get? K = some e →
      HeldFor e (Watch.next K w ⟨s, a, s'⟩) (K ∈ s'.tick.undecided) := by
  intro e' he'
  cases step_inv h with
  | tell q tk t =>
    rw [Watch.next_of_quiet K w rfl rfl rfl]
    rw [show (t.apply q).entries = q.entries from t.apply_entries q] at he'
    exact hs e' he'
  | plan q tk wanted now =>
    rw [Watch.next_of_quiet K w rfl rfl rfl]
    exact heldFor_plan hk hs he'
  | runNow q tk key now =>
    rw [Watch.next_of_quiet K w rfl rfl rfl]
    rw [RunQueue.runNow_get?, Option.map_eq_some_iff] at he'
    obtain ⟨e, he, rfl⟩ := he'
    split
    · exact hs e he
    · exact hs e he
  | tick q now =>
    rw [Watch.next_of_quiet K w rfl rfl rfl]
    rw [RunQueue.sweeps_get?, Option.map_eq_some_iff] at he'
    obtain ⟨e, he, rfl⟩ := he'
    unfold RunQueue.swept
    split
    · exact hs e he
    · exact hs e he
  | call q tk tk' c hc =>
    rw [Watch.next_of_quiet K w rfl rfl rfl]
    exact (hs e' he').mono rfl id (fun hu => hc.undecided_subset hu) id
  | settle q now states asked =>
    rw [List.append_nil] at asked
    refine heldFor_settle asked (fun e he => ?_) he'
    exact (hs e he).mono rfl id False.elim id
  | stuck q now key ended starts =>
    rw [RunQueue.stuck_get?, Option.map_eq_some_iff] at he'
    obtain ⟨e, he, rfl⟩ := he'
    obtain ⟨h1, h2, h3⟩ := hs e he
    by_cases hkey : K = key
    · subst hkey
      rw [if_pos rfl]
      refine ⟨h1, fun hu => h2 (List.mem_cons_of_mem _ hu), fun _ => ?_⟩
      show StartOf (e.hold now) (if some K = some K then w.ended else w.held)
      rw [if_pos rfl]
      exact h2 (List.mem_cons_self ..)
    · rw [if_neg hkey]
      refine ⟨h1, fun hu => h2 (List.mem_cons_of_mem _ hu), fun hst => ?_⟩
      show StartOf e (if some key = some K then w.ended else w.held)
      rw [if_neg (fun hc => hkey (Option.some.inj hc).symm)]
      exact h3 hst
  | takeEnds q now starts =>
    rw [Watch.next_of_quiet K w rfl rfl rfl]
    exact hs e' he'
  | failedToStart q now key reason starts =>
    rw [Watch.next_of_quiet K w rfl rfl rfl]
    rw [RunQueue.failedToStart_get?, Option.map_eq_some_iff] at he'
    obtain ⟨e, he, rfl⟩ := he'
    split
    · obtain ⟨f1, f2, _⟩ := e.failedToStart_fields reason now
      refine (hs e he).mono f1.stream (fun hr => absurd f2 hr) id ?_
      rw [f1.stuck]
      exact id
    · exact hs e he
  | done q now =>
    rw [Watch.next_of_quiet K w rfl rfl rfl]
    exact hs e' he'

/-- **A held pipeline has the stream that looped**, in every state of a run whose plans leave the
stream of a run still to be judged as it is. -/
theorem held_for_its_stream (x : Ext) (batch short : Nat) {tr : List (Trans Sys Action)} {s : Sys}
    (hr : Run (step x) (Sys.start batch short) tr s) (hk : ∀ t ∈ tr, KeepsStreams t) {K : Key}
    {e : Entry} (he : s.queue.entries.get? K = some e) (hs : e.stuck = true) :
    ∃ st, (watch K tr).held = some st ∧ x.streamHash st.stream = x.streamHash e.stream := by
  have h := Run.history (I := fun tr s => ∀ e, s.queue.entries.get? K = some e →
      HeldFor e (watch K tr) (K ∈ s.tick.undecided)) (C := KeepsStreams)
    (fun e he => absurd he (by simp [Sys.start, RunQueue.new]))
    (fun tr s a s' _ hstep hk hs => by
      rw [watch_snoc]
      exact heldFor_step hstep hk hs) hr hk
  obtain ⟨st, h1, h2⟩ := (h e he).2.2 hs
  exact ⟨st, h1, by rw [h2]⟩

/-- the plan changes the stream of `a` a minute into its run, which then runs past its cap -/
def restreamedRun : List Action := List.flatten [
  [.tell (.ran OrdMap.empty), .plan (OrdMap.ofList [(keyA, hourly streamA)]) 0],
  tickTo 0 [keyA] [],
  [.takeEnds, .call (.start keyA streamA none), .done,
    .plan (OrdMap.ofList [(keyA, hourly streamB)]) (60 * Time.second)],
  tickTo (960 * Time.second) [] [(keyA, .running)],
  [.call (.delete keyA false), .stuck]]

theorem heldHourly_for_its_stream :
    ∃ tr s e st, Run (step sampleExt) (Sys.start 1 1) tr s ∧ s.queue.entries.get? keyA = some e ∧
      e.stuck = true ∧ (watch keyA tr).held = some st ∧
      sampleExt.streamHash st.stream = sampleExt.streamHash e.stream := by
  have hr : Run (step sampleExt) (Sys.start 1 1) (trace (step sampleExt) (Sys.start 1 1) heldHourly)
      (final (step sampleExt) (Sys.start 1 1) heldHourly) := run_trace (by decide +kernel)
  have hk : ∀ t ∈ trace (step sampleExt) (Sys.start 1 1) heldHourly, KeepsStreams t := by
    decide +kernel
  have hst : ∃ e ∈ (final (step sampleExt) (Sys.start 1 1) heldHourly).queue.entries.get? keyA,
      e.stuck = true := by
    decide +kernel
  obtain ⟨e, he, hs⟩ := hst
  obtain ⟨st, h1, h2⟩ := held_for_its_stream sampleExt 1 1 hr hk he hs
  exact ⟨_, _, e, st, hr, he, hs, h1, h2⟩

/-- **A pipeline whose stream changed during its run is held for the run of its old stream.** -/
theorem held_for_old_stream :
    ¬ ∀ (x : Ext) (batch short : Nat) (tr : List (Trans Sys Action)) (s : Sys) (K : Key)
      (e : Entry), Run (step x) (Sys.start batch short) tr s →
        s.queue.entries.get? K = some e → e.stuck = true →
        ∃ st, (watch K tr).held = some st ∧ x.streamHash st.stream = x.streamHash e.stream := by
  intro h
  have hr : Run (step sampleExt) (Sys.start 1 1)
      (trace (step sampleExt) (Sys.start 1 1) restreamedRun)
      (final (step sampleExt) (Sys.start 1 1) restreamedRun) := run_trace (by decide +kernel)
  have hst : ∃ e ∈ (final (step sampleExt) (Sys.start 1 1) restreamedRun).queue.entries.get? keyA,
      e.stuck = true ∧ e.stream = streamB := by
    decide +kernel
  have hheld : (watch keyA (trace (step sampleExt) (Sys.start 1 1) restreamedRun)).held.map
      Start.stream = some streamA := by
    decide +kernel
  obtain ⟨e, he, hs, hb⟩ := hst
  obtain ⟨st, h1, h2⟩ := h sampleExt 1 1 _ _ keyA e hr he hs
  rw [h1, Option.map_some, Option.some.injEq] at hheld
  rw [hheld, hb] at h2
  exact absurd h2 (by decide)

end Portal
