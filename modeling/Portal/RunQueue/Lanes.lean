import Portal.RunQueue.Tick

/-!
# The lanes' limits over whole runs

`settle` starts a run only where its lane has room, so no settle takes a lane past its limit, and
every other step only ends runs.  A plan is the exception: it writes the lane of a changed pipeline
anew, also while that pipeline's run is in the runner, and counts nothing.

* `settleLane_busy`        one lane's starts stay within its limit;
* `lanes_within_limits`    the limits hold in every state of a run whose plans move no run;
* `plan_overfills_lane`    one plan that moves a run puts two runs into a lane of one.
-/

namespace Portal

namespace RunQueue

theorem busy_le {q q' : RunQueue} {lane : Lane} (h : ∀ K e', q'.entries.get? K = some e' →
    e'.lane = lane → e'.running ≠ none →
    ∃ e, q.entries.get? K = some e ∧ e.lane = lane ∧ e.running ≠ none) :
    q'.busy lane ≤ q.busy lane := by
  have hc := OrdMap.count_le q.entries q'.entries (fun e => e.lane = lane && e.running.isSome) []
    (by
      intro K e' he' hp
      simp only [Bool.and_eq_true, decide_eq_true_eq, Option.isSome_iff_ne_none] at hp
      obtain ⟨e, he, h1, h2⟩ := h K e' he' hp.1 hp.2
      exact Or.inl ⟨e, he, by simp [h1, Option.isSome_iff_ne_none, h2]⟩)
  simpa [busy] using hc

/-! ## one settle -/

theorem startAll_keys (x : Ext) (now : Int) (ws : List (Lex (Int × Key))) (q : RunQueue) :
    ((startAll x now ws q).2.map Start.key).Sublist (ws.map waitKey) := by
  induction ws generalizing q with
  | nil => exact List.Sublist.slnil
  | cons w ws ih =>
    unfold startAll
    split
    · exact (ih q).cons _
    · exact (ih _).cons_cons _

theorem settleLane_starts (q : RunQueue) (x : Ext) (lane : Lane) (limit : Nat) (fresh : Bool)
    (now : Int) :
    ((q.settleLane x lane limit fresh now).2.map Start.key).Sublist
        ((q.waiting lane).map waitKey) ∧
      (q.settleLane x lane limit fresh now).2.length ≤ limit - q.busy lane := by
  unfold settleLane
  split
  · have hk := startAll_keys x now (((q.waiting lane).filter
      (fun w => !q.isUnbound x (ofLex w).2)).take (limit - q.busy lane))
      (q.refuseAll ((q.waiting lane).filter (fun w => q.isUnbound x (ofLex w).2)) now)
    refine ⟨hk.trans (List.Sublist.map _ ((List.take_sublist _ _).trans List.filter_sublist)), ?_⟩
    have hl := hk.length_le
    rw [List.length_map, List.length_map, List.length_take] at hl
    exact le_trans hl (Nat.min_le_left _ _)
  · exact ⟨List.nil_sublist _, Nat.zero_le _⟩

theorem running_of_laneMove {x : Ext} {K : Key} {now : Int} {unbound : Bool} {e e' : Entry}
    {l : List Start} (h : LaneMove x K now unbound e e' l) (hr : e'.running ≠ none) :
    e.running ≠ none ∨ ∃ s ∈ l, s.key = K := by
  cases h with
  | stay => exact Or.inl hr
  | refuse _ h2 => exact absurd h2 hr
  | start => exact Or.inr ⟨_, List.mem_singleton_self _, rfl⟩

/-- **A lane's turn keeps it within its limit.** -/
theorem settleLane_busy (q : RunQueue) (x : Ext) (lane : Lane) (limit : Nat) (fresh : Bool)
    (now : Int) : (q.settleLane x lane limit fresh now).1.busy lane ≤ max (q.busy lane) limit := by
  have hlen := (settleLane_starts q x lane limit fresh now).2
  have hc := OrdMap.count_le q.entries (q.settleLane x lane limit fresh now).1.entries
    (fun e => e.lane = lane && e.running.isSome)
    ((q.settleLane x lane limit fresh now).2.map Start.key) (by
      intro K e' he' hp
      simp only [Bool.and_eq_true, decide_eq_true_eq, Option.isSome_iff_ne_none] at hp
      obtain ⟨e, he, m⟩ := settleLane_inv q x lane limit fresh now he'
      rcases running_of_laneMove m hp.2 with hr | ⟨s, hs, rfl⟩
      · refine Or.inl ⟨e, he, ?_⟩
        simp [← m.kept.lane, hp.1, Option.isSome_iff_ne_none, hr]
      · exact Or.inr (List.mem_map_of_mem (List.mem_of_mem_filter hs)))
  rw [List.length_map] at hc
  show OrdMap.count _ _ ≤ max (OrdMap.count _ _) limit
  unfold busy at hlen
  omega

theorem settleLane_busy_other (q : RunQueue) (x : Ext) (lane lane' : Lane) (limit : Nat)
    (fresh : Bool) (now : Int) (hne : lane' ≠ lane) :
    (q.settleLane x lane limit fresh now).1.busy lane' ≤ q.busy lane' := by
  apply busy_le
  intro K e' he' hl hr
  obtain ⟨e, he, m⟩ := settleLane_inv q x lane limit fresh now he'
  have hle : e.lane = lane' := m.kept.lane.symm.trans hl
  rcases running_of_laneMove m hr with hr | ⟨s, hs, rfl⟩
  · exact ⟨e, he, hle, hr⟩
  · -- what this lane started waited in this lane
    have hw := (settleLane_starts q x lane limit fresh now).1.subset
      (List.mem_map_of_mem (List.mem_of_mem_filter hs))
    obtain ⟨w, hw, hk⟩ := List.mem_map.mp hw
    obtain ⟨e₂, h2, h3⟩ := (mem_waiting q lane w).mp hw
    rw [hk, he] at h2
    obtain rfl : e = e₂ := by simpa using h2
    exact absurd (hle.symm.trans (waits_eq_some h3).1) hne

theorem settleDue_busy (q : RunQueue) (states : List (Key × RunState)) (now : Int) (lane : Lane)
    (hn : (states.map Prod.fst).Nodup) : (q.settleDue states now).1.busy lane ≤ q.busy lane := by
  apply busy_le
  intro K e' he' hl hr
  rw [settleDue_get? q states now K hn, Option.map_eq_some_iff] at he'
  obtain ⟨e, he, rfl⟩ := he'
  refine ⟨e, he, (e.settled_inPlace _ now q.timeout).lane.symm.trans hl, ?_⟩
  rw [Entry.settled_running] at hr
  split at hr
  · exact absurd rfl hr
  · exact hr

/-- **A settle keeps both lanes within their limits.** -/
theorem settle_busy (q : RunQueue) (x : Ext) (states : List (Key × RunState)) (now : Int)
    (hn : (states.map Prod.fst).Nodup) :
    (q.settle x states now).1.busy .batch ≤ max (q.busy .batch) q.batch ∧
      (q.settle x states now).1.busy .short ≤ max (q.busy .short) q.short := by
  have hb := settleDue_busy q states now .batch hn
  have hs := settleDue_busy q states now .short hn
  generalize hd : (q.settleDue states now).1 = d at hb hs
  have hdb : d.batch = q.batch := by
    rw [← hd, settleDue_frame]
  have hds : d.short = q.short := by
    rw [← hd, settleDue_frame]
  have h1 := settleLane_busy d x .batch d.batch (d.fresh now) now
  have h1' := settleLane_busy_other d x .batch .short d.batch (d.fresh now) now (by decide)
  generalize hm : (d.settleLane x .batch d.batch (d.fresh now) now).1 = m at h1 h1'
  have hms : m.short = q.short := by
    rw [← hm, settleLane_frame]
    exact hds
  have h2 := settleLane_busy m x .short m.short (d.fresh now) now
  have h2' := settleLane_busy_other m x .short .batch m.short (d.fresh now) now (by decide)
  have heq : (q.settle x states now).1 = (m.settleLane x .short m.short (d.fresh now) now).1 := by
    rw [← hm, ← hd]
    rfl
  rw [heq]
  omega

end RunQueue

/-! ## whole runs -/

/-- a plan that changes a pipeline whose run is in the runner leaves it in its lane -/
abbrev KeepsLanes : Trans Sys Action → Prop := Trans.PlanMeets (fun _ now e p =>
  e.running ≠ none → ¬(e.stream = p.stream ∧ e.clock = p.clock) → p.clock.lane now = e.lane)

/-- the runs of each lane and its limit, which no step changes -/
def WithinLimits (batch short : Nat) (s : Sys) : Prop :=
  s.queue.busy .batch ≤ max batch 1 ∧ s.queue.busy .short ≤ max short 1 ∧
    s.queue.batch = max batch 1 ∧ s.queue.short = max short 1

theorem WithinLimits.mono {batch short : Nat} {q q' : RunQueue} {tk tk' : Tick}
    (h : WithinLimits batch short ⟨q, tk⟩) (hb : q'.batch = q.batch) (hs : q'.short = q.short)
    (hle : ∀ lane, q'.busy lane ≤ q.busy lane) : WithinLimits batch short ⟨q', tk'⟩ :=
  ⟨le_trans (hle .batch) h.1, le_trans (hle .short) h.2.1, hb.trans h.2.2.1, hs.trans h.2.2.2⟩

theorem plan_busy (q : RunQueue) (x : Ext) (wanted : OrdMap Key Planned) (now : Int) (tk : Tick)
    (hk : KeepsLanes ⟨⟨q, tk⟩, .plan wanted now, ⟨q.plan x wanted now, tk⟩⟩) (lane : Lane) :
    (q.plan x wanted now).busy lane ≤ q.busy lane := by
  apply RunQueue.busy_le
  intro K e' he' hl hr
  rw [RunQueue.plan_get?, Option.map_eq_some_iff] at he'
  obtain ⟨p, hp, rfl⟩ := he'
  have hsame := (q.planEntry x K p now (q.entries.get? K)).retries_retryOnly
    (q.failed.map (fun failed => failed.get? K)) (K.project ∈ q.rulesChanged) now
  rw [hsame.lane] at hl
  rw [hsame.running] at hr
  cases he : q.entries.get? K with
  | none =>
    rw [he] at hr
    exact absurd rfl hr
  | some e =>
    rw [he] at hl hr
    simp only [RunQueue.planEntry, Entry.plan] at hl hr
    split at hl
    · rename_i hc
      rw [if_pos hc] at hr
      exact ⟨e, rfl, hl, hr⟩
    · rename_i hc
      rw [if_neg hc] at hr
      exact ⟨e, rfl, (hk (wanted, now) rfl K e he p hp hr hc).symm.trans hl, hr⟩

theorem withinLimits_step {x : Ext} {batch short : Nat} {s s' : Sys} {a : Action}
    (h : step x s a = some s') (hk : KeepsLanes ⟨s, a, s'⟩) (hs : WithinLimits batch short s) :
    WithinLimits batch short s' := by
  have hkept : (∀ wanted now, a ≠ .plan wanted now) → a ≠ .settle → ∀ lane K e',
      s'.queue.entries.get? K = some e' → e'.lane = lane → e'.running ≠ none →
      ∃ e, s.queue.entries.get? K = some e ∧ e.lane = lane ∧ e.running ≠ none := by
    intro hp ha lane K e' he' hl hr
    obtain ⟨e, he, hrun, _, _, hlane⟩ := run_kept h hp ha he' hr
    exact ⟨e, he, hlane.symm.trans hl, hrun ▸ hr⟩
  cases step_inv h with
  | tell q tk t =>
    refine hs.mono ?_ ?_ (fun lane => ?_)
    · cases t <;> rfl
    · cases t <;> rfl
    · show OrdMap.count _ _ ≤ OrdMap.count _ _
      rw [t.apply_entries]
  | plan q tk wanted now => exact hs.mono rfl rfl (plan_busy q x wanted now tk hk)
  | runNow q tk key now =>
    refine hs.mono ?_ ?_ (fun lane => RunQueue.busy_le (hkept (by simp) (by simp) lane))
    · rw [RunQueue.runNow_frame]
    · rw [RunQueue.runNow_frame]
  | tick q now =>
    exact hs.mono rfl rfl (fun lane => RunQueue.busy_le (hkept (by simp) (by simp) lane))
  | call q tk tk' c _ => exact hs
  | settle q now states asked =>
    rw [List.append_nil] at asked
    obtain ⟨h1, h2⟩ := RunQueue.settle_busy q x states now asked
    obtain ⟨g1, g2, g3, g4⟩ := hs
    simp only at g1 g2 g3 g4
    refine ⟨?_, ?_, ?_, ?_⟩
    · simp only
      omega
    · simp only
      omega
    · rw [RunQueue.settle_frame]
      exact g3
    · rw [RunQueue.settle_frame]
      exact g4
  | stuck q now key ended starts =>
    exact hs.mono rfl rfl (fun lane => RunQueue.busy_le (hkept (by simp) (by simp) lane))
  | takeEnds q now starts => exact hs
  | failedToStart q now key reason starts =>
    exact hs.mono rfl rfl (fun lane => RunQueue.busy_le (hkept (by simp) (by simp) lane))
  | done q now => exact hs

/-- **The limits hold in every state of a run whose plans move no run to another lane.** -/
theorem lanes_within_limits (x : Ext) (batch short : Nat) {tr : List (Trans Sys Action)} {s : Sys}
    (hr : Run (step x) (Sys.start batch short) tr s) (hk : ∀ t ∈ tr, KeepsLanes t) :
    s.queue.busy .batch ≤ max batch 1 ∧ s.queue.busy .short ≤ max short 1 := by
  have h0 : WithinLimits batch short (Sys.start batch short) :=
    ⟨Nat.zero_le _, Nat.zero_le _, rfl, rfl⟩
  have h := Run.invariant (I := WithinLimits batch short) (C := KeepsLanes) h0
    (fun s a s' h hk hs => withinLimits_step h hk hs) hr hk
  exact ⟨h.1, h.2.1⟩

/-- `a` runs in the short lane and `b` in the batch lane, one run each -/
def bothRunning : List Action :=
  .tell (.ran OrdMap.empty) ::
  .plan (OrdMap.ofList [(keyA, minutely streamA), (keyB, hourly streamA)]) 0 ::
  tickTo 0 [keyA, keyB] []

example : (exec (step sampleExt) (Sys.start 1 1) bothRunning).isSome := by decide +kernel

/-- a second later a plan gives the running `a` another stream, under its old clock -/
def restreamed : List Action := bothRunning.concat
  (.plan (OrdMap.ofList [(keyA, minutely streamB), (keyB, hourly streamA)]) Time.second)

def reclocked : List Action := bothRunning.concat
  (.plan (OrdMap.ofList [(keyA, hourly streamA), (keyB, hourly streamA)]) Time.second)

theorem restreamed_within_limits :
    ∃ tr s, Run (step sampleExt) (Sys.start 1 1) tr s ∧ (∀ t ∈ tr, KeepsLanes t) ∧
      s.queue.busy .batch = 1 ∧ s.queue.busy .batch ≤ max 1 1 ∧ s.queue.busy .short ≤ max 1 1 := by
  have hr : Run (step sampleExt) (Sys.start 1 1) (trace (step sampleExt) (Sys.start 1 1) restreamed)
      (final (step sampleExt) (Sys.start 1 1) restreamed) := run_trace (by decide +kernel)
  have hk : ∀ t ∈ trace (step sampleExt) (Sys.start 1 1) restreamed, KeepsLanes t := by
    decide +kernel
  exact ⟨_, _, hr, hk, by decide +kernel, lanes_within_limits sampleExt 1 1 hr hk⟩

/-- **A plan that moves a run puts two runs into a lane of one.** -/
theorem plan_overfills_lane :
    ¬ ∀ (x : Ext) (batch short : Nat) (tr : List (Trans Sys Action)) (s : Sys),
      Run (step x) (Sys.start batch short) tr s →
        s.queue.busy .batch ≤ max batch 1 ∧ s.queue.busy .short ≤ max short 1 := by
  intro h
  have hr : Run (step sampleExt) (Sys.start 1 1) (trace (step sampleExt) (Sys.start 1 1) reclocked)
      (final (step sampleExt) (Sys.start 1 1) reclocked) := run_trace (by decide +kernel)
  exact absurd (h sampleExt 1 1 _ _ hr).1 (by decide +kernel)

end Portal
