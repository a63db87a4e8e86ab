import Portal.RunQueue.Change

/-!
# The life of a run

A settle starts a run under an id, and keeps the id and the hash of the stream it was made from in
the entry until a settle ends it; the end is reported once, after the locks are released.  Plans may
change, drop and insert the pipeline in between.

* `reported_sublist`    the reports of a pipeline are, in order, reports of its starts;
* `started_after_end`   between two starts of a pipeline its run ended, was refused or was dropped;
* `started_after_sweep` a pipeline a plan inserts is swept before it is started;
* `run_lifecycle`       the three together.
-/

namespace Portal

namespace Trans

/-- what the runner is told of ended runs -/
def reports (t : Trans Sys Action) : List End :=
  match t.act with
  | .call (.ended r) => [r]
  | _ => []

/-- the streams a tick is about to remove -/
def sweeps (t : Trans Sys Action) : List Key :=
  match t.act, t.after.tick with
  | .tick _, .looking _ sweeps _ _ _ => sweeps
  | _, _ => []

/-- the stream a tick removes before it looks at the runs -/
def sweptKey (t : Trans Sys Action) : Option Key :=
  match t.act, t.before.tick with
  | .call (.delete key _), .looking _ _ _ _ _ => some key
  | _, _ => none

end Trans

/-- the id and the hash of each run of `K` that a settle started, oldest first -/
def started (x : Ext) (K : Key) (tr : List (Trans Sys Action)) : List (String × String) :=
  ((tr.flatMap Trans.starts).filter (fun s => s.key = K)).map
    (fun s => (s.run, x.streamHash s.stream))

def endIds (K : Key) (ends : List End) : List (String × String) :=
  (ends.filter (fun r => r.key = K)).map (fun r => (r.run, r.stream))

/-- the id and the hash of each run of `K` that was reported, oldest first -/
def reported (K : Key) (tr : List (Trans Sys Action)) : List (String × String) :=
  endIds K (tr.flatMap Trans.reports)

theorem started_snoc (x : Ext) (K : Key) (tr : List (Trans Sys Action)) (t : Trans Sys Action) :
    started x K (tr ++ [t]) = started x K tr ++ (t.starts.filter (fun s => s.key = K)).map
      (fun s => (s.run, x.streamHash s.stream)) := by
  simp [started]

theorem endIds_append (K : Key) (l l' : List End) :
    endIds K (l ++ l') = endIds K l ++ endIds K l' := by
  simp [endIds]

theorem reported_snoc (K : Key) (tr : List (Trans Sys Action)) (t : Trans Sys Action) :
    reported K (tr ++ [t]) = reported K tr ++ endIds K t.reports := by
  unfold reported
  rw [List.flatMap_append, endIds_append]
  simp

/-! ## reports -/

/-- the reports a tick has still to make -/
def Tick.untold : Tick → List End
  | .telling _ ends _ => ends
  | _ => []

def Entry.current (e : Entry) : List (String × String) :=
  match e.running, e.run, e.runStream with
  | some _, some run, some hash => [(run, hash)]
  | _, _, _ => []

/-- the run of `K` in the runner -/
def currentOf (K : Key) (q : RunQueue) : List (String × String) :=
  ((q.entries.get? K).map Entry.current).getD []

/-- the runs of `K` reported, to be reported and in the runner -/
def known (K : Key) (tr : List (Trans Sys Action)) (s : Sys) : List (String × String) :=
  reported K tr ++ (endIds K s.tick.untold ++ (endIds K s.queue.ends ++ currentOf K s.queue))

theorem currentOf_sublist {K : Key} {q q' : RunQueue}
    (h : ∀ e', q'.entries.get? K = some e' → e'.running ≠ none → ∃ e, q.entries.get? K = some e ∧
      e'.running = e.running ∧ e'.run = e.run ∧ e'.runStream = e.runStream) :
    (currentOf K q').Sublist (currentOf K q) := by
  unfold currentOf
  cases he' : q'.entries.get? K with
  | none => exact List.nil_sublist _
  | some e' =>
    show e'.current.Sublist _
    by_cases hr : e'.running = none
    · unfold Entry.current
      rw [hr]
      exact List.nil_sublist _
    · obtain ⟨e, he, h1, h2, h3⟩ := h e' he' hr
      rw [he]
      show e'.current.Sublist e.current
      unfold Entry.current
      rw [h1, h2, h3]

theorem known_mono {K : Key} {tr : List (Trans Sys Action)} {s s' : Sys}
    (ht : s'.tick.untold = s.tick.untold) (hq : s'.queue.ends = s.queue.ends)
    (hc : (currentOf K s'.queue).Sublist (currentOf K s.queue)) :
    (known K tr s').Sublist (known K tr s) := by
  unfold known
  rw [ht, hq]
  exact ((hc.append_left _).append_left _).append_left _

theorem report_current {x : Ext} {K : Key} {now : Int} {unbound : Bool} {e e' : Entry}
    {state : Option RunState} {timeout : Nat} {l : List Start}
    (hw : e.running ≠ none → e.run ≠ none ∧ e.runStream ≠ none)
    (m : LaneMove x K now unbound (e.settled state now timeout) e' l) :
    (endIds K (e.report K state now timeout) ++ e'.current).Sublist
      (e.current ++ l.map (fun s => (s.run, x.streamHash s.stream))) := by
  have hp := e.settled_inPlace state now timeout
  have hr := e.settled_running state now timeout
  have hs := e.settled_runStream state now timeout
  -- what the lanes leave in the runner
  have hcur : e'.current.Sublist ((e.settled state now timeout).current ++
      l.map (fun s => (s.run, x.streamHash s.stream))) := by
    cases m with
    | stay => exact List.sublist_append_left _ _
    | refuse _ h2 =>
      unfold Entry.current Entry.refuse
      simp only [h2]
      exact List.nil_sublist _
    | start => exact List.sublist_append_right _ _
  cases he : e.ending state now timeout with
  | none =>
    rw [he] at hr hs
    have hsame : (e.settled state now timeout).current = e.current := by
      unfold Entry.current
      rw [hr, hs, hp.run]
      rfl
    unfold Entry.report
    rw [he]
    rw [hsame] at hcur
    exact hcur
  | some r =>
    rw [he] at hr
    have hnil : (e.settled state now timeout).current = [] := by
      unfold Entry.current
      rw [hr]
      rfl
    have hrun : e.running = some r.1 := Entry.running_of_ending he
    obtain ⟨h1, h2⟩ := hw (by rw [hrun]; simp)
    obtain ⟨run, h1⟩ := Option.ne_none_iff_exists'.mp h1
    obtain ⟨hash, h2⟩ := Option.ne_none_iff_exists'.mp h2
    have hids : endIds K (e.report K state now timeout) = e.current := by
      unfold Entry.report Entry.current Entry.ended
      rw [he, hrun, h1, h2]
      simp [endIds]
    rw [hids]
    rw [hnil, List.nil_append] at hcur
    exact hcur.append_left _

theorem known_settle {x : Ext} {K : Key} {tr : List (Trans Sys Action)} {q : RunQueue} {now : Int}
    {states : List (Key × RunState)} (asked : (states.map Prod.fst ++ []).Nodup)
    (hw : ∀ e, q.entries.get? K = some e → e.running ≠ none → e.run ≠ none ∧ e.runStream ≠ none)
    (hs : (known K tr ⟨q, .looking now [] [] states asked⟩).Sublist (started x K tr)) :
    (known K tr ⟨(q.settle x states now).1,
        .ending now (q.settle x states now).2.1 (q.settle x states now).2.2⟩).Sublist
      (started x K tr ++ ((q.settle x states now).2.2.filter (fun s => s.key = K)).map
        (fun s => (s.run, x.streamHash s.stream))) := by
  rw [List.append_nil] at asked
  have hends : endIds K (q.settle x states now).1.ends = endIds K q.ends ++ endIds K
      (((q.entries.get? K).map (fun e => e.report K (states.lookup K) now q.timeout)).getD []) := by
    unfold endIds
    rw [RunQueue.settle_ends q x states now K asked, List.map_append]
    congr 2
    -- what a settle reports of an entry bears its key
    cases q.entries.get? K with
    | none => rfl
    | some e => exact (e.report_key K (states.lookup K) now q.timeout).symm
  have hcur : (endIds K (((q.entries.get? K).map (fun e =>
        e.report K (states.lookup K) now q.timeout)).getD []) ++
        currentOf K (q.settle x states now).1).Sublist
      (currentOf K q ++ ((q.settle x states now).2.2.filter (fun s => s.key = K)).map
        (fun s => (s.run, x.streamHash s.stream))) := by
    unfold currentOf
    cases he : q.entries.get? K with
    | none =>
      rw [(RunQueue.settle_none q x states now asked he).1]
      exact List.nil_sublist _
    | some e =>
      obtain ⟨e', h1, m⟩ := RunQueue.settle_get? q x states now asked he
      rw [h1]
      exact report_current (hw e he) m
  unfold known at hs ⊢
  rw [hends]
  show (reported K tr ++ ([] ++ (endIds K q.ends ++ _ ++ _))).Sublist _
  rw [List.append_assoc]
  refine List.Sublist.trans (((hcur.append_left _).append_left _).append_left _) ?_
  have h := hs.append_right (((q.settle x states now).2.2.filter (fun s => s.key = K)).map
    (fun s => (s.run, x.streamHash s.stream)))
  rw [List.append_assoc, List.append_assoc, List.append_assoc] at h
  exact h

theorem known_step {x : Ext} {K : Key} {tr : List (Trans Sys Action)} {s s' : Sys} {a : Action}
    (h : step x s a = some s')
    (hw : ∀ e, s.queue.entries.get? K = some e → e.running ≠ none →
      e.run ≠ none ∧ e.runStream ≠ none)
    (hs : (known K tr s).Sublist (started x K tr)) :
    (known K (tr ++ [⟨s, a, s'⟩]) s').Sublist (started x K (tr ++ [⟨s, a, s'⟩])) := by
  rw [started_snoc]
  -- most steps report nothing and start nothing
  have quiet : endIds K (Trans.reports ⟨s, a, s'⟩) = [] → (known K tr s').Sublist (known K tr s) →
      (known K (tr ++ [⟨s, a, s'⟩]) s').Sublist (started x K tr ++
        ((Trans.starts ⟨s, a, s'⟩).filter (fun s => s.key = K)).map
          (fun s => (s.run, x.streamHash s.stream))) := by
    intro hrep hle
    have heq : known K (tr ++ [⟨s, a, s'⟩]) s' = known K tr s' := by
      unfold known
      rw [reported_snoc, hrep, List.append_nil]
    rw [heq]
    exact (hle.trans hs).trans (List.sublist_append_left _ _)
  have hkept : (∀ wanted now, a ≠ .plan wanted now) → a ≠ .settle → ∀ e',
      s'.queue.entries.get? K = some e' → e'.running ≠ none → ∃ e, s.queue.entries.get? K = some e ∧
        e'.running = e.running ∧ e'.run = e.run ∧ e'.runStream = e.runStream := by
    intro hp ha e' he' hr
    obtain ⟨e, he, h1, h2, h3, _⟩ := run_kept h hp ha he' hr
    exact ⟨e, he, h1, h2, h3⟩
  cases step_inv h with
  | tell q tk t =>
    refine quiet rfl (known_mono rfl ?_ ?_)
    · cases t <;> rfl
    · unfold currentOf
      rw [show (t.apply q).entries = q.entries from t.apply_entries q]
  | plan q tk wanted now =>
    refine quiet rfl (known_mono rfl rfl (currentOf_sublist ?_))
    intro e' he' hr
    rw [RunQueue.plan_get?, Option.map_eq_some_iff] at he'
    obtain ⟨p, _, rfl⟩ := he'
    have hsame := (q.planEntry x K p now (q.entries.get? K)).retries_retryOnly
      (q.failed.map (fun failed => failed.get? K)) (K.project ∈ q.rulesChanged) now
    rw [hsame.running] at hr ⊢
    rw [hsame.run, hsame.runStream]
    cases he : q.entries.get? K with
    | none =>
      rw [he] at hr
      exact absurd rfl hr
    | some e =>
      refine ⟨e, rfl, ?_⟩
      show (e.plan p now).running = _ ∧ (e.plan p now).run = _ ∧ (e.plan p now).runStream = _
      unfold Entry.plan
      split
      · exact ⟨rfl, rfl, rfl⟩
      · exact ⟨rfl, rfl, rfl⟩
  | runNow q tk key now =>
    refine quiet rfl (known_mono rfl ?_ (currentOf_sublist (hkept (by simp) (by simp))))
    rw [RunQueue.runNow_frame]
  | tick q now =>
    exact quiet rfl (known_mono rfl rfl (currentOf_sublist (hkept (by simp) (by simp))))
  | call q tk tk' c hc =>
    cases hc with
    | told now r ends starts =>
      refine List.Sublist.trans ?_ (List.sublist_append_left _ _)
      unfold known at hs ⊢
      rw [reported_snoc]
      show (reported K tr ++ endIds K [r] ++ (endIds K ends ++ _)).Sublist _
      rw [List.append_assoc, ← List.append_assoc (endIds K [r]), ← endIds_append]
      exact hs
    | _ => exact quiet rfl (known_mono rfl rfl (List.Sublist.refl _))
  | settle q now states asked =>
    have heq : known K (tr ++ [⟨⟨q, .looking now [] [] states asked⟩, .settle,
        ⟨(q.settle x states now).1, .ending now (q.settle x states now).2.1
          (q.settle x states now).2.2⟩⟩]) ⟨(q.settle x states now).1,
        .ending now (q.settle x states now).2.1 (q.settle x states now).2.2⟩
        = known K tr ⟨(q.settle x states now).1,
        .ending now (q.settle x states now).2.1 (q.settle x states now).2.2⟩ := by
      unfold known
      rw [reported_snoc]
      exact congrArg (fun l => l ++ _) (List.append_nil _)
    rw [heq]
    exact known_settle asked hw hs
  | stuck q now key ended starts =>
    exact quiet rfl (known_mono rfl rfl (currentOf_sublist (hkept (by simp) (by simp))))
  | takeEnds q now starts =>
    refine quiet rfl ?_
    unfold known
    show (reported K tr ++ (endIds K q.ends ++ ([] ++ currentOf K q))).Sublist
      (reported K tr ++ ([] ++ (endIds K q.ends ++ currentOf K q)))
    rw [List.nil_append, List.nil_append]
  | failedToStart q now key reason starts =>
    exact quiet rfl (known_mono rfl rfl (currentOf_sublist (hkept (by simp) (by simp))))
  | done q now => exact quiet rfl (known_mono rfl rfl (List.Sublist.refl _))

/-- **The reports of a pipeline are, in order, reports of its starts**: the id the start wrote into
its stream, and the hash of the stream it was made from. -/
theorem reported_sublist (x : Ext) (batch short : Nat) {tr : List (Trans Sys Action)} {s : Sys}
    (hr : Run (step x) (Sys.start batch short) tr s) (K : Key) :
    (reported K tr).Sublist (started x K tr) := by
  have h := Run.history (I := fun tr s => (known K tr s).Sublist (started x K tr))
    (C := fun _ => True) (List.Sublist.refl _)
    (fun tr s a s' hrun hstep _ hs =>
      known_step hstep (fun e he hne => ((runs_law x).run hrun he hne).2) hs) hr
    (fun _ _ => trivial)
  exact (List.sublist_append_left _ _).trans h

/-! ## one run at a time -/

theorem starts_inv {x : Ext} {t : Trans Sys Action} {K : Key}
    (hs : step x t.before t.act = some t.after) (hK : K ∈ t.starts.map Start.key) :
    t.act = .settle ∧ ∃ now e e' due, t.entry K = some e ∧ t.entryAfter K = some e' ∧
      (e.settled (t.answer K) now t.before.queue.timeout).running = none ∧
      (e.settled (t.answer K) now t.before.queue.timeout).sweep = false ∧
      (e.settled (t.answer K) now t.before.queue.timeout).queued = some due ∧
      e'.running = some now ∧ (K ∈ t.ended ∨ e.running = none) := by
  have hact : t.act = .settle := by
    unfold Trans.starts at hK
    split at hK
    · assumption
    · exact absurd hK (by simp)
  obtain ⟨st, hst, hkey⟩ := List.mem_map.mp hK
  have hmem : st ∈ t.starts.filter (fun s => s.key = K) := List.mem_filter.mpr ⟨hst, by simp [hkey]⟩
  refine ⟨hact, ?_⟩
  cases he : t.entry K with
  | none =>
    obtain ⟨s, a, s'⟩ := t
    obtain rfl : a = .settle := hact
    cases step_inv hs with
    | settle q now states asked =>
      rw [List.append_nil] at asked
      have hnil := (RunQueue.settle_none q x states now asked he).2
      rw [show Trans.starts _ = (q.settle x states now).2.2 from rfl, hnil] at hmem
      exact absurd hmem (by simp)
  | some e =>
    obtain ⟨now, e', hread, h2, m⟩ := settle_entry hs hact he
    generalize hl : t.starts.filter (fun s => s.key = K) = l at m hmem
    cases m with
    | stay => exact absurd hmem (by simp)
    | refuse => exact absurd hmem (by simp)
    | @start due hq hr hsw _ =>
      refine ⟨now, e, _, due, rfl, h2, hr, hsw, hq, rfl, ?_⟩
      rw [Entry.settled_running] at hr
      split at hr
      · rename_i hend
        left
        obtain ⟨s, a, s'⟩ := t
        obtain rfl : a = .settle := hact
        cases step_inv hs with
        | settle q now' states asked =>
          rw [List.append_nil] at asked
          obtain rfl : now' = now := Option.some.inj hread
          exact (RunQueue.mem_settle_ended q x states now' K asked).mpr ⟨e, he, hend⟩
      · exact Or.inr hr

/-- a run of `K` is in the runner -/
def InRunner (K : Key) (s : Sys) : Prop :=
  ∃ e, s.queue.entries.get? K = some e ∧ e.running ≠ none

namespace Trans

/-- a run of `K` ends, is refused by the runner or goes with its pipeline -/
def Closes (t : Trans Sys Action) (K : Key) : Prop :=
  K ∈ t.ended ∨ t.refused = some K ∨ t.Drops K

end Trans

theorem inRunner_step {x : Ext} {s s' : Sys} {a : Action} {K : Key} (h : step x s a = some s')
    (hs : InRunner K s) : InRunner K s' ∨ Trans.Closes ⟨s, a, s'⟩ K := by
  obtain ⟨e, he, hr⟩ := hs
  have hm := entry_inv h K
  rw [he] at hm
  unfold InRunner
  generalize s'.queue.entries.get? K = o' at hm ⊢
  generalize ho : some e = o at hm
  cases hm with
  | keep a o _ => exact Or.inl ⟨e, ho.symm, hr⟩
  | plan wanted now o =>
    subst ho
    cases hw : wanted.get? K with
    | none =>
      refine Or.inr (Or.inr (Or.inr ⟨(wanted, now), rfl, ?_, hw⟩))
      rw [Trans.entry, he]
      exact Option.some_ne_none e
    | some p =>
      refine Or.inl ⟨_, rfl, ?_⟩
      rw [(Entry.retries_retryOnly ..).running]
      show (e.plan p now).running ≠ none
      unfold Entry.plan
      split
      · exact hr
      · exact hr
  | queueNow key now e _ _ =>
    cases ho
    exact Or.inl ⟨_, rfl, hr⟩
  | sweep now e _ =>
    cases ho
    exact Or.inl ⟨_, rfl, hr⟩
  | settle now states asked e e' ht m =>
    cases ho
    by_cases hend : (e.ending (states.lookup K) now s.queue.timeout).isSome
    · refine Or.inr (Or.inl ?_)
      cases step_inv h with
      | settle q now' states' asked' =>
        have ht' : now' = now ∧ states' = states := by simpa using ht
        obtain ⟨rfl, rfl⟩ := ht'
        rw [List.append_nil] at asked
        exact (RunQueue.mem_settle_ended q x states' now' K asked).mpr ⟨e, he, hend⟩
    · have hrun := e.settled_running (states.lookup K) now s.queue.timeout
      rw [if_neg hend] at hrun
      refine Or.inl ⟨e', rfl, ?_⟩
      generalize (s.queue.settle x states now).2.2.filter (fun s => s.key = K) = l at m
      cases m with
      | stay =>
        rw [hrun]
        exact hr
      | refuse _ h2 => exact absurd (hrun.symm.trans h2) hr
      | start _ h2 => exact absurd (hrun.symm.trans h2) hr
  | hold now ended starts e ht =>
    cases ho
    exact Or.inl ⟨_, rfl, hr⟩
  | fail now reason starts e ht =>
    refine Or.inr (Or.inr (Or.inl ?_))
    show (Trans.refused ⟨s, .failedToStart, s'⟩) = some K
    unfold Trans.refused
    rw [ht]

/-- **Between two starts of a pipeline its run ended, was refused or was dropped.** -/
theorem started_after_end (x : Ext) (batch short : Nat) {a b c : List (Trans Sys Action)}
    {t u : Trans Sys Action} {s : Sys}
    (hr : Run (step x) (Sys.start batch short) (a ++ t :: (b ++ u :: c)) s) {K : Key}
    (ht : K ∈ t.starts.map Start.key) (hu : K ∈ u.starts.map Start.key) :
    K ∈ u.ended ∨ ∃ w ∈ b, w.Closes K := by
  obtain ⟨_, st, r2⟩ := hr.at
  obtain ⟨r3, su, _⟩ := r2.at
  by_contra hno
  rw [not_or, not_exists] at hno
  have hin : InRunner K t.after := by
    obtain ⟨_, now, e, e', _, _, h2, _, _, _, h3, _⟩ := starts_inv st ht
    exact ⟨e', h2, by rw [h3]; simp⟩
  have hu' : InRunner K u.before :=
    Run.invariant (I := InRunner K) (C := fun w => ¬ w.Closes K) hin
      (fun s a s' h hC hs => (inRunner_step h hs).resolve_right hC) r3
      (fun w hw hc => hno.2 w ⟨hw, hc⟩)
  obtain ⟨_, now, e, e', _, h1, _, _, _, _, _, hend⟩ := starts_inv su hu
  obtain ⟨e₁, g1, g2⟩ := hu'
  obtain rfl : e = e₁ := Option.some.inj (h1.symm.trans g1)
  rcases hend with hend | hend
  · exact hno.1 hend
  · exact g2 hend

/-! ## swept before started -/

/-- a leftover of `K` is still to be swept, or the queue does not hold `K` -/
def Unswept (K : Key) (s : Sys) : Prop :=
  ∀ e, s.queue.entries.get? K = some e → e.sweep = true ∧ e.running = none

/-- the tick is about to remove the leftover of `K` -/
def Sweeping (K : Key) (s : Sys) : Prop :=
  ∃ now sweeps running states asked, s.tick = .looking now sweeps running states asked ∧ K ∈ sweeps

/-- the leftover of `K` was listed for a sweep, and then removed -/
def Swept (K : Key) (tr : List (Trans Sys Action)) : Prop :=
  ∃ (a : List (Trans Sys Action)) (w : Trans Sys Action) (b : List (Trans Sys Action))
    (v : Trans Sys Action) (c : List (Trans Sys Action)),
    tr = a ++ w :: (b ++ v :: c) ∧ K ∈ w.sweeps ∧ v.sweptKey = some K

theorem unswept_kept {x : Ext} {s s' : Sys} {a : Action} {K : Key} (h : step x s a = some s')
    (ha : ∀ now, a ≠ .tick now) (hs : Unswept K s) : Unswept K s' := by
  intro e' he'
  have hm := entry_inv h K
  rw [he'] at hm
  unfold Unswept at hs
  generalize s.queue.entries.get? K = o at hm hs
  generalize ho' : some e' = o' at hm
  cases hm with
  | keep a o _ => exact hs e' ho'.symm
  | plan wanted now o =>
    obtain ⟨p, _, rfl⟩ := Option.map_eq_some_iff.mp ho'.symm
    rw [(Entry.retries_retryOnly ..).sweep, (Entry.retries_retryOnly ..).running]
    cases o with
    | none => exact ⟨rfl, rfl⟩
    | some e =>
      show (e.plan p now).sweep = true ∧ (e.plan p now).running = none
      unfold Entry.plan
      split
      · exact hs e rfl
      · exact hs e rfl
  | queueNow key now e _ _ =>
    cases ho'
    exact hs e rfl
  | sweep now e _ => exact absurd rfl (ha now)
  | settle now states asked e e' ht m =>
    cases ho'
    obtain ⟨g1, g2⟩ := hs e rfl
    have hsw := (e.settled_inPlace (states.lookup K) now s.queue.timeout).sweep.trans g1
    have hrun : (e.settled (states.lookup K) now s.queue.timeout).running = none := by
      rw [Entry.settled_running, g2, ite_self]
    generalize (s.queue.settle x states now).2.2.filter (fun s => s.key = K) = l at m
    cases m with
    | stay => exact ⟨hsw, hrun⟩
    | refuse _ _ h3 => exact absurd (hsw.symm.trans h3) (by simp)
    | start _ _ h3 => exact absurd (hsw.symm.trans h3) (by simp)
  | hold now ended starts e ht =>
    cases ho'
    exact hs e rfl
  | fail now reason starts e ht =>
    cases ho'
    obtain ⟨f1, f2, _⟩ := e.failedToStart_fields reason now
    exact ⟨f1.sweep.trans (hs e rfl).1, f2⟩

theorem unswept_tick {x : Ext} {s s' : Sys} {now : Int} {K : Key}
    (h : step x s (.tick now) = some s') (hs : Unswept K s) :
    Unswept K s' ∨ (Sweeping K s' ∧ K ∈ Trans.sweeps ⟨s, .tick now, s'⟩) := by
  cases step_inv h with
  | tick q now =>
    cases he : q.entries.get? K with
    | none =>
      left
      intro e' he'
      rw [RunQueue.sweeps_get?, he] at he'
      exact absurd he' (by simp)
    | some e =>
      have hmem : K ∈ q.sweeps.2 := (RunQueue.mem_sweeps q K).mpr (Or.inr ⟨e, he, hs e he⟩)
      exact Or.inr ⟨⟨now, _, _, _, _, rfl, hmem⟩, hmem⟩

theorem unswept_step {x : Ext} {s s' : Sys} {a : Action} {K : Key} (h : step x s a = some s')
    (hs : Unswept K s) : Unswept K s' ∨ (Sweeping K s' ∧ K ∈ Trans.sweeps ⟨s, a, s'⟩) := by
  by_cases ha : ∃ now, a = .tick now
  · obtain ⟨now, rfl⟩ := ha
    exact unswept_tick h hs
  · exact Or.inl (unswept_kept h (fun now he => ha ⟨now, he⟩) hs)

theorem sweeping_step {x : Ext} {s s' : Sys} {a : Action} {K : Key} (h : step x s a = some s')
    (hs : Sweeping K s) : Sweeping K s' ∨ Trans.sweptKey ⟨s, a, s'⟩ = some K := by
  obtain ⟨now, sweeps, running, states, asked, htick, hK⟩ := hs
  cases step_inv h with
  | tell q tk t => exact Or.inl ⟨now, sweeps, running, states, asked, htick, hK⟩
  | plan q tk wanted now' => exact Or.inl ⟨now, sweeps, running, states, asked, htick, hK⟩
  | runNow q tk key now' => exact Or.inl ⟨now, sweeps, running, states, asked, htick, hK⟩
  | tick q now' => exact absurd htick (by simp)
  | call q tk tk' c hc =>
    obtain rfl : tk = .looking now sweeps running states asked := htick
    cases hc with
    | swept _ k sweeps' =>
      by_cases hk : K = k
      · right
        rw [hk]
        rfl
      · exact Or.inl ⟨_, _, _, _, _, rfl, (List.mem_cons.mp hK).resolve_left hk⟩
    | looked => exact absurd hK (by simp)
  | settle q now' states' asked' =>
    simp only [Tick.looking.injEq] at htick
    obtain ⟨_, rfl, _⟩ := htick
    exact absurd hK (by simp)
  | stuck => exact absurd htick (by simp)
  | takeEnds => exact absurd htick (by simp)
  | failedToStart => exact absurd htick (by simp)
  | done => exact absurd htick (by simp)

/-- where `K` stands between its insertion and its sweep -/
def SweepPhase (K : Key) (tr : List (Trans Sys Action)) (s : Sys) : Prop :=
  Unswept K s ∨ (Sweeping K s ∧ ∃ a w b, tr = a ++ w :: b ∧ K ∈ w.sweeps) ∨ Swept K tr

theorem sweepPhase_step {x : Ext} {K : Key} {tr : List (Trans Sys Action)} {s s' : Sys} {a : Action}
    (h : step x s a = some s') (hs : SweepPhase K tr s) :
    SweepPhase K (tr ++ [⟨s, a, s'⟩]) s' := by
  rcases hs with hun | ⟨hsw, l, w, l', rfl, hw⟩ | ⟨l, w, l', v, l'', rfl, hw, hv⟩
  · rcases unswept_step h hun with hun' | ⟨hsw, hw⟩
    · exact Or.inl hun'
    · exact Or.inr (Or.inl ⟨hsw, tr, _, [], rfl, hw⟩)
  · rcases sweeping_step h hsw with hsw' | hv
    · exact Or.inr (Or.inl ⟨hsw', l, w, l' ++ [_], by rw [List.append_assoc]; rfl, hw⟩)
    · exact Or.inr (Or.inr ⟨l, w, l', _, [], by rw [List.append_assoc]; rfl, hw, hv⟩)
  · refine Or.inr (Or.inr ⟨l, w, l', v, l'' ++ [⟨s, a, s'⟩], ?_, hw, hv⟩)
    rw [List.append_assoc, List.cons_append, List.append_assoc]
    rfl

/-- **A pipeline a plan inserts is listed for a sweep, and its leftover removed, before it is
started.** -/
theorem started_after_sweep (x : Ext) (batch short : Nat) {a b c : List (Trans Sys Action)}
    {t u : Trans Sys Action} {s : Sys}
    (hr : Run (step x) (Sys.start batch short) (a ++ t :: (b ++ u :: c)) s) {K : Key}
    (ht : t.Inserts K) (hu : K ∈ u.starts.map Start.key) : Swept K b := by
  obtain ⟨_, st, r2⟩ := hr.at
  obtain ⟨r3, su, _⟩ := r2.at
  have h0 : Unswept K t.after := by
    obtain ⟨⟨wanted, now⟩, hpl, hnone, hsome⟩ := ht
    have hact := Trans.act_of_planned hpl
    obtain ⟨s₀, act, s₁⟩ := t
    obtain rfl : act = .plan wanted now := hact
    cases step_inv st with
    | plan q tk _ _ =>
      intro e' he'
      rw [RunQueue.plan_get?, Option.map_eq_some_iff] at he'
      obtain ⟨p, _, rfl⟩ := he'
      rw [(Entry.retries_retryOnly ..).sweep, (Entry.retries_retryOnly ..).running,
        show q.entries.get? K = none from hnone]
      exact ⟨rfl, rfl⟩
  have hphase := Run.history (I := SweepPhase K) (C := fun _ => True) (Or.inl h0)
    (fun tr s a s' _ h _ hs => sweepPhase_step h hs) r3 (fun _ _ => trivial)
  obtain ⟨hact, now, e, e', _, h1, _, _, h2, _⟩ := starts_inv su hu
  rcases hphase with hun | ⟨⟨_, sweeps, _, _, _, htick, hK⟩, _⟩ | hswept
  · rw [(Entry.settled_inPlace ..).sweep, (hun e h1).1] at h2
    exact absurd h2 (by simp)
  · -- a tick does not settle before its sweeps are done
    obtain ⟨s₀, act, s₁⟩ := u
    obtain rfl : act = .settle := hact
    cases step_inv su with
    | settle q now' states asked =>
      simp only [Tick.looking.injEq] at htick
      obtain ⟨_, rfl, _⟩ := htick
      exact absurd hK (by simp)
  · exact hswept

/-! ## what the runner is sent -/

theorem tickStarts_step {x : Ext} {tr : List (Trans Sys Action)} {s s' : Sys} {a : Action}
    (h : step x s a = some s') (hs : ∀ st ∈ s.tick.starts, st ∈ tr.flatMap Trans.starts) :
    ∀ st ∈ s'.tick.starts, st ∈ (tr ++ [Trans.mk s a s']).flatMap Trans.starts := by
  intro st hst
  rw [List.flatMap_append]
  cases step_inv h with
  | tell q tk t => exact List.mem_append_left _ (hs st hst)
  | plan q tk wanted now => exact List.mem_append_left _ (hs st hst)
  | runNow q tk key now => exact List.mem_append_left _ (hs st hst)
  | tick q now => exact absurd hst (by simp [Tick.starts])
  | call q tk tk' c hc => exact List.mem_append_left _ (hs st (hc.starts_sublist.subset hst))
  | settle q now states asked =>
    refine List.mem_append_right _ ?_
    rw [List.flatMap_cons]
    exact List.mem_append_left _ hst
  | stuck q now key ended starts => exact List.mem_append_left _ (hs st hst)
  | takeEnds q now starts => exact List.mem_append_left _ (hs st hst)
  | failedToStart q now key reason starts => exact List.mem_append_left _ (hs st hst)
  | done q now => exact absurd hst (by simp [Tick.starts])

theorem sent_of_start (x : Ext) (batch short : Nat) {a b : List (Trans Sys Action)}
    {t : Trans Sys Action} {s : Sys} (hr : Run (step x) (Sys.start batch short) (a ++ t :: b) s)
    {K : Key} {stream : Value} {refusal : Option String}
    (ht : t.act = .call (.start K stream refusal)) :
    ∃ st ∈ a.flatMap Trans.starts, st.key = K ∧ stream = withRun st.stream st.run := by
  obtain ⟨r1, ht', _⟩ := hr.at
  have hall := Run.history
    (I := fun tr (s : Sys) => ∀ st ∈ s.tick.starts, st ∈ tr.flatMap Trans.starts)
    (C := fun _ => True) (fun st h => absurd h (by simp [Sys.start, Tick.starts]))
    (fun tr s a s' _ h _ hs => tickStarts_step h hs) r1 (fun _ _ => trivial)
  obtain ⟨s₀, act, s₁⟩ := t
  obtain rfl : act = .call (.start K stream refusal) := ht
  cases step_inv ht' with
  | call q tk tk' _ hc =>
    cases hc with
    | started now st starts => exact ⟨st, hall st (List.mem_cons_self ..), rfl, rfl⟩
    | refused now st reason starts => exact ⟨st, hall st (List.mem_cons_self ..), rfl, rfl⟩

/-- **The life of a run**, over every run of the queue: what is reported of a pipeline was started
before, each start once, under the id it was sent with and with the hash of the stream it was made
from; one run at a time; and none of a pipeline a plan inserts before its leftover is removed. -/
theorem run_lifecycle (x : Ext) (batch short : Nat) {tr : List (Trans Sys Action)} {s : Sys}
    (hr : Run (step x) (Sys.start batch short) tr s) (K : Key) :
    (∀ l l' : List (Trans Sys Action), tr = l ++ l' →
      (reported K l).Sublist (started x K l)) ∧
    (∀ (l : List (Trans Sys Action)) (t : Trans Sys Action) (l' : List (Trans Sys Action))
      (stream : Value) (refusal : Option String), tr = l ++ t :: l' →
      t.act = .call (.start K stream refusal) →
      ∃ st ∈ l.flatMap Trans.starts, st.key = K ∧ stream = withRun st.stream st.run) ∧
    (∀ (a : List (Trans Sys Action)) (t : Trans Sys Action) (b : List (Trans Sys Action))
      (u : Trans Sys Action) (c : List (Trans Sys Action)), tr = a ++ t :: (b ++ u :: c) →
      K ∈ t.starts.map Start.key → K ∈ u.starts.map Start.key →
      K ∈ u.ended ∨ ∃ w ∈ b, w.Closes K) ∧
    (∀ (a : List (Trans Sys Action)) (t : Trans Sys Action) (b : List (Trans Sys Action))
      (u : Trans Sys Action) (c : List (Trans Sys Action)), tr = a ++ t :: (b ++ u :: c) →
      t.Inserts K → K ∈ u.starts.map Start.key → Swept K b) := by
  refine ⟨?_, ?_, ?_, ?_⟩
  · intro l l' htr
    subst htr
    obtain ⟨s', h1, _⟩ := hr.split
    exact reported_sublist x batch short h1 K
  · intro l t l' stream refusal htr ht
    subst htr
    exact sent_of_start x batch short hr ht
  · intro a t b u c htr ht hu
    subst htr
    exact started_after_end x batch short hr ht hu
  · intro a t b u c htr ht hu
    subst htr
    exact started_after_sweep x batch short hr ht hu

/-- two starts of one pipeline, the first of them reported -/
theorem restarted_lifecycle :
    ∃ tr s, Run (step sampleExt) (Sys.start 1 1) tr s ∧ (reported keyA tr).length = 1 ∧
      (started sampleExt keyA tr).length = 2 ∧
      (reported keyA tr).Sublist (started sampleExt keyA tr) := by
  have hr : Run (step sampleExt) (Sys.start 1 1) (trace (step sampleExt) (Sys.start 1 1) restarted)
      (final (step sampleExt) (Sys.start 1 1) restarted) := run_trace (by decide +kernel)
  have hl := (run_lifecycle sampleExt 1 1 hr keyA).1
    (trace (step sampleExt) (Sys.start 1 1) restarted) [] (List.append_nil _).symm
  exact ⟨_, _, hr, by decide +kernel, by decide +kernel, hl⟩

end Portal
