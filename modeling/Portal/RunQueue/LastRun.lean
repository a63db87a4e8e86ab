import Portal.RunQueue.Change
import Portal.RunQueue.Retries

/-!
# A retry answers the last run

A pending retry is for the pipeline's last run as long as every run that ends touches it: one that
the runner lost or refused arms it anew, one that finished or ran past its cap leaves it pending.
A run started by hand, or by a change, between the failure and the retry thus ends without a trace,
and the retry of the failure before it is queued all the same.

* `lastEnded`              the run that ended or was refused last;
* `retry_answers_last`     a retry queued is for that run, while no run ends otherwise with a retry
                           pending and the log names the last run;
* `retry_outlives_finish`  a run started by hand finishes, and the retry is queued.
-/

namespace Portal

namespace Trans

/-- the run of `K` that a settle ends, with the runner's answer -/
def ends (t : Trans Sys Action) (K : Key) : Option (Entry × RunState) :=
  match t.act, t.before.tick with
  | .settle, .looking now _ _ states _ =>
    (t.entry K).bind (fun e =>
      (e.ending (states.lookup K) now t.before.queue.timeout).map (fun r => (e, r.2.1)))
  | _, _ => none

/-- the id of the run of `K` that ends or is refused -/
def endedRun (t : Trans Sys Action) (K : Key) : Option String :=
  if t.refused = some K then (t.entry K).bind Entry.run else (t.ends K).bind (fun p => p.1.run)

/-- where a plan arms a retry from the log, the log names the pipeline's last run, if it had one -/
def LogNamesRun (t : Trans Sys Action) (K : Key) : Prop :=
  ∀ _w ∈ t.planned, ∀ e ∈ t.entry K,
    ∀ run ∈ (e.judgement (t.before.queue.failed.map (fun failed => failed.get? K))).run,
      e.run = some run ∨ e.run = none

/-- a run that finishes or is stopped past its cap leaves no retry: none is pending, or the settle
that ends it also spends it, since the pipeline is held or due by its clock -/
def LeavesNoRetry (t : Trans Sys Action) (K : Key) : Prop :=
  ∀ p ∈ t.ends K, p.2 ≠ .gone → ∀ r ∈ p.1.retry, ∀ now ∈ t.before.tick.reading,
    r.due ≤ now ∧ (p.1.stuck = true ∨ ∃ due ∈ p.1.next, due ≤ now)

end Trans

/-- the id of the run of `K` that ended or was refused last, since the queue holds `K` -/
def lastEnded (K : Key) (tr : List (Trans Sys Action)) : Option String :=
  tr.foldl (fun last t => if t.Drops K then none else (t.endedRun K).or last) none

theorem lastEnded_snoc (K : Key) (tr : List (Trans Sys Action)) (t : Trans Sys Action) :
    lastEnded K (tr ++ [t]) = if t.Drops K then none else (t.endedRun K).or (lastEnded K tr) := by
  unfold lastEnded
  rw [List.foldl_append]
  rfl

/-! ## one step -/

def LastRunOk (last : Option String) (e : Entry) : Prop :=
  (e.run ≠ none → e.running = none → last = e.run) ∧ (e.run = none → last = none) ∧
    (e.retry ≠ none → ∀ id, last = some id → e.armedFor = some id)

theorem arm_armedFor (e : Entry) (run cause : String) (now : Int) :
    (e.arm run cause now).armedFor = some run := by
  unfold Entry.arm
  split
  · assumption
  · rfl

namespace LastRunOk

variable {last : Option String} {e e' : Entry}

theorem same (h : LastRunOk last e) (hs : SameRetry e e') (hrun : e'.run = e.run)
    (hrunning : e'.running = e.running) : LastRunOk last e' := by
  unfold LastRunOk
  rw [hs.retry, hs.armedFor, hrun, hrunning]
  exact h

theorem new (p : Planned) (next : Option Int) (now : Int) :
    LastRunOk none (Entry.new p next now) :=
  ⟨fun h => absurd rfl h, fun _ => rfl, fun h => absurd rfl h⟩

theorem after {j : Judged} (h : LastRunOk last j.entry)
    (hj : ∀ run cause, j.judgement = .arm run cause →
      j.entry.running = none ∧ (j.entry.run = some run ∨ j.entry.run = none)) :
    LastRunOk last j.after := by
  unfold Judged.after
  split
  · exact h
  · rename_i run cause hc
    obtain ⟨hidle, hrun⟩ := hj run cause hc
    have hkeep := j.entry.arm_retryOnly run cause j.now
    refine ⟨?_, ?_, ?_⟩
    · rw [hkeep.run, hkeep.running]
      exact h.1
    · rw [hkeep.run]
      exact h.2.1
    · intro _ id hid
      rw [arm_armedFor]
      rcases hrun with hrun | hrun
      · rw [← hid, h.1 (by rw [hrun]; simp) hidle, hrun]
      · exact absurd (hid.symm.trans (h.2.1 hrun)) (by simp)
  · exact ⟨h.1, h.2.1, fun hr => absurd rfl hr⟩

theorem hurry (h : LastRunOk last e) (now : Int) : LastRunOk last (e.hurry now) := by
  refine ⟨h.1, h.2.1, fun hr id hid => h.2.2 ?_ id hid⟩
  intro hn
  apply hr
  show e.retry.map _ = none
  rw [hn]
  rfl

end LastRunOk

theorem judgement_idle {e : Entry} {failed : Option (Option (String × String))}
    {run cause : String} (h : e.judgement failed = .arm run cause) : e.running = none := by
  unfold Entry.judgement at h
  split at h
  · exact absurd h (by simp)
  · split at h
    · exact absurd h (by simp)
    · rename_i hidle
      by_contra hne
      exact hidle (Or.inl hne)

theorem lastRun_plan {x : Ext} {q : RunQueue} {tk : Tick} {wanted : OrdMap Key Planned} {now : Int}
    {s' : Sys} {K : Key} {last : Option String}
    (hlog : Trans.LogNamesRun ⟨⟨q, tk⟩, .plan wanted now, s'⟩ K)
    (hsome : ∀ e, q.entries.get? K = some e → LastRunOk last e)
    (hnone : q.entries.get? K = none → last = none)
    {e' : Entry} (he' : (q.plan x wanted now).entries.get? K = some e') : LastRunOk last e' := by
  rw [RunQueue.plan_get?, Option.map_eq_some_iff] at he'
  obtain ⟨p, _, rfl⟩ := he'
  -- the plan rewrites the entry and leaves what its judgement looks at
  obtain ⟨h0, hjudge⟩ : LastRunOk last (q.planEntry x K p now (q.entries.get? K)) ∧
      ∀ run cause, (q.planEntry x K p now (q.entries.get? K)).judgement
        (q.failed.map (fun failed => failed.get? K)) = .arm run cause →
        (q.planEntry x K p now (q.entries.get? K)).run = some run ∨
          (q.planEntry x K p now (q.entries.get? K)).run = none := by
    cases he : q.entries.get? K with
    | none =>
      rw [hnone he]
      exact ⟨LastRunOk.new .., fun _ _ _ => Or.inr rfl⟩
    | some e =>
      have hnames : ∀ run cause, e.judgement (q.failed.map (fun failed => failed.get? K)) =
          .arm run cause → e.run = some run ∨ e.run = none :=
        fun run cause hc => hlog (wanted, now) rfl e he run (by
          show (e.judgement (q.failed.map (fun failed => failed.get? K))).run = _
          rw [hc]
          rfl)
      show LastRunOk last (e.plan p now) ∧ ∀ run cause, (e.plan p now).judgement _ = _ →
        (e.plan p now).run = _ ∨ (e.plan p now).run = none
      unfold Entry.plan
      split
      · exact ⟨hsome e he, hnames⟩
      · exact ⟨hsome e he, hnames⟩
  have hafter : LastRunOk last ((q.planEntry x K p now (q.entries.get? K)).judge
      (q.failed.map (fun failed => failed.get? K)) now) :=
    LastRunOk.after (j := ⟨_, _, now⟩) h0 (fun run cause hc =>
      ⟨judgement_idle hc, hjudge run cause hc⟩)
  unfold Entry.retries
  split
  · exact hafter.hurry now
  · exact hafter

/-! ## the settle -/

theorem ends_settle {q : RunQueue} {now : Int} {states : List (Key × RunState)}
    {asked : (states.map Prod.fst ++ []).Nodup} {s' : Sys} {K : Key} {e : Entry}
    (he : q.entries.get? K = some e) :
    Trans.ends ⟨⟨q, .looking now [] [] states asked⟩, .settle, s'⟩ K =
      (e.ending (states.lookup K) now q.timeout).map (fun r => (e, r.2.1)) := by
  show (q.entries.get? K).bind _ = _
  rw [he]
  rfl

theorem queueDue_not_free {e : Entry} {due now : Int} (hnext : e.next = some due)
    (hle : due ≤ now) : ¬ (e.queueDue now).free := by
  have hf : e.next.filter (fun due => due ≤ now) = some due := by
    rw [hnext, Option.filter_some, if_pos (by simpa using hle)]
  unfold Entry.queueDue
  rw [hf]
  intro hfree
  by_cases he : e.free
  · have hq := hfree.1
    simp only [if_pos he] at hq
    exact absurd hq (by simp)
  · refine he ⟨?_, hfree.2.1, hfree.2.2⟩
    have hq := hfree.1
    simp only [if_neg he] at hq
    exact hq

theorem settled_spends {e : Entry} {state : Option RunState} {now : Int} {timeout : Nat}
    {r : Int × RunState × Option String} (hend : e.ending state now timeout = some r)
    (hgone : r.2.1 ≠ .gone)
    (hspend : ∀ retry ∈ e.retry, retry.due ≤ now ∧ (e.stuck = true ∨ ∃ due ∈ e.next, due ≤ now)) :
    (e.settled state now timeout).retry = none ∧
      ∀ retry ∈ ((e.afterEnd state now timeout).queueDue now).retry,
        ¬ ((e.afterEnd state now timeout).queueDue now).free := by
  obtain ⟨started, st, failure⟩ := r
  have hlost : e.lost st failure = .leave := by
    rcases lost_cases e st failure with h | ⟨run, cause, h, _⟩
    · exact h
    · unfold Entry.lost at h
      split at h
      · exact absurd rfl hgone
      · exact absurd h (by simp)
  have harm : e.armLost st failure now = e := by
    unfold Entry.armLost
    rw [hlost]
  have hafter : e.afterEnd state now timeout = e.endRun started st failure now := by
    unfold Entry.afterEnd
    rw [hend]
  have hsame : SameRetry e (e.afterEnd state now timeout) := by
    rw [hafter]
    unfold Entry.endRun
    rw [harm]
    exact ⟨rfl, rfl, rfl, rfl⟩
  have hdue := hsame.trans (queueDue_sameRetry (e.afterEnd state now timeout) now)
  have hbusy : ∀ retry ∈ ((e.afterEnd state now timeout).queueDue now).retry,
      ¬ ((e.afterEnd state now timeout).queueDue now).free := by
    intro retry hretry hfree
    rw [hdue.retry] at hretry
    obtain ⟨f1, _, f3⟩ := e.afterEnd_fields state now timeout
    rcases (hspend retry hretry).2 with hstuck | ⟨due, hnext, hle⟩
    · have hs := ((Entry.queueDue_fields (e.afterEnd state now timeout) now).1.stuck).trans f1.stuck
      exact absurd (hfree.2.2.symm.trans (hs.trans hstuck)) (by simp)
    · exact queueDue_not_free (f3.trans hnext) hle hfree
  refine ⟨?_, hbusy⟩
  unfold Entry.settled Entry.queueRetry
  split
  · rename_i hf
    rw [Option.filter_eq_none_iff] at hf
    by_contra hne
    obtain ⟨retry, hretry⟩ := Option.ne_none_iff_exists'.mp hne
    rw [hdue.retry] at hretry
    exact hf retry (hdue.retry.trans hretry) (by simpa using (hspend retry hretry).1)
  · split
    · rfl
    · rfl

theorem afterEnd_gone {e : Entry} {state : Option RunState} {now : Int} {timeout : Nat}
    {r : Int × RunState × Option String} (hend : e.ending state now timeout = some r)
    (hgone : r.2.1 = .gone) {run : String} (hrun : e.run = some run) :
    (e.afterEnd state now timeout).armedFor = some run := by
  have hlost : e.lost r.2.1 r.2.2 = .arm run "the runner no longer holds the run" := by
    unfold Entry.ending at hend
    split at hend
    · obtain ⟨failure, hv, rfl⟩ := Option.map_eq_some_iff.mp hend
      obtain rfl : _ = RunState.gone := hgone
      obtain rfl := Option.some.inj hv
      unfold Entry.lost
      rw [hrun]
    · exact absurd hend (by simp)
  unfold Entry.afterEnd
  rw [hend]
  show (e.armLost r.2.1 r.2.2 now).armedFor = some run
  unfold Entry.armLost
  rw [hlost]
  exact arm_armedFor ..

theorem queueRetry_retry (e : Entry) (now : Int) :
    ((e.queueRetry now).retry ≠ none → e.retry ≠ none) ∧
      (e.queueRetry now).armedFor = e.armedFor := by
  unfold Entry.queueRetry
  split
  · exact ⟨id, rfl⟩
  · split
    · exact ⟨fun h => absurd rfl h, rfl⟩
    · exact ⟨fun h => absurd rfl h, rfl⟩

theorem settled_armedFor {e : Entry} {state : Option RunState} {now : Int} {timeout : Nat}
    {last : Option String} (h : LastRunOk last e)
    (hspend : ∀ r, e.ending state now timeout = some r → r.2.1 ≠ .gone → ∀ retry ∈ e.retry,
      retry.due ≤ now ∧ (e.stuck = true ∨ ∃ due ∈ e.next, due ≤ now)) (id : String)
    (hid : (if (e.ending state now timeout).isSome then e.run.or last else last) = some id)
    (hretry : ((e.afterEnd state now timeout).queueDue now).retry ≠ none)
    (hleft : (e.settled state now timeout).retry ≠ none ∨
      ((e.afterEnd state now timeout).queueDue now).free) :
    (e.settled state now timeout).armedFor = some id := by
  have hfor : (e.settled state now timeout).armedFor =
      (e.afterEnd state now timeout).armedFor :=
    (queueRetry_retry _ now).2.trans (queueDue_sameRetry _ now).armedFor
  rw [hfor]
  rw [(queueDue_sameRetry _ now).retry] at hretry
  cases hend : e.ending state now timeout with
  | none =>
    have hafter : e.afterEnd state now timeout = e := by
      unfold Entry.afterEnd
      rw [hend]
    rw [hend] at hid
    rw [hafter] at hretry ⊢
    exact h.2.2 hretry id hid
  | some r =>
    rw [hend] at hid
    by_cases hgone : r.2.1 = .gone
    · cases hrun : e.run with
      | none =>
        rw [hrun, h.2.1 hrun] at hid
        exact absurd hid (by simp)
      | some run =>
        rw [hrun] at hid
        rw [afterEnd_gone hend hgone hrun]
        exact hid
    · obtain ⟨hnone, hbusy⟩ := settled_spends hend hgone (hspend r hend hgone)
      rcases hleft with hleft | hleft
      · exact absurd hnone hleft
      · obtain ⟨retry, hr⟩ := Option.ne_none_iff_exists'.mp hretry
        rw [← (queueDue_sameRetry _ now).retry] at hr
        exact absurd hleft (hbusy retry hr)

theorem settled_lastRunOk {e : Entry} {state : Option RunState} {now : Int} {timeout : Nat}
    {last : Option String} (h : LastRunOk last e)
    (hspend : ∀ r, e.ending state now timeout = some r → r.2.1 ≠ .gone → ∀ retry ∈ e.retry,
      retry.due ≤ now ∧ (e.stuck = true ∨ ∃ due ∈ e.next, due ≤ now)) :
    LastRunOk (if (e.ending state now timeout).isSome then e.run.or last else last)
      (e.settled state now timeout) := by
  refine ⟨?_, ?_, ?_⟩
  · rw [(e.settled_inPlace state now timeout).run, e.settled_running]
    intro hrun hrunning
    split
    · obtain ⟨run, hr⟩ := Option.ne_none_iff_exists'.mp hrun
      rw [hr]
      rfl
    · rename_i hend
      rw [if_neg hend] at hrunning
      exact h.1 hrun hrunning
  · rw [(e.settled_inPlace state now timeout).run]
    intro hrun
    rw [hrun, h.2.1 hrun]
    split <;> rfl
  · intro hretry id hid
    exact settled_armedFor h hspend id hid ((queueRetry_retry _ now).1 hretry) (Or.inl hretry)

theorem failedToStart_lastRunOk {e : Entry} {last : Option String} (h : LastRunOk last e)
    (reason : String) (now : Int) : LastRunOk (e.run.or last) (e.failedToStart reason now) := by
  obtain ⟨hin, _, _⟩ := e.failedToStart_fields reason now
  refine ⟨?_, ?_, ?_⟩
  · rw [hin.run]
    intro hrun _
    obtain ⟨run, hr⟩ := Option.ne_none_iff_exists'.mp hrun
    rw [hr]
    rfl
  · rw [hin.run]
    intro hrun
    rw [hrun, h.2.1 hrun]
    rfl
  · intro _ id hid
    cases hrun : e.run with
    | none =>
      rw [hrun, h.2.1 hrun] at hid
      exact absurd hid (by simp)
    | some run =>
      rw [hrun] at hid
      obtain rfl := Option.some.inj hid
      unfold Entry.failedToStart
      rw [hrun]
      exact arm_armedFor ..

theorem LaneMove.lastRunOk {x : Ext} {K : Key} {now : Int} {unbound : Bool} {e e' : Entry}
    {l : List Start} (m : LaneMove x K now unbound e e' l) {last : Option String}
    (h : LastRunOk last e) : LastRunOk last e' := by
  cases m with
  | stay => exact h
  | refuse => exact h
  | start => exact ⟨fun _ hr => absurd hr (by simp [Entry.start]),
      fun hr => absurd hr (by simp [Entry.start]), h.2.2⟩

/-! ## runs -/

/-- what is known of the last run of `K` -/
structure LastOk (K : Key) (tr : List (Trans Sys Action)) (s : Sys) : Prop where
  absent : s.queue.entries.get? K = none → lastEnded K tr = none
  present : ∀ e, s.queue.entries.get? K = some e → LastRunOk (lastEnded K tr) e

theorem endedRun_quiet {t : Trans Sys Action} (ha : t.act.quiet = true) (K : Key) :
    t.endedRun K = none := by
  obtain ⟨s, a, s'⟩ := t
  cases a with
  | plan => exact absurd ha (by simp [Action.quiet])
  | settle => exact absurd ha (by simp [Action.quiet])
  | failedToStart => exact absurd ha (by simp [Action.quiet])
  | _ => rfl

theorem not_drops {t : Trans Sys Action} {K : Key} (h : t.planned = none) : ¬ t.Drops K := by
  intro ⟨w, hw, _⟩
  rw [h] at hw
  exact absurd hw (by simp)

/-- a settle, as far as the last run of `K` goes -/
theorem lastOk_settle {x : Ext} {K : Key} {q : RunQueue} {now : Int}
    {states : List (Key × RunState)} {asked : (states.map Prod.fst ++ []).Nodup}
    {last : Option String} {s' : Sys}
    (hspend : Trans.LeavesNoRetry ⟨⟨q, .looking now [] [] states asked⟩, .settle, s'⟩ K)
    (hsome : ∀ e, q.entries.get? K = some e → LastRunOk last e) {e' : Entry}
    (he' : (q.settle x states now).1.entries.get? K = some e') :
    LastRunOk ((Trans.endedRun ⟨⟨q, .looking now [] [] states asked⟩, .settle, s'⟩ K).or last) e' ∧
    (Trans.queuedRetry ⟨⟨q, .looking now [] [] states asked⟩, .settle, s'⟩ K ≠ none → ∀ id,
      (Trans.endedRun ⟨⟨q, .looking now [] [] states asked⟩, .settle, s'⟩ K).or last = some id →
      e'.armedFor = some id) ∧
    ∀ p ∈ Trans.ends ⟨⟨q, .looking now [] [] states asked⟩, .settle, s'⟩ K, p.2 ≠ .gone →
      e'.retry = none := by
  have hn : (states.map Prod.fst).Nodup := by rwa [List.append_nil] at asked
  obtain ⟨e, he, m⟩ := RunQueue.settle_inv q x states now hn he'
  have hends : Trans.ends ⟨⟨q, .looking now [] [] states asked⟩, .settle, s'⟩ K =
      (e.ending (states.lookup K) now q.timeout).map (fun r => (e, r.2.1)) := ends_settle he
  have hspent : ∀ r, e.ending (states.lookup K) now q.timeout = some r → r.2.1 ≠ .gone →
      ∀ retry ∈ e.retry, retry.due ≤ now ∧ (e.stuck = true ∨ ∃ due ∈ e.next, due ≤ now) :=
    fun r hr hg retry hretry =>
      hspend (e, r.2.1) (by rw [hends, hr]; rfl) hg retry hretry now rfl
  have hlast : (Trans.endedRun ⟨⟨q, .looking now [] [] states asked⟩, .settle, s'⟩ K).or last =
      if (e.ending (states.lookup K) now q.timeout).isSome then e.run.or last else last := by
    show ((Trans.ends _ K).bind _).or last = _
    rw [hends]
    cases e.ending (states.lookup K) now q.timeout <;> rfl
  rw [hlast]
  refine ⟨m.lastRunOk (settled_lastRunOk (hsome e he) hspent), ?_, ?_⟩
  · intro hq id hid
    obtain ⟨due, hq⟩ := Option.ne_none_iff_exists'.mp hq
    obtain ⟨e₂, he₂, hif⟩ := Option.bind_eq_some_iff.mp hq
    obtain rfl : e = e₂ := Option.some.inj (he.symm.trans he₂)
    simp only at hif
    split at hif
    · rename_i hdue
      rw [m.kept.armedFor]
      refine settled_armedFor (hsome e he) hspent id hid ?_ (Or.inr hdue.2)
      obtain ⟨r, hr, _⟩ := (Option.any_eq_true _ _).mp hdue.1
      exact Option.ne_none_iff_exists'.mpr ⟨r, hr⟩
    · exact absurd hif (by simp)
  · intro p hp hgone
    rw [hends] at hp
    obtain ⟨r, hr, rfl⟩ := Option.map_eq_some_iff.mp hp
    rw [m.kept.retry]
    exact (settled_spends hr hgone (hspent r hr hgone)).1

theorem lastOk_step {x : Ext} {K : Key} {tr : List (Trans Sys Action)} {s s' : Sys} {a : Action}
    (h : step x s a = some s') (hlog : Trans.LogNamesRun ⟨s, a, s'⟩ K)
    (hspend : Trans.LeavesNoRetry ⟨s, a, s'⟩ K) (hs : LastOk K tr s) :
    LastOk K (tr ++ [⟨s, a, s'⟩]) s' := by
  have hsnoc := lastEnded_snoc K tr ⟨s, a, s'⟩
  by_cases hd : Trans.Drops ⟨s, a, s'⟩ K
  · rw [if_pos hd] at hsnoc
    refine ⟨fun _ => hsnoc, fun e he => ?_⟩
    obtain ⟨⟨wanted, now⟩, hpl, _, hw⟩ := hd
    obtain rfl : a = .plan wanted now := Trans.act_of_planned hpl
    cases step_inv h with
    | plan q tk _ _ =>
      rw [RunQueue.plan_get?, show wanted.get? K = none from hw] at he
      exact absurd he (by simp)
  rw [if_neg hd] at hsnoc
  -- what is dropped apart, an entry that is gone was not there before
  suffices hkey : ∀ e', s'.queue.entries.get? K = some e' →
      LastRunOk ((Trans.endedRun ⟨s, a, s'⟩ K).or (lastEnded K tr)) e' by
    refine ⟨fun he' => ?_, fun e' he' => by rw [hsnoc]; exact hkey e' he'⟩
    have he := entry_kept h hd he'
    have hnone : Trans.endedRun ⟨s, a, s'⟩ K = none := by
      unfold Trans.endedRun Trans.ends
      have he' : Trans.entry ⟨s, a, s'⟩ K = none := he
      split
      · rw [he']
        rfl
      · split
        · rw [he']
          rfl
        · rfl
    rw [hsnoc, hnone, hs.absent he]
    rfl
  intro e' he'
  by_cases ha : a.quiet = true
  · obtain ⟨e, he, hsame, hrunning, hrun⟩ := quiet_step h ha he'
    rw [endedRun_quiet (t := ⟨s, a, s'⟩) ha K]
    exact (hs.present e he).same hsame hrun hrunning
  · cases step_inv h with
    | plan q tk wanted now => exact lastRun_plan hlog hs.present hs.absent he'
    | settle q now states asked => exact (lastOk_settle hspend hs.present he').1
    | failedToStart q now key reason starts =>
      rw [RunQueue.failedToStart_get?, Option.map_eq_some_iff] at he'
      obtain ⟨e, he, rfl⟩ := he'
      have hended : Trans.endedRun ⟨⟨q, .refusing now key reason starts⟩, .failedToStart,
          ⟨q.failedToStart key reason now, .clearing now key starts⟩⟩ K =
          if some key = some K then e.run else none := by
        show (if some key = some K then (q.entries.get? K).bind Entry.run else none) = _
        rw [show q.entries.get? K = some e from he]
        rfl
      rw [hended]
      by_cases hk : K = key
      · rw [if_pos (by rw [hk]), if_pos hk]
        exact failedToStart_lastRunOk (hs.present e he) reason now
      · rw [if_neg (fun hc => hk (Option.some.inj hc).symm), if_neg hk]
        exact hs.present e he
    | _ => exact absurd rfl ha

/-- **A retry answers the last run**, over every run of the queue whose log names the last run and
in which no run finishes, or is stopped past its cap, with a retry pending: a retry is queued only
for the run that ended or was refused last, and a run that ends otherwise leaves none. -/
theorem retry_answers_last (x : Ext) (batch short : Nat) {tr : List (Trans Sys Action)} {s : Sys}
    (hr : Run (step x) (Sys.start batch short) tr s) {K : Key}
    (hlog : ∀ t ∈ tr, t.LogNamesRun K) (hspend : ∀ t ∈ tr, t.LeavesNoRetry K)
    {l l' : List (Trans Sys Action)} {t : Trans Sys Action} (htr : tr = l ++ t :: l') :
    (t.queuedRetry K ≠ none → ∀ id, lastEnded K (l ++ [t]) = some id →
      ∃ e ∈ t.entryAfter K, e.armedFor = some id) ∧
    ∀ p ∈ t.ends K, p.2 ≠ .gone → ∀ e ∈ t.entryAfter K, e.retry = none := by
  subst htr
  obtain ⟨r1, ht, _⟩ := hr.at
  have h0 : LastOk K [] (Sys.start batch short) :=
    ⟨fun _ => rfl, fun e he => absurd he (by simp [Sys.start, RunQueue.new])⟩
  have hinv := Run.history (I := LastOk K) (C := fun t => t.LogNamesRun K ∧ t.LeavesNoRetry K) h0
    (fun tr s a s' _ h hC hs => lastOk_step h hC.1 hC.2 hs) r1
    (fun u hu => ⟨hlog u (by simp [hu]), hspend u (by simp [hu])⟩)
  have hspt := hspend t (by simp)
  have hsnoc := lastEnded_snoc K l t
  obtain ⟨s₀, a, s₁⟩ := t
  cases step_inv ht with
  | settle q now states asked =>
    rw [if_neg (not_drops rfl)] at hsnoc
    have hkey := fun e' (he' : (q.settle x states now).1.entries.get? K = some e') =>
      lastOk_settle hspt hinv.present he'
    refine ⟨?_, fun p hp hg e he => (hkey e he).2.2 p hp hg⟩
    intro hq id hid
    obtain ⟨_, hq'⟩ := Option.ne_none_iff_exists'.mp hq
    obtain ⟨e, he, _⟩ := Option.bind_eq_some_iff.mp hq'
    rw [List.append_nil] at asked
    obtain ⟨e', he', _⟩ := RunQueue.settle_get? q x states now asked he
    exact ⟨e', he', (hkey e' he').2.1 hq id (by rw [← hsnoc]; exact hid)⟩
  | _ => exact ⟨fun hq => absurd rfl hq, fun p hp => absurd hp (by simp [Trans.ends])⟩

instance (t : Trans Sys Action) (K : Key) : Decidable (t.LogNamesRun K) :=
  inferInstanceAs (Decidable (∀ _w ∈ t.planned, ∀ e ∈ t.entry K,
    ∀ run ∈ (e.judgement (t.before.queue.failed.map (fun failed => failed.get? K))).run,
      e.run = some run ∨ e.run = none))

instance (t : Trans Sys Action) (K : Key) : Decidable (t.LeavesNoRetry K) :=
  inferInstanceAs (Decidable (∀ p ∈ t.ends K, p.2 ≠ .gone → ∀ r ∈ p.1.retry,
    ∀ now ∈ t.before.tick.reading, r.due ≤ now ∧ (p.1.stuck = true ∨ ∃ due ∈ p.1.next, due ≤ now)))

/-- the retry of a lost run is queued -/
def retriedTwice : List Action := List.flatten [
  retriedOnce,
  [planDaily (4680 * Time.second)],
  tickTo (4680 * Time.second) [] []]

/-- the runner loses a run; another, started by hand, finishes before the retry is due -/
def finishedByHand : List Action := List.flatten [
  [.tell (.ran OrdMap.empty), planDaily 0],
  startTick 0 [keyA],
  endTick (60 * Time.second) 0 .gone,
  [.runNow keyA (120 * Time.second)],
  startTick (120 * Time.second) [],
  endTick (180 * Time.second) (120 * Time.second) .finished,
  [planDaily (960 * Time.second)],
  tickTo (960 * Time.second) [] []]

theorem retriedTwice_answers_last :
    ∃ (l l' : List (Trans Sys Action)) (t : Trans Sys Action) (s : Sys),
      Run (step sampleExt) (Sys.start 1 1) (l ++ t :: l') s ∧
      lastEnded keyA (l ++ [t]) = some (stamp (1020 * Time.second)) ∧
      t.queuedRetry keyA = some (4680 * Time.second) ∧
      ∃ e ∈ t.entryAfter keyA, e.armedFor = some (stamp (1020 * Time.second)) := by
  have hr : Run (step sampleExt) (Sys.start 1 1)
      (trace (step sampleExt) (Sys.start 1 1) retriedTwice)
      (final (step sampleExt) (Sys.start 1 1) retriedTwice) := run_trace (by decide +kernel)
  rw [← cut (trace (step sampleExt) (Sys.start 1 1) retriedTwice) 32 (by decide +kernel)] at hr
  have hlast := (retry_answers_last sampleExt 1 1 hr (K := keyA) (by decide +kernel)
    (by decide +kernel) rfl).1 (by decide +kernel) (stamp (1020 * Time.second)) (by decide +kernel)
  exact ⟨_, _, _, _, hr, by decide +kernel, by decide +kernel, hlast⟩

/-- **A run started by hand finishes, and the retry of the run before it is queued.** -/
theorem retry_outlives_finish :
    ¬ ∀ (x : Ext) (batch short : Nat) (K : Key) (l l' : List (Trans Sys Action))
      (t : Trans Sys Action) (s : Sys), Run (step x) (Sys.start batch short) (l ++ t :: l') s →
      (t.queuedRetry K ≠ none → ∀ id, lastEnded K (l ++ [t]) = some id →
        ∃ e ∈ t.entryAfter K, e.armedFor = some id) ∧
      ∀ p ∈ t.ends K, p.2 ≠ .gone → ∀ e ∈ t.entryAfter K, e.retry = none := by
  intro h
  have hr : Run (step sampleExt) (Sys.start 1 1)
      (trace (step sampleExt) (Sys.start 1 1) finishedByHand)
      (final (step sampleExt) (Sys.start 1 1) finishedByHand) := run_trace (by decide +kernel)
  rw [← cut (trace (step sampleExt) (Sys.start 1 1) finishedByHand) 30 (by decide +kernel)] at hr
  have hlast := (h sampleExt 1 1 keyA _ _ _ _ hr).1 (by decide +kernel)
    (stamp (120 * Time.second)) (by decide +kernel)
  exact absurd hlast (by decide +kernel)

end Portal
