import Portal.RunQueue.Queue

/-!
# What each operation of the run queue does to one entry

Every operation is a loop over the whole queue; a law about one pipeline only sees what it makes of
that pipeline's entry.  `plan_get?`, `sweeps_get?` and `settle_get?` say it, each entry apart from
the others, and the rest of the development unfolds none of the loops again.

* `RetryOnly`                        what arming, clearing and hurrying a retry leave alone;
* `Entry.ending`, `Entry.afterEnd`   the end of a run, as one function of the runner's answer;
* `Entry.settled`, `InPlace`         the entry as the lanes of a settle find it;
* `LaneMove`                         what the lanes make of an entry: stay, refuse or start.
-/

namespace Portal

/-! ## what the operations leave alone -/

/-- `e'` differs from `e` in its retry alone -/
structure RetryOnly (e e' : Entry) : Prop where
  stream : e'.stream = e.stream
  clock : e'.clock = e.clock
  lane : e'.lane = e.lane
  next : e'.next = e.next
  queued : e'.queued = e.queued
  running : e'.running = e.running
  run : e'.run = e.run
  runStream : e'.runStream = e.runStream
  sweep : e'.sweep = e.sweep
  stuck : e'.stuck = e.stuck
  last : e'.last = e.last

/-- `e'` is the same pipeline as `e`, in the same lane, held or not -/
structure InPlace (e e' : Entry) : Prop where
  stream : e'.stream = e.stream
  clock : e'.clock = e.clock
  lane : e'.lane = e.lane
  run : e'.run = e.run
  sweep : e'.sweep = e.sweep
  stuck : e'.stuck = e.stuck

theorem RetryOnly.refl (e : Entry) : RetryOnly e e :=
  ⟨rfl, rfl, rfl, rfl, rfl, rfl, rfl, rfl, rfl, rfl, rfl⟩

theorem RetryOnly.trans {e e' e'' : Entry} (h : RetryOnly e e') (h' : RetryOnly e' e'') :
    RetryOnly e e'' where
  stream := h'.stream.trans h.stream
  clock := h'.clock.trans h.clock
  lane := h'.lane.trans h.lane
  next := h'.next.trans h.next
  queued := h'.queued.trans h.queued
  running := h'.running.trans h.running
  run := h'.run.trans h.run
  runStream := h'.runStream.trans h.runStream
  sweep := h'.sweep.trans h.sweep
  stuck := h'.stuck.trans h.stuck
  last := h'.last.trans h.last

theorem InPlace.refl (e : Entry) : InPlace e e := ⟨rfl, rfl, rfl, rfl, rfl, rfl⟩

theorem InPlace.trans {e e' e'' : Entry} (h : InPlace e e') (h' : InPlace e' e'') :
    InPlace e e'' where
  stream := h'.stream.trans h.stream
  clock := h'.clock.trans h.clock
  lane := h'.lane.trans h.lane
  run := h'.run.trans h.run
  sweep := h'.sweep.trans h.sweep
  stuck := h'.stuck.trans h.stuck

namespace Entry

theorem arm_retryOnly (e : Entry) (run cause : String) (now : Int) :
    RetryOnly e (e.arm run cause now) := by
  unfold arm
  split
  · exact RetryOnly.refl e
  · exact ⟨rfl, rfl, rfl, rfl, rfl, rfl, rfl, rfl, rfl, rfl, rfl⟩

theorem arm_retry {e : Entry} {run cause : String} {now : Int} {r : Retry}
    (hne : e.armedFor ≠ some run) (h : (e.arm run cause now).retry = some r) :
    (∃ wait : Nat, backoff[e.attempts]? = some wait ∧ 0 < wait ∧ r.due = now + wait) ∧
      (e.retried.filter (lastDay now)).length < retriesPerDay ∧
      ∀ next, e.next = some next → r.due < next := by
  unfold arm at h
  rw [if_neg hne] at h
  simp only [Option.map_eq_some_iff, Option.filter_eq_some_iff, Bool.and_eq_true,
    decide_eq_true_eq] at h
  obtain ⟨due, ⟨⟨wait, hw, rfl⟩, hroom, hnext⟩, rfl⟩ := h
  refine ⟨⟨wait, hw, ?_, rfl⟩, hroom, fun next hn => ?_⟩
  · have hm := List.mem_of_getElem? hw
    simp only [backoff, Duration.ofSecs, List.mem_cons, List.not_mem_nil, or_false] at hm
    omega
  · rw [hn] at hnext
    simpa using hnext

theorem judge_retryOnly (e : Entry) (failed : Option (Option (String × String))) (now : Int) :
    RetryOnly e (e.judge failed now) := by
  unfold judge
  split
  · exact RetryOnly.refl e
  · exact arm_retryOnly ..
  · exact ⟨rfl, rfl, rfl, rfl, rfl, rfl, rfl, rfl, rfl, rfl, rfl⟩

theorem hurry_retryOnly (e : Entry) (now : Int) : RetryOnly e (e.hurry now) :=
  ⟨rfl, rfl, rfl, rfl, rfl, rfl, rfl, rfl, rfl, rfl, rfl⟩

theorem retries_retryOnly (e : Entry) (failed : Option (Option (String × String)))
    (changed : Bool) (now : Int) : RetryOnly e (e.retries failed changed now) := by
  unfold retries
  split
  · exact (judge_retryOnly e failed now).trans (hurry_retryOnly _ now)
  · exact judge_retryOnly e failed now

theorem failedToStart_fields (e : Entry) (reason : String) (now : Int) :
    InPlace e (e.failedToStart reason now) ∧ (e.failedToStart reason now).running = none ∧
      (e.failedToStart reason now).queued = e.queued ∧
      (e.failedToStart reason now).next = e.next := by
  unfold failedToStart
  cases hr : e.run with
  | none => exact ⟨⟨rfl, rfl, rfl, hr.symm, rfl, rfl⟩, rfl, rfl, rfl⟩
  | some run =>
    have h := arm_retryOnly { e with running := none, run := some run } run
      ("the runner refused the run: " ++ reason) now
    exact ⟨⟨h.stream, h.clock, h.lane, h.run.trans hr.symm, h.sweep, h.stuck⟩, h.running,
      h.queued, h.next⟩

end Entry

namespace RunQueue

theorem get?_put (q : RunQueue) (k K : Key) (e : Entry) :
    (q.put k e).entries.get? K = if K = k then some e else q.entries.get? K :=
  OrdMap.get?_insert q.entries k K e

/-! ## the plan -/

theorem planWanted_get? (q : RunQueue) (x : Ext) (wanted : OrdMap Key Planned) (now : Int)
    (K : Key) :
    (q.planWanted x wanted now).entries.get? K =
      match wanted.get? K with
      | none => q.entries.get? K
      | some p => some (q.planEntry x K p now (q.entries.get? K)) := by
  obtain ⟨h1, h2⟩ := OrdMap.get?_foldl_alter (α := Entry) (fun w : Key × Planned => w.1)
    (fun w e => some (q.planEntry x w.1 w.2 now e)) wanted.toList wanted.keys_nodup q.entries K
  cases hw : wanted.get? K with
  | none =>
    have hk : K ∉ wanted.keys := by
      rw [OrdMap.mem_keys, hw]
      simp
    exact h2 hk
  | some p => exact h1 (K, p) ((OrdMap.mem_toList wanted K p).mpr hw) rfl

/-- **What a plan makes of one entry.** -/
theorem plan_get? (q : RunQueue) (x : Ext) (wanted : OrdMap Key Planned) (now : Int) (K : Key) :
    (q.plan x wanted now).entries.get? K = (wanted.get? K).map (fun p =>
      (q.planEntry x K p now (q.entries.get? K)).retries
        (q.failed.map (fun failed => failed.get? K)) (K.project ∈ q.rulesChanged) now) := by
  unfold plan retries
  rw [OrdMap.get?_mapVal, planWanted_get?]
  cases hw : wanted.get? K with
  | none => simp [dropUnwanted, hw]
  | some p =>
    have hd : (dropUnwanted { q with plannedAt := some now } wanted).entries.get? K
        = q.entries.get? K := by
      simp [dropUnwanted, hw]
    simp only [hd, Option.map_some]
    rfl

theorem plan_gone (q : RunQueue) (x : Ext) (wanted : OrdMap Key Planned) (now : Int) (K : Key) :
    K ∈ (q.plan x wanted now).gone ↔ K ∈ q.gone ∨
      (wanted.get? K = none ∧ ∃ e, q.entries.get? K = some e ∧ e.running.isSome) := by
  show K ∈ q.gone ++ _ ↔ _
  rw [List.mem_append, List.mem_map]
  refine or_congr Iff.rfl ?_
  constructor
  · intro ⟨⟨k, e⟩, h, hk⟩
    obtain rfl : k = K := hk
    rw [List.mem_filter, List.mem_filter] at h
    exact ⟨by simpa using h.1.2, e, (OrdMap.mem_toList q.entries k e).mp h.1.1, h.2⟩
  · intro ⟨h1, e, h2, h3⟩
    refine ⟨(K, e), ?_, rfl⟩
    rw [List.mem_filter, List.mem_filter]
    exact ⟨⟨(OrdMap.mem_toList q.entries K e).mpr h2, by simp [h1]⟩, h3⟩

/-! ## the sweeps -/

def swept (e : Entry) : Entry :=
  if (e.sweep && e.running.isNone) = true then { e with sweep := false } else e

theorem sweeps_get? (q : RunQueue) (K : Key) :
    q.sweeps.1.entries.get? K = (q.entries.get? K).map swept :=
  OrdMap.get?_mapVal _ _ K

theorem mem_filter_keys (q : RunQueue) (p : Entry → Bool) (K : Key) :
    K ∈ (q.entries.toList.filter (fun w => p w.2)).map Prod.fst ↔
      ∃ e, q.entries.get? K = some e ∧ p e = true := by
  rw [List.mem_map]
  constructor
  · intro ⟨⟨k, e⟩, h, hk⟩
    obtain rfl : k = K := hk
    rw [List.mem_filter] at h
    exact ⟨e, (OrdMap.mem_toList q.entries k e).mp h.1, h.2⟩
  · intro ⟨e, h1, h2⟩
    exact ⟨(K, e), List.mem_filter.mpr ⟨(OrdMap.mem_toList q.entries K e).mpr h1, h2⟩, rfl⟩

theorem mem_sweeps (q : RunQueue) (K : Key) : K ∈ q.sweeps.2 ↔ K ∈ q.gone ∨
    ∃ e, q.entries.get? K = some e ∧ e.sweep = true ∧ e.running = none := by
  show K ∈ q.gone ++ _ ↔ _
  have h := mem_filter_keys q (fun e => e.sweep && e.running.isNone) K
  rw [List.mem_append]
  refine or_congr Iff.rfl (h.trans ?_)
  simp [Bool.and_eq_true]

theorem running_nodup (q : RunQueue) : q.running.Nodup :=
  List.Nodup.sublist (List.Sublist.map _ List.filter_sublist) q.entries.keys_nodup

end RunQueue

/-! ## the ends of a settle -/

namespace Entry

/-- since when the run ran, the answer and the failure, when its run ends on the answer `state` -/
def ending (e : Entry) (state : Option RunState) (now : Int) (timeout : Nat) :
    Option (Int × RunState × Option String) :=
  match e.running, state with
  | some started, some state =>
    (e.verdict started state now timeout).map (fun failure => (started, state, failure))
  | _, _ => none

/-- the entry after the ends of a settle -/
def afterEnd (e : Entry) (state : Option RunState) (now : Int) (timeout : Nat) : Entry :=
  match e.ending state now timeout with
  | none => e
  | some (started, state, failure) => e.endRun started state failure now

def report (e : Entry) (K : Key) (state : Option RunState) (now : Int) (timeout : Nat) : List End :=
  match e.ending state now timeout with
  | none => []
  | some (_, _, failure) => e.ended K failure

theorem report_key (e : Entry) (K : Key) (state : Option RunState) (now : Int) (timeout : Nat) :
    (e.report K state now timeout).filter (fun r => r.key = K) = e.report K state now timeout := by
  unfold report ended
  split
  · rfl
  · cases e.run <;> simp

theorem running_of_ending {e : Entry} {state : Option RunState} {now : Int} {timeout : Nat}
    {r : Int × RunState × Option String} (h : e.ending state now timeout = some r) :
    e.running = some r.1 := by
  unfold ending at h
  split at h
  · rename_i started st hs
    rw [Option.map_eq_some_iff] at h
    obtain ⟨f, _, rfl⟩ := h
    exact hs
  · exact absurd h (by simp)

theorem ending_none (e : Entry) (now : Int) (timeout : Nat) : e.ending none now timeout = none := by
  unfold ending
  cases e.running <;> rfl

theorem armLost_retryOnly (e : Entry) (state : RunState) (failure : Option String) (now : Int) :
    RetryOnly e (e.armLost state failure now) := by
  unfold armLost
  split
  · exact arm_retryOnly ..
  · exact RetryOnly.refl e

theorem endRun_fields (e : Entry) (started : Int) (state : RunState) (failure : Option String)
    (now : Int) : InPlace e (e.endRun started state failure now) ∧
      (e.endRun started state failure now).queued = e.queued ∧
      (e.endRun started state failure now).next = e.next := by
  have h := armLost_retryOnly e state failure now
  exact ⟨⟨h.stream, h.clock, h.lane, h.run, h.sweep, h.stuck⟩, h.queued, h.next⟩

theorem afterEnd_fields (e : Entry) (state : Option RunState) (now : Int) (timeout : Nat) :
    InPlace e (e.afterEnd state now timeout) ∧
      (e.afterEnd state now timeout).queued = e.queued ∧
      (e.afterEnd state now timeout).next = e.next := by
  unfold afterEnd
  split
  · exact ⟨InPlace.refl e, rfl, rfl⟩
  · exact endRun_fields ..

theorem afterEnd_running (e : Entry) (state : Option RunState) (now : Int) (timeout : Nat) :
    (e.afterEnd state now timeout).running =
      if (e.ending state now timeout).isSome then none else e.running := by
  unfold afterEnd
  split
  · rename_i h
    simp [h]
  · rename_i h
    rw [h]
    rfl

theorem afterEnd_runStream (e : Entry) (state : Option RunState) (now : Int) (timeout : Nat) :
    (e.afterEnd state now timeout).runStream =
      if (e.ending state now timeout).isSome then none else e.runStream := by
  unfold afterEnd
  split
  · rename_i h
    simp [h]
  · rename_i h
    rw [h]
    rfl

theorem queueDue_fields (e : Entry) (now : Int) : InPlace e (e.queueDue now) ∧
    (e.queueDue now).running = e.running ∧ (e.queueDue now).runStream = e.runStream := by
  unfold queueDue
  split
  · exact ⟨InPlace.refl e, rfl, rfl⟩
  · exact ⟨⟨rfl, rfl, rfl, rfl, rfl, rfl⟩, rfl, rfl⟩

theorem queueRetry_fields (e : Entry) (now : Int) : InPlace e (e.queueRetry now) ∧
    (e.queueRetry now).running = e.running ∧ (e.queueRetry now).next = e.next ∧
    (e.queueRetry now).runStream = e.runStream := by
  unfold queueRetry
  split
  · exact ⟨InPlace.refl e, rfl, rfl, rfl⟩
  · split
    · exact ⟨⟨rfl, rfl, rfl, rfl, rfl, rfl⟩, rfl, rfl, rfl⟩
    · exact ⟨⟨rfl, rfl, rfl, rfl, rfl, rfl⟩, rfl, rfl, rfl⟩

end Entry

namespace RunQueue

theorem settleEnds_subset (now : Int) (states : List (Key × RunState)) (q : RunQueue) :
    (settleEnds now states q).2.Sublist (states.map Prod.fst) := by
  induction states generalizing q with
  | nil => exact List.Sublist.slnil
  | cons s states ih =>
    obtain ⟨key, state⟩ := s
    unfold settleEnds
    split
    · exact (ih q).cons key
    · split
      · exact (ih q).cons key
      · split
        · exact (ih q).cons key
        · exact (ih _).cons_cons key

theorem settleEnds_frame (now : Int) (states : List (Key × RunState)) (q : RunQueue) :
    (settleEnds now states q).1 = { q with
      entries := (settleEnds now states q).1.entries
      ends := (settleEnds now states q).1.ends } := by
  induction states generalizing q with
  | nil => rfl
  | cons s states ih =>
    obtain ⟨key, state⟩ := s
    unfold settleEnds
    split
    · exact ih q
    · split
      · exact ih q
      · split
        · exact ih q
        · exact ih _

theorem settleEnds_cons (now : Int) (key : Key) (state : RunState)
    (states : List (Key × RunState)) (q : RunQueue) :
    settleEnds now ((key, state) :: states) q =
      match (q.entries.get? key).bind (fun e =>
        (e.ending (some state) now q.timeout).map (fun r => (e, r))) with
      | none => settleEnds now states q
      | some (e, started, state, failure) =>
        let q' := { q with ends := q.ends ++ e.ended key failure }
        let r := settleEnds now states (q'.put key (e.endRun started state failure now))
        (r.1, key :: r.2) := by
  rw [settleEnds]
  cases q.entries.get? key with
  | none => rfl
  | some e =>
    simp only [Option.bind_some, Entry.ending]
    cases e.running with
    | none => rfl
    | some started =>
      simp only
      cases e.verdict started state now q.timeout with
      | none => rfl
      | some failure => rfl

/-- **What the ends of a settle make of one entry**: it ends on the answer for its key, if any. -/
theorem settleEnds_get? (now : Int) (K : Key) (states : List (Key × RunState)) (q : RunQueue)
    (hn : (states.map Prod.fst).Nodup) :
    (settleEnds now states q).1.entries.get? K = (q.entries.get? K).map (fun e =>
        e.afterEnd (states.lookup K) now q.timeout) ∧
    (K ∈ (settleEnds now states q).2 ↔ ∃ e, q.entries.get? K = some e ∧
        (e.ending (states.lookup K) now q.timeout).isSome) ∧
    (settleEnds now states q).1.ends.filter (fun r => r.key = K) =
      q.ends.filter (fun r => r.key = K) ++ ((q.entries.get? K).map (fun e =>
        e.report K (states.lookup K) now q.timeout)).getD [] := by
  induction states generalizing q with
  | nil =>
    simp only [settleEnds, List.lookup_nil, Entry.ending_none, Entry.afterEnd, Entry.report]
    cases q.entries.get? K <;> simp
  | cons s states ih =>
    obtain ⟨key, state⟩ := s
    rw [List.map_cons] at hn
    obtain ⟨hk, hn'⟩ := List.nodup_cons.mp hn
    rw [settleEnds_cons, List.lookup_cons]
    by_cases e : K = key
    · -- the answer for `K` itself: the rest of the loop has none
      subst e
      have hl : states.lookup K = none := by
        rw [List.lookup_eq_none_iff]
        intro p hp
        by_contra hne
        have hp' : K = p.1 := by simpa using hne
        exact hk (List.mem_map.mpr ⟨p, hp, hp'.symm⟩)
      have hnot : ∀ q, K ∉ (settleEnds now states q).2 := fun q h =>
        hk ((settleEnds_subset now states q).subset h)
      rw [beq_self_eq_true]
      cases hg : q.entries.get? K with
      | none =>
        obtain ⟨h1, h2, h3⟩ := ih q hn'
        rw [hg] at h1 h2 h3
        exact ⟨h1, by simpa using hnot q, h3⟩
      | some e =>
        cases he : e.ending (some state) now q.timeout with
        | none =>
          obtain ⟨h1, h2, h3⟩ := ih q hn'
          rw [hg, hl] at h1 h3
          simp only [Option.map_some, Option.getD_some, Entry.afterEnd, Entry.report,
            Entry.ending_none] at h1 h3
          refine ⟨?_, ?_, ?_⟩
          · simp [he, h1, Entry.afterEnd]
          · simpa [he] using hnot q
          · simp [he, h3, Entry.report]
        | some r =>
          obtain ⟨started, state', failure⟩ := r
          let q' := { q with ends := q.ends ++ e.ended K failure }
          obtain ⟨h1, h2, h3⟩ := ih (q'.put K (e.endRun started state' failure now)) hn'
          rw [hl, get?_put, if_pos rfl] at h1 h3
          simp only [Option.map_some, Option.getD_some, Entry.afterEnd, Entry.report,
            Entry.ending_none, List.append_nil] at h1 h3
          refine ⟨?_, ?_, ?_⟩
          · simpa [he, Entry.afterEnd] using h1
          · simp [he]
          · have hf : (e.ended K failure).filter (fun r => r.key = K) = e.ended K failure := by
              unfold Entry.ended
              cases e.run <;> simp
            have hends : (q'.put K (e.endRun started state' failure now)).ends
                = q.ends ++ e.ended K failure := rfl
            rw [hends, List.filter_append, hf] at h3
            simp only [he, Option.bind_some, Option.map_some, Entry.report, Option.getD_some]
            exact h3
    · have hb : (K == key) = false := by simpa using e
      rw [hb]
      cases hg : (q.entries.get? key).bind (fun e =>
        (e.ending (some state) now q.timeout).map (fun r => (e, r))) with
      | none => exact ih q hn'
      | some r =>
        obtain ⟨e', started, state', failure⟩ := r
        let q' := { q with ends := q.ends ++ e'.ended key failure }
        obtain ⟨h1, h2, h3⟩ := ih (q'.put key (e'.endRun started state' failure now)) hn'
        rw [get?_put, if_neg e] at h1 h2 h3
        have hf : (e'.ended key failure).filter (fun r => r.key = K) = [] := by
          unfold Entry.ended
          cases e'.run <;> simp [Ne.symm e]
        refine ⟨h1, ?_, ?_⟩
        · rw [List.mem_cons]
          exact (or_iff_right e).trans h2
        · have hends : (q'.put key (e'.endRun started state' failure now)).ends
              = q.ends ++ e'.ended key failure := rfl
          rw [hends, List.filter_append, hf, List.append_nil] at h3
          exact h3

/-! ## the lanes of a settle -/

abbrev waitKey (w : Lex (Int × Key)) : Key := (ofLex w).2

theorem filterMap_waits_keys (lane : Lane) (l : List (Key × Entry)) :
    ((l.filterMap (fun p => (waits lane p.2).map (fun due => toLex (due, p.1)))).map waitKey
      ).Sublist (l.map Prod.fst) := by
  induction l with
  | nil => exact List.Sublist.slnil
  | cons p l ih =>
    rw [List.filterMap_cons, List.map_cons]
    cases waits lane p.2 with
    | none => exact ih.cons p.1
    | some due => exact ih.cons_cons p.1

theorem waiting_nodup (q : RunQueue) (lane : Lane) : ((q.waiting lane).map waitKey).Nodup := by
  have hp := (List.perm_insertionSort (fun a b : Lex (Int × Key) => a ≤ b)
    (q.entries.toList.filterMap (fun p => (waits lane p.2).map (fun due => toLex (due, p.1))))
    ).map waitKey
  rw [RunQueue.waiting, hp.nodup_iff]
  exact (filterMap_waits_keys lane q.entries.toList).nodup q.entries.keys_nodup

theorem mem_waiting (q : RunQueue) (lane : Lane) (w : Lex (Int × Key)) : w ∈ q.waiting lane ↔
    ∃ e, q.entries.get? (waitKey w) = some e ∧ waits lane e = some (ofLex w).1 := by
  unfold waiting
  rw [List.mem_insertionSort, List.mem_filterMap]
  constructor
  · intro ⟨⟨k, e⟩, h1, h2⟩
    rw [Option.map_eq_some_iff] at h2
    obtain ⟨due, h2, rfl⟩ := h2
    exact ⟨e, (OrdMap.mem_toList q.entries k e).mp h1, h2⟩
  · intro ⟨e, h1, h2⟩
    refine ⟨(waitKey w, e), (OrdMap.mem_toList q.entries _ e).mpr h1, ?_⟩
    simp only [h2, Option.map_some]
    rfl

theorem waits_eq_some {lane : Lane} {e : Entry} {due : Int} (h : waits lane e = some due) :
    e.lane = lane ∧ e.running = none ∧ e.sweep = false ∧ e.queued = some due := by
  unfold waits at h
  split at h
  · rename_i hc
    exact ⟨hc.1, hc.2.1, hc.2.2, h⟩
  · exact absurd h (by simp)

theorem refuseAll_get? (q : RunQueue) (refused : List (Lex (Int × Key))) (now : Int) (K : Key)
    (hn : (refused.map waitKey).Nodup) :
    (K ∈ refused.map waitKey → (q.refuseAll refused now).entries.get? K
      = (q.entries.get? K).map (fun e => e.refuse now)) ∧
    (K ∉ refused.map waitKey → (q.refuseAll refused now).entries.get? K = q.entries.get? K) := by
  obtain ⟨h1, h2⟩ := OrdMap.get?_foldl_alter (α := Entry) waitKey
    (fun _ e => e.map (fun e => e.refuse now)) refused hn q.entries K
  refine ⟨fun h => ?_, h2⟩
  obtain ⟨w, hw, hk⟩ := List.mem_map.mp h
  exact h1 w hw hk

theorem startAll_frame (x : Ext) (now : Int) (ws : List (Lex (Int × Key))) (q : RunQueue) :
    (startAll x now ws q).1 = { q with entries := (startAll x now ws q).1.entries } := by
  induction ws generalizing q with
  | nil => rfl
  | cons w ws ih =>
    unfold startAll
    split
    · exact ih q
    · exact ih _

theorem startAll_get? (x : Ext) (now : Int) (K : Key) (ws : List (Lex (Int × Key)))
    (q : RunQueue) (hn : (ws.map waitKey).Nodup) :
    (∀ w ∈ ws, waitKey w = K → ∀ e, q.entries.get? K = some e →
      (startAll x now ws q).1.entries.get? K = some (e.start x (ofLex w).1 now) ∧
      (startAll x now ws q).2.filter (fun s => s.key = K)
        = [⟨K, stamp (ofLex w).1, e.stream⟩]) ∧
    (K ∉ ws.map waitKey → (startAll x now ws q).1.entries.get? K = q.entries.get? K ∧
      (startAll x now ws q).2.filter (fun s => s.key = K) = []) := by
  induction ws generalizing q with
  | nil => exact ⟨fun w hw => absurd hw List.not_mem_nil, fun _ => ⟨rfl, rfl⟩⟩
  | cons v ws ih =>
    rw [List.map_cons] at hn
    obtain ⟨hv, hn'⟩ := List.nodup_cons.mp hn
    unfold startAll
    refine ⟨fun w hw hk e he => ?_, fun hk => ?_⟩
    · rcases List.mem_cons.mp hw with rfl | hw
      · -- its own turn: the rest of the loop leaves it alone
        subst hk
        rw [he]
        obtain ⟨h1, h2⟩ := (ih (q.put (waitKey w) (e.start x (ofLex w).1 now)) hn').2 hv
        rw [get?_put, if_pos rfl] at h1
        exact ⟨h1, by simp [h2]⟩
      · have hne : K ≠ waitKey v := fun h => hv (List.mem_map.mpr ⟨w, hw, hk.trans h⟩)
        cases hg : q.entries.get? (ofLex v).2 with
        | none => exact (ih q hn').1 w hw hk e he
        | some e' =>
          have he' : (q.put (ofLex v).2 (e'.start x (ofLex v).1 now)).entries.get? K = some e := by
            rw [get?_put, if_neg hne]
            exact he
          obtain ⟨h1, h2⟩ := (ih (q.put (ofLex v).2 (e'.start x (ofLex v).1 now)) hn').1
            w hw hk e he'
          exact ⟨h1, by simpa [List.filter_cons, Ne.symm hne] using h2⟩
    · rw [List.map_cons, List.mem_cons, not_or] at hk
      obtain ⟨hne, hk⟩ := hk
      cases hg : q.entries.get? (ofLex v).2 with
      | none => exact (ih q hn').2 hk
      | some e' =>
        obtain ⟨h1, h2⟩ := (ih (q.put (ofLex v).2 (e'.start x (ofLex v).1 now)) hn').2 hk
        rw [get?_put, if_neg hne] at h1
        exact ⟨h1, by simpa [List.filter_cons, Ne.symm hne] using h2⟩

end RunQueue

/-- what the lanes of a settle make of one entry, with its start if it has one -/
inductive LaneMove (x : Ext) (K : Key) (now : Int) (unbound : Bool) (e : Entry) :
    Entry → List Start → Prop
  | stay : LaneMove x K now unbound e e []
  | refuse {due : Int} : e.queued = some due → e.running = none → e.sweep = false →
      unbound = true → LaneMove x K now unbound e (e.refuse now) []
  | start {due : Int} : e.queued = some due → e.running = none → e.sweep = false →
      unbound = false →
      LaneMove x K now unbound e (e.start x due now) [⟨K, stamp due, e.stream⟩]

theorem LaneMove.trans {x : Ext} {K : Key} {now : Int} {unbound : Bool} {e e' e'' : Entry}
    {l l' : List Start} (h : LaneMove x K now unbound e e' l)
    (h' : LaneMove x K now unbound e' e'' l') : LaneMove x K now unbound e e'' (l ++ l') := by
  cases h with
  | stay => exact h'
  | refuse h1 h2 h3 h4 =>
    cases h' with
    | stay => exact .refuse h1 h2 h3 h4
    | refuse h5 => exact absurd h5 (by simp [Entry.refuse])
    | start h5 => exact absurd h5 (by simp [Entry.refuse])
  | start h1 h2 h3 h4 =>
    cases h' with
    | stay => exact .start h1 h2 h3 h4
    | refuse h5 => exact absurd h5 (by simp [Entry.start])
    | start h5 => exact absurd h5 (by simp [Entry.start])

/-- `e'` is the pipeline `e` with its clock time and its retry as they were -/
structure LaneKept (e e' : Entry) : Prop where
  stream : e'.stream = e.stream
  clock : e'.clock = e.clock
  lane : e'.lane = e.lane
  next : e'.next = e.next
  stuck : e'.stuck = e.stuck
  retry : e'.retry = e.retry
  armedFor : e'.armedFor = e.armedFor
  attempts : e'.attempts = e.attempts
  retried : e'.retried = e.retried

theorem LaneMove.kept {x : Ext} {K : Key} {now : Int} {unbound : Bool} {e e' : Entry}
    {l : List Start} (h : LaneMove x K now unbound e e' l) : LaneKept e e' := by
  cases h <;> exact ⟨rfl, rfl, rfl, rfl, rfl, rfl, rfl, rfl, rfl⟩

namespace RunQueue

theorem settleLane_frame (q : RunQueue) (x : Ext) (lane : Lane) (limit : Nat) (fresh : Bool)
    (now : Int) : (q.settleLane x lane limit fresh now).1
      = { q with entries := (q.settleLane x lane limit fresh now).1.entries } := by
  unfold settleLane
  split
  · simp only
    rw [startAll_frame]
    rfl
  · rfl

/-- **What one lane makes of one entry.** -/
theorem settleLane_get? (q : RunQueue) (x : Ext) (lane : Lane) (limit : Nat) (fresh : Bool)
    (now : Int) {K : Key} {e : Entry} (he : q.entries.get? K = some e) :
    ∃ e', (q.settleLane x lane limit fresh now).1.entries.get? K = some e' ∧
      LaneMove x K now (q.isUnbound x K) e e'
        ((q.settleLane x lane limit fresh now).2.filter (fun s => s.key = K)) := by
  unfold settleLane
  split
  · simp only
    have hn1 : (((q.waiting lane).filter (fun w => q.isUnbound x (ofLex w).2)).map
        waitKey).Nodup := (List.Sublist.map _ List.filter_sublist).nodup (q.waiting_nodup lane)
    have hn2 : ((((q.waiting lane).filter (fun w => !q.isUnbound x (ofLex w).2)).take
        (limit - q.busy lane)).map waitKey).Nodup :=
      (List.Sublist.map _ ((List.take_sublist _ _).trans List.filter_sublist)).nodup
        (q.waiting_nodup lane)
    obtain ⟨r1, r2⟩ := refuseAll_get? q _ now K hn1
    obtain ⟨s1, s2⟩ := startAll_get? x now K _ (q.refuseAll ((q.waiting lane).filter
      (fun w => q.isUnbound x (ofLex w).2)) now) hn2
    by_cases hs : K ∈ (((q.waiting lane).filter (fun w => !q.isUnbound x (ofLex w).2)).take
        (limit - q.busy lane)).map waitKey
    · obtain ⟨w, hw, hk⟩ := List.mem_map.mp hs
      obtain ⟨hwait, hbound⟩ := List.mem_filter.mp (List.mem_of_mem_take hw)
      obtain ⟨e₁, h1, h2⟩ := (mem_waiting q lane w).mp hwait
      rw [hk, he] at h1
      obtain rfl : e = e₁ := by simpa using h1
      obtain ⟨_, h3, h4, h5⟩ := waits_eq_some h2
      have hb : q.isUnbound x K = false := by
        rw [← hk]
        simpa using hbound
      have hr : K ∉ ((q.waiting lane).filter (fun w => q.isUnbound x (ofLex w).2)).map waitKey := by
        intro h
        obtain ⟨v, hv, hvk⟩ := List.mem_map.mp h
        have hvb := (List.mem_filter.mp hv).2
        rw [show (ofLex v).2 = K from hvk, hb] at hvb
        exact absurd hvb (by simp)
      obtain ⟨g1, g2⟩ := s1 w hw hk e (by rw [r2 hr, he])
      exact ⟨_, g1, by rw [g2]; exact .start h5 h3 h4 hb⟩
    · obtain ⟨g1, g2⟩ := s2 hs
      rw [g1, g2]
      by_cases hr : K ∈ ((q.waiting lane).filter (fun w => q.isUnbound x (ofLex w).2)).map waitKey
      · obtain ⟨w, hw, hk⟩ := List.mem_map.mp hr
        obtain ⟨hwait, hbound⟩ := List.mem_filter.mp hw
        obtain ⟨e₁, h1, h2⟩ := (mem_waiting q lane w).mp hwait
        rw [hk, he] at h1
        obtain rfl : e = e₁ := by simpa using h1
        obtain ⟨_, h3, h4, h5⟩ := waits_eq_some h2
        refine ⟨_, by rw [r1 hr, he]; rfl, .refuse h5 h3 h4 ?_⟩
        rw [← hk]
        exact hbound
      · exact ⟨e, by rw [r2 hr, he], .stay⟩
  · exact ⟨e, he, .stay⟩

theorem settleLane_none (q : RunQueue) (x : Ext) (lane : Lane) (limit : Nat) (fresh : Bool)
    (now : Int) {K : Key} (he : q.entries.get? K = none) :
    (q.settleLane x lane limit fresh now).1.entries.get? K = none ∧
      (q.settleLane x lane limit fresh now).2.filter (fun s => s.key = K) = [] := by
  have hw : K ∉ (q.waiting lane).map waitKey := by
    intro h
    obtain ⟨w, hw, rfl⟩ := List.mem_map.mp h
    obtain ⟨e, h1, _⟩ := (mem_waiting q lane w).mp hw
    rw [he] at h1
    exact absurd h1 (by simp)
  unfold settleLane
  split
  · simp only
    have hsub1 : ((q.waiting lane).filter (fun w => q.isUnbound x (ofLex w).2)).Sublist
        (q.waiting lane) := List.filter_sublist
    have hsub2 : (((q.waiting lane).filter (fun w => !q.isUnbound x (ofLex w).2)).take
        (limit - q.busy lane)).Sublist (q.waiting lane) :=
      (List.take_sublist _ _).trans List.filter_sublist
    obtain ⟨_, r2⟩ := refuseAll_get? q _ now K ((hsub1.map _).nodup (q.waiting_nodup lane))
    obtain ⟨_, s2⟩ := startAll_get? x now K _ (q.refuseAll ((q.waiting lane).filter
      (fun w => q.isUnbound x (ofLex w).2)) now) ((hsub2.map _).nodup (q.waiting_nodup lane))
    obtain ⟨g1, g2⟩ := s2 (fun h => hw ((hsub2.map _).subset h))
    rw [g1, r2 (fun h => hw ((hsub1.map _).subset h))]
    exact ⟨he, g2⟩
  · exact ⟨he, rfl⟩

theorem settleLane_inv (q : RunQueue) (x : Ext) (lane : Lane) (limit : Nat) (fresh : Bool)
    (now : Int) {K : Key} {e' : Entry}
    (he' : (q.settleLane x lane limit fresh now).1.entries.get? K = some e') :
    ∃ e, q.entries.get? K = some e ∧ LaneMove x K now (q.isUnbound x K) e e'
      ((q.settleLane x lane limit fresh now).2.filter (fun s => s.key = K)) := by
  cases he : q.entries.get? K with
  | none =>
    rw [(settleLane_none q x lane limit fresh now he).1] at he'
    exact absurd he' (by simp)
  | some e =>
    obtain ⟨e₁, h1, m⟩ := settleLane_get? q x lane limit fresh now he
    obtain rfl : e₁ = e' := Option.some.inj (h1.symm.trans he')
    exact ⟨e, rfl, m⟩

end RunQueue

namespace Entry

/-- the entry as the lanes of a settle find it -/
def settled (e : Entry) (state : Option RunState) (now : Int) (timeout : Nat) : Entry :=
  ((e.afterEnd state now timeout).queueDue now).queueRetry now

theorem settled_inPlace (e : Entry) (state : Option RunState) (now : Int) (timeout : Nat) :
    InPlace e (e.settled state now timeout) :=
  ((afterEnd_fields e state now timeout).1.trans (queueDue_fields _ now).1).trans
    (queueRetry_fields _ now).1

theorem settled_running (e : Entry) (state : Option RunState) (now : Int) (timeout : Nat) :
    (e.settled state now timeout).running =
      if (e.ending state now timeout).isSome then none else e.running := by
  unfold settled
  rw [(queueRetry_fields _ now).2.1, (queueDue_fields _ now).2.1, afterEnd_running]

theorem settled_runStream (e : Entry) (state : Option RunState) (now : Int) (timeout : Nat) :
    (e.settled state now timeout).runStream =
      if (e.ending state now timeout).isSome then none else e.runStream := by
  unfold settled
  rw [(queueRetry_fields _ now).2.2.2, (queueDue_fields _ now).2.2, afterEnd_runStream]

end Entry

namespace RunQueue

theorem settleDue_get? (q : RunQueue) (states : List (Key × RunState)) (now : Int) (K : Key)
    (hn : (states.map Prod.fst).Nodup) :
    (q.settleDue states now).1.entries.get? K =
      (q.entries.get? K).map (fun e => e.settled (states.lookup K) now q.timeout) := by
  unfold settleDue queueRetries queueDue
  simp only
  rw [OrdMap.get?_mapVal, OrdMap.get?_mapVal, (settleEnds_get? now K states q hn).1]
  cases q.entries.get? K <;> rfl

theorem settleDue_frame (q : RunQueue) (states : List (Key × RunState)) (now : Int) :
    (q.settleDue states now).1 = { q with
      entries := (q.settleDue states now).1.entries
      ends := (settleEnds now states q).1.ends } := by
  unfold settleDue queueRetries queueDue
  simp only
  rw [settleEnds_frame]

theorem settle_frame (q : RunQueue) (x : Ext) (states : List (Key × RunState)) (now : Int) :
    (q.settle x states now).1 = { q with
      entries := (q.settle x states now).1.entries
      ends := (settleEnds now states q).1.ends } := by
  unfold settle
  simp only
  rw [settleLane_frame, settleLane_frame, settleDue_frame]

/-- **What a settle makes of one entry.** -/
theorem settle_get? (q : RunQueue) (x : Ext) (states : List (Key × RunState)) (now : Int) {K : Key}
    (hn : (states.map Prod.fst).Nodup) {e : Entry} (he : q.entries.get? K = some e) :
    ∃ e', (q.settle x states now).1.entries.get? K = some e' ∧
      LaneMove x K now (q.isUnbound x K) (e.settled (states.lookup K) now q.timeout) e'
        ((q.settle x states now).2.2.filter (fun s => s.key = K)) := by
  have h0 : (q.settleDue states now).1.entries.get? K
      = some (e.settled (states.lookup K) now q.timeout) := by
    rw [settleDue_get? q states now K hn, he]
    rfl
  have hu : (q.settleDue states now).1.isUnbound x K = q.isUnbound x K := by
    rw [settleDue_frame]
    rfl
  obtain ⟨e₁, h1, m1⟩ := settleLane_get? (q.settleDue states now).1 x .batch
    (q.settleDue states now).1.batch ((q.settleDue states now).1.fresh now) now h0
  obtain ⟨e₂, h2, m2⟩ := settleLane_get? ((q.settleDue states now).1.settleLane x .batch
    (q.settleDue states now).1.batch ((q.settleDue states now).1.fresh now) now).1 x .short
    ((q.settleDue states now).1.settleLane x .batch
    (q.settleDue states now).1.batch ((q.settleDue states now).1.fresh now) now).1.short
    ((q.settleDue states now).1.fresh now) now h1
  have hu' : ((q.settleDue states now).1.settleLane x .batch (q.settleDue states now).1.batch
      ((q.settleDue states now).1.fresh now) now).1.isUnbound x K = q.isUnbound x K := by
    rw [settleLane_frame, ← hu]
    rfl
  rw [hu] at m1
  rw [hu'] at m2
  refine ⟨e₂, h2, ?_⟩
  show LaneMove x K now (q.isUnbound x K) _ e₂ (List.filter _ (_ ++ _))
  rw [List.filter_append]
  exact m1.trans m2

theorem settle_none (q : RunQueue) (x : Ext) (states : List (Key × RunState)) (now : Int) {K : Key}
    (hn : (states.map Prod.fst).Nodup) (he : q.entries.get? K = none) :
    (q.settle x states now).1.entries.get? K = none ∧
      (q.settle x states now).2.2.filter (fun s => s.key = K) = [] := by
  have h0 : (q.settleDue states now).1.entries.get? K = none := by
    rw [settleDue_get? q states now K hn, he]
    rfl
  obtain ⟨h1, m1⟩ := settleLane_none (q.settleDue states now).1 x .batch
    (q.settleDue states now).1.batch ((q.settleDue states now).1.fresh now) now h0
  obtain ⟨h2, m2⟩ := settleLane_none ((q.settleDue states now).1.settleLane x .batch
    (q.settleDue states now).1.batch ((q.settleDue states now).1.fresh now) now).1 x .short
    ((q.settleDue states now).1.settleLane x .batch
    (q.settleDue states now).1.batch ((q.settleDue states now).1.fresh now) now).1.short
    ((q.settleDue states now).1.fresh now) now h1
  refine ⟨h2, ?_⟩
  show List.filter _ (_ ++ _) = []
  rw [List.filter_append, m1]
  exact m2

theorem settle_inv (q : RunQueue) (x : Ext) (states : List (Key × RunState)) (now : Int) {K : Key}
    (hn : (states.map Prod.fst).Nodup) {e' : Entry}
    (he' : (q.settle x states now).1.entries.get? K = some e') :
    ∃ e, q.entries.get? K = some e ∧
      LaneMove x K now (q.isUnbound x K) (e.settled (states.lookup K) now q.timeout) e'
        ((q.settle x states now).2.2.filter (fun s => s.key = K)) := by
  cases he : q.entries.get? K with
  | none =>
    rw [(settle_none q x states now hn he).1] at he'
    exact absurd he' (by simp)
  | some e =>
    obtain ⟨e₁, h1, m⟩ := settle_get? q x states now hn he
    obtain rfl : e₁ = e' := Option.some.inj (h1.symm.trans he')
    exact ⟨e, rfl, m⟩

theorem mem_settle_ended (q : RunQueue) (x : Ext) (states : List (Key × RunState)) (now : Int)
    (K : Key) (hn : (states.map Prod.fst).Nodup) : K ∈ (q.settle x states now).2.1 ↔
      ∃ e, q.entries.get? K = some e ∧ (e.ending (states.lookup K) now q.timeout).isSome :=
  (settleEnds_get? now K states q hn).2.1

theorem settle_ends (q : RunQueue) (x : Ext) (states : List (Key × RunState)) (now : Int) (K : Key)
    (hn : (states.map Prod.fst).Nodup) :
    (q.settle x states now).1.ends.filter (fun r => r.key = K) =
      q.ends.filter (fun r => r.key = K) ++ ((q.entries.get? K).map (fun e =>
        e.report K (states.lookup K) now q.timeout)).getD [] := by
  rw [settle_frame]
  exact (settleEnds_get? now K states q hn).2.2

theorem runNow_get? (q : RunQueue) (key K : Key) (now : Int) :
    (q.runNow key now).1.entries.get? K = (q.entries.get? K).map (fun e =>
      if K = key ∧ e.running = none ∧ e.stuck = false then
        { e with queued := some (e.queued.getD now) } else e) := by
  unfold runNow
  cases hg : q.entries.get? key with
  | none =>
    cases hk : q.entries.get? K with
    | none => simp
    | some e =>
      have hne : K ≠ key := by
        intro h
        rw [h, hg] at hk
        exact absurd hk (by simp)
      simp [hne]
  | some e =>
    simp only
    split
    · rename_i hr
      cases hk : q.entries.get? K with
      | none => rfl
      | some e' =>
        by_cases h : K = key
        · rw [h, hg] at hk
          obtain rfl : e = e' := by simpa using hk
          simp [hr]
        · simp [h]
    · split
      · rename_i hr hs
        cases hk : q.entries.get? K with
        | none => rfl
        | some e' =>
          by_cases h : K = key
          · rw [h, hg] at hk
            obtain rfl : e = e' := by simpa using hk
            simp [hs]
          · simp [h]
      · rename_i hr hs
        rw [not_not] at hr
        rw [Bool.not_eq_true] at hs
        simp only
        rw [get?_put]
        by_cases h : K = key
        · rw [if_pos h, h, hg]
          simp [hr, hs]
        · rw [if_neg h]
          simp [h]

theorem stuck_get? (q : RunQueue) (key K : Key) (now : Int) :
    (q.stuck key now).entries.get? K
      = (q.entries.get? K).map (fun e => if K = key then e.hold now else e) := by
  refine (OrdMap.get?_modify q.entries key K _).trans ?_
  by_cases h : K = key
  · simp [h]
  · simp [h]

theorem failedToStart_get? (q : RunQueue) (key K : Key) (reason : String) (now : Int) :
    (q.failedToStart key reason now).entries.get? K
      = (q.entries.get? K).map (fun e => if K = key then e.failedToStart reason now else e) := by
  refine (OrdMap.get?_modify q.entries key K _).trans ?_
  by_cases h : K = key
  · simp [h]
  · simp [h]

theorem runNow_frame (q : RunQueue) (key : Key) (now : Int) :
    (q.runNow key now).1 = { q with entries := (q.runNow key now).1.entries } := by
  unfold runNow
  split
  · rfl
  · split
    · rfl
    · split <;> rfl

end RunQueue
end Portal
