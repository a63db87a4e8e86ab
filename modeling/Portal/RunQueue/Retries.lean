import Portal.Base.Window
import Portal.RunQueue.Held

/-!
# Retries are bounded

A failed run earns its pipeline one retry, armed from three places: the plan (from the log), a
settle that finds the run gone, and a start the runner refuses.  The retry waits for its step of the
backoff and is queued by a later settle.  What keeps the retries of a day few is a log of the times
they were queued, pruned and consulted only when one is armed.

* `Trans.judged`           what a transition makes of a pipeline's retry, from whichever place;
* `Trans.queuedRetry`      the retry it queues;
* `retries_within_day`     at most `retriesPerDay` are queued in any window shorter than a day;
* `armed_le_backoff`       at most one for each step of the backoff is armed between two clearings;
* `armed_once`             by one run each, as long as the log names the last run and ids are not
                           used again;
* `armed_twice`            a run the log names late arms a second one.
-/

namespace Portal

/-! ## what happens to a retry -/

/-- what a section of the queue decides of a retry: for which entry, what, and when -/
structure Judged where
  entry : Entry
  judgement : Entry.Judgement
  now : Int

namespace Judged

/-- the run it arms a retry for, were it not for the backoff, the clock and the day's bound -/
def call (j : Judged) : Option String :=
  match j.judgement with
  | .arm run _ => if j.entry.armedFor = some run then none else some run
  | _ => none

def retry (j : Judged) : Option Retry :=
  match j.judgement with
  | .arm run cause =>
    if j.entry.armedFor = some run then none else (j.entry.arm run cause j.now).retry
  | _ => none

/-- the run whose retry it arms -/
def armed (j : Judged) : Option String := if j.retry = none then none else j.call

def after (j : Judged) : Entry :=
  match j.judgement with
  | .leave => j.entry
  | .arm run cause => j.entry.arm run cause j.now
  | .clear => j.entry.clearRetry

end Judged

namespace Trans

/-- what the transition decides of the retry of `K` -/
def judged (x : Ext) (t : Trans Sys Action) (K : Key) : Option Judged :=
  match t.act, t.before.tick with
  | .plan wanted now, _ =>
    (wanted.get? K).map (fun p =>
      let e := t.before.queue.planEntry x K p now (t.entry K)
      ⟨e, e.judgement (t.before.queue.failed.map (fun failed => failed.get? K)), now⟩)
  | .settle, .looking now _ _ states _ =>
    (t.entry K).bind (fun e =>
      (e.ending (states.lookup K) now t.before.queue.timeout).map (fun r =>
        ⟨e, e.lost r.2.1 r.2.2, now⟩))
  | .failedToStart, .refusing now key reason _ =>
    if key = K then (t.entry K).map (fun e =>
      ⟨{ e with running := none }, match e.run with
        | none => .leave
        | some run => .arm run ("the runner refused the run: " ++ reason), now⟩)
    else none
  | _, _ => none

/-- it clears the retry of `K` -/
def clears (x : Ext) (t : Trans Sys Action) (K : Key) : Bool :=
  (t.judged x K).any (fun j => j.judgement = .clear)

/-- the reading under which it queues the retry of `K` -/
def queuedRetry (t : Trans Sys Action) (K : Key) : Option Int :=
  match t.act, t.before.tick with
  | .settle, .looking now _ _ states _ =>
    (t.entry K).bind (fun e =>
      let e := (e.afterEnd (states.lookup K) now t.before.queue.timeout).queueDue now
      if e.retry.any (fun r => r.due ≤ now) ∧ e.free then some now else none)
  | _, _ => none

end Trans

/-- when the retries of `K` were queued -/
def retryTimes (K : Key) (tr : List (Trans Sys Action)) : List Int :=
  tr.filterMap (fun t => t.queuedRetry K)

/-- the runs that armed a retry of `K` since it was last cleared -/
def armedRuns (x : Ext) (K : Key) (tr : List (Trans Sys Action)) : List String :=
  tr.foldl (fun ids t => if t.clears x K then [] else
    ids ++ ((t.judged x K).bind Judged.armed).toList) []

/-- the runs that were to arm a retry of `K` since it was last cleared -/
def calledRuns (x : Ext) (K : Key) (tr : List (Trans Sys Action)) : List String :=
  tr.foldl (fun ids t => if t.clears x K then [] else
    ids ++ ((t.judged x K).bind Judged.call).toList) []

theorem armedRuns_snoc (x : Ext) (K : Key) (tr : List (Trans Sys Action)) (t : Trans Sys Action) :
    armedRuns x K (tr ++ [t]) = if t.clears x K then [] else
      armedRuns x K tr ++ ((t.judged x K).bind Judged.armed).toList := by
  unfold armedRuns
  rw [List.foldl_append]
  rfl

theorem calledRuns_snoc (x : Ext) (K : Key) (tr : List (Trans Sys Action)) (t : Trans Sys Action) :
    calledRuns x K (tr ++ [t]) = if t.clears x K then [] else
      calledRuns x K tr ++ ((t.judged x K).bind Judged.call).toList := by
  unfold calledRuns
  rw [List.foldl_append]
  rfl

theorem retryTimes_snoc (K : Key) (tr : List (Trans Sys Action)) (t : Trans Sys Action) :
    retryTimes K (tr ++ [t]) = retryTimes K tr ++ (t.queuedRetry K).toList := by
  unfold retryTimes
  rw [List.filterMap_append]
  cases h : t.queuedRetry K <;> simp [h]

/-! ## one step -/

/-- the fields of a retry are as they were -/
structure SameRetry (e e' : Entry) : Prop where
  retry : e'.retry = e.retry
  armedFor : e'.armedFor = e.armedFor
  attempts : e'.attempts = e.attempts
  retried : e'.retried = e.retried

theorem SameRetry.refl (e : Entry) : SameRetry e e := ⟨rfl, rfl, rfl, rfl⟩

theorem SameRetry.trans {e e' e'' : Entry} (h : SameRetry e e') (h' : SameRetry e' e'') :
    SameRetry e e'' :=
  ⟨h'.retry.trans h.retry, h'.armedFor.trans h.armedFor, h'.attempts.trans h.attempts,
    h'.retried.trans h.retried⟩

/-- a step that judges no retry -/
def Action.quiet : Action → Bool
  | .plan _ _ | .settle | .failedToStart => false
  | _ => true

theorem quiet_step {x : Ext} {s s' : Sys} {a : Action} (h : step x s a = some s')
    (ha : a.quiet = true) {K : Key} {e' : Entry} (he' : s'.queue.entries.get? K = some e') :
    ∃ e, s.queue.entries.get? K = some e ∧ SameRetry e e' ∧ e'.running = e.running ∧
      e'.run = e.run := by
  have hm := entry_inv h K
  rw [he'] at hm
  generalize s.queue.entries.get? K = o at hm ⊢
  generalize ho' : some e' = o' at hm
  cases hm with
  | keep a o _ => exact ⟨e', ho'.symm, SameRetry.refl e', rfl, rfl⟩
  | plan | settle | fail => exact absurd ha (by simp [Action.quiet])
  | queueNow key now e hr hst =>
    cases ho'
    exact ⟨e, rfl, ⟨rfl, rfl, rfl, rfl⟩, rfl, rfl⟩
  | sweep now e hr =>
    cases ho'
    exact ⟨e, rfl, ⟨rfl, rfl, rfl, rfl⟩, rfl, rfl⟩
  | hold now ended starts e ht =>
    cases ho'
    exact ⟨e, rfl, ⟨rfl, rfl, rfl, rfl⟩, rfl, rfl⟩

theorem judged_quiet {x : Ext} {t : Trans Sys Action} (ha : t.act.quiet = true) (K : Key) :
    t.judged x K = none ∧ t.queuedRetry K = none := by
  obtain ⟨s, a, s'⟩ := t
  cases a with
  | plan => exact absurd ha (by simp [Action.quiet])
  | settle => exact absurd ha (by simp [Action.quiet])
  | failedToStart => exact absurd ha (by simp [Action.quiet])
  | _ => exact ⟨rfl, rfl⟩

theorem queueDue_sameRetry (e : Entry) (now : Int) : SameRetry e (e.queueDue now) := by
  unfold Entry.queueDue
  split
  · exact SameRetry.refl e
  · exact ⟨rfl, rfl, rfl, rfl⟩

theorem lost_cases (e : Entry) (state : RunState) (failure : Option String) :
    e.lost state failure = .leave ∨
      ∃ run cause, e.lost state failure = .arm run cause ∧ e.run = some run := by
  unfold Entry.lost
  split
  · rename_i reason run hr
    exact Or.inr ⟨run, reason, rfl, hr⟩
  · exact Or.inl rfl

theorem armLost_eq (e : Entry) (state : RunState) (failure : Option String) (now : Int) :
    e.armLost state failure now = Judged.after ⟨e, e.lost state failure, now⟩ := by
  unfold Entry.armLost Judged.after
  rcases lost_cases e state failure with h | ⟨run, cause, h, _⟩
  · rw [h]
  · rw [h]

/-- the entry a step judges, out of the one it finds -/
def JudgedFrom (t : Trans Sys Action) (K : Key) (e₀ : Entry) : Prop :=
  (∃ e, t.entry K = some e ∧ SameRetry e e₀ ∧ e₀.run = e.run) ∨
    (t.entry K = none ∧ ∃ p next now, e₀ = Entry.new p next now)

inductive JudgedTo (x : Ext) (t : Trans Sys Action) (K : Key) (e₀ : Entry) : Entry → Prop
  | unjudged : t.judged x K = none → JudgedTo x t K e₀ e₀
  | judged (j : Judged) : t.judged x K = some j → j.entry = e₀ → JudgedTo x t K e₀ j.after

/-- what becomes of the retry after the judgement -/
inductive RetryMove (t : Trans Sys Action) (K : Key) (e : Entry) : Entry → Prop
  | stay : t.queuedRetry K = none → RetryMove t K e e
  | hurry (wanted now) : t.act = .plan wanted now → t.queuedRetry K = none →
      RetryMove t K e (e.hurry now)
  | spend : t.queuedRetry K = none → RetryMove t K e { e with retry := none }
  | queue (now r) : t.queuedRetry K = some now → e.retry = some r → r.due ≤ now →
      RetryMove t K e { e with retry := none, retried := e.retried ++ [now] }

/-- what a step makes of the retry of `K`: it judges it, moves it and leaves the rest to others -/
def RetryStep (x : Ext) (t : Trans Sys Action) (K : Key) (e' : Entry) : Prop :=
  ∃ e₀ e₁ e₂, JudgedFrom t K e₀ ∧ JudgedTo x t K e₀ e₁ ∧ RetryMove t K e₁ e₂ ∧ SameRetry e₂ e' ∧
    (e'.run = e₀.run ∨ ∃ st ∈ t.starts, st.key = K ∧ e'.run = some st.run)

theorem judgedFrom_plan (x : Ext) (q : RunQueue) (tk : Tick) (a : Action) (s' : Sys) (K : Key)
    (p : Planned) (now : Int) :
    JudgedFrom ⟨⟨q, tk⟩, a, s'⟩ K (q.planEntry x K p now (q.entries.get? K)) := by
  unfold JudgedFrom Trans.entry
  cases he : q.entries.get? K with
  | none => exact Or.inr ⟨rfl, p, _, now, rfl⟩
  | some e =>
    refine Or.inl ⟨e, rfl, ?_⟩
    show SameRetry e (e.plan p now) ∧ (e.plan p now).run = e.run
    unfold Entry.plan
    split
    · exact ⟨SameRetry.refl e, rfl⟩
    · exact ⟨⟨rfl, rfl, rfl, rfl⟩, rfl⟩

theorem retryStep_plan (x : Ext) (q : RunQueue) (tk : Tick) (wanted : OrdMap Key Planned)
    (now : Int) {K : Key} {e' : Entry} (he' : (q.plan x wanted now).entries.get? K = some e') :
    RetryStep x ⟨⟨q, tk⟩, .plan wanted now, ⟨q.plan x wanted now, tk⟩⟩ K e' := by
  rw [RunQueue.plan_get?, Option.map_eq_some_iff] at he'
  obtain ⟨p, hp, rfl⟩ := he'
  have hfrom := judgedFrom_plan x q tk (.plan wanted now) ⟨q.plan x wanted now, tk⟩ K p now
  have hj : Trans.judged x ⟨⟨q, tk⟩, .plan wanted now, ⟨q.plan x wanted now, tk⟩⟩ K =
      some ⟨q.planEntry x K p now (q.entries.get? K), (q.planEntry x K p now
        (q.entries.get? K)).judgement (q.failed.map (fun failed => failed.get? K)), now⟩ := by
    show (wanted.get? K).map _ = _
    rw [hp]
    rfl
  generalize q.planEntry x K p now (q.entries.get? K) = e₀ at hfrom hj ⊢
  have hrun := (e₀.retries_retryOnly (q.failed.map (fun failed => failed.get? K))
    (K.project ∈ q.rulesChanged) now).run
  unfold Entry.retries at hrun ⊢
  split
  · rename_i hc
    rw [if_pos hc] at hrun
    exact ⟨e₀, _, _, hfrom, .judged _ hj rfl, .hurry wanted now rfl rfl, SameRetry.refl _,
      Or.inl hrun⟩
  · rename_i hc
    rw [if_neg hc] at hrun
    exact ⟨e₀, _, _, hfrom, .judged _ hj rfl, .stay rfl, SameRetry.refl _, Or.inl hrun⟩

theorem retryMove_settle {q : RunQueue} {now : Int} {states : List (Key × RunState)}
    {asked : (states.map Prod.fst ++ []).Nodup} {s' : Sys} {K : Key} {e e₁ : Entry}
    (he : q.entries.get? K = some e)
    (h1 : SameRetry e₁ ((e.afterEnd (states.lookup K) now q.timeout).queueDue now)) :
    ∃ e₂, RetryMove ⟨⟨q, .looking now [] [] states asked⟩, .settle, s'⟩ K e₁ e₂ ∧
      SameRetry e₂ (e.settled (states.lookup K) now q.timeout) := by
  have hq : Trans.queuedRetry ⟨⟨q, .looking now [] [] states asked⟩, .settle, s'⟩ K =
      let e := (e.afterEnd (states.lookup K) now q.timeout).queueDue now
      if e.retry.any (fun r => r.due ≤ now) ∧ e.free then some now else none := by
    show (q.entries.get? K).bind _ = _
    rw [he]
    rfl
  unfold Entry.settled
  generalize (e.afterEnd (states.lookup K) now q.timeout).queueDue now = d at h1 hq ⊢
  unfold Entry.queueRetry
  split
  · rename_i hf
    refine ⟨e₁, .stay ?_, h1⟩
    rw [hq]
    refine if_neg (fun h => ?_)
    obtain ⟨r, hr, hdue⟩ := (Option.any_eq_true _ _).mp h.1
    exact Option.filter_eq_none_iff.mp hf r hr hdue
  · rename_i r hf
    obtain ⟨hr, hdue⟩ := Option.filter_eq_some_iff.mp hf
    split
    · rename_i hfree
      refine ⟨_, .queue now r ?_ (h1.retry.symm.trans hr) (by simpa using hdue), ?_⟩
      · rw [hq]
        exact if_pos ⟨by rw [hr]; exact hdue, hfree⟩
      · exact ⟨rfl, h1.armedFor, h1.attempts, by rw [← h1.retried]⟩
    · rename_i hfree
      refine ⟨_, .spend ?_, ⟨rfl, h1.armedFor, h1.attempts, h1.retried⟩⟩
      rw [hq]
      exact if_neg (fun h => hfree h.2)

theorem LaneMove.run {x : Ext} {K : Key} {now : Int} {unbound : Bool} {e e' : Entry}
    {l : List Start} (h : LaneMove x K now unbound e e' l) :
    e'.run = e.run ∨ ∃ st ∈ l, e'.run = some st.run := by
  cases h with
  | stay => exact Or.inl rfl
  | refuse => exact Or.inl rfl
  | start => exact Or.inr ⟨_, List.mem_singleton.mpr rfl, rfl⟩

theorem retryStep_settle (x : Ext) (q : RunQueue) (now : Int) (states : List (Key × RunState))
    (asked : (states.map Prod.fst ++ []).Nodup) {K : Key} {e' : Entry}
    (he' : (q.settle x states now).1.entries.get? K = some e') :
    RetryStep x ⟨⟨q, .looking now [] [] states asked⟩, .settle, ⟨(q.settle x states now).1,
      .ending now (q.settle x states now).2.1 (q.settle x states now).2.2⟩⟩ K e' := by
  have hn : (states.map Prod.fst).Nodup := by rwa [List.append_nil] at asked
  obtain ⟨e, he, m⟩ := RunQueue.settle_inv q x states now hn he'
  have hj : Trans.judged x ⟨⟨q, .looking now [] [] states asked⟩, .settle,
      ⟨(q.settle x states now).1, .ending now (q.settle x states now).2.1
        (q.settle x states now).2.2⟩⟩ K = (e.ending (states.lookup K) now q.timeout).map
      (fun r => ⟨e, e.lost r.2.1 r.2.2, now⟩) := by
    show (q.entries.get? K).bind _ = _
    rw [he]
    rfl
  obtain ⟨e₁, hto, hsame⟩ : ∃ e₁, JudgedTo x ⟨⟨q, .looking now [] [] states asked⟩, .settle,
      ⟨(q.settle x states now).1, .ending now (q.settle x states now).2.1
        (q.settle x states now).2.2⟩⟩ K e e₁ ∧
      SameRetry e₁ (e.afterEnd (states.lookup K) now q.timeout) := by
    unfold Entry.afterEnd
    cases hend : e.ending (states.lookup K) now q.timeout with
    | none => exact ⟨e, .unjudged (by rw [hj, hend]; rfl), SameRetry.refl e⟩
    | some r =>
      refine ⟨_, .judged ⟨e, e.lost r.2.1 r.2.2, now⟩ (by rw [hj, hend]; rfl) rfl, ?_⟩
      rw [← armLost_eq]
      exact ⟨rfl, rfl, rfl, rfl⟩
  have hdue := hsame.trans (queueDue_sameRetry _ now)
  obtain ⟨e₂, hmove, hsettled⟩ := retryMove_settle he hdue
  refine ⟨e, e₁, e₂, Or.inl ⟨e, he, SameRetry.refl e, rfl⟩, hto, hmove,
    hsettled.trans ?_, ?_⟩
  · exact ⟨m.kept.retry, m.kept.armedFor, m.kept.attempts, m.kept.retried⟩
  · rw [← (e.settled_inPlace (states.lookup K) now q.timeout).run]
    refine m.run.imp_right ?_
    intro ⟨st, hst, hrun⟩
    obtain ⟨hmem, hkey⟩ := List.mem_filter.mp hst
    exact ⟨st, hmem, by simpa using hkey, hrun⟩

theorem retryStep_failedToStart (x : Ext) (q : RunQueue) (now : Int) (key : Key) (reason : String)
    (starts : List Start) {K : Key} {e' : Entry}
    (he' : (q.failedToStart key reason now).entries.get? K = some e') :
    RetryStep x ⟨⟨q, .refusing now key reason starts⟩, .failedToStart,
      ⟨q.failedToStart key reason now, .clearing now key starts⟩⟩ K e' := by
  rw [RunQueue.failedToStart_get?, Option.map_eq_some_iff] at he'
  obtain ⟨e, he, rfl⟩ := he'
  have hj : Trans.judged x ⟨⟨q, .refusing now key reason starts⟩, .failedToStart,
      ⟨q.failedToStart key reason now, .clearing now key starts⟩⟩ K =
      if key = K then some ⟨{ e with running := none }, match e.run with
        | none => .leave
        | some run => .arm run ("the runner refused the run: " ++ reason), now⟩ else none := by
    show (if key = K then (q.entries.get? K).map _ else none) = _
    rw [he]
    rfl
  by_cases hk : K = key
  · rw [if_pos hk]
    refine ⟨{ e with running := none }, _, _, Or.inl ⟨e, he, ⟨rfl, rfl, rfl, rfl⟩, rfl⟩,
      .judged _ (by rw [hj, if_pos hk.symm]) rfl, .stay rfl, ?_,
      Or.inl (e.failedToStart_fields reason now).1.run⟩
    unfold Entry.failedToStart Judged.after
    cases e.run with
    | none => exact ⟨rfl, rfl, rfl, rfl⟩
    | some run => exact ⟨rfl, rfl, rfl, rfl⟩
  · rw [if_neg hk]
    exact ⟨e, e, e, Or.inl ⟨e, he, SameRetry.refl e, rfl⟩,
      .unjudged (by rw [hj, if_neg (fun h => hk h.symm)]), .stay rfl, SameRetry.refl e, Or.inl rfl⟩

/-- **What a step makes of a retry.** -/
theorem retry_step {x : Ext} {s s' : Sys} {a : Action} (h : step x s a = some s') {K : Key}
    {e' : Entry} (he' : s'.queue.entries.get? K = some e') : RetryStep x ⟨s, a, s'⟩ K e' := by
  by_cases ha : a.quiet = true
  · obtain ⟨e, he, hsame, _, hrun⟩ := quiet_step h ha he'
    obtain ⟨hj, hq⟩ := judged_quiet (x := x) (t := ⟨s, a, s'⟩) ha K
    exact ⟨e, e, e, Or.inl ⟨e, he, SameRetry.refl e, rfl⟩, .unjudged hj, .stay hq, hsame,
      Or.inl hrun⟩
  · cases step_inv h with
    | plan q tk wanted now => exact retryStep_plan x q tk wanted now he'
    | settle q now states asked => exact retryStep_settle x q now states asked he'
    | failedToStart q now key reason starts =>
      exact retryStep_failedToStart x q now key reason starts he'
    | _ => exact absurd rfl ha

/-! ## at most six a day -/

/-- the reading of a tick that has not settled -/
def Tick.lookingAt : Tick → Option Int
  | .looking now _ _ _ _ => some now
  | _ => none

theorem judged_now {x : Ext} {t : Trans Sys Action} {K : Key} {j : Judged}
    (hj : t.judged x K = some j) : t.act.reading = some j.now ∨
      (t.act.reading = none ∧ t.before.tick.reading = some j.now) := by
  unfold Trans.judged at hj
  split at hj
  · rename_i ha
    obtain ⟨p, _, rfl⟩ := Option.map_eq_some_iff.mp hj
    exact Or.inl (by rw [ha]; rfl)
  · rename_i now _ _ states _ ha htick
    obtain ⟨e, _, h⟩ := Option.bind_eq_some_iff.mp hj
    obtain ⟨r, _, rfl⟩ := Option.map_eq_some_iff.mp h
    exact Or.inr ⟨by rw [ha]; rfl, by rw [htick]; rfl⟩
  · rename_i now key reason _ ha htick
    split at hj
    · obtain ⟨e, _, rfl⟩ := Option.map_eq_some_iff.mp hj
      exact Or.inr ⟨by rw [ha]; rfl, by rw [htick]; rfl⟩
    · exact absurd hj (by simp)
  · exact absurd hj (by simp)

/-- what the log of a pipeline's retries misses of `times` is a day old at any later reading, and at
the one that is to queue its retry; and a retry was armed with room for it -/
def RetryOk (times past : List Int) (look : Option Int) (e : Entry) : Prop :=
  (∀ n, (∀ m ∈ past, m ≤ n) → Old Time.day n times e.retried) ∧
    ∀ r ∈ e.retry, e.retried.length < retriesPerDay ∧
      ∀ n ∈ look, r.due ≤ n → Old Time.day n times e.retried

namespace RetryOk

variable {times past : List Int} {look : Option Int} {e e' : Entry}

theorem same (h : RetryOk times past look e) (hs : SameRetry e e') :
    RetryOk times past look e' := by
  unfold RetryOk
  rw [hs.retry, hs.retried]
  exact h

theorem later (h : RetryOk times past look e) {past' : List Int} (hp : past ⊆ past') :
    RetryOk times past' look e :=
  ⟨fun n hn => h.1 n (fun m hm => hn m (hp hm)), h.2⟩

theorem new (p : Planned) (next : Option Int) (now : Int) :
    RetryOk [] past look (Entry.new p next now) :=
  ⟨fun n _ => Old.nil _ n, fun r hr => absurd hr (by simp [Entry.new])⟩

theorem spend (h : RetryOk times past look e) : RetryOk times past look { e with retry := none } :=
  ⟨h.1, fun r hr => absurd hr (by simp)⟩

theorem arm (h : RetryOk times past look e) (run cause : String) {now : Int} (hnow : now ∈ past)
    (hlook : ∀ n ∈ look, n ≤ now) : RetryOk times past look (e.arm run cause now) := by
  by_cases hrun : e.armedFor = some run
  · unfold Entry.arm
    rw [if_pos hrun]
    exact h
  · have hretried : (e.arm run cause now).retried = e.retried.filter (lastDay now) := by
      unfold Entry.arm
      rw [if_neg hrun]
    refine ⟨?_, ?_⟩
    · intro n hn
      rw [hretried]
      exact (h.1 n hn).prune (hn now hnow)
    · intro r hr
      obtain ⟨⟨wait, _, hpos, hdue⟩, hroom, _⟩ := Entry.arm_retry hrun hr
      rw [hretried]
      refine ⟨hroom, fun n hn hle => ?_⟩
      have := hlook n hn
      omega

theorem after {j : Judged} (h : RetryOk times past look j.entry) (hnow : j.now ∈ past)
    (hlook : ∀ n ∈ look, n ≤ j.now) : RetryOk times past look j.after := by
  unfold Judged.after
  split
  · exact h
  · exact h.arm _ _ hnow hlook
  · exact ⟨h.1, fun r hr => absurd hr (by simp [Entry.clearRetry])⟩

theorem hurry (h : RetryOk times past look e) {now : Int} (hnow : ∀ m ∈ past, m ≤ now) :
    RetryOk times past look (e.hurry now) := by
  refine ⟨h.1, fun r hr => ?_⟩
  obtain ⟨r₀, h0, rfl⟩ := Option.map_eq_some_iff.mp hr
  refine ⟨(h.2 r₀ h0).1, fun n hn hle => ?_⟩
  rcases min_le_iff.mp hle with hle | hle
  · exact (h.2 r₀ h0).2 n hn hle
  · exact h.1 n (fun m hm => (hnow m hm).trans hle)

theorem queue (h : RetryOk times past look e) {r : Retry} {now : Int} (hr : e.retry = some r)
    (hw : Within Time.day retriesPerDay times) (hnow : now ∈ look) (hdue : r.due ≤ now) :
    RetryOk (times ++ [now]) past look { e with retry := none, retried := e.retried ++ [now] } ∧
      Within Time.day retriesPerDay (times ++ [now]) := by
  obtain ⟨hroom, hold⟩ := h.2 r hr
  refine ⟨⟨?_, fun r hr => absurd hr (by simp)⟩, hw.push (hold now hnow hdue) hroom⟩
  intro n hn
  exact (h.1 n hn).push now

theorem look_at (h : RetryOk times past look e) {look' : Option Int}
    (hl : ∀ n ∈ look', n ∈ look ∨ ∀ m ∈ past, m ≤ n) : RetryOk times past look' e := by
  refine ⟨h.1, fun r hr => ⟨(h.2 r hr).1, fun n hn hdue => ?_⟩⟩
  rcases hl n hn with hn' | hn'
  · exact (h.2 r hr).2 n hn' hdue
  · exact h.1 n hn'

end RetryOk

theorem Tick.reading_of_lookingAt {tk : Tick} {n : Int} (h : n ∈ tk.lookingAt) :
    tk.reading = some n := by
  cases tk with
  | looking => exact h
  | _ => exact absurd h (by simp [Tick.lookingAt])

theorem lookingAt_step {x : Ext} {s s' : Sys} {a : Action} (h : step x s a = some s') {n : Int}
    (hn : n ∈ s'.tick.lookingAt) : n ∈ s.tick.lookingAt ∨ a.reading = some n := by
  cases step_inv h with
  | tell => exact Or.inl hn
  | plan => exact Or.inl hn
  | runNow => exact Or.inl hn
  | tick q now => exact Or.inr hn
  | call q tk tk' c hc =>
    cases hc with
    | swept => exact Or.inl hn
    | looked => exact Or.inl hn
    | _ => exact absurd hn (by simp [Tick.lookingAt])
  | _ => exact absurd hn (by simp [Tick.lookingAt])

theorem queuedRetry_now {t : Trans Sys Action} {K : Key} {now : Int}
    (h : t.queuedRetry K = some now) : now ∈ t.before.tick.lookingAt ∧ t.act.reading = none := by
  unfold Trans.queuedRetry at h
  split at h
  · rename_i now' _ _ _ _ ha htick
    obtain ⟨e, _, h⟩ := Option.bind_eq_some_iff.mp h
    simp only at h
    split at h
    · obtain rfl := Option.some.inj h
      rw [htick, ha]
      exact ⟨rfl, rfl⟩
    · exact absurd h (by simp)
  · exact absurd h (by simp)

theorem queuedRetry_none {t : Trans Sys Action} {K : Key} (h : t.entry K = none) :
    t.queuedRetry K = none := by
  unfold Trans.queuedRetry
  split
  · rw [h]
    rfl
  · rfl

theorem entry_kept {x : Ext} {s s' : Sys} {a : Action} (h : step x s a = some s') {K : Key}
    (hd : ¬ Trans.Drops ⟨s, a, s'⟩ K) (hn : s'.queue.entries.get? K = none) :
    s.queue.entries.get? K = none := by
  have hm := entry_inv h K
  generalize ho : s.queue.entries.get? K = o at hm ⊢
  generalize s'.queue.entries.get? K = o' at hm hn
  cases hm with
  | keep => exact hn
  | plan wanted now o =>
    by_contra he
    refine hd ⟨(wanted, now), rfl, ?_, Option.map_eq_none_iff.mp hn⟩
    rw [Trans.entry, ho]
    exact he
  | queueNow | sweep | settle | hold | fail => exact absurd hn (Option.some_ne_none _)

def Trans.InTime (l : List (Trans Sys Action)) (t : Trans Sys Action) : Prop :=
  ∀ m ∈ readings l, ∀ n ∈ t.act.reading, m ≤ n

theorem inTime_of_pairwise {l l' : List (Trans Sys Action)} {t : Trans Sys Action}
    (h : (readings (l ++ t :: l')).Pairwise (fun m n => m ≤ n)) : t.InTime l := by
  intro m hm n hn
  unfold readings at h
  rw [List.filterMap_append, List.pairwise_append] at h
  refine h.2.2 m hm n (List.mem_filterMap.mpr ⟨t, List.mem_cons_self .., hn⟩)

structure TimesOk (K : Key) (tr : List (Trans Sys Action)) (s : Sys) : Prop where
  ticking : ∀ n ∈ s.tick.reading, n ∈ readings tr
  within : Within Time.day retriesPerDay (retryTimes K tr)
  absent : s.queue.entries.get? K = none → retryTimes K tr = []
  retry : ∀ e, s.queue.entries.get? K = some e →
    RetryOk (retryTimes K tr) (readings tr) s.tick.lookingAt e

theorem timesOk_step {x : Ext} {K : Key} {tr : List (Trans Sys Action)} {s s' : Sys} {a : Action}
    (h : step x s a = some s') (hin : Trans.InTime tr ⟨s, a, s'⟩)
    (hd : ¬ Trans.Drops ⟨s, a, s'⟩ K) (hs : TimesOk K tr s) :
    TimesOk K (tr ++ [⟨s, a, s'⟩]) s' := by
  have hpast := readings_subset_snoc tr ⟨s, a, s'⟩
  have hnewest : ∀ n, a.reading = some n → ∀ m ∈ readings (tr ++ [⟨s, a, s'⟩]), m ≤ n := by
    intro n hn m hm
    rw [readings_snoc, show (Trans.mk s a s').act.reading = some n from hn] at hm
    rcases List.mem_append.mp hm with hm | hm
    · exact hin m hm n hn
    · exact le_of_eq (List.mem_singleton.mp hm)
  have hticking := ticking_step h hs.ticking
  cases he' : s'.queue.entries.get? K with
  | none =>
    have he := entry_kept h hd he'
    have htimes : retryTimes K (tr ++ [⟨s, a, s'⟩]) = [] := by
      rw [retryTimes_snoc, queuedRetry_none (t := ⟨s, a, s'⟩) he, hs.absent he]
      rfl
    exact ⟨hticking, by rw [htimes]; exact Within.nil _ _, fun _ => htimes,
      fun e h => absurd h (by rw [he']; simp)⟩
  | some e' =>
    obtain ⟨e₀, e₁, e₂, hfrom, hto, hmove, hsame, _⟩ := retry_step h he'
    have h0 : RetryOk (retryTimes K tr) (readings (tr ++ [⟨s, a, s'⟩])) s.tick.lookingAt e₀ := by
      rcases hfrom with ⟨e, he, hse, _⟩ | ⟨he, p, next, now, rfl⟩
      · exact ((hs.retry e he).same hse).later hpast
      · rw [hs.absent he]
        exact RetryOk.new p next now
    have h1 : RetryOk (retryTimes K tr) (readings (tr ++ [⟨s, a, s'⟩])) s.tick.lookingAt e₁ := by
      cases hto with
      | unjudged => exact h0
      | judged j hj hje =>
        subst hje
        rcases judged_now hj with hr | ⟨_, hr⟩
        · refine h0.after (mem_readings_snoc tr hr) (fun n hn => ?_)
          exact hin n (hs.ticking n (Tick.reading_of_lookingAt hn)) j.now hr
        · refine h0.after (hpast (hs.ticking j.now hr)) (fun n hn => le_of_eq ?_)
          exact Option.some.inj ((Tick.reading_of_lookingAt hn).symm.trans hr)
    -- the tick's look moves on last
    have hlook : ∀ n ∈ s'.tick.lookingAt, n ∈ s.tick.lookingAt ∨
        ∀ m ∈ readings (tr ++ [⟨s, a, s'⟩]), m ≤ n :=
      fun n hn => (lookingAt_step h hn).imp_right (hnewest n)
    obtain ⟨h2, hw⟩ : RetryOk (retryTimes K (tr ++ [⟨s, a, s'⟩])) (readings (tr ++ [⟨s, a, s'⟩]))
        s.tick.lookingAt e₂ ∧
        Within Time.day retriesPerDay (retryTimes K (tr ++ [⟨s, a, s'⟩])) := by
      rw [retryTimes_snoc]
      cases hmove with
      | stay hq =>
        rw [hq, Option.toList_none, List.append_nil]
        exact ⟨h1, hs.within⟩
      | hurry wanted now ha hq =>
        rw [hq, Option.toList_none, List.append_nil]
        refine ⟨h1.hurry (hnewest now ?_), hs.within⟩
        rw [show a = .plan wanted now from ha]
        rfl
      | spend hq =>
        rw [hq, Option.toList_none, List.append_nil]
        exact ⟨h1.spend, hs.within⟩
      | queue now r hq hr hdue =>
        rw [hq]
        exact h1.queue hr hs.within (queuedRetry_now hq).1 hdue
    refine ⟨hticking, hw, fun h => absurd h (by rw [he']; simp), fun e he => ?_⟩
    obtain rfl := Option.some.inj (he'.symm.trans he)
    exact (h2.same hsame).look_at hlook

/-- **At most `retriesPerDay` retries are queued in any window shorter than a day.** -/
theorem retries_within_day (x : Ext) (batch short : Nat) {tr : List (Trans Sys Action)} {s : Sys}
    (hr : Run (step x) (Sys.start batch short) tr s) {K : Key}
    (ht : (readings tr).Pairwise (fun m n => m ≤ n)) (hd : ∀ t ∈ tr, ¬ t.Drops K) :
    Within Time.day retriesPerDay (retryTimes K tr) := by
  have h0 : TimesOk K [] (Sys.start batch short) :=
    ⟨fun n hn => absurd hn (by simp [Sys.start, Tick.reading]), Within.nil _ _, fun _ => rfl,
      fun e he => absurd he (by simp [Sys.start, RunQueue.new])⟩
  have hinv := Run.traced (I := TimesOk K) (C := fun l t => t.InTime l ∧ ¬ t.Drops K) h0
    (fun tr s a s' _ h hC hs => timesOk_step h hC.1 hC.2 hs) hr (fun l t l' e =>
      ⟨inTime_of_pairwise (by rwa [e] at ht), hd t (by simp [e])⟩)
  exact hinv.within

/-! ## at most one for each step of the backoff -/

inductive Judged.Case (j : Judged) : Prop
  | leave : j.judgement ≠ .clear → j.call = none → j.armed = none → j.after = j.entry → Case j
  | clear : j.judgement = .clear → j.after = j.entry.clearRetry → Case j
  | arm (run cause) : j.judgement = .arm run cause → j.entry.armedFor ≠ some run →
      j.call = some run → j.after = j.entry.arm run cause j.now →
      (j.armed = none ∨ (j.armed = some run ∧ ∃ r, j.retry = some r ∧ j.after.retry = some r)) →
      Case j

theorem Judged.cases (j : Judged) : j.Case := by
  obtain ⟨e, judgement, now⟩ := j
  cases judgement with
  | leave => exact .leave (by simp) rfl rfl rfl
  | clear => exact .clear rfl rfl
  | arm run cause =>
    by_cases hrun : e.armedFor = some run
    · refine .leave (by simp) ?_ ?_ ?_
      · exact if_pos hrun
      · have hretry : Judged.retry ⟨e, .arm run cause, now⟩ = none := if_pos hrun
        exact if_pos hretry
      · exact if_pos hrun
    · have hcall : Judged.call ⟨e, .arm run cause, now⟩ = some run := if_neg hrun
      have hretry : Judged.retry ⟨e, .arm run cause, now⟩ = (e.arm run cause now).retry :=
        if_neg hrun
      refine .arm run cause rfl hrun hcall rfl ?_
      unfold Judged.armed
      rw [hcall, hretry]
      cases hr : (e.arm run cause now).retry with
      | none => exact Or.inl rfl
      | some r => exact Or.inr ⟨rfl, r, rfl, hr⟩

theorem clears_iff {x : Ext} {t : Trans Sys Action} {K : Key} :
    t.clears x K = true ↔ ∃ j, t.judged x K = some j ∧ j.judgement = .clear := by
  unfold Trans.clears
  rw [Option.any_eq_true]
  simp

theorem runs_snoc (x : Ext) (K : Key) (tr : List (Trans Sys Action)) (t : Trans Sys Action) :
    (t.judged x K = none → armedRuns x K (tr ++ [t]) = armedRuns x K tr ∧
      calledRuns x K (tr ++ [t]) = calledRuns x K tr) ∧
    ∀ j, t.judged x K = some j →
      (j.judgement = .clear → armedRuns x K (tr ++ [t]) = [] ∧ calledRuns x K (tr ++ [t]) = []) ∧
      (j.judgement ≠ .clear → armedRuns x K (tr ++ [t]) = armedRuns x K tr ++ j.armed.toList ∧
        calledRuns x K (tr ++ [t]) = calledRuns x K tr ++ j.call.toList) := by
  rw [armedRuns_snoc, calledRuns_snoc]
  refine ⟨?_, ?_⟩
  · intro hj
    have hc : ¬ t.clears x K = true := by
      rw [clears_iff, hj]
      simp
    rw [if_neg hc, if_neg hc, hj]
    exact ⟨List.append_nil _, List.append_nil _⟩
  · intro j hj
    refine ⟨?_, ?_⟩
    · intro hclear
      have hc : t.clears x K = true := clears_iff.mpr ⟨j, hj, hclear⟩
      rw [if_pos hc, if_pos hc]
      exact ⟨rfl, rfl⟩
    · intro hclear
      have hc : ¬ t.clears x K = true := by
        rw [clears_iff, hj]
        intro ⟨j', h, h'⟩
        obtain rfl := Option.some.inj h
        exact hclear h'
      rw [if_neg hc, if_neg hc, hj]
      exact ⟨rfl, rfl⟩

theorem judged_none {x : Ext} {s s' : Sys} {a : Action} (h : step x s a = some s') {K : Key}
    (he : s'.queue.entries.get? K = none) (hd : ¬ Trans.Drops ⟨s, a, s'⟩ K) :
    Trans.judged x ⟨s, a, s'⟩ K = none := by
  have he0 := entry_kept h hd he
  cases step_inv h with
  | plan q tk wanted now =>
    rw [RunQueue.plan_get?, Option.map_eq_none_iff] at he
    show (wanted.get? K).map _ = none
    rw [he]
    rfl
  | settle q now states asked =>
    show (q.entries.get? K).bind _ = none
    rw [show q.entries.get? K = none from he0]
    rfl
  | failedToStart q now key reason starts =>
    show (if key = K then (q.entries.get? K).map _ else none) = none
    rw [show q.entries.get? K = none from he0]
    split <;> rfl
  | _ => rfl

/-- the retries armed since the last clearing are counted, and the backoff bounds the count -/
structure ArmsOk (x : Ext) (K : Key) (tr : List (Trans Sys Action)) (s : Sys) : Prop where
  absent : s.queue.entries.get? K = none → armedRuns x K tr = []
  bound : (armedRuns x K tr).length ≤ backoff.length
  count : ∀ e, s.queue.entries.get? K = some e → (armedRuns x K tr).length ≤ e.attempts

theorem RetryMove.keeps {t : Trans Sys Action} {K : Key} {e e' : Entry} (h : RetryMove t K e e') :
    e'.attempts = e.attempts ∧ e'.armedFor = e.armedFor := by
  cases h <;> exact ⟨rfl, rfl⟩

theorem armed_length {e : Entry} {run cause : String} {now : Int} {ids : List String}
    (hne : e.armedFor ≠ some run) (hb : ids.length ≤ backoff.length) (hc : ids.length ≤ e.attempts)
    {l : List String}
    (hl : l = [] ∨ (l = [run] ∧ ∃ r, (e.arm run cause now).retry = some r)) :
    (ids ++ l).length ≤ backoff.length ∧
      (ids ++ l).length ≤ (e.arm run cause now).attempts := by
  have hatt : (e.arm run cause now).attempts = min (e.attempts + 1) (2 ^ 64 - 1) := by
    unfold Entry.arm
    rw [if_neg hne]
  have hthree : backoff.length = 3 := rfl
  rw [hatt]
  rcases hl with rfl | ⟨rfl, r, hr⟩
  · rw [List.append_nil]
    exact ⟨hb, by omega⟩
  · obtain ⟨⟨wait, hw, _⟩, _⟩ := Entry.arm_retry hne hr
    have hlt : e.attempts < backoff.length := (List.getElem?_eq_some_iff.mp hw).1
    rw [List.length_append, List.length_singleton]
    omega

theorem armsOk_step {x : Ext} {K : Key} {tr : List (Trans Sys Action)} {s s' : Sys} {a : Action}
    (h : step x s a = some s') (hd : ¬ Trans.Drops ⟨s, a, s'⟩ K) (hs : ArmsOk x K tr s) :
    ArmsOk x K (tr ++ [⟨s, a, s'⟩]) s' := by
  obtain ⟨hnone, hsome⟩ := runs_snoc x K tr ⟨s, a, s'⟩
  cases he' : s'.queue.entries.get? K with
  | none =>
    have hj := judged_none h he' hd
    have hnil : armedRuns x K (tr ++ [⟨s, a, s'⟩]) = [] :=
      (hnone hj).1.trans (hs.absent (entry_kept h hd he'))
    exact ⟨fun _ => hnil, by rw [hnil]; simp, fun e h => absurd h (by rw [he']; simp)⟩
  | some e' =>
    obtain ⟨e₀, e₁, e₂, hfrom, hto, hmove, hsame, _⟩ := retry_step h he'
    have h0 : (armedRuns x K tr).length ≤ e₀.attempts := by
      rcases hfrom with ⟨e, he, hse, _⟩ | ⟨he, p, next, now, rfl⟩
      · rw [hse.attempts]
        exact hs.count e he
      · rw [hs.absent he]
        exact Nat.zero_le _
    have h1 : (armedRuns x K (tr ++ [⟨s, a, s'⟩])).length ≤ backoff.length ∧
        (armedRuns x K (tr ++ [⟨s, a, s'⟩])).length ≤ e₁.attempts := by
      cases hto with
      | unjudged hj =>
        rw [(hnone hj).1]
        exact ⟨hs.bound, h0⟩
      | judged j hj hje =>
        subst hje
        cases j.cases with
        | leave hne hcall harmed hafter =>
          rw [((hsome j hj).2 hne).1, harmed, Option.toList_none, List.append_nil, hafter]
          exact ⟨hs.bound, h0⟩
        | clear hc hafter =>
          rw [((hsome j hj).1 hc).1]
          exact ⟨Nat.zero_le _, Nat.zero_le _⟩
        | arm run cause hc hne hcall hafter harmed =>
          rw [((hsome j hj).2 (by rw [hc]; simp)).1, hafter]
          refine armed_length hne hs.bound h0 ?_
          rcases harmed with harmed | ⟨harmed, r, _, hr⟩
          · exact Or.inl (by rw [harmed]; rfl)
          · exact Or.inr ⟨by rw [harmed]; rfl, r, by rwa [hafter] at hr⟩
    refine ⟨fun h => absurd h (by rw [he']; simp), h1.1, fun e he => ?_⟩
    obtain rfl := Option.some.inj (he'.symm.trans he)
    rw [hsame.attempts, hmove.keeps.1]
    exact h1.2

/-- **Between two clearings at most one retry for each step of the backoff is armed.** -/
theorem armed_le_backoff (x : Ext) (batch short : Nat) {tr : List (Trans Sys Action)} {s : Sys}
    (hr : Run (step x) (Sys.start batch short) tr s) {K : Key} (hd : ∀ t ∈ tr, ¬ t.Drops K) :
    (armedRuns x K tr).length ≤ backoff.length := by
  have h0 : ArmsOk x K [] (Sys.start batch short) :=
    ⟨fun _ => rfl, Nat.zero_le _, fun e he => absurd he (by simp [Sys.start, RunQueue.new])⟩
  exact (Run.history (I := ArmsOk x K) (C := fun t => ¬ t.Drops K) h0
    (fun tr s a s' _ h hC hs => armsOk_step h hC hs) hr hd).bound

/-- **A retry is armed for a time before the clock's.** -/
theorem armed_before_next {j : Judged} {r : Retry} (hr : j.retry = some r) {next : Int}
    (hn : j.entry.next = some next) : r.due < next := by
  unfold Judged.retry at hr
  split at hr
  · split at hr
    · exact absurd hr (by simp)
    · rename_i hne
      exact (Entry.arm_retry hne hr).2.2 next hn
  · exact absurd hr (by simp)

/-! ## by one run each -/

/-- the run a judgement arms a retry for -/
def Entry.Judgement.run : Entry.Judgement → Option String
  | .arm run _ => some run
  | _ => none

namespace Trans

/-- where a plan arms a retry from the log, the log names the pipeline's last run, or a run before
its first one here -/
def LogNamesLast (t : Trans Sys Action) (K : Key) : Prop :=
  ∀ _w ∈ t.planned, ∀ e ∈ t.entry K,
    ∀ run ∈ (e.judgement (t.before.queue.failed.map (fun failed => failed.get? K))).run,
      e.run = some run ∨ (e.run = none ∧ (e.armedFor = none ∨ e.armedFor = some run))

/-- no settle starts a run under the id of one that armed a retry, but for the last such -/
def FreshId (x : Ext) (K : Key) (l : List (Trans Sys Action)) (t : Trans Sys Action) : Prop :=
  ∀ st ∈ t.starts, st.key = K → st.run ∈ calledRuns x K (l ++ [t]) →
    ∃ e ∈ t.entryAfter K, e.armedFor = some st.run

end Trans

theorem judged_run {x : Ext} {t : Trans Sys Action} {K : Key} {j : Judged} {run cause : String}
    (hlog : t.LogNamesLast K) (hj : t.judged x K = some j) (hc : j.judgement = .arm run cause) :
    j.entry.run = some run ∨
      (j.entry.run = none ∧ (j.entry.armedFor = none ∨ j.entry.armedFor = some run)) := by
  unfold Trans.judged at hj
  split at hj
  · rename_i wanted now ha
    obtain ⟨p, _, rfl⟩ := Option.map_eq_some_iff.mp hj
    simp only at hc ⊢
    cases he : t.entry K with
    | none => exact Or.inr ⟨rfl, Or.inl rfl⟩
    | some e =>
      rw [he] at hc
      have hplan : (e.plan p now).judgement
          (t.before.queue.failed.map (fun failed => failed.get? K)) = .arm run cause := hc
      have hjudge : e.judgement (t.before.queue.failed.map (fun failed => failed.get? K)) =
          .arm run cause := by
        rw [← hplan]
        unfold Entry.plan
        split <;> rfl
      show (e.plan p now).run = _ ∨ ((e.plan p now).run = none ∧
        ((e.plan p now).armedFor = none ∨ (e.plan p now).armedFor = _))
      have hrun : (e.plan p now).run = e.run ∧ (e.plan p now).armedFor = e.armedFor := by
        unfold Entry.plan
        split <;> exact ⟨rfl, rfl⟩
      rw [hrun.1, hrun.2]
      exact hlog (wanted, now) (by unfold Trans.planned; rw [ha]; rfl) e he run
        (by rw [hjudge]; rfl)
  · obtain ⟨e, _, h⟩ := Option.bind_eq_some_iff.mp hj
    obtain ⟨r, _, rfl⟩ := Option.map_eq_some_iff.mp h
    rcases lost_cases e r.2.1 r.2.2 with hl | ⟨run', cause', hl, hrun⟩
    · exact absurd (hl.symm.trans hc) (by simp)
    · obtain ⟨rfl, rfl⟩ := Entry.Judgement.arm.inj (hl.symm.trans hc)
      exact Or.inl hrun
  · split at hj
    · obtain ⟨e, _, rfl⟩ := Option.map_eq_some_iff.mp hj
      simp only at hc ⊢
      split at hc
      · exact absurd hc (by simp)
      · rename_i run' hrun
        obtain ⟨rfl, rfl⟩ := Entry.Judgement.arm.inj hc
        exact Or.inl hrun
    · exact absurd hj (by simp)
  · exact absurd hj (by simp)

/-- no run has armed twice, and of those that have only the last is known by name -/
structure IdsOk (x : Ext) (K : Key) (tr : List (Trans Sys Action)) (s : Sys) : Prop where
  nodup : (calledRuns x K tr).Nodup
  absent : s.queue.entries.get? K = none → calledRuns x K tr = []
  unarmed : ∀ e, s.queue.entries.get? K = some e → e.armedFor = none → calledRuns x K tr = []
  last : ∀ e, s.queue.entries.get? K = some e → ∀ run, e.run = some run →
    run ∈ calledRuns x K tr → e.armedFor = some run

/-- the same of an entry in the middle of a step -/
def IdsAt (ids : List String) (e : Entry) : Prop :=
  ids.Nodup ∧ (e.armedFor = none → ids = []) ∧
    ∀ run, e.run = some run → run ∈ ids → e.armedFor = some run

theorem idsAt_arm {ids : List String} {e : Entry} {run cause : String} {now : Int}
    (h : IdsAt ids e) (hne : e.armedFor ≠ some run)
    (hrun : e.run = some run ∨ (e.run = none ∧ (e.armedFor = none ∨ e.armedFor = some run))) :
    IdsAt (ids ++ [run]) (e.arm run cause now) := by
  have hfor : (e.arm run cause now).armedFor = some run := by
    unfold Entry.arm
    rw [if_neg hne]
  have hnew : run ∉ ids := by
    intro hmem
    rcases hrun with hrun | ⟨_, hnone | hsome⟩
    · exact hne (h.2.2 run hrun hmem)
    · rw [h.2.1 hnone] at hmem
      exact absurd hmem (by simp)
    · exact hne hsome
  refine ⟨?_, fun hnone => absurd (hfor.symm.trans hnone) (by simp), fun run' hr _ => ?_⟩
  · refine h.1.append (List.nodup_singleton run) ?_
    rw [List.disjoint_singleton]
    exact hnew
  · rw [(e.arm_retryOnly run cause now).run] at hr
    rcases hrun with hrun | ⟨hnone, _⟩
    · rw [hfor, ← hrun, hr]
    · exact absurd (hr.symm.trans hnone) (by simp)

theorem idsOk_step {x : Ext} {K : Key} {tr : List (Trans Sys Action)} {s s' : Sys} {a : Action}
    (h : step x s a = some s') (hd : ¬ Trans.Drops ⟨s, a, s'⟩ K)
    (hlog : Trans.LogNamesLast ⟨s, a, s'⟩ K) (hfresh : Trans.FreshId x K tr ⟨s, a, s'⟩)
    (hs : IdsOk x K tr s) : IdsOk x K (tr ++ [⟨s, a, s'⟩]) s' := by
  obtain ⟨hnone, hsome⟩ := runs_snoc x K tr ⟨s, a, s'⟩
  cases he' : s'.queue.entries.get? K with
  | none =>
    have hj := judged_none h he' hd
    have hnil : calledRuns x K (tr ++ [⟨s, a, s'⟩]) = [] :=
      (hnone hj).2.trans (hs.absent (entry_kept h hd he'))
    exact ⟨by rw [hnil]; exact List.nodup_nil, fun _ => hnil,
      fun e h => absurd h (by rw [he']; simp), fun e h => absurd h (by rw [he']; simp)⟩
  | some e' =>
    obtain ⟨e₀, e₁, e₂, hfrom, hto, hmove, hsame, hrun⟩ := retry_step h he'
    have h0 : IdsAt (calledRuns x K tr) e₀ := by
      rcases hfrom with ⟨e, he, hse, hrun⟩ | ⟨he, p, next, now, rfl⟩
      · refine ⟨hs.nodup, fun hn => hs.unarmed e he (by rw [← hse.armedFor, hn]), ?_⟩
        intro run hr hm
        rw [hse.armedFor]
        exact hs.last e he run (by rw [← hrun, hr]) hm
      · rw [hs.absent he]
        exact ⟨List.nodup_nil, fun _ => rfl, fun run _ hm => absurd hm (by simp)⟩
    have h1 : IdsAt (calledRuns x K (tr ++ [⟨s, a, s'⟩])) e₁ ∧ e₁.run = e₀.run := by
      cases hto with
      | unjudged hj =>
        rw [(hnone hj).2]
        exact ⟨h0, rfl⟩
      | judged j hj hje =>
        subst hje
        cases j.cases with
        | leave hne hcall harmed hafter =>
          rw [((hsome j hj).2 hne).2, hcall, Option.toList_none, List.append_nil, hafter]
          exact ⟨h0, rfl⟩
        | clear hc hafter =>
          rw [((hsome j hj).1 hc).2, hafter]
          exact ⟨⟨List.nodup_nil, fun _ => rfl, fun run _ hm => absurd hm (by simp)⟩, rfl⟩
        | arm run cause hc hne hcall hafter harmed =>
          rw [((hsome j hj).2 (by rw [hc]; simp)).2, hafter, hcall]
          exact ⟨idsAt_arm h0 hne (judged_run hlog hj hc), (j.entry.arm_retryOnly ..).run⟩
    have hfor : e'.armedFor = e₁.armedFor := hsame.armedFor.trans hmove.keeps.2
    refine ⟨h1.1.1, fun h => absurd h (by rw [he']; simp), ?_, ?_⟩
    · intro e he hn
      obtain rfl := Option.some.inj (he'.symm.trans he)
      exact h1.1.2.1 (hfor.symm.trans hn)
    · intro e he run hr hm
      obtain rfl := Option.some.inj (he'.symm.trans he)
      rcases hrun with hrun | ⟨st, hst, hkey, hrun⟩
      · rw [hfor]
        exact h1.1.2.2 run (by rw [h1.2, ← hrun, hr]) hm
      · obtain rfl := Option.some.inj (hrun.symm.trans hr)
        obtain ⟨e, he, harmed⟩ := hfresh st hst hkey hm
        obtain rfl := Option.some.inj (he'.symm.trans he)
        exact harmed

theorem armedRuns_sublist (x : Ext) (K : Key) (tr : List (Trans Sys Action)) :
    (armedRuns x K tr).Sublist (calledRuns x K tr) := by
  induction tr using List.reverseRecOn with
  | nil => exact List.Sublist.slnil
  | append_singleton tr t ih =>
    obtain ⟨hnone, hsome⟩ := runs_snoc x K tr t
    cases hj : t.judged x K with
    | none =>
      rw [(hnone hj).1, (hnone hj).2]
      exact ih
    | some j =>
      cases j.cases with
      | leave hne hcall harmed hafter =>
        rw [((hsome j hj).2 hne).1, ((hsome j hj).2 hne).2, hcall, harmed]
        exact ih.append (List.Sublist.refl _)
      | clear hc hafter =>
        rw [((hsome j hj).1 hc).1, ((hsome j hj).1 hc).2]
      | arm run cause hc hne hcall hafter harmed =>
        have hnc : j.judgement ≠ .clear := by rw [hc]; simp
        rw [((hsome j hj).2 hnc).1, ((hsome j hj).2 hnc).2, hcall]
        refine ih.append ?_
        rcases harmed with harmed | ⟨harmed, _⟩
        · rw [harmed]
          exact List.nil_sublist _
        · rw [harmed]

/-- **No run arms two retries between two clearings**, while the log names the last run and ids are
not used again. -/
theorem armed_once (x : Ext) (batch short : Nat) {tr : List (Trans Sys Action)} {s : Sys}
    (hr : Run (step x) (Sys.start batch short) tr s) {K : Key} (hd : ∀ t ∈ tr, ¬ t.Drops K)
    (hlog : ∀ t ∈ tr, t.LogNamesLast K)
    (hfresh : ∀ l t l', tr = l ++ t :: l' → t.FreshId x K l) : (armedRuns x K tr).Nodup := by
  have h0 : IdsOk x K [] (Sys.start batch short) :=
    ⟨List.nodup_nil, fun _ => rfl, fun e he => absurd he (by simp [Sys.start, RunQueue.new]),
      fun e he => absurd he (by simp [Sys.start, RunQueue.new])⟩
  have hinv := Run.traced (I := IdsOk x K)
    (C := fun l t => ¬ t.Drops K ∧ t.LogNamesLast K ∧ t.FreshId x K l) h0
    (fun tr s a s' _ h hC hs => idsOk_step h hC.1 hC.2.1 hC.2.2 hs) hr (fun l t l' e =>
      ⟨hd t (by simp [e]), hlog t (by simp [e]), hfresh l t l' e⟩)
  exact (armedRuns_sublist x K tr).nodup hinv.nodup

/-- **Retries are bounded**, over every run of the queue whose readings never decrease and that
keeps the pipeline. -/
theorem retries_bounded (x : Ext) (batch short : Nat) {tr : List (Trans Sys Action)} {s : Sys}
    (hr : Run (step x) (Sys.start batch short) tr s) {K : Key}
    (ht : (readings tr).Pairwise (fun m n => m ≤ n)) (hd : ∀ t ∈ tr, ¬ t.Drops K) :
    Within Time.day retriesPerDay (retryTimes K tr) ∧
    (armedRuns x K tr).length ≤ backoff.length ∧
    (∀ t ∈ tr, ∀ j ∈ t.judged x K, ∀ r ∈ j.retry, ∀ next ∈ j.entry.next, r.due < next) ∧
    ((∀ t ∈ tr, t.LogNamesLast K) → (∀ l t l', tr = l ++ t :: l' → t.FreshId x K l) →
      (armedRuns x K tr).Nodup) :=
  ⟨retries_within_day x batch short hr ht hd, armed_le_backoff x batch short hr hd,
    fun _ _ _ _ _ hr _ hn => armed_before_next hr hn,
    fun hlog hfresh => armed_once x batch short hr hd hlog hfresh⟩

/-! ## runs -/

instance (t : Trans Sys Action) (K : Key) : Decidable (t.LogNamesLast K) :=
  inferInstanceAs (Decidable (∀ _w ∈ t.planned, ∀ e ∈ t.entry K,
    ∀ run ∈ (e.judgement (t.before.queue.failed.map (fun failed => failed.get? K))).run,
      e.run = some run ∨ (e.run = none ∧ (e.armedFor = none ∨ e.armedFor = some run))))

instance (x : Ext) (K : Key) (l : List (Trans Sys Action)) (t : Trans Sys Action) :
    Decidable (t.FreshId x K l) :=
  inferInstanceAs (Decidable (∀ st ∈ t.starts, st.key = K → st.run ∈ calledRuns x K (l ++ [t]) →
    ∃ e ∈ t.entryAfter K, e.armedFor = some st.run))

def daily (stream : Value) : Planned := ⟨stream, .every (Duration.ofSecs 86400) 0, true⟩

def planDaily (now : Int) : Action := .plan (OrdMap.ofList [(keyA, daily streamA)]) now

/-- the log names the run of the daily pipeline due at `due` as failed -/
def logNames (due : Int) : Action :=
  .tell (.failed (OrdMap.ofList [(keyA, (stamp due, "the broker refused its writes (503)"))]))

/-- a tick that starts the daily pipeline -/
def startTick (now : Int) (sweeps : List Key) : List Action :=
  tickTo now sweeps [] ++ [.takeEnds, .call (.start keyA streamA none), .done]

/-- a tick that ends its run due at `due` -/
def endTick (now due : Int) (state : RunState) : List Action :=
  tickTo now [] [(keyA, state)] ++ [.call (.delete keyA true), .takeEnds,
    .call (.ended ⟨keyA, stamp due, decide (state = .finished), sampleExt.streamHash streamA⟩),
    .done]

/-- a failed run, and a retry of it that the runner loses -/
def retriedOnce : List Action := List.flatten [
  [.tell (.ran OrdMap.empty), planDaily 0],
  startTick 0 [keyA],
  endTick (60 * Time.second) 0 .finished,
  [logNames 0, planDaily (120 * Time.second), planDaily (1020 * Time.second)],
  startTick (1020 * Time.second) [],
  endTick (1080 * Time.second) (1020 * Time.second) .gone]

/-- the retry of the lost one finishes, and a log read late still names the first run -/
def lateLog : List Action := List.flatten [
  retriedOnce,
  [planDaily (4680 * Time.second)],
  startTick (4680 * Time.second) [],
  endTick (4740 * Time.second) (4680 * Time.second) .finished,
  [logNames 0, planDaily (4800 * Time.second)]]

/-- two runs arm a retry each -/
theorem retriedOnce_bounded :
    ∃ tr s, Run (step sampleExt) (Sys.start 1 1) tr s ∧
      armedRuns sampleExt keyA tr = [stamp 0, stamp (1020 * Time.second)] ∧
      Within Time.day retriesPerDay (retryTimes keyA tr) ∧ (armedRuns sampleExt keyA tr).Nodup := by
  have hr : Run (step sampleExt) (Sys.start 1 1)
      (trace (step sampleExt) (Sys.start 1 1) retriedOnce)
      (final (step sampleExt) (Sys.start 1 1) retriedOnce) := run_trace (by decide +kernel)
  obtain ⟨hw, _, _, honce⟩ := retries_bounded sampleExt 1 1 (K := keyA) hr (by decide +kernel)
    (by decide +kernel)
  exact ⟨_, _, hr, by decide +kernel, hw, honce (by decide +kernel)
    (fun l t l' e => forall_cut (by decide +kernel) e)⟩

/-- **A run that the log names late arms a second retry.** -/
theorem armed_twice :
    ¬ ∀ (x : Ext) (batch short : Nat) (tr : List (Trans Sys Action)) (s : Sys) (K : Key),
      Run (step x) (Sys.start batch short) tr s → (readings tr).Pairwise (fun m n => m ≤ n) →
      (∀ t ∈ tr, ¬ t.Drops K) → (armedRuns x K tr).Nodup := by
  intro h
  have hr : Run (step sampleExt) (Sys.start 1 1) (trace (step sampleExt) (Sys.start 1 1) lateLog)
      (final (step sampleExt) (Sys.start 1 1) lateLog) := run_trace (by decide +kernel)
  exact absurd (h sampleExt 1 1 _ _ keyA hr (by decide +kernel) (by decide +kernel))
    (by decide +kernel)

end Portal
