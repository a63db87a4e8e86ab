import Portal.RunQueue.Tick

/-!
# A scheduled pipeline does not stop

An entry whose `next` is gone is due no more until a plan changes it.  `next` is what the clock
answers at the reading of a plan or of a tick, so a pipeline goes on as long as its clock does: a
period up to the last instant an instant can name, a schedule as long as it fires again within the
year that is scanned.

* `Clock.Meets`, `Clock.Answers`   the clock fires again in reach, and answers when;
* `next_due`              a clock answers the least instant after `t` exactly where it fires in
                          reach, and an entry on a clock that does at every reading has a next due
                          time;
* `leap_day_not_found`    29 February is out of reach in most years.
-/

namespace Portal

namespace Clock

/-- what the search for the next instant after `t` reaches: a year of minutes; every multiple of a
period that fits a signed 64-bit word; of a longer one the first instant of its phase, if the period
cut to a word is as long as the way there, or is the lowest word -/
def Reaches (c : Clock) (t u : Int) : Prop :=
  match c with
  | .once => False
  | .every p phase => Duration.asMillis p < 2 ^ 63 ∨ (Time.millis t < Duration.asMillis phase ∧
      (Duration.asMillis phase - Time.millis t ≤ asI64 (Duration.asMillis p) ∨
        asI64 (Duration.asMillis p) = -2 ^ 63))
  | .cron _ => u ≤ Time.floorMinute t + 366 * Time.day

/-- the clock fires after `t`, in reach and at an instant that can be named -/
def Meets (c : Clock) (t : Int) : Prop :=
  ∃ u, t < u ∧ c.FiresAt u ∧ Time.millis u ≤ Time.maxMillis ∧ c.Reaches t u

/-- it answers the least instant after `t` at which it fires -/
def Answers (c : Clock) (t : Int) : Prop :=
  ∃ u, c.nextAfter t = some u ∧ IsLeast {u | t < u ∧ c.FiresAt u} u ∧
    Time.millis u ≤ Time.maxMillis

end Clock

def Time.Representable (t : Int) : Prop :=
  Time.minMillis ≤ Time.millis t ∧ Time.millis t ≤ Time.maxMillis

instance (t : Int) : Decidable (Time.Representable t) :=
  inferInstanceAs (Decidable (Time.minMillis ≤ Time.millis t ∧ Time.millis t ≤ Time.maxMillis))

/-! ## the schedule -/

theorem cron_answers_iff (c : Cron) (t : Int) :
    (Clock.cron c).Answers t ↔ (Clock.cron c).Meets t := by
  constructor
  · intro ⟨u, hu, hleast, hmax⟩
    exact ⟨u, hleast.1.1, hleast.1.2, hmax, ((c.nextAfter_iff t u).mp hu).2⟩
  · intro ⟨u, hlt, hfires, hmax, hreach⟩
    obtain ⟨v, hn⟩ := Cron.nextAfter_of_fires hlt hfires hreach
    obtain ⟨hleast, _⟩ := (c.nextAfter_iff t v).mp hn
    refine ⟨v, hn, hleast, ?_⟩
    have hle : v ≤ u := hleast.2 ⟨hlt, hfires⟩
    unfold Time.millis at *
    omega

/-- a schedule that is not in reach, though the year after `t` is, knows no date but 29 February -/
theorem leapDay_of_not_meets {text : String} {c : Cron} (hp : Cron.parse text = some c) {t : Int}
    (hyear : Time.millis (t + 366 * Time.day) ≤ Time.maxMillis) (hno : ¬ (Clock.cron c).Meets t)
    {u : Int} (hu : (Clock.cron c).FiresAt u) : Time.monthOf u = 2 ∧ Time.dayOf u = 29 := by
  refine Cron.leapDay_of_not_namesYearly (fun hy => hno ?_) hu.2
  obtain ⟨v, h1, h2, h3⟩ := Cron.fires_within_of_namesYearly hp hy t
  refine ⟨v, h1, h2, ?_, h3⟩
  have hfloor : Time.floorMinute t ≤ t := by
    unfold Time.floorMinute Time.minute Time.second
    omega
  unfold Time.millis at *
  omega

/-! ## the period -/

theorem phase_lt (c : Cron) (p : Nat) : Duration.asMillis (c.phase p) < 2 ^ 40 := by
  have hsince : ∀ first, c.nextAfter (0 - Time.minute) = some first →
      Duration.asMillis (Duration.ofSpan first) < 2 ^ 40 := by
    intro first hf
    have hle := ((c.nextAfter_iff _ _).mp hf).2
    unfold Duration.asMillis Duration.ofSpan
    unfold Time.floorMinute Time.day Time.hour Time.minute Time.second at hle
    omega
  have hmod : ∀ since, Duration.asMillis since < 2 ^ 40 → Duration.asMillis (Duration.ofMillis
      (asU64 (Duration.asMillis since % max (Duration.asMillis p) 1))) < 2 ^ 40 := by
    intro since hlt
    have hle : Duration.asMillis since % max (Duration.asMillis p) 1 ≤ Duration.asMillis since :=
      Nat.mod_le _ _
    unfold asU64 Duration.ofMillis
    unfold Duration.asMillis at *
    omega
  unfold Cron.phase
  refine hmod _ ?_
  split
  · decide
  · rename_i first hf
    exact hsince first hf

theorem of_every {period schedule : Option String} {p phase : Nat}
    (h : Clock.of period schedule = .ok (.every p phase)) :
    1000 ≤ Duration.asMillis p ∧ Duration.asMillis phase < 2 ^ 40 := by
  have hperiod : ∀ text cron, Clock.ofPeriod text cron = .ok (.every p phase) →
      1000 ≤ Duration.asMillis p ∧ Duration.asMillis phase < 2 ^ 40 := by
    intro text cron hp
    unfold Clock.ofPeriod at hp
    split at hp
    · exact absurd hp (by simp)
    · rename_i p' hf
      obtain ⟨rfl, hph⟩ := Clock.every.inj (Except.ok.inj hp)
      refine ⟨?_, ?_⟩
      · have hge := (Option.filter_eq_some_iff.mp hf).2
        simp only [decide_eq_true_eq] at hge
        unfold Duration.ofSecs at hge
        unfold Duration.asMillis
        omega
      · rw [← hph]
        split
        · decide
        · exact phase_lt _ _
  unfold Clock.of at h
  split at h
  · split at h
    · exact absurd (Except.ok.inj h) (by simp)
    · exact hperiod _ _ h
  · split at h
    · exact absurd h (by simp)
    · split at h
      · exact absurd (Except.ok.inj h) (by simp)
      · exact hperiod _ _ h

/-- **A period answers its next multiple**, if that can be named. -/
theorem every_nextAfter {p phase : Nat} {t : Int} (he : 0 < Duration.asMillis p)
    (hfit : Duration.asMillis p < 2 ^ 63) (hph : Duration.asMillis phase < 2 ^ 40)
    (ht : Time.Representable t) :
    (Clock.every p phase).nextAfter t =
      if leastAfter (Duration.asMillis p) (Duration.asMillis phase) (Time.millis t)
        ≤ Time.maxMillis
      then some (leastAfter (Duration.asMillis p) (Duration.asMillis phase) (Time.millis t)
        * 1000000) else none := by
  have hmin : Time.minMillis = -8334601228800000 := by decide
  have hmax : Time.maxMillis = 8210266876799999 := by decide
  show everyNext p phase t = _
  rw [everyNext_eq he hfit hph ht.1 ht.2]
  have hgt := leastAfter_gt he (Duration.asMillis phase) (Time.millis t)
  have hle : leastAfter (Duration.asMillis p) (Duration.asMillis phase) (Time.millis t)
      ≤ Time.millis t + Duration.asMillis p := by
    have := Int.ediv_mul_le (Time.millis t - Duration.asMillis phase)
      (show (Duration.asMillis p : Int) ≠ 0 by omega)
    unfold leastAfter
    rw [Int.add_mul]
    omega
  obtain ⟨h1, h2⟩ := ht
  generalize leastAfter (Duration.asMillis p) (Duration.asMillis phase) (Time.millis t) = L at *
  unfold Time.ofMillis
  by_cases hL : L < 2 ^ 63
  · rw [asI64_of_bounds (by omega) hL]
    by_cases hLmax : L ≤ Time.maxMillis
    · rw [if_pos ⟨by omega, hLmax⟩, if_pos hLmax]
    · rw [if_neg (fun h => hLmax h.2), if_neg hLmax]
  · -- the word wraps below the first instant
    have hwrap : asI64 L = L - 2 ^ 64 := by
      unfold asI64
      rw [Int.bmod_def]
      omega
    rw [hwrap, if_neg (by omega), if_neg (by omega)]

/-- where a period that does not fit its word comes out at zero multiples of itself all the same:
its word is as long as the way to the phase, or the lowest of all -/
theorem dvd_wrapped_iff {d w : Int} (hd : 0 < d) (hd' : d < 2 ^ 54) (hw : w ≠ 0)
    (h1 : -2 ^ 63 ≤ w) (h2 : w < 2 ^ 63) :
    (2 ^ 64 : Int) ∣ (-d / w + 1) * w ↔ d ≤ w ∨ w = -2 ^ 63 := by
  have hdiv := Int.mul_ediv_add_emod (-d) w
  have hr0 := Int.emod_nonneg (-d) hw
  have hmul : (-d / w + 1) * w = -d - -d % w + w := by
    rw [Int.add_mul, Int.mul_comm (-d / w) w]
    omega
  rcases lt_or_gt_of_ne hw with hneg | hpos
  · have hr : -d % w < -w := by
      have := Int.emod_lt_abs (-d) hw
      rwa [abs_of_neg hneg] at this
    have hq : 1 ≤ -d / w := by
      by_contra hq
      have := Int.mul_nonneg_of_nonpos_of_nonpos (le_of_lt hneg) (show -d / w ≤ 0 by omega)
      omega
    constructor
    · intro ⟨k, hk⟩
      refine Or.inr ?_
      by_cases hq1 : -d / w = 1
      · rw [hq1] at hk
        omega
      · have : 3 * w ≥ (-d / w + 1) * w :=
          Int.mul_le_mul_of_nonpos_right (show (3 : Int) ≤ -d / w + 1 by omega) (le_of_lt hneg)
        omega
    · intro h
      have hw' : w = -2 ^ 63 := h.resolve_left (by omega)
      subst hw'
      omega
  · have hr := Int.emod_lt_of_pos (-d) hpos
    constructor
    · intro ⟨k, hk⟩
      omega
    · intro h
      have hle : d ≤ w := h.resolve_right (by omega)
      have hq : -d / w = -1 := by
        rw [Int.ediv_eq_iff_of_pos hpos]
        omega
      rw [hq]
      simp

theorem asI64_bounds (n : Int) : -2 ^ 63 ≤ asI64 n ∧ asI64 n < 2 ^ 63 := by
  unfold asI64
  rw [Int.bmod_def]
  omega

theorem asI64_add_eq_iff {a b : Int} (h1 : -2 ^ 63 ≤ b) (h2 : b < 2 ^ 63) :
    asI64 (a + b) = b ↔ (2 ^ 64 : Int) ∣ a := by
  unfold asI64
  rw [Int.bmod_def]
  omega

/-- before its phase a period that does not fit its word answers the phase by that accident alone -/
theorem everyNext_of_overlong {p phase : Nat} {t : Int} (hph : Duration.asMillis phase < 2 ^ 40)
    (ht : Time.Representable t) (hlt : Time.millis t < Duration.asMillis phase) :
    everyNext p phase t = some ((Duration.asMillis phase : Int) * 1000000) ↔
      Duration.asMillis phase - Time.millis t ≤ asI64 (Duration.asMillis p) ∨
        asI64 (Duration.asMillis p) = -2 ^ 63 := by
  have hmin : Time.minMillis = -8334601228800000 := by decide
  have hmax : Time.maxMillis = 8210266876799999 := by decide
  obtain ⟨ht1, ht2⟩ := ht
  obtain ⟨hw1, hw2⟩ := asI64_bounds (Duration.asMillis p)
  unfold everyNext
  simp only
  generalize asI64 (Duration.asMillis p) = w at *
  generalize hP : (Duration.asMillis phase : Int) = P at *
  generalize Time.millis t = T at *
  have hP2 : P < 2 ^ 40 := by omega
  by_cases hw : w = 0
  · rw [if_pos hw]
    exact ⟨fun h => absurd h (by simp), fun h => by omega⟩
  have hq : -2 ^ 62 ≤ (T - P) / w ∧ (T - P) / w < 2 ^ 62 := by
    have h := Int.natAbs_ediv_le_natAbs (T - P) w
    omega
  have hinner : asI64 (asI64 (asI64 (T - P) / w + 1) * w) = asI64 (((T - P) / w + 1) * w) := by
    rw [asI64_of_bounds (n := T - P) (by omega) (by omega),
      asI64_of_bounds (n := (T - P) / w + 1) (by omega) (by omega)]
  have hadd : asI64 (asI64 (((T - P) / w + 1) * w) + P) = asI64 (((T - P) / w + 1) * w + P) := by
    unfold asI64
    rw [Int.bmod_add_bmod]
  have hdvd := dvd_wrapped_iff (show 0 < P - T by omega) (by omega) hw hw1 hw2
  rw [show -(P - T) = T - P by omega] at hdvd
  rw [if_neg hw, asI64_of_bounds (n := P) (by omega) (by omega), hinner, hadd, ← hdvd,
    ← asI64_add_eq_iff (b := P) (by omega) (by omega)]
  unfold Time.ofMillis
  constructor
  · intro h
    split at h
    · have := Option.some.inj h
      omega
    · exact absurd h (by simp)
  · intro h
    rw [h, if_pos (by omega)]

/-- the next instant of such a period is the first of its phase, or out of reach of every instant -/
theorem leastAfter_of_overlong {p phase : Nat} {t : Int} (hlong : 2 ^ 63 ≤ Duration.asMillis p)
    (hph : Duration.asMillis phase < 2 ^ 40) (ht : Time.Representable t) :
    (Time.millis t < Duration.asMillis phase →
      leastAfter (Duration.asMillis p) (Duration.asMillis phase) (Time.millis t)
        = Duration.asMillis phase) ∧
    (Duration.asMillis phase ≤ Time.millis t → Time.maxMillis <
      leastAfter (Duration.asMillis p) (Duration.asMillis phase) (Time.millis t)) := by
  have hmin : Time.minMillis = -8334601228800000 := by decide
  have hmax : Time.maxMillis = 8210266876799999 := by decide
  have hpos : (0 : Int) < Duration.asMillis p := by omega
  obtain ⟨ht1, _⟩ := ht
  unfold leastAfter
  refine ⟨fun hlt => ?_, fun hle => ?_⟩
  · have hq : (Time.millis t - Duration.asMillis phase) / (Duration.asMillis p : Int) = -1 := by
      rw [Int.ediv_eq_iff_of_pos hpos]
      omega
    rw [hq]
    omega
  · have hq : 0 ≤ (Time.millis t - Duration.asMillis phase) / (Duration.asMillis p : Int) :=
      Int.ediv_nonneg (by omega) (by omega)
    have hmul := Int.mul_nonneg hq (le_of_lt hpos)
    rw [Int.add_mul]
    omega

theorem every_answers_iff {p phase : Nat} {t : Int} (he : 1000 ≤ Duration.asMillis p)
    (hph : Duration.asMillis phase < 2 ^ 40) (ht : Time.Representable t) :
    (Clock.every p phase).Answers t ↔ (Clock.every p phase).Meets t := by
  have hleast := every_isLeast (show 0 < Duration.asMillis p by omega) phase t
  have hmillis : ∀ n : Int, Time.millis (n * 1000000) = n := by
    intro n
    unfold Time.millis
    omega
  constructor
  · intro ⟨u, hnext, hu, hmax⟩
    obtain rfl := hu.unique hleast
    refine ⟨_, hu.1.1, hu.1.2, hmax, ?_⟩
    by_cases hfit : Duration.asMillis p < 2 ^ 63
    · exact Or.inl hfit
    · obtain ⟨hbefore, hpast⟩ := leastAfter_of_overlong (not_lt.mp hfit) hph ht
      rw [hmillis] at hmax
      have hlt : Time.millis t < Duration.asMillis phase := by
        by_contra hge
        exact absurd hmax (not_le.mpr (hpast (not_lt.mp hge)))
      rw [hbefore hlt] at hnext
      exact Or.inr ⟨hlt, (everyNext_of_overlong hph ht hlt).mp hnext⟩
  · intro ⟨u, hlt, hfires, hmax, hreach⟩
    have hle := hleast.2 ⟨hlt, hfires⟩
    have hL : leastAfter (Duration.asMillis p) (Duration.asMillis phase) (Time.millis t)
        ≤ Time.maxMillis := by
      refine le_trans ?_ hmax
      unfold Time.millis at *
      omega
    refine ⟨_, ?_, hleast, by rw [hmillis]; exact hL⟩
    by_cases hfit : Duration.asMillis p < 2 ^ 63
    · rw [every_nextAfter (by omega) hfit hph ht, if_pos hL]
    · rcases hreach with hfit' | ⟨hphase, hword⟩
      · exact absurd hfit' hfit
      · rw [(leastAfter_of_overlong (not_lt.mp hfit) hph ht).1 hphase]
        show everyNext p phase t = _
        exact (everyNext_of_overlong hph ht hphase).mpr hword

/-- **A clock answers the least instant after `t` exactly where it fires in reach.** -/
theorem clock_answers_iff {period schedule : Option String} {c : Clock}
    (hc : Clock.of period schedule = .ok c) {t : Int} (ht : Time.Representable t) :
    c.Answers t ↔ c.Meets t := by
  cases c with
  | once => exact ⟨fun ⟨_, _, h, _⟩ => h.1.2.elim, fun ⟨_, _, h, _⟩ => h.elim⟩
  | every p phase =>
    obtain ⟨h1, h2⟩ := of_every hc
    exact every_answers_iff h1 h2 ht
  | cron c => exact cron_answers_iff c t

theorem of_cron {period schedule : Option String} {c : Cron}
    (h : Clock.of period schedule = .ok (.cron c)) : ∃ text, Cron.parse text = some c := by
  have hperiod : ∀ text cron, Clock.ofPeriod text cron ≠ .ok (.cron c) := by
    intro text cron hp
    unfold Clock.ofPeriod at hp
    split at hp
    · exact absurd hp (by simp)
    · exact absurd (Except.ok.inj hp) (by simp)
  unfold Clock.of at h
  split at h
  · split at h
    · exact absurd (Except.ok.inj h) (by simp)
    · exact absurd h (hperiod _ _)
  · split at h
    · exact absurd h (by simp)
    · rename_i hp
      split at h
      · obtain rfl := Clock.cron.inj (Except.ok.inj h)
        exact ⟨_, hp⟩
      · exact absurd h (hperiod _ _)

/-! ## the entries -/

theorem first_none {c : Clock} {now : Int} (h : c.first now = none) : c.nextAfter now = none := by
  cases c with
  | once => exact absurd h (by simp [Clock.first])
  | every => exact h
  | cron => exact h

theorem firstOfNew_none {q : RunQueue} {x : Ext} {K : Key} {p : Planned} {now : Int}
    (h : q.firstOfNew x K p now = none) : p.clock.nextAfter now = none := by
  unfold RunQueue.firstOfNew at h
  split at h
  · exact absurd h (by simp)
  · split at h
    · exact first_none h
    · split at h
      · exact absurd h (by simp)
      · exact first_none (Option.or_eq_none_iff.mp h).2

theorem plan_next {x : Ext} {q : RunQueue} {wanted : OrdMap Key Planned} {now : Int} {K : Key}
    {e' : Entry} (he' : (q.plan x wanted now).entries.get? K = some e') :
    (∃ e, q.entries.get? K = some e ∧ e'.next = e.next ∧ e'.clock = e.clock) ∨
      (e'.next = none → e'.clock.nextAfter now = none) := by
  rw [RunQueue.plan_get?, Option.map_eq_some_iff] at he'
  obtain ⟨p, _, rfl⟩ := he'
  rw [(Entry.retries_retryOnly ..).next, (Entry.retries_retryOnly ..).clock]
  cases he : q.entries.get? K with
  | none => exact Or.inr firstOfNew_none
  | some e =>
    show (∃ e', some e = some e' ∧ (e.plan p now).next = e'.next ∧
      (e.plan p now).clock = e'.clock) ∨
        ((e.plan p now).next = none → (e.plan p now).clock.nextAfter now = none)
    unfold Entry.plan
    split
    · exact Or.inl ⟨e, rfl, rfl, rfl⟩
    · refine Or.inr ?_
      show (if p.replace = true ∧ e.stream ≠ p.stream then some now else p.clock.first now) = none →
        p.clock.nextAfter now = none
      split
      · exact fun h => absurd h (by simp)
      · exact first_none

theorem settle_next {x : Ext} {K : Key} {now : Int} {unbound : Bool} {state : Option RunState}
    {timeout : Nat} {e e' : Entry} {l : List Start}
    (m : LaneMove x K now unbound (e.settled state now timeout) e' l) :
    (e'.next = e.next ∧ e'.clock = e.clock) ∨
      (e'.next = none → e'.clock.nextAfter now = none) := by
  obtain ⟨a1, _, a3⟩ := e.afterEnd_fields state now timeout
  rw [m.kept.clock, m.kept.next, (e.settled_inPlace ..).clock]
  unfold Entry.settled
  rw [(Entry.queueRetry_fields _ now).2.2.1]
  unfold Entry.queueDue
  split
  · exact Or.inl ⟨a3, rfl⟩
  · refine Or.inr ?_
    rw [a1.clock]
    exact id

/-- a step leaves the next due time alone or takes it from the clock -/
theorem next_step {x : Ext} {s s' : Sys} {a : Action} (h : step x s a = some s') {K : Key}
    {e' : Entry} (he' : s'.queue.entries.get? K = some e') :
    (∃ e, s.queue.entries.get? K = some e ∧ e'.next = e.next ∧ e'.clock = e.clock) ∨
      ∃ now, (a.reading = some now ∨ s.tick.reading = some now) ∧
        (e'.next = none → e'.clock.nextAfter now = none) := by
  have hm := entry_inv h K
  rw [he'] at hm
  generalize ho : s.queue.entries.get? K = o at hm ⊢
  generalize ho' : some e' = o' at hm
  cases hm with
  | keep a o ha => exact Or.inl ⟨e', ho'.symm, rfl, rfl⟩
  | plan wanted now o =>
    cases h
    rw [← ho]
    exact (plan_next he').imp_right (fun h => ⟨now, Or.inl rfl, h⟩)
  | queueNow key now e hr hst =>
    cases ho'
    exact Or.inl ⟨e, rfl, rfl, rfl⟩
  | sweep now e hr =>
    cases ho'
    exact Or.inl ⟨e, rfl, rfl, rfl⟩
  | settle now states asked e e' ht m =>
    cases ho'
    rcases settle_next m with hsame | hnone
    · exact Or.inl ⟨e, rfl, hsame⟩
    · exact Or.inr ⟨now, Or.inr (by rw [ht]; rfl), hnone⟩
  | hold now ended starts e ht =>
    cases ho'
    exact Or.inl ⟨e, rfl, rfl, rfl⟩
  | fail now reason starts e ht =>
    cases ho'
    obtain ⟨hin, _, _, hnext⟩ := e.failedToStart_fields reason now
    exact Or.inl ⟨e, rfl, hnext, hin.clock⟩

/-- an entry without a next due time is on a clock that answered none at a reading -/
structure NextOk (tr : List (Trans Sys Action)) (s : Sys) : Prop where
  ticking : ∀ n ∈ s.tick.reading, n ∈ readings tr
  next : ∀ K e, s.queue.entries.get? K = some e → e.next = none →
    ∃ n ∈ readings tr, e.clock.nextAfter n = none

theorem nextOk_step {x : Ext} {tr : List (Trans Sys Action)} {s s' : Sys} {a : Action}
    (h : step x s a = some s') (hs : NextOk tr s) : NextOk (tr ++ [⟨s, a, s'⟩]) s' := by
  have hpast := readings_subset_snoc tr ⟨s, a, s'⟩
  refine ⟨ticking_step h hs.ticking, ?_⟩
  intro K e' he' hnone
  rcases next_step h he' with ⟨e, he, hnext, hclock⟩ | ⟨now, hnow, hans⟩
  · obtain ⟨n, hn, hno⟩ := hs.next K e he (hnext.symm.trans hnone)
    exact ⟨n, hpast hn, by rw [hclock]; exact hno⟩
  · refine ⟨now, ?_, hans hnone⟩
    rcases hnow with hn | hn
    · exact mem_readings_snoc tr hn
    · exact hpast (hs.ticking now hn)

/-- **A pipeline goes on as long as its clock does**: the clock answers exactly where it fires in
reach, a schedule that is out of reach knows 29 February alone, and an entry whose clock is in reach
at every reading has a next due time. -/
theorem next_due {period schedule : Option String} {c : Clock}
    (hc : Clock.of period schedule = .ok c) :
    (∀ t, Time.Representable t → (c.Answers t ↔ c.Meets t)) ∧
    (∀ cron, c = .cron cron → ∀ t, Time.millis (t + 366 * Time.day) ≤ Time.maxMillis →
      ¬ c.Meets t → ∀ u, c.FiresAt u → Time.monthOf u = 2 ∧ Time.dayOf u = 29) ∧
    ∀ (x : Ext) (batch short : Nat) (tr : List (Trans Sys Action)) (s : Sys) (K : Key) (e : Entry),
      Run (step x) (Sys.start batch short) tr s → s.queue.entries.get? K = some e → e.clock = c →
      (∀ n ∈ readings tr, Time.Representable n ∧ c.Meets n) → e.next ≠ none := by
  refine ⟨fun t ht => clock_answers_iff hc ht, ?_, ?_⟩
  · intro cron hcron t hyear hno u hu
    subst hcron
    obtain ⟨text, hp⟩ := of_cron hc
    exact leapDay_of_not_meets hp hyear hno hu
  · intro x batch short tr s K e hr he hclock hmeets hnone
    have h0 : NextOk [] (Sys.start batch short) :=
      ⟨fun n hn => absurd hn (by simp [Sys.start, Tick.reading]),
        fun K e he => absurd he (by simp [Sys.start, RunQueue.new])⟩
    have hinv := Run.history (I := NextOk) (C := fun _ => True) h0
      (fun tr s a s' _ h _ hs => nextOk_step h hs) hr (fun _ _ => trivial)
    obtain ⟨n, hn, hno⟩ := hinv.next K e he hnone
    obtain ⟨hrep, hmeet⟩ := hmeets n hn
    obtain ⟨u, hu, _⟩ := (clock_answers_iff hc hrep).mpr hmeet
    rw [hclock, hu] at hno
    exact absurd hno (by simp)

/-! ## two schedules -/

/-- `0 5 * * *` -/
def dailyAtFive : Cron := ⟨1#64, 32#64, 4294967294#64, 8190#64, 255#64, true, true⟩

/-- a daily schedule answers from any start -/
theorem dailyAtFive_next_due :
    Clock.of none (some "0 5 * * *") = .ok (.cron dailyAtFive) ∧
      (Clock.cron dailyAtFive).Answers 0 := by
  have hc : Clock.of none (some "0 5 * * *") = .ok (.cron dailyAtFive) := by rfl
  refine ⟨hc, ((next_due hc).1 0 (by decide)).mpr ?_⟩
  refine ⟨5 * Time.hour, by decide, ⟨by decide, by decide⟩, by decide, ?_⟩
  show 5 * Time.hour ≤ Time.floorMinute 0 + 366 * Time.day
  decide

/-- `0 0 29 2 *` -/
def leapDays : Cron := ⟨1#64, 1#64, 536870912#64, 4#64, 255#64, false, true⟩

theorem leapDays_matches (t : Int) : leapDays.matches t = true ↔
    Time.minuteOf t = 0 ∧ Time.hourOf t = 0 ∧ Time.monthOf t = 2 ∧ Time.dayOf t = 29 := by
  have hmin : ∀ v < 60, has leapDays.minutes v = true ↔ v = 0 := by decide
  have hhour : ∀ v < 24, has leapDays.hours v = true ↔ v = 0 := by decide
  have hmonth : ∀ v < 13, has leapDays.months v = true ↔ v = 2 := by decide
  have hday : ∀ v < 32, has leapDays.days v = true ↔ v = 29 := by decide
  have h1 := Time.monthOf_le t
  have h2 := Time.dayOf_le t
  unfold Cron.matches
  simp only [Bool.and_eq_true]
  rw [hmin _ (Time.minuteOf_lt t), hhour _ (Time.hourOf_lt t), hmonth _ (by omega)]
  show (_ ∧ has leapDays.days (Time.dayOf t) = true) ↔ _
  rw [hday _ (by omega)]
  tauto

theorem leapDays_recurs : (Clock.cron leapDays).Recurs := by
  intro t
  let y : Int := 400 * (t.toNat + 5)
  have hvalid : Calendar.Date.Valid ⟨y, 2, 29⟩ := by
    have hleap : Calendar.isLeap y = true := by
      unfold Calendar.isLeap
      simp only [decide_eq_true_eq]
      omega
    show 1 ≤ 2 ∧ 2 ≤ 12 ∧ 1 ≤ 29 ∧ 29 ≤ Calendar.daysInMonth (Calendar.isLeap y) 2
    rw [hleap]
    decide
  have hdate := Calendar.ofDayNumber_dayNumber _ hvalid
  obtain ⟨p1, p2, p3, p4⟩ := instantOf_parts (Calendar.dayNumber ⟨y, 2, 29⟩)
    (show 0 < 24 by decide) (show 0 < 60 by decide)
  refine ⟨instantOf (Calendar.dayNumber ⟨y, 2, 29⟩) 0 0, ?_, p4, ?_⟩
  · obtain ⟨hb, _⟩ := Calendar.dayNumber_bounds _ hvalid
    unfold Calendar.daysBeforeYear at hb
    unfold instantOf Time.epochDay Time.day Time.hour Time.minute Time.second
    simp only at hb
    omega
  · rw [leapDays_matches]
    unfold Time.monthOf Time.dayOf Time.dateOf
    rw [p1, hdate]
    exact ⟨p3, p2, rfl, rfl⟩

/-- **From 1 March 2025 the next 29 February is out of reach.** -/
theorem leap_day_not_found :
    ¬ ∀ (period schedule : Option String) (c : Clock), Clock.of period schedule = .ok c →
      c.Recurs → ∀ t, Time.Representable t → c.Answers t := by
  intro h
  have hc : Clock.of none (some "0 0 29 2 *") = .ok (.cron leapDays) := by rfl
  have hans := h none (some "0 0 29 2 *") _ hc leapDays_recurs (1740787200 * Time.second)
    (by decide)
  obtain ⟨u, hlt, hfires, _, hreach⟩ := (cron_answers_iff _ _).mp hans
  obtain ⟨_, _, hmonth, hday⟩ := (leapDays_matches u).mp hfires.2
  have hleap := Calendar.ofDayNumber_leapDay hmonth hday
  have hn : 739310 ≤ Time.dayNumberOf u ∧ Time.dayNumberOf u ≤ 739676 := by
    have hfloor : Time.floorMinute (1740787200 * Time.second) = 1740787200 * Time.second := by
      decide
    have hreach' : u ≤ 1740787200 * Time.second + 366 * Time.day := by
      rw [← hfloor]
      exact hreach
    unfold Time.dayNumberOf Time.epochDay Time.day Time.hour Time.minute at *
    unfold Time.second at *
    omega
  by_cases hyear : Time.dayNumberOf u < Calendar.daysBeforeYear 2026
  · have hy : Calendar.yearOf (Time.dayNumberOf u) = 2025 :=
      Calendar.yearOf_unique (le_trans (by decide) hn.1) hyear
    rw [hy] at hleap
    exact absurd hleap (by decide)
  · have hy : Calendar.yearOf (Time.dayNumberOf u) = 2026 :=
      Calendar.yearOf_unique (by omega) (lt_of_le_of_lt hn.2 (by decide))
    rw [hy] at hleap
    exact absurd hleap (by decide)

end Portal
