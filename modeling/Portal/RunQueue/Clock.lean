import Portal.RunQueue.Cron
import Mathlib.Order.Bounds.Basic
import Mathlib.Tactic.Ring

/-!
# When a pipeline runs (`reconciler/run_queue.rs`: `Clock`, `Cron::next_after`)

A clock is read from a pipeline's `period` and `schedule` (`Clock.of`) and answers the first run
strictly after an instant (`Clock.nextAfter`): by arithmetic on milliseconds for a period, by a
minute-by-minute scan of one year for a schedule.

* `Clock.FiresAt`       the instants of a clock, apart from how the next one is found;
* `Cron.nextAfter_iff`  the scan answers the least instant after `t`, within 366 days of it;
* `Cron.nextAfter_of_namesYearly`   one comes within 366 days for every schedule but those that
                        name no date except 29 February;
* `everyNext_iff`       the least instant of a period after `t`.
-/

namespace Portal

open Text

/-! ## the schedule -/

namespace Cron

/-- the scan of `Cron::next_after`: `n` minutes from `t` on -/
def scan (c : Cron) : Nat → Int → Option Int
  | 0, _ => none
  | n + 1, t => if c.matches t then some t else scan c n (t + Time.minute)

def scanMinutes : Nat := 366 * 24 * 60

def nextAfter (c : Cron) (t : Int) : Option Int :=
  c.scan scanMinutes (Time.floorMinute t + Time.minute)

/-- how far into each `every` from 1970-01-01T00:00Z this cron first fires; zero when it does not
within the year that is scanned -/
def phase (c : Cron) (every : Nat) : Nat :=
  let since : Nat :=
    match c.nextAfter (0 - Time.minute) with
    | none => 0
    | some first => Duration.ofSpan first
  Duration.ofMillis (asU64 (Duration.asMillis since % max (Duration.asMillis every) 1))

end Cron

/-! ## the clock -/

inductive Clock where
  /-- neither `period` nor `schedule`: once after apply -/
  | once
  /-- a period, counted from 1970-01-01T00:00Z, plus the phase its schedule names -/
  | every (every phase : Nat)
  | cron (c : Cron)
deriving DecidableEq, Repr

/-- `10s`, `2m`, `500ms`, `1h` as a duration; the products are taken in 64 bits -/
def durationOf (text : List Char) : Option Nat :=
  let text := trim text
  let number := text.takeWhile isDigit
  let unit := text.dropWhile isDigit
  if unit.isEmpty then none else
    match parseUnsigned 64 number with
    | none => none
    | some n =>
      if unit = ['m', 's'] then some (Duration.ofMillis n)
      else if unit = ['s'] then some (Duration.ofSecs n)
      else if unit = ['m'] then some (Duration.ofSecs (asU64 (n * 60)))
      else if unit = ['h'] then some (Duration.ofSecs (asU64 (n * 3600)))
      else none

/-- a text that says something, trimmed -/
def given (v : Option String) : Option String :=
  (v.map (fun v => String.ofList (trim v.toList))).filter (fun v => !v.toList.isEmpty)

namespace Clock

def ofPeriod (period : String) (cron : Option Cron) : Except String Clock :=
  match (durationOf period.toList).filter (fun every => Duration.ofSecs 1 ≤ every) with
  | none =>
    .error ("period `" ++ period ++ "` is not a duration of at least 1s (`30s`, `5m`, `24h`)")
  | some p =>
    .ok (.every p (match cron with
      | none => 0
      | some c => c.phase p))

def of (period schedule : Option String) : Except String Clock :=
  match given schedule with
  | none =>
    match given period with
    | none => .ok .once
    | some period => ofPeriod period none
  | some schedule =>
    match Cron.parse schedule with
    | none => .error ("schedule `" ++ schedule ++ "` is not five cron fields (`0 5 * * *`)")
    | some c =>
      match given period with
      | none => .ok (.cron c)
      | some period => ofPeriod period (some c)

end Clock

/-- the first multiple of `every` plus `phase` past `t`, all in milliseconds and signed 64-bit
words; a period that is zero as such a word has none -/
def everyNext (every phase : Nat) (t : Int) : Option Int :=
  let every := asI64 (Duration.asMillis every)
  let phase := asI64 (Duration.asMillis phase)
  if every = 0 then none else
    Time.ofMillis
      (asI64 (asI64 (asI64 (asI64 (Time.millis t - phase) / every + 1) * every) + phase))

inductive Lane where
  | batch
  | short
deriving DecidableEq, Repr

/-- a clock at least this long runs in the batch lane -/
def shortBelow : Nat := Duration.ofSecs (5 * 60)

namespace Clock

/-- the first run strictly after `t`; none for `once` -/
def nextAfter : Clock → Int → Option Int
  | .once, _ => none
  | .every p phase, t => everyNext p phase t
  | .cron c, t => c.nextAfter t

/-- the lane of a pipeline on this clock, from the gap between its next two runs -/
def lane (c : Clock) (now : Int) : Lane :=
  match c.nextAfter now with
  | none => .batch
  | some first =>
    match c.nextAfter first with
    | none => .batch
    | some second => if Duration.ofSpan (second - first) < shortBelow then .short else .batch

def FiresAt : Clock → Int → Prop
  | .once, _ => False
  | .every p phase, t =>
    ∃ k : Int, t = (k * Duration.asMillis p + Duration.asMillis phase) * 1000000
  | .cron c, t => t % Time.minute = 0 ∧ c.matches t = true

/-- its instants never end -/
def Recurs (c : Clock) : Prop := ∀ t, ∃ u, t < u ∧ c.FiresAt u

end Clock

/-! ## the scan -/

namespace Cron

theorem scan_iff (c : Cron) (n : Nat) (t u : Int) :
    c.scan n t = some u ↔ ∃ i : Nat, i < n ∧ u = t + i * Time.minute ∧ c.matches u = true ∧
      ∀ j : Nat, j < i → c.matches (t + j * Time.minute) = false := by
  induction n generalizing t with
  | zero => simp [scan]
  | succ n ih =>
    unfold scan
    by_cases h : c.matches t = true
    · rw [if_pos h]
      constructor
      · intro hu
        obtain rfl : t = u := by simpa using hu
        exact ⟨0, Nat.succ_pos n, by simp, h, fun j hj => absurd hj (Nat.not_lt_zero j)⟩
      · rintro ⟨i, _, hu, _, hj⟩
        cases i with
        | zero => simp [hu]
        | succ i =>
          have h0 := hj 0 (Nat.succ_pos i)
          rw [Nat.cast_zero, zero_mul, add_zero, h] at h0
          exact absurd h0 (by simp)
    · rw [if_neg h, ih]
      have hshift : ∀ i : Nat, t + Time.minute + i * Time.minute
          = t + ((i + 1 : Nat) : Int) * Time.minute := by
        intro i
        rw [Nat.cast_add, Nat.cast_one]
        ring
      constructor
      · rintro ⟨i, hi, hu, hm, hj⟩
        refine ⟨i + 1, Nat.succ_lt_succ hi, by rw [hu, hshift], hm, fun j hji => ?_⟩
        cases j with
        | zero => rw [Nat.cast_zero, zero_mul, add_zero]; simpa using h
        | succ j => rw [← hshift]; exact hj j (Nat.lt_of_succ_lt_succ hji)
      · rintro ⟨i, hi, hu, hm, hj⟩
        cases i with
        | zero =>
          rw [Nat.cast_zero, zero_mul, add_zero] at hu
          exact absurd (hu ▸ hm) h
        | succ i =>
          refine ⟨i, Nat.lt_of_succ_lt_succ hi, by rw [hu, hshift], hm, fun j hji => ?_⟩
          rw [hshift]
          exact hj (j + 1) (Nat.succ_lt_succ hji)

/-- the whole minutes past `t` -/
theorem wholeMinute_iff (t u : Int) : (u % Time.minute = 0 ∧ t < u) ↔
    ∃ i : Nat, u = Time.floorMinute t + Time.minute + i * Time.minute := by
  unfold Time.floorMinute Time.minute Time.second
  constructor
  · rintro ⟨h1, h2⟩
    refine ⟨((u - t - 1) / 60000000000).toNat, ?_⟩
    omega
  · rintro ⟨i, rfl⟩
    constructor <;> omega

/-- **The scan answers the least instant of the schedule past `t`, within 366 days of it.** -/
theorem nextAfter_iff (c : Cron) (t u : Int) : c.nextAfter t = some u ↔
    IsLeast {u | t < u ∧ Clock.FiresAt (.cron c) u} u ∧
      u ≤ Time.floorMinute t + 366 * Time.day := by
  unfold nextAfter
  rw [scan_iff]
  have hwin : ∀ i : Nat, i < scanMinutes ↔
      Time.floorMinute t + Time.minute + i * Time.minute ≤ Time.floorMinute t + 366 * Time.day := by
    intro i
    unfold scanMinutes Time.minute Time.second Time.day Time.hour Time.minute Time.second
    omega
  constructor
  · rintro ⟨i, hi, hu, hm, hj⟩
    obtain ⟨h1, h2⟩ := (wholeMinute_iff t u).mpr ⟨i, hu⟩
    refine ⟨⟨⟨h2, h1, hm⟩, ?_⟩, by rw [hu]; exact (hwin i).mp hi⟩
    rintro v ⟨hv, hv1, hv2⟩
    obtain ⟨j, hvj⟩ := (wholeMinute_iff t v).mp ⟨hv1, hv⟩
    by_contra hlt
    have hji : j < i := by
      rw [hu, hvj] at hlt
      unfold Time.minute Time.second at hlt
      omega
    have hf := hj j hji
    rw [← hvj, hv2] at hf
    exact absurd hf (by simp)
  · rintro ⟨⟨⟨h1, h2, h3⟩, hleast⟩, hle⟩
    obtain ⟨i, hu⟩ := (wholeMinute_iff t u).mp ⟨h2, h1⟩
    refine ⟨i, (hwin i).mpr (hu ▸ hle), hu, h3, fun j hji => ?_⟩
    by_contra hm
    obtain ⟨h4, h5⟩ := (wholeMinute_iff t _).mpr ⟨j, rfl⟩
    have hge := hleast ⟨h5, h4, by simpa using hm⟩
    rw [hu] at hge
    unfold Time.minute Time.second at hge
    omega

theorem nextAfter_of_fires {c : Cron} {t u : Int} (hlt : t < u) (hu : Clock.FiresAt (.cron c) u)
    (hle : u ≤ Time.floorMinute t + 366 * Time.day) : ∃ v, c.nextAfter t = some v := by
  obtain ⟨i, hi⟩ := (wholeMinute_iff t u).mp ⟨hu.1, hlt⟩
  have hex : ∃ i : Nat,
      c.matches (Time.floorMinute t + Time.minute + i * Time.minute) = true := ⟨i, hi ▸ hu.2⟩
  have hfind : Nat.find hex ≤ i := Nat.find_min' hex (hi ▸ hu.2)
  refine ⟨_, (scan_iff c _ _ _).mpr ⟨Nat.find hex, ?_, rfl, Nat.find_spec hex, fun j hj => ?_⟩⟩
  · unfold scanMinutes Time.minute Time.second Time.day Time.hour Time.minute Time.second at *
    omega
  · simpa using Nat.find_min hex hj

end Cron

/-! ## which schedules come every year -/

/-- the minute `m` of the hour `h` of a day -/
def instantOf (n : Int) (h m : Nat) : Int :=
  (n - Time.epochDay) * Time.day + h * Time.hour + m * Time.minute

theorem instantOf_parts (n : Int) {h m : Nat} (hh : h < 24) (hm : m < 60) :
    Time.dayNumberOf (instantOf n h m) = n ∧ Time.hourOf (instantOf n h m) = h ∧
      Time.minuteOf (instantOf n h m) = m ∧ instantOf n h m % Time.minute = 0 := by
  unfold instantOf Time.dayNumberOf Time.hourOf Time.minuteOf Time.epochDay Time.day Time.hour
    Time.minute Time.second
  refine ⟨?_, ?_, ?_, ?_⟩ <;> omega

/-- one time of the day comes on 366 days in a row within 366 days of `t` -/
theorem instantOf_window (t : Int) (h m : Nat) :
    ∃ n₀, ∀ n, n₀ ≤ n → n ≤ n₀ + 365 →
      t < instantOf n h m ∧ instantOf n h m ≤ Time.floorMinute t + 366 * Time.day := by
  refine ⟨(t - (h * Time.hour + m * Time.minute)) / Time.day + Time.epochDay + 1, fun n h1 h2 => ?_⟩
  unfold instantOf Time.floorMinute Time.epochDay Time.day Time.hour Time.minute Time.second at *
  constructor <;> omega

namespace Cron

/-- some date that every year has is named: any day at all, a weekday, or a month and a day of it -/
def NamesYearly (c : Cron) : Prop :=
  c.anyDay = true ∨ c.anyWeekday = false ∨
    ∃ m d, Calendar.EveryYear m d ∧ has c.months m = true ∧ has c.days d = true

theorem parse_inhabited {text : String} {c : Cron} (h : parse text = some c) :
    (∃ v, v < 60 ∧ has c.minutes v = true) ∧ (∃ v, v < 24 ∧ has c.hours v = true) ∧
    (∃ v, 1 ≤ v ∧ v ≤ 12 ∧ has c.months v = true) ∧ (∃ w, w < 7 ∧ has c.weekdays w = true) := by
  obtain ⟨minute, hour, day, month, weekday, _, hf⟩ := parse_eq_some h
  obtain ⟨hm, hh, _, hn, ⟨ws, hw, hws⟩, _⟩ := ofFields_eq_some hf
  refine ⟨?_, ?_, ?_, ?_⟩
  · obtain ⟨v, _, hv, hx⟩ := (field_bounds hm).1
    exact ⟨v, by omega, (field_has hm (by omega)).mpr hx⟩
  · obtain ⟨v, _, hv, hx⟩ := (field_bounds hh).1
    exact ⟨v, by omega, (field_has hh (by omega)).mpr hx⟩
  · obtain ⟨v, hv1, hv2, hx⟩ := (field_bounds hn).1
    exact ⟨v, hv1, hv2, (field_has hn (by omega)).mpr hx⟩
  · obtain ⟨v, _, hv, hx⟩ := (field_bounds hw).1
    by_cases h7 : v = 7
    · refine ⟨0, by omega, ?_⟩
      rw [hws]
      exact (has_weekdays hw (by omega)).mpr (Or.inr ⟨rfl, h7 ▸ hx⟩)
    · refine ⟨v, by omega, ?_⟩
      rw [hws]
      exact (has_weekdays hw (by omega)).mpr (Or.inl hx)

/-- the days on which the day rule and the month agree come within any 366 days -/
theorem exists_day_within {c : Cron} (hy : c.NamesYearly)
    (hmo : ∃ v, 1 ≤ v ∧ v ≤ 12 ∧ has c.months v = true)
    (hwd : ∃ w, w < 7 ∧ has c.weekdays w = true) (n₀ : Int) :
    ∃ n, n₀ ≤ n ∧ n ≤ n₀ + 365 ∧ has c.months (Calendar.ofDayNumber n).month = true ∧
      ∀ t, Time.dayNumberOf t = n → c.dayOk t = true := by
  obtain ⟨mo, hmo1, hmo2, hmo3⟩ := hmo
  obtain ⟨w, hw, hw'⟩ := hwd
  cases hb : c.anyWeekday with
  | false =>
    obtain ⟨n, h1, h2, h3, h4⟩ := Calendar.exists_weekday_within hmo1 hmo2 hw n₀
    refine ⟨n, h1, h2, by rw [h3]; exact hmo3, fun t ht => ?_⟩
    have hwt : has c.weekdays (Time.weekdayOf t) = true := by
      unfold Time.weekdayOf
      rw [ht, h4]
      exact hw'
    unfold dayOk
    cases ha : c.anyDay <;> simp [hb, hwt]
  | true =>
    -- only the day of the month counts: take one that every year has
    have hd : ∃ m d, Calendar.EveryYear m d ∧ has c.months m = true ∧
        (c.anyDay = true ∨ has c.days d = true) := by
      rcases hy with ha | hb' | ⟨m, d, hev, h1, h2⟩
      · refine ⟨mo, 1, ⟨hmo1, hmo2, le_refl 1, ?_⟩, hmo3, Or.inl ha⟩
        interval_cases mo <;> decide
      · exact absurd (hb.symm.trans hb') (by simp)
      · exact ⟨m, d, hev, h1, Or.inr h2⟩
    obtain ⟨m, d, hev, hm, hday⟩ := hd
    obtain ⟨y, h1, h2⟩ := Calendar.exists_date_within hev n₀
    have hdate := Calendar.ofDayNumber_dayNumber _ (hev.valid y)
    refine ⟨_, h1, h2, by rw [hdate]; exact hm, fun t ht => ?_⟩
    have hdt : Time.dayOf t = d := by
      unfold Time.dayOf Time.dateOf
      rw [ht, hdate]
    unfold dayOk
    rw [hb, hdt]
    rcases hday with ha | hx
    · simp [ha]
    · cases c.anyDay <;> simp [hx]

/-- **A schedule that names a date every year has fires within 366 days of any instant.** -/
theorem fires_within_of_namesYearly {text : String} {c : Cron} (hp : parse text = some c)
    (hy : c.NamesYearly) (t : Int) :
    ∃ u, t < u ∧ Clock.FiresAt (.cron c) u ∧ u ≤ Time.floorMinute t + 366 * Time.day := by
  obtain ⟨⟨mi, hmi, hmi'⟩, ⟨ho, hho, hho'⟩, hmo, hwd⟩ := parse_inhabited hp
  obtain ⟨n₀, hwin⟩ := instantOf_window t ho mi
  obtain ⟨n, hn1, hn2, hmonth, hday⟩ := exists_day_within hy hmo hwd n₀
  obtain ⟨h1, h2⟩ := hwin n hn1 hn2
  obtain ⟨p1, p2, p3, p4⟩ := instantOf_parts n hho hmi
  refine ⟨instantOf n ho mi, h1, ⟨p4, ?_⟩, h2⟩
  have hmon : has c.months (Time.monthOf (instantOf n ho mi)) = true := by
    unfold Time.monthOf Time.dateOf
    rw [p1]
    exact hmonth
  unfold «matches»
  rw [p2, p3, hmi', hho', hmon, hday _ p1]
  rfl

/-- a schedule that names no such date fires on 29 February only -/
theorem leapDay_of_not_namesYearly {c : Cron} (hy : ¬ c.NamesYearly) {t : Int}
    (h : c.matches t = true) : Time.monthOf t = 2 ∧ Time.dayOf t = 29 := by
  unfold NamesYearly at hy
  rw [not_or, not_or, not_exists] at hy
  obtain ⟨ha, hb, hd⟩ := hy
  rw [Bool.not_eq_true] at ha
  rw [Bool.not_eq_false] at hb
  unfold «matches» dayOk at h
  rw [ha, hb] at h
  simp only [Bool.and_eq_true] at h
  obtain ⟨⟨_, hmon⟩, hday⟩ := h
  obtain ⟨v1, v2, v3, v4⟩ := Calendar.ofDayNumber_valid (Time.dayNumberOf t)
  have hnot : ¬ Calendar.EveryYear (Time.monthOf t) (Time.dayOf t) := fun hev =>
    hd _ ⟨_, hev, hmon, hday⟩
  have hlen : ¬ Time.dayOf t ≤ Calendar.daysInMonth false (Time.monthOf t) := fun hle =>
    hnot ⟨v1, v2, v3, hle⟩
  unfold Time.monthOf Time.dayOf at *
  unfold Time.dateOf at *
  generalize Calendar.ofDayNumber (Time.dayNumberOf t) = d at *
  obtain ⟨y, m, k⟩ := d
  simp only at *
  cases hl : Calendar.isLeap y with
  | false => exact absurd (hl ▸ v4) hlen
  | true =>
    rw [hl] at v4
    interval_cases m <;> simp only [Calendar.daysInMonth, if_true, Bool.false_eq_true, if_false]
      at v4 hlen <;> omega

end Cron

/-! ## the period -/

/-- the least number of milliseconds past `n` that is `phase` modulo `every` -/
def leastAfter (every phase : Nat) (n : Int) : Int := ((n - phase) / every + 1) * every + phase

theorem leastAfter_gt {every : Nat} (he : 0 < every) (phase : Nat) (n : Int) :
    n < leastAfter every phase n := by
  have h := Int.lt_ediv_add_one_mul_self (n - phase) (show (0 : Int) < every by omega)
  unfold leastAfter
  omega

theorem leastAfter_le {every : Nat} (he : 0 < every) (phase : Nat) (n k : Int)
    (h : n < k * every + phase) : leastAfter every phase n ≤ k * every + phase := by
  have hpos : (0 : Int) < every := by omega
  have hk : (n - phase) / every < k := Int.ediv_lt_of_lt_mul hpos (by omega)
  have := Int.mul_le_mul_of_nonneg_right (show (n - phase) / every + 1 ≤ k from hk) (le_of_lt hpos)
  unfold leastAfter
  omega

/-- the least instant of a period past `t` -/
theorem every_isLeast {p : Nat} (he : 0 < Duration.asMillis p) (phase : Nat) (t : Int) :
    IsLeast {u | t < u ∧ Clock.FiresAt (.every p phase) u}
      (leastAfter (Duration.asMillis p) (Duration.asMillis phase) (Time.millis t) * 1000000) := by
  have hgt := leastAfter_gt he (Duration.asMillis phase) (Time.millis t)
  refine ⟨⟨?_, _, rfl⟩, ?_⟩
  · unfold Time.millis at hgt ⊢
    omega
  · rintro u ⟨hu, k, rfl⟩
    have hlt : Time.millis t < k * Duration.asMillis p + Duration.asMillis phase := by
      unfold Time.millis
      omega
    exact Int.mul_le_mul_of_nonneg_right (leastAfter_le he _ _ k hlt) (by decide)

theorem asI64_of_bounds {n : Int} (h1 : -2 ^ 63 ≤ n) (h2 : n < 2 ^ 63) : asI64 n = n := by
  unfold asI64
  rw [Int.bmod_def]
  omega

/-- what the wrapped arithmetic of a period that fits comes to -/
theorem everyNext_eq {p phase : Nat} {t : Int} (he : 0 < Duration.asMillis p)
    (hfit : Duration.asMillis p < 2 ^ 63) (hph : Duration.asMillis phase < 2 ^ 40)
    (h1 : Time.minMillis ≤ Time.millis t) (h2 : Time.millis t ≤ Time.maxMillis) :
    everyNext p phase t = Time.ofMillis
      (asI64 (leastAfter (Duration.asMillis p) (Duration.asMillis phase) (Time.millis t))) := by
  have hmin : Time.minMillis = -8334601228800000 := by decide
  have hmax : Time.maxMillis = 8210266876799999 := by decide
  generalize hE : Duration.asMillis p = E at *
  generalize hP : Duration.asMillis phase = P at *
  generalize hT : Time.millis t = T at *
  have hq1 := Int.lt_ediv_add_one_mul_self (T - P) (show (0 : Int) < E by omega)
  have hq : -2 ^ 62 ≤ (T - P) / (E : Int) ∧ (T - P) / (E : Int) < 2 ^ 62 := by
    constructor
    · exact Int.le_ediv_of_mul_le (by omega) (by nlinarith)
    · exact Int.ediv_lt_of_lt_mul (by omega) (by nlinarith)
  unfold everyNext
  simp only [hE, hP, hT]
  rw [asI64_of_bounds (n := (E : Int)) (by omega) (by omega),
    asI64_of_bounds (n := (P : Int)) (by omega) (by omega),
    asI64_of_bounds (n := T - P) (by omega) (by omega),
    asI64_of_bounds (n := (T - P) / (E : Int) + 1) (by omega) (by omega), if_neg (by omega)]
  congr 1
  unfold asI64 leastAfter
  rw [Int.bmod_add_bmod]

end Portal
