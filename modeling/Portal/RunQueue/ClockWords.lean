import Portal.RunQueue.NextDue

/-!
# The words of a clock (`Clock::of`, `Clock::next_after`, `Cron::phase`, `duration_of`)

A period is a number of up to 64 bits and a unit.  It is held as a length of time of any size, cut
to a signed word of milliseconds and divided by; the one bound that is checked is a second from
below.  Here the same arithmetic is taken step by step with every word checked.

* `checkedI64`, `checkedU64`   the value of a word, none where it is not one;
* `durationChecked`, `Cron.nextChecked`, `Cron.phaseChecked`, `Clock.nextChecked`   the functions of
                        the clock with their words checked;
* `Clock.Exact`         a clock is computed and answers within its words, and answers right;
* `clock_exact_iff`     that is so where the period fits a signed word of milliseconds, and with it
                        the first run of the schedule.
-/

namespace Portal

open Text

/-! ## checked words -/

/-- the value of a signed word; none where an operation overflows or a cast changes it -/
def checkedI64 (n : Int) : Option Int := if -2 ^ 63 ≤ n ∧ n < 2 ^ 63 then some n else none

/-- the value of an unsigned word -/
def checkedU64 (n : Nat) : Option Nat := if n < 2 ^ 64 then some n else none

theorem checkedI64_eq_some {n m : Int} :
    checkedI64 n = some m ↔ (-2 ^ 63 ≤ n ∧ n < 2 ^ 63) ∧ n = m := by
  unfold checkedI64
  by_cases h : -2 ^ 63 ≤ n ∧ n < 2 ^ 63
  · rw [if_pos h, Option.some.injEq]
    exact ⟨fun e => ⟨h, e⟩, fun e => e.2⟩
  · rw [if_neg h]
    exact ⟨fun e => absurd e (by simp), fun e => absurd e.1 h⟩

theorem checkedI64_of_bounds {n : Int} (h1 : -2 ^ 63 ≤ n) (h2 : n < 2 ^ 63) :
    checkedI64 n = some n :=
  checkedI64_eq_some.mpr ⟨⟨h1, h2⟩, rfl⟩

theorem checkedU64_eq_some {n m : Nat} : checkedU64 n = some m ↔ n < 2 ^ 64 ∧ n = m := by
  unfold checkedU64
  by_cases h : n < 2 ^ 64
  · rw [if_pos h, Option.some.injEq]
    exact ⟨fun e => ⟨h, e⟩, fun e => e.2⟩
  · rw [if_neg h]
    exact ⟨fun e => absurd e (by simp), fun e => absurd e.1 h⟩

theorem asU64_of_lt {n : Nat} (h : n < 2 ^ 64) : asU64 n = n := Nat.mod_eq_of_lt h

/-! ## the period -/

/-- `durationOf`, its products checked -/
def durationChecked (text : List Char) : Option (Option Nat) :=
  let text := trim text
  let number := text.takeWhile isDigit
  let unit := text.dropWhile isDigit
  if unit.isEmpty then some none else
    match parseUnsigned 64 number with
    | none => some none
    | some n =>
      if unit = ['m', 's'] then some (some (Duration.ofMillis n))
      else if unit = ['s'] then some (some (Duration.ofSecs n))
      else if unit = ['m'] then (checkedU64 (n * 60)).map (fun s => some (Duration.ofSecs s))
      else if unit = ['h'] then (checkedU64 (n * 3600)).map (fun s => some (Duration.ofSecs s))
      else some none

def unitMillis (unit : List Char) : Option Nat :=
  if unit = ['m', 's'] then some 1
  else if unit = ['s'] then some 1000
  else if unit = ['m'] then some 60000
  else if unit = ['h'] then some 3600000
  else none

/-- the milliseconds that the text of a period says, however many -/
def periodMillis (period : String) : Option Nat :=
  let text := trim period.toList
  (parseUnsigned 64 (text.takeWhile isDigit)).bind fun n =>
    (unitMillis (text.dropWhile isDigit)).map (n * ·)

theorem ofSecs_eq_ofMillis (n : Nat) : Duration.ofSecs n = Duration.ofMillis (n * 1000) := by
  unfold Duration.ofSecs Duration.ofMillis
  omega

theorem asMillis_ofMillis (n : Nat) : Duration.asMillis (Duration.ofMillis n) = n := by
  unfold Duration.asMillis Duration.ofMillis
  omega

theorem checkedU64_secs_eq_some {n k : Nat} :
    (checkedU64 (n * k)).map (fun s => some (Duration.ofSecs s))
        = some (some (Duration.ofSecs (asU64 (n * k)))) ↔ n * k < 2 ^ 64 := by
  unfold checkedU64
  by_cases h : n * k < 2 ^ 64
  · rw [if_pos h, asU64_of_lt h]
    exact ⟨fun _ => h, fun _ => rfl⟩
  · rw [if_neg h]
    exact ⟨fun e => absurd e (by simp), fun e => absurd e h⟩

/-- a period that is read says a number of milliseconds, and is that long if its product fits -/
theorem durationOf_cases {period : String} {p : Nat} (h : durationOf period.toList = some p) :
    ∃ m, periodMillis period = some m ∧
      (durationChecked period.toList = some (some p) → p = Duration.ofMillis m) ∧
      (m < 2 ^ 63 → durationChecked period.toList = some (some p)) := by
  unfold durationOf at h
  unfold durationChecked periodMillis
  simp only at h ⊢
  split at h
  · exact absurd h (by simp)
  · rename_i hunit
    rw [if_neg hunit]
    cases hn : parseUnsigned 64 ((trim period.toList).takeWhile isDigit) with
    | none =>
      rw [hn] at h
      exact absurd h (by simp)
    | some n =>
      rw [hn] at h
      simp only [Option.bind_some] at h ⊢
      unfold unitMillis
      split at h
      · rename_i hu
        obtain rfl := Option.some.inj h
        rw [if_pos hu, if_pos hu]
        exact ⟨n, by simp, fun _ => rfl, fun _ => rfl⟩
      · rename_i hms
        rw [if_neg hms, if_neg hms]
        split at h
        · rename_i hu
          obtain rfl := Option.some.inj h
          rw [if_pos hu, if_pos hu]
          exact ⟨n * 1000, rfl, fun _ => ofSecs_eq_ofMillis n, fun _ => rfl⟩
        · rename_i hs
          rw [if_neg hs, if_neg hs]
          split at h
          · rename_i hu
            obtain rfl := Option.some.inj h
            rw [if_pos hu, if_pos hu, checkedU64_secs_eq_some]
            refine ⟨n * 60000, rfl, fun hlt => ?_, fun hlt => by omega⟩
            rw [asU64_of_lt hlt, ofSecs_eq_ofMillis, Nat.mul_assoc]
          · rename_i hm
            rw [if_neg hm, if_neg hm]
            split at h
            · rename_i hu
              obtain rfl := Option.some.inj h
              rw [if_pos hu, if_pos hu, checkedU64_secs_eq_some]
              refine ⟨n * 3600000, rfl, fun hlt => ?_, fun hlt => ?_⟩
              · rw [asU64_of_lt hlt, ofSecs_eq_ofMillis, Nat.mul_assoc]
              · exact lt_of_le_of_lt (Nat.mul_le_mul_left n (by decide)) (lt_trans hlt (by decide))
            · exact absurd h (by simp)

/-! ## the schedule -/

/-- the values that one field sets are bits of a 64-bit word -/
def FieldFits (lo hi : Nat) (text : List Char) : Prop :=
  ∀ part ∈ split (· = ',') text, ∀ first last step,
    fieldPart part lo hi = some (first, last, step) → ∀ v ∈ stepBy first last step, v < 64

theorem fieldFits {lo hi : Nat} (h : hi < 64) (text : List Char) : FieldFits lo hi text := by
  intro part _ first last step hpart v hv
  obtain ⟨_, hle, hlast, hstep, _⟩ := fieldPart_spec hpart
  have := ((mem_stepBy hle hstep).mp hv).2.1
  omega

def Time.checked (t : Int) : Option Int := if Time.Representable t then some t else none

theorem Time.checked_of_representable {t : Int} (h : Time.Representable t) :
    Time.checked t = some t := by
  unfold Time.checked
  rw [if_pos h]

/-- the parts of an instant are bits of a 64-bit word -/
def Time.PartsFit (t : Int) : Prop :=
  Time.minuteOf t < 64 ∧ Time.hourOf t < 64 ∧ Time.monthOf t < 64 ∧ Time.dayOf t < 64 ∧
    Time.weekdayOf t < 64

instance (t : Int) : Decidable (Time.PartsFit t) :=
  inferInstanceAs (Decidable (_ ∧ _ ∧ _ ∧ _ ∧ _))

theorem Time.partsFit (t : Int) : Time.PartsFit t := by
  have h1 := Time.minuteOf_lt t
  have h2 := Time.hourOf_lt t
  have h3 := Time.monthOf_le t
  have h4 := Time.dayOf_le t
  have h5 := Time.weekdayOf_lt t
  exact ⟨by omega, by omega, by omega, by omega, by omega⟩

namespace Cron

/-- `scan`, its shifts and its instants checked -/
def scanChecked (c : Cron) : Nat → Int → Option (Option Int)
  | 0, _ => some none
  | n + 1, t =>
    if Time.PartsFit t then
      if c.matches t then some (some t)
      else (Time.checked (t + Time.minute)).bind (scanChecked c n)
    else none

def nextChecked (c : Cron) (t : Int) : Option (Option Int) :=
  (Time.checked (Time.floorMinute t + Time.minute)).bind (c.scanChecked scanMinutes)

def phaseChecked (c : Cron) (every : Nat) : Option Nat :=
  (c.nextChecked (0 - Time.minute)).bind fun first =>
    let since : Nat :=
      match first with
      | none => 0
      | some first => Duration.ofSpan first
    (checkedU64 (Duration.asMillis since % max (Duration.asMillis every) 1)).map Duration.ofMillis

theorem scanChecked_eq (c : Cron) {n : Nat} {t : Int}
    (h : ∀ i : Nat, i ≤ n → Time.Representable (t + i * Time.minute)) :
    c.scanChecked n t = some (c.scan n t) := by
  induction n generalizing t with
  | zero => rfl
  | succ n ih =>
    have hnext : ∀ i : Nat, i ≤ n → Time.Representable (t + Time.minute + i * Time.minute) := by
      intro i hi
      have := h (i + 1) (Nat.succ_le_succ hi)
      rwa [Nat.cast_add, Nat.cast_one, Int.add_mul, Int.one_mul, Int.add_comm (i * _),
        ← Int.add_assoc] at this
    unfold scanChecked scan
    rw [if_pos (Time.partsFit t)]
    split
    · rfl
    · have h0 := hnext 0 (Nat.zero_le n)
      rw [Nat.cast_zero, Int.zero_mul, Int.add_zero] at h0
      rw [Time.checked_of_representable h0, Option.bind_some, ih hnext]

end Cron

def Time.Within (t : Int) : Prop :=
  0 ≤ t ∧ t < (Calendar.daysBeforeYear 2101 - Time.epochDay) * Time.day

theorem Time.within_iff (t : Int) :
    Time.Within t ↔ 0 ≤ t ∧ t < 4133980800 * Time.second := by
  have : (Calendar.daysBeforeYear 2101 - Time.epochDay) * Time.day
      = 4133980800 * Time.second := by decide
  unfold Time.Within
  rw [this]

theorem Cron.nextChecked_eq (c : Cron) {t : Int} (h1 : 0 - Time.minute ≤ t)
    (h2 : t < 4133980800 * Time.second) : c.nextChecked t = some (c.nextAfter t) := by
  have hmin : Time.minMillis = -8334601228800000 := by decide
  have hmax : Time.maxMillis = 8210266876799999 := by decide
  have hall : ∀ i : Nat, i ≤ scanMinutes →
      Time.Representable (Time.floorMinute t + Time.minute + i * Time.minute) := by
    intro i hi
    unfold scanMinutes at hi
    unfold Time.Representable Time.millis Time.floorMinute
    unfold Time.minute Time.second at *
    constructor <;> omega
  have h0 := hall 0 (Nat.zero_le _)
  rw [Nat.cast_zero, Int.zero_mul, Int.add_zero] at h0
  unfold nextChecked nextAfter
  rw [Time.checked_of_representable h0, Option.bind_some, scanChecked_eq c hall]

theorem Cron.phaseChecked_eq (c : Cron) (every : Nat) :
    c.phaseChecked every = some (c.phase every) := by
  unfold phaseChecked
  rw [c.nextChecked_eq (le_refl _) (by decide), Option.bind_some]
  have hlt : Duration.asMillis (match c.nextAfter (0 - Time.minute) with
      | none => 0
      | some first => Duration.ofSpan first) % max (Duration.asMillis every) 1 < 2 ^ 64 := by
    refine lt_of_le_of_lt (Nat.mod_le _ _) ?_
    split
    · decide
    · rename_i first hf
      have hle := ((c.nextAfter_iff _ _).mp hf).2
      unfold Duration.asMillis Duration.ofSpan
      unfold Time.floorMinute Time.day Time.hour Time.minute Time.second at hle
      omega
  show Option.map _ (checkedU64 _) = _
  rw [checkedU64_eq_some.mpr ⟨hlt, rfl⟩]
  exact congrArg (fun n => some (Duration.ofMillis n)) (asU64_of_lt hlt).symm

/-- the first run of a schedule from 1970 on, in the year that is scanned for it -/
def Cron.StartsAt (c : Cron) (first : Int) : Prop :=
  IsLeast {u | 0 ≤ u ∧ (Clock.cron c).FiresAt u} first ∧ first + Time.minute ≤ 366 * Time.day

theorem Cron.nextAfter_epoch_iff (c : Cron) (first : Int) :
    c.nextAfter (0 - Time.minute) = some first ↔ c.StartsAt first := by
  have hset : {u | 0 - Time.minute < u ∧ (Clock.cron c).FiresAt u}
      = {u | 0 ≤ u ∧ (Clock.cron c).FiresAt u} := by
    apply Set.ext
    intro u
    show 0 - Time.minute < u ∧ (u % Time.minute = 0 ∧ _) ↔ 0 ≤ u ∧ (u % Time.minute = 0 ∧ _)
    unfold Time.minute Time.second
    constructor
    · intro ⟨h1, h2, h3⟩
      exact ⟨by omega, h2, h3⟩
    · intro ⟨h1, h2, h3⟩
      exact ⟨by omega, h2, h3⟩
  rw [c.nextAfter_iff, hset]
  unfold StartsAt Time.floorMinute Time.day Time.hour Time.minute Time.second
  refine and_congr_right fun _ => ?_
  omega

/-! ## the next instant -/

/-- `everyNext`, its casts and its arithmetic checked -/
def everyChecked (every phase : Nat) (t : Int) : Option (Option Int) := do
  let every ← checkedI64 (Duration.asMillis every)
  let phase ← checkedI64 (Duration.asMillis phase)
  let past ← checkedI64 (Time.millis t - phase)
  if every = 0 then none else do
    let periods ← checkedI64 (past / every)
    let periods ← checkedI64 (periods + 1)
    let length ← checkedI64 (periods * every)
    let next ← checkedI64 (length + phase)
    some (Time.ofMillis next)

def Clock.nextChecked : Clock → Int → Option (Option Int)
  | .once, _ => some none
  | .every p phase, t => everyChecked p phase t
  | .cron c, t => c.nextChecked t

theorem everyChecked_isSome {p phase : Nat} {t : Int} (h : (everyChecked p phase t).isSome) :
    Duration.asMillis p < 2 ^ 63 ∧ ((Time.millis t - Duration.asMillis phase)
      / (Duration.asMillis p : Int) + 1) * Duration.asMillis p + Duration.asMillis phase
        < (2 ^ 63 : Int) := by
  obtain ⟨r, hr⟩ := Option.isSome_iff_exists.mp h
  unfold everyChecked at hr
  simp only [Option.bind_eq_bind, Option.bind_eq_some_iff, checkedI64_eq_some] at hr
  obtain ⟨E, ⟨⟨_, hE⟩, rfl⟩, P, ⟨_, rfl⟩, past, ⟨_, rfl⟩, hr⟩ := hr
  split at hr
  · exact absurd hr (by simp)
  · simp only [Option.bind_eq_some_iff, checkedI64_eq_some] at hr
    obtain ⟨_, ⟨_, rfl⟩, _, ⟨_, rfl⟩, _, ⟨_, rfl⟩, _, ⟨⟨_, hlt⟩, rfl⟩, _⟩ := hr
    exact ⟨by omega, hlt⟩

/-- the words of such a period: the number of the periods past its phase, the length of one more of
them and the instant there -/
theorem everyChecked_bounds {E P : Nat} {T : Int} (he : 0 < E) (hE : E < 2 ^ 63) (hP : P < 2 ^ 40)
    (hlt : P < E) (hT : 0 ≤ T ∧ T < 2 ^ 42) (h : T < P ∨ E + P < 2 ^ 63) :
    -2 ^ 42 ≤ (T - P) / (E : Int) ∧ (T - P) / (E : Int) < 2 ^ 42 ∧
    (-2 ^ 63 : Int) ≤ ((T - P) / (E : Int) + 1) * E ∧
    ((T - P) / (E : Int) + 1) * E < (2 ^ 63 : Int) ∧
    (-2 ^ 63 : Int) ≤ ((T - P) / (E : Int) + 1) * E + P ∧
    ((T - P) / (E : Int) + 1) * E + P < (2 ^ 63 : Int) := by
  have hpos : (0 : Int) < E := by omega
  by_cases hpast : T < P
  · -- not one period is over
    have hq : (T - P) / (E : Int) = -1 := by
      rw [Int.ediv_eq_iff_of_pos hpos]
      omega
    rw [hq]
    omega
  · have hsum : E + P < 2 ^ 63 := h.resolve_left hpast
    by_cases hone : T - P < E
    · have hq : (T - P) / (E : Int) = 0 := Int.ediv_eq_zero_of_lt (by omega) hone
      rw [hq]
      omega
    · have h0 : 0 ≤ (T - P) / (E : Int) := Int.ediv_nonneg (by omega) (by omega)
      have h1 : (T - P) / (E : Int) ≤ T - P := Int.ediv_le_self _ (by omega)
      have h2 := Int.ediv_mul_le (T - P) (show (E : Int) ≠ 0 by omega)
      have h3 := Int.mul_nonneg h0 (le_of_lt hpos)
      rw [Int.add_mul]
      omega

/-- **A period and its phase stay within their words** where both fit one together, or the phase is
still to come. -/
theorem everyChecked_iff {p phase : Nat} {t : Int} (he : 0 < Duration.asMillis p)
    (hph : Duration.asMillis phase < 2 ^ 40)
    (hlt : Duration.asMillis phase < Duration.asMillis p) (ht : Time.Within t) :
    everyChecked p phase t = some (everyNext p phase t) ↔ Duration.asMillis p < 2 ^ 63 ∧
      (Time.millis t < Duration.asMillis phase ∨
        Duration.asMillis p + Duration.asMillis phase < 2 ^ 63) := by
  obtain ⟨ht0, ht1⟩ := (Time.within_iff t).mp ht
  have hT : 0 ≤ Time.millis t ∧ Time.millis t < 2 ^ 42 := by
    unfold Time.millis
    unfold Time.second at ht1
    omega
  constructor
  · intro h
    obtain ⟨hE, hsum⟩ := everyChecked_isSome (Option.isSome_iff_exists.mpr ⟨_, h⟩)
    refine ⟨hE, ?_⟩
    by_cases hpast : Time.millis t < Duration.asMillis phase
    · exact Or.inl hpast
    · have hq : 0 ≤ (Time.millis t - Duration.asMillis phase) / (Duration.asMillis p : Int) :=
        Int.ediv_nonneg (by omega) (by omega)
      have hmul := Int.mul_nonneg hq (show (0 : Int) ≤ Duration.asMillis p by omega)
      rw [Int.add_mul] at hsum
      exact Or.inr (by omega)
  · intro ⟨hE, hor⟩
    have hq := everyChecked_bounds he hE hph hlt hT hor
    unfold everyChecked everyNext
    simp only [Option.bind_eq_bind]
    generalize Duration.asMillis p = E at *
    generalize Duration.asMillis phase = P at *
    generalize Time.millis t = T at *
    obtain ⟨h1, h2, h3, h4, h5, h6⟩ := hq
    rw [checkedI64_of_bounds (n := (E : Int)) (by omega) (by omega), Option.bind_some,
      checkedI64_of_bounds (n := (P : Int)) (by omega) (by omega), Option.bind_some,
      checkedI64_of_bounds (n := T - P) (by omega) (by omega), Option.bind_some,
      if_neg (by omega), checkedI64_of_bounds (n := (T - P) / E) (by omega) (by omega),
      Option.bind_some, checkedI64_of_bounds (n := (T - P) / E + 1) (by omega) (by omega),
      Option.bind_some, checkedI64_of_bounds h3 h4, Option.bind_some,
      checkedI64_of_bounds h5 h6, Option.bind_some,
      asI64_of_bounds (n := (E : Int)) (by omega) (by omega),
      asI64_of_bounds (n := (P : Int)) (by omega) (by omega),
      asI64_of_bounds (n := T - P) (by omega) (by omega), if_neg (by omega),
      asI64_of_bounds (n := (T - P) / E + 1) (by omega) (by omega),
      asI64_of_bounds h3 h4, asI64_of_bounds h5 h6]

/-! ## the clock -/

namespace Clock

/-- every shift, product and cast on the way to a clock fits its word -/
structure OfFits (period schedule : Option String) : Prop where
  fields : ∀ s, given schedule = some s → ∀ text ∈ splitWhitespace s.toList,
    FieldFits 0 59 text ∧ FieldFits 0 23 text ∧ FieldFits 1 31 text ∧ FieldFits 1 12 text ∧
      FieldFits 0 7 text
  product : ∀ text, given period = some text →
    durationChecked text.toList = some (durationOf text.toList)
  phase : ∀ text p s c, given period = some text → durationOf text.toList = some p →
    given schedule = some s → Cron.parse s = some c → c.phaseChecked p = some (c.phase p)

/-- a clock is computed and asked within its words, and a period that answers names the least
instant of its phase after `t` -/
structure Exact (period schedule : Option String) (c : Clock) (t : Int) : Prop where
  computed : OfFits period schedule
  asked : c.nextChecked t = some (c.nextAfter t)
  least : ∀ p phase, c = .every p phase → ∀ u, c.nextAfter t = some u →
    IsLeast {u | t < u ∧ c.FiresAt u} u

/-- the period fits a signed word of milliseconds, and so does it with the first run of the
schedule, unless that is still to come -/
def PeriodFits (period schedule : Option String) (t : Int) : Prop :=
  ∀ text m, given period = some text → periodMillis text = some m → m < 2 ^ 63 ∧
    ∀ s c first, given schedule = some s → Cron.parse s = some c → c.StartsAt first →
      Time.millis t < Time.millis first ∨ m + Time.millis first < 2 ^ 63

/-- the phase of a period: none without a schedule -/
def phaseOf (cron : Option Cron) (p : Nat) : Nat :=
  match cron with
  | none => 0
  | some c => c.phase p

theorem ofPeriod_ok {text : String} {cron : Option Cron} {c : Clock}
    (h : ofPeriod text cron = .ok c) :
    ∃ p, durationOf text.toList = some p ∧ Duration.ofSecs 1 ≤ p ∧ c = .every p (phaseOf cron p) := by
  unfold ofPeriod at h
  split at h
  · exact absurd h (by simp)
  · rename_i p hf
    obtain ⟨hp, hge⟩ := Option.filter_eq_some_iff.mp hf
    exact ⟨p, hp, by simpa using hge, (Except.ok.inj h).symm⟩

theorem of_given {period schedule : Option String} {c : Clock} (h : of period schedule = .ok c)
    {text : String} (ht : given period = some text) :
    ∃ p, durationOf text.toList = some p ∧ Duration.ofSecs 1 ≤ p ∧
      c = .every p (phaseOf ((given schedule).bind Cron.parse) p) := by
  unfold of at h
  rw [ht] at h
  cases hs : given schedule with
  | none =>
    rw [hs] at h
    exact ofPeriod_ok h
  | some s =>
    rw [hs] at h
    rw [Option.bind_some]
    cases hc : Cron.parse s with
    | none =>
      simp only [hc] at h
      exact absurd h (by simp)
    | some cron =>
      simp only [hc] at h
      exact ofPeriod_ok h

theorem of_not_given {period schedule : Option String} {c : Clock} (h : of period schedule = .ok c)
    (ht : given period = none) : ∀ p phase, c ≠ .every p phase := by
  intro p phase hc
  subst hc
  unfold of at h
  rw [ht] at h
  split at h
  · exact absurd (Except.ok.inj h) (by simp)
  · split at h
    · exact absurd h (by simp)
    · exact absurd (Except.ok.inj h) (by simp)

theorem phaseOf_lt (cron : Option Cron) {p : Nat} (h : 0 < Duration.asMillis p) :
    Duration.asMillis (phaseOf cron p) < Duration.asMillis p := by
  unfold phaseOf
  split
  · exact h
  · unfold Cron.phase
    rw [asMillis_ofMillis]
    refine lt_of_le_of_lt (Nat.mod_le _ _) ?_
    rw [Nat.max_eq_left h]
    exact Nat.mod_lt _ h

theorem phaseOf_bound (cron : Option Cron) (p : Nat) :
    Duration.asMillis (phaseOf cron p) < 2 ^ 40 := by
  unfold phaseOf
  split
  · decide
  · exact phase_lt _ p

theorem millis_startsAt {c : Cron} {first : Int} (h : c.StartsAt first) :
    (Duration.asMillis (Duration.ofSpan first) : Int) = Time.millis first ∧
      Time.millis first < 2 ^ 40 := by
  obtain ⟨⟨⟨h0, _⟩, _⟩, hle⟩ := h
  unfold Time.minute Time.day Time.hour Time.minute Time.second at hle
  unfold Duration.asMillis Duration.ofSpan Time.millis
  constructor <;> omega

theorem phase_of_long {c : Cron} {p : Nat} (h : 2 ^ 40 ≤ Duration.asMillis p) {first : Int}
    (hf : c.StartsAt first) : (Duration.asMillis (c.phase p) : Int) = Time.millis first := by
  obtain ⟨hsince, hlt⟩ := millis_startsAt hf
  unfold Cron.phase
  rw [(c.nextAfter_epoch_iff first).mpr hf, asMillis_ofMillis, ← hsince]
  show ((asU64 (Duration.asMillis (Duration.ofSpan first) % max _ 1) : Nat) : Int) = _
  rw [Nat.max_eq_left (by omega), Nat.mod_eq_of_lt (by omega), asU64_of_lt (by omega)]

theorem phase_of_idle {c : Cron} {p : Nat} (h : ∀ first, ¬ c.StartsAt first) : c.phase p = 0 := by
  have hnone : c.nextAfter (0 - Time.minute) = none :=
    Option.eq_none_iff_forall_ne_some.mpr fun first hf => h first ((c.nextAfter_epoch_iff first).mp hf)
  unfold Cron.phase
  rw [hnone]
  show Duration.ofMillis (asU64 (Duration.asMillis 0 % _)) = 0
  rw [show Duration.asMillis 0 = 0 from rfl, Nat.zero_mod]
  rfl

/-- whether a phase fits beside its period is told from the first run of the schedule -/
theorem phaseOf_fits_iff {cron : Option Cron} {p : Nat} {t : Int}
    (hp : Duration.asMillis p < 2 ^ 63) :
    (Time.millis t < Duration.asMillis (phaseOf cron p) ∨
        Duration.asMillis p + Duration.asMillis (phaseOf cron p) < 2 ^ 63) ↔
      ∀ c first, cron = some c → c.StartsAt first →
        Time.millis t < Time.millis first ∨ Duration.asMillis p + Time.millis first < 2 ^ 63 := by
  by_cases hlong : 2 ^ 40 ≤ Duration.asMillis p
  · constructor
    · intro h c first hc hf
      subst hc
      have hphase : (Duration.asMillis (phaseOf (some c) p) : Int) = Time.millis first :=
        phase_of_long hlong hf
      omega
    · intro h
      have hzero : phaseOf cron p = 0 ∨ ∃ c first, cron = some c ∧ c.StartsAt first := by
        cases cron with
        | none => exact Or.inl rfl
        | some c =>
          by_cases hf : ∃ first, c.StartsAt first
          · obtain ⟨first, hf⟩ := hf
            exact Or.inr ⟨c, first, rfl, hf⟩
          · exact Or.inl (phase_of_idle fun first hs => hf ⟨first, hs⟩)
      rcases hzero with h0 | ⟨c, first, rfl, hf⟩
      · rw [h0]
        exact Or.inr hp
      · have hphase : (Duration.asMillis (phaseOf (some c) p) : Int) = Time.millis first :=
          phase_of_long hlong hf
        have := h c first rfl hf
        omega
  · have hbound := phaseOf_bound cron p
    constructor
    · intro _ c first _ hf
      have := (millis_startsAt hf).2
      exact Or.inr (by omega)
    · intro _
      exact Or.inr (by omega)

theorem ofFits_iff {period schedule : Option String} : OfFits period schedule ↔
    ∀ text, given period = some text →
      durationChecked text.toList = some (durationOf text.toList) := by
  constructor
  · intro h
    exact h.product
  · intro h
    refine ⟨fun s _ text _ => ?_, h, fun _ _ _ c _ _ _ _ => c.phaseChecked_eq _⟩
    exact ⟨fieldFits (by decide) text, fieldFits (by decide) text, fieldFits (by decide) text,
      fieldFits (by decide) text, fieldFits (by decide) text⟩

theorem exact_of_not_given {period schedule : Option String} {c : Clock}
    (hc : of period schedule = .ok c) (hg : given period = none) {t : Int} (ht : Time.Within t) :
    Exact period schedule c t := by
  have hnot := of_not_given hc hg
  refine ⟨ofFits_iff.mpr fun text h => ?_, ?_, fun p phase h => absurd h (hnot p phase)⟩
  · rw [hg] at h
    exact absurd h (by simp)
  · obtain ⟨h0, h1⟩ := (Time.within_iff t).mp ht
    cases c with
    | once => rfl
    | every p phase => exact absurd rfl (hnot p phase)
    | cron c =>
      refine c.nextChecked_eq ?_ h1
      unfold Time.minute Time.second
      omega

/-- a period that stays within its words names its least instant after `t` -/
theorem every_least {p phase : Nat} {t u : Int} (he : 0 < Duration.asMillis p)
    (hfit : Duration.asMillis p < 2 ^ 63) (hph : Duration.asMillis phase < 2 ^ 40)
    (ht : Time.Within t) (hu : (Clock.every p phase).nextAfter t = some u) :
    IsLeast {u | t < u ∧ (Clock.every p phase).FiresAt u} u := by
  obtain ⟨h0, h1⟩ := (Time.within_iff t).mp ht
  have hmin : Time.minMillis = -8334601228800000 := by decide
  have hmax : Time.maxMillis = 8210266876799999 := by decide
  have hrep : Time.Representable t := by
    unfold Time.Representable Time.millis
    unfold Time.second at h1
    constructor <;> omega
  rw [every_nextAfter he hfit hph hrep] at hu
  split at hu
  · rw [← Option.some.inj hu]
    exact every_isLeast he phase t
  · exact absurd hu (by simp)

end Clock

/-- **The words of a clock.**  Of every period and schedule that are read, at every instant of the
years 1970 to 2100: the clock is computed and asked without an overflow or a division by zero, and
a period names the least instant of its phase, exactly where the period fits a signed word of
milliseconds, and with it the first run of the schedule, unless that is still to come. -/
theorem clock_exact_iff {period schedule : Option String} {c : Clock}
    (hc : Clock.of period schedule = .ok c) {t : Int} (ht : Time.Within t) :
    Clock.Exact period schedule c t ↔ Clock.PeriodFits period schedule t := by
  cases hg : given period with
  | none =>
    refine ⟨fun _ text m h => ?_, fun _ => Clock.exact_of_not_given hc hg ht⟩
    rw [hg] at h
    exact absurd h (by simp)
  | some text =>
    obtain ⟨p, hp, hge, rfl⟩ := Clock.of_given hc hg
    obtain ⟨m, hm, hsay, hfit⟩ := durationOf_cases hp
    have he : 0 < Duration.asMillis p := by
      unfold Duration.ofSecs at hge
      unfold Duration.asMillis
      omega
    have hasked := everyChecked_iff he (Clock.phaseOf_bound ((given schedule).bind Cron.parse) p)
      (Clock.phaseOf_lt _ he) ht
    have hfirst : ∀ k : Nat, (∀ c first, (given schedule).bind Cron.parse = some c →
        c.StartsAt first → Time.millis t < Time.millis first ∨ k + Time.millis first < 2 ^ 63) ↔
        ∀ s c first, given schedule = some s → Cron.parse s = some c → c.StartsAt first →
          Time.millis t < Time.millis first ∨ k + Time.millis first < 2 ^ 63 := by
      intro k
      constructor
      · intro h s c first hs hc' hf
        exact h c first (by rw [hs, Option.bind_some, hc']) hf
      · intro h c first hb hf
        obtain ⟨s, hs, hc'⟩ := Option.bind_eq_some_iff.mp hb
        exact h s c first hs hc' hf
    constructor
    · intro h text' m' ht' hm'
      obtain rfl : text = text' := Option.some.inj (hg.symm.trans ht')
      obtain rfl : m = m' := Option.some.inj (hm.symm.trans hm')
      have hpm : Duration.asMillis p = m := by
        rw [hsay (hp ▸ h.computed.product text hg), asMillis_ofMillis]
      obtain ⟨hlt, hor⟩ := hasked.mp h.asked
      rw [Clock.phaseOf_fits_iff hlt, hpm] at hor
      exact ⟨hpm ▸ hlt, (hfirst m).mp hor⟩
    · intro h
      obtain ⟨hlt, hor⟩ := h text m hg hm
      have hpm : Duration.asMillis p = m := by
        rw [hsay (hfit hlt), asMillis_ofMillis]
      have hlt' : Duration.asMillis p < 2 ^ 63 := hpm ▸ hlt
      refine ⟨Clock.ofFits_iff.mpr fun text' ht' => ?_, ?_, fun p' phase' he' u hu => ?_⟩
      · obtain rfl : text = text' := Option.some.inj (hg.symm.trans ht')
        rw [hp]
        exact hfit hlt
      · refine hasked.mpr ⟨hlt', (Clock.phaseOf_fits_iff hlt').mpr ?_⟩
        rw [hpm]
        exact (hfirst m).mpr hor
      · exact Clock.every_least he hlt' (Clock.phaseOf_bound _ p) ht hu

/-- every day at 21:55 -/
theorem daily_exact : Clock.Exact (some "24h") (some "55 21 * * *")
    (.every (Duration.ofSecs 86400) (Duration.ofSecs 78900)) 0 := by
  have hc : Clock.of (some "24h") (some "55 21 * * *")
      = .ok (.every (Duration.ofSecs 86400) (Duration.ofSecs 78900)) := by decide +kernel
  have hgiven : given (some "24h") = some "24h" := by decide +kernel
  have hmillis : periodMillis "24h" = some 86400000 := by decide +kernel
  refine (clock_exact_iff hc ⟨le_refl 0, by decide⟩).mpr fun text m ht hm => ?_
  obtain rfl := Option.some.inj (hgiven.symm.trans ht)
  obtain rfl := Option.some.inj (hmillis.symm.trans hm)
  refine ⟨by decide, fun s c first _ _ hf => Or.inr ?_⟩
  have := (Clock.millis_startsAt hf).2
  omega

/-- **The division by zero**: a period of 2 ^ 61 seconds is zero as a signed word of milliseconds. -/
theorem zero_period : ¬ ∀ (period schedule : Option String) (c : Clock) (t : Int),
    Clock.of period schedule = .ok c → Time.Within t → Clock.Exact period schedule c t := by
  intro h
  have hc : Clock.of (some "2305843009213693952s") none
      = .ok (.every (Duration.ofSecs 2305843009213693952) 0) := by decide +kernel
  have := (h _ _ _ 0 hc ⟨le_refl 0, by decide⟩).asked
  exact absurd this (by decide +kernel)

end Portal
