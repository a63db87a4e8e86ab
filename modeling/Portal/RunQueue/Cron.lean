import Portal.Base.DateTime
import Portal.Base.Text
import Mathlib.Data.Nat.Basic

/-!
# Cron fields (`reconciler/run_queue.rs`: `Cron`, `field`)

Five cron fields are read into five bit sets and two flags (`Cron.parse`), and an instant is
checked against them (`Cron.matches`).  Beside it stands what a field names, said on its text
alone (`FieldNames`), and what the five fields mean (`Fires`): the day of the month or the weekday
counts where the other is `*`, either one where both are restricted.

* `field_has`            the bit set of a field holds exactly the values its text names;
* `matches_eq`           `Cron.matches` on the names, with the flags as they are read;
* `matches_iff_fires_iff`   the flags are read from the first character, so a field such as `*/2`
                         counts as unrestricted; this is exactly where the two meanings part.
-/

namespace Portal

open Text

/-! ## the fields as bit sets -/

structure Cron where
  minutes : BitVec 64
  hours : BitVec 64
  days : BitVec 64
  months : BitVec 64
  weekdays : BitVec 64
  anyDay : Bool
  anyWeekday : Bool
deriving DecidableEq, Repr

/-- the values of `(from..=to).step_by(step)` -/
def stepBy (first last step : Nat) : List Nat :=
  (List.range ((last - first) / step + 1)).map (fun i => first + i * step)

/-- the first and last value of a range; a single value with a step runs on to `hi` -/
def rangeOf (lo hi : Nat) (range : List Char) (stepped : Bool) : Option (Nat × Nat) :=
  if range = ['*'] then some (lo, hi) else
    match splitOnce '-' range with
    | some (first, last) => do
      let first ← parseUnsigned 32 first
      let last ← parseUnsigned 32 last
      some (first, last)
    | none => do
      let first ← parseUnsigned 32 range
      some (first, if stepped then hi else first)

def fieldPart (part : List Char) (lo hi : Nat) : Option (Nat × Nat × Nat) := do
  let (range, step) ← match splitOnce '/' part with
    | some (range, step) =>
      ((parseUnsigned 32 step).filter (fun s => 0 < s)).map (fun s => (range, some s))
    | none => some (part, none)
  let (first, last) ← rangeOf lo hi range step.isSome
  if first < lo ∨ hi < last ∨ last < first then none else some (first, last, step.getD 1)

/-- `set |= 1 << v` -/
def setBit (set : BitVec 64) (v : Nat) : BitVec 64 := set ||| (1#64 <<< v)

/-- the loop of `field` over its parts -/
def fieldParts (lo hi : Nat) : List (List Char) → BitVec 64 → Option (BitVec 64)
  | [], set => some set
  | part :: parts, set =>
    match fieldPart part lo hi with
    | none => none
    | some (first, last, step) => fieldParts lo hi parts ((stepBy first last step).foldl setBit set)

/-- one cron field as a bit set of the values from `lo` to `hi` it names -/
def field (text : List Char) (lo hi : Nat) : Option (BitVec 64) :=
  fieldParts lo hi (split (· = ',') text) 0#64

/-- `set & (1 << v) != 0` -/
def has (set : BitVec 64) (v : Nat) : Bool := set &&& (1#64 <<< v) != 0#64

def startsWithStar (text : List Char) : Bool := text.head? == some '*'

namespace Cron

def ofFields (minute hour day month weekday : List Char) : Option Cron := do
  let weekdays ← field weekday 0 7
  let weekdays := if has weekdays 7 then weekdays ||| 1#64 else weekdays
  let minutes ← field minute 0 59
  let hours ← field hour 0 23
  let days ← field day 1 31
  let months ← field month 1 12
  some ⟨minutes, hours, days, months, weekdays, startsWithStar day, startsWithStar weekday⟩

def parse (text : String) : Option Cron :=
  match splitWhitespace text.toList with
  | [minute, hour, day, month, weekday] => ofFields minute hour day month weekday
  | _ => none

/-- the day rule: both restricted means either one -/
def dayOk (c : Cron) (t : Int) : Bool :=
  let day := has c.days (Time.dayOf t)
  let weekday := has c.weekdays (Time.weekdayOf t)
  match c.anyDay, c.anyWeekday with
  | true, true => true
  | true, false => weekday
  | false, true => day
  | false, false => day || weekday

def «matches» (c : Cron) (t : Int) : Bool :=
  has c.minutes (Time.minuteOf t) && has c.hours (Time.hourOf t) &&
    has c.months (Time.monthOf t) && c.dayOk t

end Cron

/-! ## what a field names, on its text -/

/-- the first and last value of a range: `*`, `a-b`, and `a`, which runs on to `hi` when it has a
step -/
inductive RangeOf (lo hi : Nat) : List Char → Bool → Nat → Nat → Prop
  | star (stepped : Bool) : RangeOf lo hi ['*'] stepped lo hi
  | span {a b : List Char} {first last : Nat} (stepped : Bool) : '-' ∉ a →
      parseUnsigned 32 a = some first → parseUnsigned 32 b = some last →
      RangeOf lo hi (a ++ '-' :: b) stepped first last
  | single {a : List Char} {n : Nat} : parseUnsigned 32 a = some n → RangeOf lo hi a false n n
  | onward {a : List Char} {n : Nat} : parseUnsigned 32 a = some n → RangeOf lo hi a true n hi

/-- `v` is named by one part: it lies in its range, and on a step of it when it has one -/
def PartNames (lo hi : Nat) (part : List Char) (v : Nat) : Prop :=
  (∃ first last, RangeOf lo hi part false first last ∧ first ≤ v ∧ v ≤ last) ∨
  (∃ range step n first last, part = range ++ '/' :: step ∧ '/' ∉ range ∧
    parseUnsigned 32 step = some n ∧ 0 < n ∧ RangeOf lo hi range true first last ∧
    first ≤ v ∧ v ≤ last ∧ n ∣ v - first)

def FieldNames (lo hi : Nat) (text : List Char) (v : Nat) : Prop :=
  ∃ part ∈ split (· = ',') text, PartNames lo hi part v

/-- the weekday field, with 7 for Sunday too -/
def WeekdayNamed (text : List Char) (w : Nat) : Prop :=
  FieldNames 0 7 text w ∨ (w = 0 ∧ FieldNames 0 7 text 7)

/-- **What five cron fields mean**: with the weekday `*` the day of the month counts, with the day
of the month `*` the weekday, and with both restricted either one. -/
def Fires (minute hour day month weekday : List Char) (t : Int) : Prop :=
  FieldNames 0 59 minute (Time.minuteOf t) ∧ FieldNames 0 23 hour (Time.hourOf t) ∧
  FieldNames 1 12 month (Time.monthOf t) ∧
  (if weekday = ['*'] then FieldNames 1 31 day (Time.dayOf t)
    else if day = ['*'] then WeekdayNamed weekday (Time.weekdayOf t)
    else FieldNames 1 31 day (Time.dayOf t) ∨ WeekdayNamed weekday (Time.weekdayOf t))

/-! ## the parts of a field -/

theorem mem_stepBy {first last step v : Nat} (hl : first ≤ last) (hs : 0 < step) :
    v ∈ stepBy first last step ↔ first ≤ v ∧ v ≤ last ∧ step ∣ v - first := by
  unfold stepBy
  rw [List.mem_map]
  constructor
  · rintro ⟨i, hi, rfl⟩
    rw [List.mem_range, Nat.lt_succ_iff, Nat.le_div_iff_mul_le hs] at hi
    refine ⟨Nat.le_add_right _ _, by omega, ?_⟩
    rw [Nat.add_sub_cancel_left]
    exact Nat.dvd_mul_left _ _
  · rintro ⟨h1, h2, k, hk⟩
    refine ⟨k, ?_, ?_⟩
    · rw [List.mem_range, Nat.lt_succ_iff, Nat.le_div_iff_mul_le hs, Nat.mul_comm]
      omega
    · rw [Nat.mul_comm]
      omega

theorem rangeOf_iff {lo hi : Nat} {range : List Char} {stepped : Bool} {first last : Nat} :
    rangeOf lo hi range stepped = some (first, last) ↔ RangeOf lo hi range stepped first last := by
  constructor
  · intro h
    unfold rangeOf at h
    split at h
    · rename_i hr
      obtain ⟨rfl, rfl⟩ : lo = first ∧ hi = last := by simpa using h
      rw [hr]
      exact RangeOf.star stepped
    · split at h
      · rename_i a b hs
        obtain ⟨rfl, hd⟩ := splitOnce_eq_some.mp hs
        cases ha : parseUnsigned 32 a with
        | none => simp [ha] at h
        | some x =>
          cases hb : parseUnsigned 32 b with
          | none => simp [ha, hb] at h
          | some y =>
            obtain ⟨rfl, rfl⟩ : x = first ∧ y = last := by simpa [ha, hb] using h
            exact RangeOf.span stepped hd ha hb
      · cases ha : parseUnsigned 32 range with
        | none => simp [ha] at h
        | some x =>
          cases stepped with
          | false =>
            obtain ⟨rfl, rfl⟩ : x = first ∧ x = last := by simpa [ha] using h
            exact RangeOf.single ha
          | true =>
            obtain ⟨rfl, rfl⟩ : x = first ∧ hi = last := by simpa [ha] using h
            exact RangeOf.onward ha
  · intro h
    have hne : ∀ {a : List Char} {n : Nat}, parseUnsigned 32 a = some n → a ≠ ['*'] := by
      rintro a n h rfl
      rw [show parseUnsigned 32 ['*'] = none by decide] at h
      exact absurd h (by simp)
    have hnd : ∀ {a : List Char} {n : Nat}, parseUnsigned 32 a = some n → splitOnce '-' a = none :=
      fun h => splitOnce_eq_none.mpr (not_mem_of_parseUnsigned h (by decide) (by decide))
    cases h with
    | star => rfl
    | span _ hd ha hb =>
      rename_i a b
      have hs : splitOnce '-' (a ++ '-' :: b) = some (a, b) := splitOnce_eq_some.mpr ⟨rfl, hd⟩
      have hstar : a ++ '-' :: b ≠ ['*'] := by
        intro h
        have : '-' ∈ ['*'] := h ▸ List.mem_append_right _ (List.mem_cons_self ..)
        exact absurd this (by decide)
      simp [rangeOf, hstar, hs, ha, hb]
    | single ha => simp [rangeOf, hne ha, hnd ha, ha]
    | onward ha => simp [rangeOf, hne ha, hnd ha, ha]

/-- no range holds a `/` -/
theorem RangeOf.no_slash {lo hi : Nat} {range : List Char} {stepped : Bool} {first last : Nat}
    (h : RangeOf lo hi range stepped first last) : '/' ∉ range := by
  have hn : ∀ {a : List Char} {n : Nat}, parseUnsigned 32 a = some n → '/' ∉ a :=
    fun h => not_mem_of_parseUnsigned h (by decide) (by decide)
  cases h with
  | star => decide
  | span _ _ ha hb =>
    rw [List.mem_append, List.mem_cons, not_or, not_or]
    exact ⟨hn ha, by decide, hn hb⟩
  | single ha => exact hn ha
  | onward ha => exact hn ha

theorem fieldPart_spec {part : List Char} {lo hi first last step : Nat}
    (h : fieldPart part lo hi = some (first, last, step)) :
    lo ≤ first ∧ first ≤ last ∧ last ≤ hi ∧ 0 < step ∧
      ∀ v, PartNames lo hi part v ↔ first ≤ v ∧ v ≤ last ∧ step ∣ v - first := by
  unfold fieldPart at h
  cases hs : splitOnce '/' part with
  | none =>
    have hslash := splitOnce_eq_none.mp hs
    simp only [hs, Option.bind_eq_bind, Option.bind_some, Option.isSome_none, Option.getD_none] at h
    cases hr : rangeOf lo hi part false with
    | none => simp [hr] at h
    | some r =>
      obtain ⟨f, l⟩ := r
      rw [hr] at h
      simp only [Option.bind_some] at h
      split at h
      · exact absurd h (by simp)
      · rename_i hb
        obtain ⟨rfl, rfl, rfl⟩ : f = first ∧ l = last ∧ 1 = step := by simpa using h
        refine ⟨by omega, by omega, by omega, Nat.one_pos, fun v => ⟨?_, ?_⟩⟩
        · rintro (⟨f', l', hr', hv⟩ | ⟨range, st, n, f', l', e, _⟩)
          · rw [rangeOf_iff.mpr hr', Option.some.injEq, Prod.mk.injEq] at hr
            rw [← hr.1, ← hr.2]
            exact ⟨hv.1, hv.2, Nat.one_dvd _⟩
          · exact absurd (e ▸ List.mem_append_right _ (List.mem_cons_self ..)) hslash
        · rintro ⟨h1, h2, _⟩
          exact Or.inl ⟨f, l, rangeOf_iff.mp hr, h1, h2⟩
  | some rs =>
    obtain ⟨range, st⟩ := rs
    obtain ⟨hpart, hslash⟩ := splitOnce_eq_some.mp hs
    simp only [hs, Option.bind_eq_bind] at h
    cases hn : (parseUnsigned 32 st).filter (fun s => 0 < s) with
    | none => simp [hn] at h
    | some n =>
      obtain ⟨hn1, hn2⟩ := Option.filter_eq_some_iff.mp hn
      rw [hn] at h
      simp only [Option.map_some, Option.bind_some, Option.isSome_some, Option.getD_some] at h
      cases hr : rangeOf lo hi range true with
      | none => simp [hr] at h
      | some r =>
        obtain ⟨f, l⟩ := r
        rw [hr] at h
        simp only [Option.bind_some] at h
        split at h
        · exact absurd h (by simp)
        · rename_i hb
          obtain ⟨rfl, rfl, rfl⟩ : f = first ∧ l = last ∧ n = step := by simpa using h
          refine ⟨by omega, by omega, by omega, by simpa using hn2, fun v => ⟨?_, ?_⟩⟩
          · rintro (⟨f', l', hr', _⟩ | ⟨range', st', n', f', l', e, hsl, hn', _, hr', hv⟩)
            · exact absurd (hpart ▸ List.mem_append_right _ (List.mem_cons_self ..)) hr'.no_slash
            · have he := splitOnce_eq_some.mpr ⟨e, hsl⟩
              rw [hs, Option.some.injEq, Prod.mk.injEq] at he
              obtain ⟨rfl, rfl⟩ := he
              rw [rangeOf_iff.mpr hr', Option.some.injEq, Prod.mk.injEq] at hr
              rw [hn', Option.some.injEq] at hn1
              rw [← hr.1, ← hr.2, ← hn1]
              exact hv
          · rintro ⟨h1, h2, h3⟩
            exact Or.inr ⟨range, st, n, f, l, hpart, hslash, hn1, by simpa using hn2,
              rangeOf_iff.mp hr, h1, h2, h3⟩

/-! ## the bits of a field -/

theorem has_eq_getLsbD (set : BitVec 64) {v : Nat} (hv : v < 64) : has set v = set.getLsbD v := by
  unfold has
  rw [← BitVec.twoPow_eq, BitVec.and_twoPow]
  cases set.getLsbD v with
  | false => simp
  | true =>
    have hne : BitVec.twoPow 64 v ≠ 0#64 := by
      intro h
      have hb := congrArg (fun b => b.getLsbD v) h
      simp [hv] at hb
    simpa using hne

theorem has_setBit (set : BitVec 64) {v w : Nat} (hw : w < 64) :
    has (setBit set v) w = true ↔ has set w = true ∨ v = w := by
  rw [has_eq_getLsbD _ hw, has_eq_getLsbD _ hw]
  unfold setBit
  rw [BitVec.getLsbD_or, Bool.or_eq_true, ← BitVec.twoPow_eq, BitVec.getLsbD_twoPow]
  constructor
  · rintro (h | h)
    · exact Or.inl h
    · exact Or.inr (by simp at h; exact h.2)
  · rintro (h | h)
    · exact Or.inl h
    · exact Or.inr (by simp [hw, h])

theorem has_foldl_setBit (vs : List Nat) (set : BitVec 64) {w : Nat} (hw : w < 64) :
    has (vs.foldl setBit set) w = true ↔ has set w = true ∨ w ∈ vs := by
  induction vs generalizing set with
  | nil => simp
  | cons v vs ih =>
    rw [List.foldl_cons, ih, has_setBit set hw, List.mem_cons, or_assoc, @eq_comm _ v w]

theorem fieldParts_has {lo hi : Nat} (parts : List (List Char)) (set set' : BitVec 64)
    (h : fieldParts lo hi parts set = some set') {w : Nat} (hw : w < 64) :
    has set' w = true ↔ has set w = true ∨ ∃ part ∈ parts, PartNames lo hi part w := by
  induction parts generalizing set with
  | nil =>
    obtain rfl : set = set' := by simpa [fieldParts] using h
    simp
  | cons part parts ih =>
    unfold fieldParts at h
    split at h
    · exact absurd h (by simp)
    · rename_i first last step hp
      obtain ⟨_, hl, _, hs, hn⟩ := fieldPart_spec hp
      rw [ih _ h, has_foldl_setBit _ _ hw, mem_stepBy hl hs, ← hn, or_assoc,
        List.exists_mem_cons_iff]

/-- **The bit set of a field holds exactly the values its text names.** -/
theorem field_has {text : List Char} {lo hi : Nat} {set : BitVec 64}
    (h : field text lo hi = some set) {w : Nat} (hw : w < 64) :
    has set w = true ↔ FieldNames lo hi text w := by
  have h0 : has 0#64 w = false := by
    rw [has_eq_getLsbD _ hw]
    simp
  rw [fieldParts_has _ _ _ h hw, h0]
  simp [FieldNames]

/-- a field that is read names a value, and only values from `lo` to `hi` -/
theorem field_bounds {text : List Char} {lo hi : Nat} {set : BitVec 64}
    (h : field text lo hi = some set) :
    (∃ v, lo ≤ v ∧ v ≤ hi ∧ FieldNames lo hi text v) ∧
      ∀ v, FieldNames lo hi text v → lo ≤ v ∧ v ≤ hi := by
  have hparts : ∀ (parts : List (List Char)) (set : BitVec 64) (set' : BitVec 64),
      fieldParts lo hi parts set = some set' →
      ∀ part ∈ parts, ∃ x, fieldPart part lo hi = some x := by
    intro parts
    induction parts with
    | nil => intro _ _ _ part hp; exact absurd hp List.not_mem_nil
    | cons p ps ih =>
      intro set set' hset part hp
      unfold fieldParts at hset
      split at hset
      · exact absurd hset (by simp)
      · rename_i first last step hx
        rcases List.mem_cons.mp hp with rfl | hp
        · exact ⟨_, hx⟩
        · exact ih _ _ hset part hp
  constructor
  · obtain ⟨part, rest, hsplit⟩ := List.exists_cons_of_ne_nil (split_ne_nil (· = ',') text)
    have hmem : part ∈ split (· = ',') text := hsplit ▸ List.mem_cons_self ..
    obtain ⟨⟨first, last, step⟩, hx⟩ := hparts _ _ _ h part hmem
    obtain ⟨h1, h2, h3, _, hn⟩ := fieldPart_spec hx
    exact ⟨first, h1, le_trans h2 h3, part, hmem, (hn first).mpr ⟨le_refl _, h2, by simp⟩⟩
  · rintro v ⟨part, hmem, hv⟩
    obtain ⟨⟨first, last, step⟩, hx⟩ := hparts _ _ _ h part hmem
    obtain ⟨h1, _, h3, _, hn⟩ := fieldPart_spec hx
    obtain ⟨h4, h5, _⟩ := (hn v).mp hv
    exact ⟨le_trans h1 h4, le_trans h5 h3⟩

/-! ## the two meanings -/

namespace Cron

/-- what `Cron.parse` reads of its five fields -/
theorem parse_eq_some {text : String} {c : Cron} (h : parse text = some c) :
    ∃ minute hour day month weekday,
      splitWhitespace text.toList = [minute, hour, day, month, weekday] ∧
      ofFields minute hour day month weekday = some c := by
  unfold parse at h
  split at h
  · rename_i minute hour day month weekday hs
    exact ⟨minute, hour, day, month, weekday, hs, h⟩
  · exact absurd h (by simp)

theorem ofFields_eq_some {minute hour day month weekday : List Char} {c : Cron}
    (h : ofFields minute hour day month weekday = some c) :
    field minute 0 59 = some c.minutes ∧ field hour 0 23 = some c.hours ∧
    field day 1 31 = some c.days ∧ field month 1 12 = some c.months ∧
    (∃ ws, field weekday 0 7 = some ws ∧ c.weekdays = if has ws 7 then ws ||| 1#64 else ws) ∧
    c.anyDay = startsWithStar day ∧ c.anyWeekday = startsWithStar weekday := by
  unfold ofFields at h
  cases hw : field weekday 0 7 with
  | none => simp [hw] at h
  | some ws =>
    cases hm : field minute 0 59 with
    | none => simp [hw, hm] at h
    | some ms =>
      cases hh : field hour 0 23 with
      | none => simp [hw, hm, hh] at h
      | some hs =>
        cases hd : field day 1 31 with
        | none => simp [hw, hm, hh, hd] at h
        | some ds =>
          cases hn : field month 1 12 with
          | none => simp [hw, hm, hh, hd, hn] at h
          | some ns =>
            have hc := Option.some.inj (by simpa [hw, hm, hh, hd, hn] using h)
            rw [← hc]
            exact ⟨rfl, rfl, rfl, rfl, ⟨ws, rfl, rfl⟩, rfl, rfl⟩

theorem has_weekdays {weekday : List Char} {ws : BitVec 64} (h : field weekday 0 7 = some ws)
    {w : Nat} (hw : w < 7) :
    has (if has ws 7 then ws ||| 1#64 else ws) w = true ↔ WeekdayNamed weekday w := by
  unfold WeekdayNamed
  rw [← field_has h (show w < 64 by omega), ← field_has h (show 7 < 64 by omega)]
  cases h7 : has ws 7 with
  | false => simp
  | true =>
    have hs : ws ||| 1#64 = setBit ws 0 := rfl
    rw [if_pos rfl, hs, has_setBit ws (show w < 64 by omega), @eq_comm _ 0 w]
    simp

end Cron

/-- a field that starts with `*` and is not `*`: `*/2`, `*,5` -/
def StarLed (text : List Char) : Prop := startsWithStar text = true ∧ text ≠ ['*']

/-- the day rule at an instant whose day of month is named or not (`D`) and whose weekday is named
or not (`W`) is the same whether a star-led field counts as `*` or as the values it names -/
def StarLedAgree (day weekday : List Char) (D W : Prop) : Prop :=
  (StarLed day → StarLed weekday → D ∨ W) ∧
  (StarLed day → weekday = ['*'] → D) ∧
  (StarLed day → startsWithStar weekday = false → D → W) ∧
  (StarLed weekday → day = ['*'] → W) ∧
  (StarLed weekday → startsWithStar day = false → W → D)

theorem startsWithStar_cases (text : List Char) :
    text = ['*'] ∨ StarLed text ∨ startsWithStar text = false := by
  by_cases h : text = ['*']
  · exact Or.inl h
  · cases hs : startsWithStar text with
    | true => exact Or.inr (Or.inl ⟨hs, h⟩)
    | false => exact Or.inr (Or.inr rfl)

theorem dayRule_iff (day weekday : List Char) (D W : Prop) (hD : day = ['*'] → D)
    (hW : weekday = ['*'] → W) :
    (((match startsWithStar day, startsWithStar weekday with
        | true, true => True
        | true, false => W
        | false, true => D
        | false, false => D ∨ W) ↔
      (if weekday = ['*'] then D else if day = ['*'] then W else D ∨ W)) ↔
      StarLedAgree day weekday D W) := by
  have hstar : startsWithStar ['*'] = true := rfl
  have hne : ∀ {text : List Char}, startsWithStar text = false → text ≠ ['*'] := by
    rintro text h rfl
    exact absurd h (by decide)
  unfold StarLedAgree StarLed
  rcases startsWithStar_cases day with hd | ⟨hd, hd'⟩ | hd <;>
    rcases startsWithStar_cases weekday with hw | ⟨hw, hw'⟩ | hw
  · simp [hd, hw, hstar, hD hd]
  · simp [hd, hw, hw', hstar]
  · simp [hd, hw, hne hw, hstar]
  · simp [hd, hd', hw, hstar]
  · simp [hd, hd', hw, hw']
  · have := hne hw
    simp only [hd, hd', hw, this]
    simp
    tauto
  · simp [hd, hne hd, hw, hstar]
  · have := hne hd
    simp only [hd, hw, hw', this]
    simp
    tauto
  · simp [hd, hne hd, hw, hne hw]

theorem fieldNames_star {lo hi v : Nat} (h1 : lo ≤ v) (h2 : v ≤ hi) : FieldNames lo hi ['*'] v :=
  ⟨['*'], by decide, Or.inl ⟨lo, hi, RangeOf.star false, h1, h2⟩⟩

namespace Cron

theorem timeOk_iff {minute hour day month weekday : List Char} {c : Cron}
    (h : ofFields minute hour day month weekday = some c) (t : Int) :
    (has c.minutes (Time.minuteOf t) && has c.hours (Time.hourOf t) &&
        has c.months (Time.monthOf t)) = true ↔
      FieldNames 0 59 minute (Time.minuteOf t) ∧ FieldNames 0 23 hour (Time.hourOf t) ∧
        FieldNames 1 12 month (Time.monthOf t) := by
  obtain ⟨hm, hh, _, hn, _⟩ := ofFields_eq_some h
  have h1 := (Time.minuteOf_lt t)
  have h2 := (Time.hourOf_lt t)
  have h3 := (Time.monthOf_le t)
  rw [Bool.and_eq_true, Bool.and_eq_true, field_has hm (by omega), field_has hh (by omega),
    field_has hn (by omega), and_assoc]

theorem dayOk_iff {minute hour day month weekday : List Char} {c : Cron}
    (h : ofFields minute hour day month weekday = some c) (t : Int) :
    c.dayOk t = true ↔
      match startsWithStar day, startsWithStar weekday with
      | true, true => True
      | true, false => WeekdayNamed weekday (Time.weekdayOf t)
      | false, true => FieldNames 1 31 day (Time.dayOf t)
      | false, false =>
        FieldNames 1 31 day (Time.dayOf t) ∨ WeekdayNamed weekday (Time.weekdayOf t) := by
  obtain ⟨_, _, hd, _, ⟨ws, hw, hws⟩, ha, hb⟩ := ofFields_eq_some h
  have h1 := Time.dayOf_le t
  rw [← field_has hd (show Time.dayOf t < 64 by omega), ← has_weekdays hw (Time.weekdayOf_lt t),
    ← hws]
  unfold dayOk
  rw [ha, hb]
  cases startsWithStar day <;> cases startsWithStar weekday <;> simp

/-- **Where `Cron.matches` keeps to the meaning of the fields**: wherever the time and month of the
instant are named, exactly where reading a star-led field as `*` makes no difference to its day. -/
theorem matches_iff_fires_iff {text : String} {minute hour day month weekday : List Char} {c : Cron}
    (hf : splitWhitespace text.toList = [minute, hour, day, month, weekday])
    (hc : parse text = some c) (t : Int) :
    (c.matches t = true ↔ Fires minute hour day month weekday t) ↔
      (FieldNames 0 59 minute (Time.minuteOf t) → FieldNames 0 23 hour (Time.hourOf t) →
        FieldNames 1 12 month (Time.monthOf t) →
        StarLedAgree day weekday (FieldNames 1 31 day (Time.dayOf t))
          (WeekdayNamed weekday (Time.weekdayOf t))) := by
  have h : ofFields minute hour day month weekday = some c := by
    unfold parse at hc
    rw [hf] at hc
    exact hc
  have hv := Calendar.ofDayNumber_valid (Time.dayNumberOf t)
  have hD : day = ['*'] → FieldNames 1 31 day (Time.dayOf t) := by
    rintro rfl
    exact fieldNames_star hv.2.2.1 (Time.dayOf_le t)
  have hW : weekday = ['*'] → WeekdayNamed weekday (Time.weekdayOf t) := by
    rintro rfl
    exact Or.inl (fieldNames_star (Nat.zero_le _) (le_of_lt (Time.weekdayOf_lt t)))
  have hmatch : c.matches t = true ↔ (FieldNames 0 59 minute (Time.minuteOf t) ∧
      FieldNames 0 23 hour (Time.hourOf t) ∧ FieldNames 1 12 month (Time.monthOf t)) ∧
      c.dayOk t = true := by
    unfold «matches»
    rw [Bool.and_eq_true, timeOk_iff h]
  have hrule := dayRule_iff day weekday _ _ hD hW
  rw [← dayOk_iff h t] at hrule
  rw [hmatch, ← hrule]
  unfold Fires
  rw [and_assoc, and_assoc, and_congr_right_iff, and_congr_right_iff, and_congr_right_iff]

end Cron

/-- `0 0 */2 * *` names the odd days of the month and fires on the second all the same -/
theorem stepped_day_counts_as_any :
    ∃ (text : String) (minute hour day month weekday : List Char) (c : Cron) (t : Int),
      splitWhitespace text.toList = [minute, hour, day, month, weekday] ∧
      Cron.parse text = some c ∧
      ¬ (c.matches t = true ↔ Fires minute hour day month weekday t) := by
  refine ⟨"0 0 */2 * *", ['0'], ['0'], ['*', '/', '2'], ['*'], ['*'],
    ⟨1#64, 1#64, 2863311530#64, 8190#64, 255#64, true, true⟩, Time.day, by decide, by decide, ?_⟩
  have hd : field ['*', '/', '2'] 1 31 = some 2863311530#64 := by decide
  have hday : ¬ FieldNames 1 31 ['*', '/', '2'] (Time.dayOf Time.day) := by
    rw [← field_has hd (by decide)]
    decide
  intro h
  have hf := h.mp (by decide)
  rw [Fires, if_pos rfl] at hf
  exact hday hf.2.2.2

/-- a daily schedule at 05:00 keeps to its meaning -/
theorem daily_at_five_fires :
    ∃ c : Cron, Cron.parse "0 5 * * *" = some c ∧
      (c.matches (5 * Time.hour) = true ↔
        Fires ['0'] ['5'] ['*'] ['*'] ['*'] (5 * Time.hour)) := by
  refine ⟨⟨1#64, 32#64, 4294967294#64, 8190#64, 255#64, true, true⟩, by decide, ?_⟩
  have hf : splitWhitespace "0 5 * * *".toList = [['0'], ['5'], ['*'], ['*'], ['*']] := by decide
  refine (Cron.matches_iff_fires_iff hf (by decide) _).mpr ?_
  intro _ _ _
  unfold StarLedAgree StarLed
  simp

end Portal
