import Portal.Base.Calendar

/-!
# Instants in UTC and lengths of time

An instant is an `Int`, the nanoseconds since 1970-01-01T00:00Z, and a duration is a `Nat`, its
nanoseconds; the parts of an instant are read off the calendar of `Portal.Base.Calendar`.  Instants
are unbounded here except where one is made from a number of milliseconds (`Time.ofMillis`), which
fails outside the years the library's type can hold.

* `Time.minuteOf`, `hourOf`, `dayOf`, `monthOf`, `weekdayOf`   the parts;
* `stamp`          an instant in RFC 3339, to the second, with `Z`;
* `asI64`          a number cut to a signed 64-bit word.
-/

namespace Portal

namespace Duration

def ofMillis (n : Nat) : Nat := n * 1000000
def ofSecs (n : Nat) : Nat := n * 1000000000
def asMillis (d : Nat) : Nat := d / 1000000
def asSecs (d : Nat) : Nat := d / 1000000000

/-- a span of time as a length, zero when it is negative -/
def ofSpan (span : Int) : Nat := span.toNat

end Duration

/-- a number cut to a signed 64-bit word, as `as i64` and the wrapping operations do -/
def asI64 (n : Int) : Int := Int.bmod n (2 ^ 64)

/-- a number cut to an unsigned 64-bit word -/
def asU64 (n : Nat) : Nat := n % 2 ^ 64

namespace Time

def second : Int := 1000000000
def minute : Int := 60 * second
def hour : Int := 60 * minute
def day : Int := 24 * hour

/-- 1970-01-01 as a day of `Portal.Base.Calendar` -/
def epochDay : Int := 719162

/-- the day of an instant, counted from 0001-01-01 -/
def dayNumberOf (t : Int) : Int := t / day + epochDay

def dateOf (t : Int) : Calendar.Date := Calendar.ofDayNumber (dayNumberOf t)

def secondOf (t : Int) : Nat := (t % minute / second).toNat
def minuteOf (t : Int) : Nat := (t % hour / minute).toNat
def hourOf (t : Int) : Nat := (t % day / hour).toNat
def dayOf (t : Int) : Nat := (dateOf t).day
def monthOf (t : Int) : Nat := (dateOf t).month
def weekdayOf (t : Int) : Nat := Calendar.weekday (dayNumberOf t)

/-- the instant with its seconds and what is below them cut off -/
def floorMinute (t : Int) : Int := t - t % minute

/-- the whole milliseconds since the epoch -/
def millis (t : Int) : Int := t / 1000000

/-- the years an instant may lie in -/
def minYear : Int := -262143
def maxYear : Int := 262142

def minMillis : Int := (Calendar.daysBeforeYear minYear - epochDay) * 86400000
def maxMillis : Int := (Calendar.daysBeforeYear (maxYear + 1) - epochDay) * 86400000 - 1

/-- the instant of a number of milliseconds, where the type can hold it -/
def ofMillis (n : Int) : Option Int :=
  if minMillis ≤ n ∧ n ≤ maxMillis then some (n * 1000000) else none

end Time

/-! ## the ranges of the parts -/

namespace Time

theorem minuteOf_lt (t : Int) : minuteOf t < 60 := by
  unfold minuteOf hour minute second
  omega

theorem hourOf_lt (t : Int) : hourOf t < 24 := by
  unfold hourOf day hour minute second
  omega

theorem monthOf_le (t : Int) : monthOf t ≤ 12 :=
  (Calendar.ofDayNumber_valid (dayNumberOf t)).2.1

theorem dayOf_le (t : Int) : dayOf t ≤ 31 := by
  obtain ⟨_, h2, _, h4⟩ := Calendar.ofDayNumber_valid (dayNumberOf t)
  exact le_trans h4 (Calendar.daysInMonth_le _ _)

theorem weekdayOf_lt (t : Int) : weekdayOf t < 7 := Calendar.weekday_lt _

end Time

/-! ## RFC 3339 -/

def digit (n : Nat) : Char := Char.ofNat (48 + n % 10)

def digits2 (n : Nat) : List Char := [digit (n / 10), digit n]

def digits4 (n : Nat) : List Char := [digit (n / 1000), digit (n / 100), digit (n / 10), digit n]

/-- a year in four digits, or with its sign and at least four outside 0 to 9999 -/
def yearText (y : Int) : List Char :=
  if 0 ≤ y ∧ y ≤ 9999 then digits4 y.toNat
  else
    let ds := Nat.toDigits 10 y.natAbs
    (if y < 0 then '-' else '+') :: (List.replicate (4 - ds.length) '0' ++ ds)

def stamp (t : Int) : String :=
  String.ofList (yearText (Time.dateOf t).year ++ '-' :: digits2 (Time.monthOf t)
    ++ '-' :: digits2 (Time.dayOf t) ++ 'T' :: digits2 (Time.hourOf t)
    ++ ':' :: digits2 (Time.minuteOf t) ++ ':' :: digits2 (Time.secondOf t) ++ ['Z'])

example : stamp (1792238430 * Time.second) = "2026-10-17T12:00:30Z" := by decide

end Portal
