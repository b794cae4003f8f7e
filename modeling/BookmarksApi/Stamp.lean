import BookmarksApi.Text

/-!
# Stamp — stored timestamps

A `DateTime(timezone=True)` column holds an instant in UTC.  On SQLite it is kept as text, and the
text has two forms: `CURRENT_TIMESTAMP`, the server default, writes whole seconds, while a bound
Python `datetime` always carries six fractional digits.  Instants count microseconds from
1970-01-01T00:00:00Z.
-/

/-- A stored timestamp, with the form its text has on SQLite. -/
inductive Stamp
  /-- `YYYY-MM-DD HH:MM:SS`, at a whole second. -/
  | seconds (s : ℤ)
  /-- `YYYY-MM-DD HH:MM:SS.ffffff`. -/
  | micros (us : ℤ)
  deriving DecidableEq, Repr

namespace Stamp

/-- The instant a stamp stands for, in microseconds. -/
def instant : Stamp → ℤ
  | seconds s => s * 1000000
  | micros us => us

/-- Microseconds in a day. -/
def dayMicros : ℤ := 86400 * 1000000

/-! ## The calendar -/

/-- A date of the proleptic Gregorian calendar. -/
structure CivilDate where
  year : ℤ
  month : ℤ
  day : ℤ
  deriving DecidableEq, Repr

/-- The date of a day counted from 1970-01-01: eras of 400 years starting on the first of March. -/
def civil (days : ℤ) : CivilDate :=
  let z := days + 719468
  let era := z / 146097
  let doe := z % 146097
  let yoe := (doe - doe / 1460 + doe / 36524 - doe / 146096) / 365
  let doy := doe - (365 * yoe + yoe / 4 - yoe / 100)
  let mp := (5 * doy + 2) / 153
  let month := if mp < 10 then mp + 3 else mp - 9
  { year := yoe + era * 400 + if month ≤ 2 then 1 else 0
    month := month
    day := doy - (153 * mp + 2) / 5 + 1 }

/-- A number in at least `width` decimal digits. -/
def pad (width : ℕ) (n : ℤ) : Str :=
  let digits := Str.ofNat n.toNat
  List.replicate (width - digits.length) '0' ++ digits

/-- `YYYY-MM`. -/
def monthText (s : Stamp) : Str :=
  let d := civil (s.instant / dayMicros)
  pad 4 d.year ++ '-' :: pad 2 d.month

/-- `YYYY-MM-DD HH:MM:SS`. -/
def secondText (s : Stamp) : Str :=
  let d := civil (s.instant / dayMicros)
  let t := s.instant % dayMicros / 1000000
  s.monthText ++ '-' :: pad 2 d.day ++ ' ' :: pad 2 (t / 3600) ++ ':' :: pad 2 (t / 60 % 60)
    ++ ':' :: pad 2 (t % 60)

/-- The text SQLite stores. -/
def text : Stamp → Str
  | seconds s => (seconds s).secondText
  | micros us => (micros us).secondText ++ '.' :: pad 6 (us % 1000000)

example : (seconds 1780704000).text = "2026-06-06 00:00:00".toList := by decide +kernel

example : (micros 951782399999999).text = "2000-02-28 23:59:59.999999".toList := by decide +kernel

end Stamp
