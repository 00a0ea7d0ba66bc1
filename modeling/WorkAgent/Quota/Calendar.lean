import Mathlib.Data.Int.Notation
import Mathlib.Data.Nat.Notation

namespace WorkAgent.Quota

structure Time where
  ns : ℤ
  deriving DecidableEq

structure Date where
  year : ℤ
  month : ℤ
  day : ℤ
  deriving DecidableEq

namespace Time

def second : ℤ := 1000000000

def secondsPerDay : ℤ := 86400

def zero : Time := ⟨-62135596800 * second⟩

def IsZero (t : Time) : Prop := t = zero

instance (t : Time) : Decidable t.IsZero := inferInstanceAs (Decidable (t = zero))

def unix (t : Time) : ℤ := t.ns / second

def unixMilli (t : Time) : ℤ := t.ns / 1000000

def days (t : Time) : ℤ := t.unix / secondsPerDay

def midnight (days : ℤ) : Time := ⟨days * secondsPerDay * second⟩

end Time

def civilFromDays (days : ℤ) : Date :=
  let z := days + 719468
  let era := z / 146097
  let doe := z % 146097
  let yoe := (doe - doe / 1460 + doe / 36524 - doe / 146096) / 365
  let doy := doe - (365 * yoe + yoe / 4 - yoe / 100)
  let mp := (5 * doy + 2) / 153
  let month := if mp < 10 then mp + 3 else mp - 9
  { year := yoe + era * 400 + if month ≤ 2 then 1 else 0
    month := month
    day := doy - (153 * mp + 2) / 5 + 1 }

def daysFromCivil (date : Date) : ℤ :=
  let y := if date.month ≤ 2 then date.year - 1 else date.year
  let era := y / 400
  let yoe := y % 400
  let mp := if date.month ≤ 2 then date.month + 9 else date.month - 3
  let doy := (153 * mp + 2) / 5 + date.day - 1
  era * 146097 + (yoe * 365 + yoe / 4 - yoe / 100 + doy) - 719468

namespace Time

def date (t : Time) : Date := civilFromDays t.days

def weekday (days : ℤ) : ℤ := (days + 3) % 7

def isoWeek (t : Time) : ℤ × ℤ :=
  let thursday := t.days - weekday t.days + 3
  let year := (civilFromDays thursday).year
  (year, (thursday - daysFromCivil ⟨year, 1, 1⟩) / 7 + 1)

end Time

inductive Period
  | daily
  | weekly
  deriving DecidableEq

def Period.parse (text : String) : Option Period :=
  if text = "daily" then some .daily else if text = "weekly" then some .weekly else none

def padded (width : ℕ) (n : ℕ) : String :=
  let digits := toString n
  String.ofList (List.replicate (width - digits.length) '0') ++ digits

def formatYear (year : ℤ) : String :=
  if year < 0 then "-" ++ padded 4 year.natAbs else padded 4 year.natAbs

def sprintYear (year : ℤ) : String :=
  if year < 0 then "-" ++ padded 3 year.natAbs else padded 4 year.natAbs

def periodKey : Period → Time → String
  | .weekly, t =>
    let week := t.isoWeek
    sprintYear week.1 ++ "-W" ++ padded 2 week.2.natAbs
  | .daily, t =>
    let date := t.date
    formatYear date.year ++ "-" ++ padded 2 date.month.natAbs ++ "-" ++ padded 2 date.day.natAbs

def isoWeekStart (t : Time) : Time :=
  let date := t.date
  let midnight := daysFromCivil ⟨date.year, date.month, date.day⟩
  .midnight (daysFromCivil ⟨date.year, date.month, date.day - Time.weekday midnight⟩)

def gatewayPeriodStart : Period → Time → Time
  | .weekly, t => isoWeekStart t
  | .daily, t =>
    let date := t.date
    .midnight (daysFromCivil ⟨date.year, date.month, date.day⟩)

example : periodKey .daily ⟨1709164800 * Time.second⟩ = "2024-02-29" := by decide

example : periodKey .weekly ⟨1609459200 * Time.second⟩ = "2020-W53" := by decide

end WorkAgent.Quota
