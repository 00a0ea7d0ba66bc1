import Mathlib
import WorkAgent.Quota.Operations

namespace WorkAgent.Quota

open Time

/-- The `ResetsAt` of a budget: `time.Date` with the day after, or `AddDate(0, 0, 7)` to the start of the week. -/
def resetsAt : Period → Time → Time
  | .daily, t => .midnight (daysFromCivil ⟨t.date.year, t.date.month, t.date.day + 1⟩)
  | .weekly, t =>
    let date := (isoWeekStart t).date
    .midnight (daysFromCivil ⟨date.year, date.month, date.day + 7⟩)

structure ManagedBudget where
  modelID : String
  baseLimitUnits : Units
  temporary : Bool
  resetsAt : Time
  gatewayAccounting : Bool
  usageUpdatedAt : Option Time
  usage : Usage

namespace Store

variable (s : Store)

def managedBudget (env : Env) (time : Time) (b : BudgetRow) : Except QuotaError ManagedBudget := do
  let accounting := decide (s.gatewayAccounting = true ∧ b.modelID ≠ speechTranscriptionModelID)
  let usage ← s.usage env b.sid b.modelID time
  return { modelID := b.modelID, baseLimitUnits := b.limitUnits
           temporary := s.overrides.rows.any (fun o => o.sid = b.sid ∧ o.modelID = b.modelID ∧ o.period = usage.period ∧
             o.periodKey = usage.periodKey)
           resetsAt := Quota.resetsAt usage.period time
           gatewayAccounting := accounting
           usageUpdatedAt := if accounting ∧ s.through ≠ 0 then some ⟨s.through * 1000000⟩ else none
           usage := usage }

def managedBudgets (env : Env) (sid : String) (time : Time) : Except QuotaError (List ManagedBudget) :=
  let time := if time.IsZero then env.now 0 else time
  ((s.budgets.rows.filter (fun b => b.sid = sid)).insertionSort (fun b c => b.modelID ≤ c.modelID)).mapM (s.managedBudget env time)

end Store

section Digits

variable {v w m n : ℕ}

theorem toList_padded : (padded w n).toList = List.replicate (w - (toString n).length) '0' ++ Nat.toDigits 10 n := by
  simp [padded, Nat.toString_eq_repr, Nat.toList_repr]

theorem padded_inj (h : padded v m = padded w n) : m = n := by
  have hvalue (w n : ℕ) : Nat.ofDigitChars 10 (padded w n).toList 0 = n := by
    rw [toList_padded, Nat.ofDigitChars_append, Nat.ofDigitChars_replicate_zero, Nat.mul_zero, Nat.ofDigitChars_ten_toDigits]
  rw [← hvalue v m, h, hvalue]

theorem dash_not_mem_padded : '-' ∉ (padded w n).toList := by
  rw [toList_padded, List.mem_append, List.mem_replicate]
  rintro (⟨-, hdash⟩ | hmem)
  · cases hdash
  · exact absurd (Nat.isDigit_of_mem_toDigits (by decide) (by decide) hmem) (by decide)

theorem length_padded_two (h : n < 100) : (padded 2 n).toList.length = 2 := by
  have hlength : (Nat.toDigits 10 n).length ≤ 2 := (Nat.length_toDigits_le_iff (by decide) (by decide)).mpr h
  have heq : (toString n).length = (Nat.toDigits 10 n).length := by
    rw [Nat.toString_eq_repr, ← String.length_toList, Nat.toList_repr]
  rw [toList_padded, List.length_append, List.length_replicate, heq]
  omega

/-- `formatYear` and `sprintYear` differ in the width of a negative year only. -/
theorem signed_inj {x y : ℤ} (h : (if x < 0 then "-" ++ padded v x.natAbs else padded w x.natAbs) =
    if y < 0 then "-" ++ padded v y.natAbs else padded w y.natAbs) : x = y := by
  have hdash (n : ℕ) : '-' ∈ ("-" ++ padded v n).toList := by
    rw [String.toList_append]
    exact List.mem_append_left _ (List.mem_singleton.mpr rfl)
  by_cases hx : x < 0
  · by_cases hy : y < 0
    · rw [if_pos hx, if_pos hy, String.append_right_inj] at h
      have := padded_inj h
      omega
    · rw [if_pos hx, if_neg hy] at h
      have hmem := hdash x.natAbs
      rw [h] at hmem
      exact absurd hmem dash_not_mem_padded
  · by_cases hy : y < 0
    · rw [if_neg hx, if_pos hy] at h
      have hmem := hdash y.natAbs
      rw [← h] at hmem
      exact absurd hmem dash_not_mem_padded
    · rw [if_neg hx, if_neg hy] at h
      have := padded_inj h
      omega

/-- A field of two digits at the end of a key can be read off. -/
theorem suffix_inj {a b c : String} (h : a ++ c ++ padded 2 m = b ++ c ++ padded 2 n) (hm : m < 100) (hn : n < 100) : a = b ∧ m = n := by
  have hlists := congrArg String.toList h
  rw [@String.toList_append (a ++ c), @String.toList_append (b ++ c)] at hlists
  obtain ⟨hfront, hback⟩ := List.append_inj' hlists ((length_padded_two hm).trans (length_padded_two hn).symm)
  rw [String.toList_inj] at hfront hback
  exact ⟨(String.append_left_inj c).mp hfront, padded_inj hback⟩

end Digits

section Calendar

variable {d e : ℤ}

/-- A day as one of an era of 400 years from March on: `n` is the year in the era and `doy` the day of the year. -/
theorem civilFromDays_spec (d : ℤ) : ∃ era n doy, 0 ≤ n ∧ n ≤ 399 ∧ 0 ≤ doy ∧ doy ≤ 365 ∧
    d = era * 146097 + (365 * n + n / 4 - n / 100 + doy) - 719468 ∧
    civilFromDays d = ⟨n + era * 400 + if 306 ≤ doy then 1 else 0, if 306 ≤ doy then (5 * doy + 2) / 153 - 9 else (5 * doy + 2) / 153 + 3,
      doy - (153 * ((5 * doy + 2) / 153) + 2) / 5 + 1⟩ := by
  obtain ⟨doe, hdoe⟩ : ∃ doe, doe = (d + 719468) % 146097 := ⟨_, rfl⟩
  obtain ⟨n, hn⟩ : ∃ n, n = (doe - doe / 1460 + doe / 36524 - doe / 146096) / 365 := ⟨_, rfl⟩
  have hbounds : 0 ≤ n ∧ n ≤ 399 ∧ 0 ≤ doe - (365 * n + n / 4 - n / 100) ∧ doe - (365 * n + n / 4 - n / 100) ≤ 365 := by
    by_cases hlast : doe = 146096
    · subst hlast
      omega
    · -- the century decides how many leap days are missing
      have hcentury : n / 100 = doe / 36524 := by
        have hfour : doe / 36524 = 0 ∨ doe / 36524 = 1 ∨ doe / 36524 = 2 ∨ doe / 36524 = 3 := by omega
        rcases hfour with h | h | h | h <;> omega
      omega
  obtain ⟨hn₀, hn₁, hdoy₀, hdoy₁⟩ := hbounds
  refine ⟨(d + 719468) / 146097, n, doe - (365 * n + n / 4 - n / 100), hn₀, hn₁, hdoy₀, hdoy₁, by omega, ?_⟩
  obtain ⟨doy, hdoy⟩ : ∃ doy, doy = doe - (365 * n + n / 4 - n / 100) := ⟨_, rfl⟩
  rw [← hdoy] at hdoy₀ hdoy₁ ⊢
  have hcivil : civilFromDays d = ⟨n + (d + 719468) / 146097 * 400 + (if (if (5 * doy + 2) / 153 < 10 then (5 * doy + 2) / 153 + 3 else (5 * doy + 2) / 153 - 9) ≤ 2
      then 1 else 0), if (5 * doy + 2) / 153 < 10 then (5 * doy + 2) / 153 + 3 else (5 * doy + 2) / 153 - 9,
      doy - (153 * ((5 * doy + 2) / 153) + 2) / 5 + 1⟩ := by
    rw [hdoy, hn, hdoe]
    rfl
  rw [hcivil]
  by_cases hlate : 306 ≤ doy
  · have hmonth : ¬ (5 * doy + 2) / 153 < 10 := by omega
    have hearly : (5 * doy + 2) / 153 - 9 ≤ 2 := by omega
    rw [if_pos hlate, if_pos hlate, if_neg hmonth, if_pos hearly]
  · have hmonth : (5 * doy + 2) / 153 < 10 := by omega
    have hearly : ¬ (5 * doy + 2) / 153 + 3 ≤ 2 := by omega
    rw [if_neg hlate, if_neg hlate, if_pos hmonth, if_neg hearly]

theorem daysFromCivil_civilFromDays (d : ℤ) : daysFromCivil (civilFromDays d) = d := by
  obtain ⟨era, n, doy, hn₀, hn₁, hdoy₀, hdoy₁, hd, hcivil⟩ := civilFromDays_spec d
  rw [hcivil]
  by_cases hlate : 306 ≤ doy
  · have hmonth : (5 * doy + 2) / 153 - 9 ≤ 2 := by omega
    have hera : (n + era * 400 + 1 - 1) / 400 = era := by omega
    have hyear : (n + era * 400 + 1 - 1) % 400 = n := by omega
    simp only [daysFromCivil, if_pos hlate, if_pos hmonth, hera, hyear]
    omega
  · have hmonth : ¬ (5 * doy + 2) / 153 + 3 ≤ 2 := by omega
    have hera : (n + era * 400 + 0) / 400 = era := by omega
    have hyear : (n + era * 400 + 0) % 400 = n := by omega
    simp only [daysFromCivil, if_neg hlate, if_neg hmonth, hera, hyear]
    omega

theorem daysFromCivil_add (date : Date) (k : ℤ) : daysFromCivil ⟨date.year, date.month, date.day + k⟩ = daysFromCivil date + k := by
  simp only [daysFromCivil]
  omega

theorem date_ext {x y : Date} (hyear : x.year = y.year) (hmonth : x.month = y.month) (hday : x.day = y.day) : x = y := by
  cases x
  cases y
  simp_all

theorem civilFromDays_inj (h : civilFromDays d = civilFromDays e) : d = e := by
  rw [← daysFromCivil_civilFromDays d, h, daysFromCivil_civilFromDays]

theorem civilFromDays_month_day (d : ℤ) : 1 ≤ (civilFromDays d).month ∧ (civilFromDays d).month ≤ 12 ∧
    1 ≤ (civilFromDays d).day ∧ (civilFromDays d).day ≤ 31 := by
  obtain ⟨era, n, doy, -, -, hdoy₀, hdoy₁, -, hcivil⟩ := civilFromDays_spec d
  rw [hcivil]
  dsimp only
  by_cases hlate : 306 ≤ doy
  · rw [if_pos hlate]
    omega
  · rw [if_neg hlate]
    omega

/-- A day lies in the year that the calendar gives it. -/
theorem first_of_year (d : ℤ) : 0 ≤ d - daysFromCivil ⟨(civilFromDays d).year, 1, 1⟩ ∧
    d - daysFromCivil ⟨(civilFromDays d).year, 1, 1⟩ ≤ 365 := by
  obtain ⟨era, n, doy, hn₀, hn₁, hdoy₀, hdoy₁, hd, hcivil⟩ := civilFromDays_spec d
  rw [hcivil]
  dsimp only [daysFromCivil]
  by_cases hlate : 306 ≤ doy
  · rw [if_pos hlate]
    omega
  · rw [if_neg hlate]
    -- the January before the first March of an era belongs to the era before
    by_cases hfirst : n = 0 <;> omega

end Calendar

/-- The first day of the period of a day. -/
def Period.first : Period → ℤ → ℤ
  | .daily, d => d
  | .weekly, d => d - weekday d

def Period.length : Period → ℤ
  | .daily => 1
  | .weekly => 7

section Windows

variable {p : Period} {a t : Time} {d e : ℤ}

theorem midnight_le : (midnight d).ns ≤ t.ns ↔ d ≤ t.days := by
  dsimp only [midnight, days, unix, second, secondsPerDay]
  omega

theorem midnight_inj : midnight d = midnight e ↔ d = e := by
  simp only [midnight, Time.mk.injEq, second, secondsPerDay]
  omega

theorem days_midnight : (midnight d).days = d := by
  dsimp only [midnight, days, unix, second, secondsPerDay]
  omega

open Period (first length)

theorem isoWeekStart_eq (t : Time) : isoWeekStart t = midnight (Period.weekly.first t.days) := by
  have hdays : daysFromCivil t.date = t.days := daysFromCivil_civilFromDays t.days
  have hsub := daysFromCivil_add t.date (-weekday (daysFromCivil t.date))
  have hmidnight : daysFromCivil ⟨t.date.year, t.date.month, t.date.day⟩ = daysFromCivil t.date := rfl
  dsimp only [isoWeekStart, first]
  rw [hmidnight, sub_eq_add_neg, hsub, hdays]
  rfl

theorem gatewayPeriodStart_eq (p : Period) (t : Time) : gatewayPeriodStart p t = midnight (p.first t.days) := by
  cases p with
  | daily => exact congrArg midnight (daysFromCivil_civilFromDays t.days)
  | weekly => exact isoWeekStart_eq t

theorem resetsAt_eq (p : Period) (t : Time) : resetsAt p t = midnight (p.first t.days + p.length) := by
  cases p with
  | daily =>
    have hnext := daysFromCivil_add t.date 1
    have hdays : daysFromCivil t.date = t.days := daysFromCivil_civilFromDays t.days
    rw [hdays] at hnext
    exact congrArg midnight hnext
  | weekly =>
    have hweek : (isoWeekStart t).date = civilFromDays (Period.weekly.first t.days) := by
      rw [isoWeekStart_eq, date, days_midnight]
    have hnext := daysFromCivil_add (isoWeekStart t).date 7
    rw [hweek, daysFromCivil_civilFromDays] at hnext
    dsimp only [resetsAt]
    rw [hweek]
    exact congrArg midnight hnext

/-- Dates read off their key: the month and the day take two digits each. -/
theorem dailyKey_inj (h : periodKey .daily a = periodKey .daily t) : a.days = t.days := by
  obtain ⟨hmonth₀, hmonth₁, hday₀, hday₁⟩ := civilFromDays_month_day a.days
  obtain ⟨hmonth₂, hmonth₃, hday₂, hday₃⟩ := civilFromDays_month_day t.days
  obtain ⟨hfront, hday⟩ := suffix_inj h (by dsimp only [date]; omega) (by dsimp only [date]; omega)
  obtain ⟨hyear, hmonth⟩ := suffix_inj hfront (by dsimp only [date]; omega) (by dsimp only [date]; omega)
  have hyears := signed_inj hyear
  apply civilFromDays_inj
  dsimp only [date] at hyears hmonth hday
  exact date_ext hyears (by omega) (by omega)

/-- The weeks of a year have their Thursday in it, seven days apart. -/
theorem weeklyKey_inj (h : periodKey .weekly a = periodKey .weekly t) : Period.weekly.first a.days = Period.weekly.first t.days := by
  have ha := first_of_year (a.days - weekday a.days + 3)
  have ht := first_of_year (t.days - weekday t.days + 3)
  obtain ⟨hfront, hweek⟩ := suffix_inj h (by dsimp only [isoWeek]; omega) (by dsimp only [isoWeek]; omega)
  have hyear : a.isoWeek.1 = t.isoWeek.1 := signed_inj hfront
  dsimp only [isoWeek] at hyear hweek
  rw [hyear] at ha hweek
  dsimp only [first, weekday] at *
  omega

theorem periodKey_eq_iff (p : Period) (a b : Time) : periodKey p a = periodKey p b ↔ p.first a.days = p.first b.days := by
  cases p with
  | daily =>
    refine ⟨dailyKey_inj, fun h => ?_⟩
    have hdays : a.days = b.days := h
    simp only [periodKey, date, hdays]
  | weekly =>
    refine ⟨weeklyKey_inj, fun h => ?_⟩
    have hthursday : a.days - weekday a.days + 3 = b.days - weekday b.days + 3 := congrArg (· + 3) h
    simp only [periodKey, isoWeek, hthursday]

/-- `r` is the first instant after `a` at which `P` holds. -/
def FirstAfter (P : Time → Prop) (a r : Time) : Prop :=
  a.ns < r.ns ∧ P r ∧ ∀ t : Time, a.ns < t.ns → P t → r.ns ≤ t.ns

theorem resetsAt_first (p : Period) (a : Time) : FirstAfter (fun t => periodKey p t ≠ periodKey p a) a (resetsAt p a) := by
  rw [resetsAt_eq]
  refine ⟨?_, ?_, fun t hlater hother => ?_⟩
  · have hend : ¬ p.first a.days + p.length ≤ a.days := by
      cases p <;> dsimp only [first, length, weekday] <;> omega
    exact not_le.mp (midnight_le.not.mpr hend)
  · intro hsame
    have hdays := (periodKey_eq_iff p _ a).mp hsame
    rw [days_midnight] at hdays
    cases p <;> dsimp only [first, length, weekday] at hdays <;> omega
  · have hdays : a.days ≤ t.days := by
      dsimp only [days, unix, second, secondsPerDay]
      omega
    have hdiff := (periodKey_eq_iff p t a).not.mp hother
    apply midnight_le.mpr
    cases p <;> dsimp only [first, length, weekday] at * <;> omega

end Windows

/-- What a successful `mapM` returns comes from the list. -/
theorem mem_mapM {α β ε : Type} {f : α → Except ε β} {xs : List α} {ys : List β} (h : xs.mapM f = .ok ys) :
    ∀ y ∈ ys, ∃ x ∈ xs, f x = .ok y := by
  induction xs generalizing ys with
  | nil =>
    cases h
    simp
  | cons x xs ih =>
    rw [List.mapM_cons] at h
    cases hx : f x <;> cases hxs : xs.mapM f <;> rw [hx] at h <;> try rw [hxs] at h
    all_goals cases h
    intro z hz
    rcases List.mem_cons.mp hz with rfl | hz
    · exact ⟨x, List.mem_cons_self, hx⟩
    · obtain ⟨w, hw, hfw⟩ := ih hxs z hz
      exact ⟨w, List.mem_cons_of_mem x hw, hfw⟩

theorem Store.managedBudget_ok {s : Store} {env : Env} {time : Time} {row : BudgetRow} {b : ManagedBudget}
    (h : s.managedBudget env time row = .ok b) : b.resetsAt = Quota.resetsAt b.usage.period time := by
  unfold Store.managedBudget at h
  cases husage : s.usage env row.sid row.modelID time with
  | error e =>
    rw [husage] at h
    cases h
  | ok usage =>
    rw [husage] at h
    cases h
    rfl

/-- `ManagedBudgets` reads the zero time as the present. -/
def asked (env : Env) (time : Time) : Time := if time.IsZero then env.now 0 else time

/-- Period keys and window starts cut time into the same periods, and a budget resets when the next one begins. -/
theorem periods_agree : (∀ p a b, periodKey p a = periodKey p b ↔ gatewayPeriodStart p a = gatewayPeriodStart p b) ∧
    (∀ p a, (gatewayPeriodStart p a).ns ≤ a.ns) ∧
    ∀ (s : Store) (env : Env) (sid : String) (a : Time) (budgets : List ManagedBudget), s.managedBudgets env sid a = .ok budgets →
      ∀ b ∈ budgets, FirstAfter (fun t => periodKey b.usage.period t ≠ periodKey b.usage.period (asked env a)) (asked env a) b.resetsAt := by
  refine ⟨fun p a b => ?_, fun p a => ?_, fun s env sid a budgets h b hb => ?_⟩
  · rw [periodKey_eq_iff, gatewayPeriodStart_eq, gatewayPeriodStart_eq, midnight_inj]
  · rw [gatewayPeriodStart_eq]
    apply midnight_le.mpr
    cases p <;> dsimp only [Period.first, weekday] <;> omega
  · obtain ⟨row, -, hrow⟩ := mem_mapM h b hb
    rw [Store.managedBudget_ok hrow]
    exact resetsAt_first _ _

section BudgetExample

def oneBudget : Store := { Store.empty with budgets := ⟨[⟨"u", "m", .daily, ⟨100, by decide⟩⟩], by simp⟩ }

/-- The clock stands at the start of 2024. -/
def newYear : Env := ⟨fun _ => ⟨1704067200 * second⟩, none⟩

def newYearBudget : ManagedBudget :=
  ⟨"m", ⟨100, by decide⟩, false, ⟨1704153600 * second⟩, false, none, ⟨⟨100, by decide⟩, 0, 0, .daily, "2024-01-01"⟩⟩

theorem managedBudgets_newYear : oneBudget.managedBudgets newYear "u" .zero = .ok [newYearBudget] := rfl

theorem resets_tomorrow : FirstAfter (fun t => periodKey .daily t ≠ periodKey .daily (asked newYear .zero)) (asked newYear .zero)
    ⟨1704153600 * second⟩ :=
  periods_agree.2.2 oneBudget newYear "u" .zero [newYearBudget] managedBudgets_newYear newYearBudget (List.mem_singleton.mpr rfl)

/-- The budgets asked for the zero time do not reset the day after it. -/
theorem not_first_after_zero : oneBudget.managedBudgets newYear "u" .zero = .ok [newYearBudget] ∧
    ¬ FirstAfter (fun t => periodKey .daily t ≠ periodKey .daily .zero) .zero newYearBudget.resetsAt := by
  refine ⟨managedBudgets_newYear, fun hfirst => ?_⟩
  have hnext := hfirst.2.2 ⟨-62135510400 * second⟩ (by decide) (by decide)
  exact absurd hnext (by decide)

end BudgetExample

end WorkAgent.Quota
