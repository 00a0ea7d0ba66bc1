import Mathlib
import WorkAgent.Harness.AutomationStore

namespace WorkAgent.Harness.Automation

open List AutomationSchedule

abbrev Zone := ℤ → ℤ

/-- The minute that a clock in the zone shows, counted from 1970-01-01T00:00 of its own calendar. -/
def Zone.clock (zone : Zone) (t : ℤ) : ℤ := (t + zone t) / 60000

def localTime (minute : ℤ) : LocalTime := ⟨some ((minute / 1440 + 4) % 7), minute / 60 % 24, minute % 60⟩

def Chosen (daysOfWeek : List ℤ) (hour minute : ℤ) (m : ℤ) : Prop :=
  (m / 1440 + 4) % 7 ∈ daysOfWeek ∧ m / 60 % 24 = hour ∧ m % 60 = minute

instance (daysOfWeek : List ℤ) (hour minute m : ℤ) : Decidable (Chosen daysOfWeek hour minute m) := inferInstanceAs (Decidable (_ ∧ _))

structure NextOccurrence (zone : Zone) (daysOfWeek : List ℤ) (hour minute : ℤ) (after next : ℤ) : Prop where
  later : after < next
  chosen : Chosen daysOfWeek hour minute (zone.clock next)
  earliest : ∀ t, after < t → t < next → t % 60000 = 0 → ¬ Chosen daysOfWeek hour minute (zone.clock t)

def firstCandidate (after : ℤ) : ℤ := after - after.tmod 60000 + 60000

/-- The zone's clock shows a chosen minute within eight days, and none before the first minute of the search. -/
structure InReach (zone : Zone) (daysOfWeek : List ℤ) (hour minute : ℤ) (after : ℤ) : Prop where
  occurs : ∃ k : ℕ, k ≤ 8 * 24 * 60 ∧ Chosen daysOfWeek hour minute (zone.clock (firstCandidate after + k * 60000))
  first : ∀ t, after < t → t < firstCandidate after → t % 60000 = 0 → ¬ Chosen daysOfWeek hour minute (zone.clock t)

/-- The clock jumps over no chosen minute while the search goes on, and is set back by a day at most. -/
structure SkipsNothing (zone : Zone) (daysOfWeek : List ℤ) (hour minute : ℤ) (after : ℤ) : Prop where
  skips : ∀ k : ℕ, k < 8 * 24 * 60 → ∀ m, zone.clock (firstCandidate after + k * 60000) < m →
    m < zone.clock (firstCandidate after + (k + 1) * 60000) → ¬ Chosen daysOfWeek hour minute m
  drift : zone.clock (firstCandidate after) + 7 * 1440 ≤ zone.clock (firstCandidate after + 8 * 24 * 60 * 60000)

variable {calendar : Calendar} {zone : Zone} {daysOfWeek : List ℤ} {hour minute : ℤ} {timezone : String} {after candidate next : ℤ}

section Search

theorem nextWeekly_eq (hzone : ∀ t, calendar.timezoneParts t timezone = .ok (localTime (zone.clock t))) (offsets : List ℕ) :
    nextWeekly calendar daysOfWeek hour minute timezone candidate offsets =
      ((offsets.find? fun k : ℕ => Chosen daysOfWeek hour minute (zone.clock (candidate + k * 60000))).elim
        (.error "automation_schedule_has_no_next_run") fun k => .ok (candidate + k * 60000)) := by
  induction offsets with
  | nil => rfl
  | cons k _ ih =>
    simp only [nextWeekly, hzone]
    by_cases hk : Chosen daysOfWeek hour minute (zone.clock (candidate + k * 60000))
    · rw [find?_cons_of_pos (by simpa using hk)]
      obtain ⟨hday, hhour, hminute⟩ := hk
      simp [localTime, bind, Except.bind, pure, Except.pure, hday, hhour, hminute]
    · rw [find?_cons_of_neg (by simpa using hk), ← ih]
      simp only [bind, Except.bind, localTime, Option.any_some, decide_eq_true_eq]
      exact if_neg hk

theorem firstCandidate_mod (after : ℤ) : firstCandidate after % 60000 = 0 := by
  unfold firstCandidate
  have := Int.tmod_add_mul_tdiv after 60000
  omega

theorem after_lt_firstCandidate (after : ℤ) : after < firstCandidate after := by
  unfold firstCandidate
  have hlt := Int.tmod_lt_of_pos after (show (0 : ℤ) < 60000 by decide)
  omega

theorem exists_candidate {t : ℤ} (hmod : t % 60000 = 0) (hle : firstCandidate after ≤ t) :
    ∃ k : ℕ, t = firstCandidate after + k * 60000 := by
  have hfirst := firstCandidate_mod after
  refine ⟨((t - firstCandidate after) / 60000).toNat, ?_⟩
  omega

theorem nextScheduleTime_weekly (hzone : ∀ t, calendar.timezoneParts t timezone = .ok (localTime (zone.clock t)))
    (haccepted : (weekly daysOfWeek hour minute timezone).accepted = true) :
    nextScheduleTime calendar (.weekly daysOfWeek hour minute timezone) after = .ok next ↔
      ∃ k : ℕ, next = firstCandidate after + k * 60000 ∧ k ≤ 8 * 24 * 60 ∧
        Chosen daysOfWeek hour minute (zone.clock (firstCandidate after + k * 60000)) ∧
        ∀ j < k, ¬ Chosen daysOfWeek hour minute (zone.clock (firstCandidate after + j * 60000)) := by
  have heq : nextScheduleTime calendar (.weekly daysOfWeek hour minute timezone) after =
      nextWeekly calendar daysOfWeek hour minute timezone (firstCandidate after) searchWindow := by
    simp [nextScheduleTime, hzone, haccepted, bind, Except.bind, firstCandidate]
  rw [heq, nextWeekly_eq hzone]
  unfold searchWindow
  constructor
  · intro h
    cases hfind : (List.range (8 * 24 * 60 + 1)).find? fun k : ℕ =>
        Chosen daysOfWeek hour minute (zone.clock (firstCandidate after + k * 60000)) with
    | none =>
      rw [hfind] at h
      cases h
    | some k =>
      rw [hfind] at h
      obtain ⟨hk, hmem, hbefore⟩ := find?_range_eq_some.mp hfind
      refine ⟨k, (Except.ok.inj h).symm, ?_, by simpa using hk, ?_⟩
      · have := mem_range.mp hmem
        omega
      · intro j hj
        simpa using hbefore j hj
  · rintro ⟨k, rfl, _, hk, hbefore⟩
    have hfind : (List.range (8 * 24 * 60 + 1)).find? (fun k : ℕ =>
        Chosen daysOfWeek hour minute (zone.clock (firstCandidate after + k * 60000))) = some k := by
      rw [find?_range_eq_some]
      refine ⟨by simpa using hk, mem_range.mpr (by omega), ?_⟩
      intro j hj
      simpa using hbefore j hj
    rw [hfind]
    rfl

end Search

section Reach

theorem meets_iff (hzone : ∀ t, calendar.timezoneParts t timezone = .ok (localTime (zone.clock t)))
    (haccepted : (weekly daysOfWeek hour minute timezone).accepted = true) :
    (∃ next, nextScheduleTime calendar (.weekly daysOfWeek hour minute timezone) after = .ok next ∧
      NextOccurrence zone daysOfWeek hour minute after next) ↔ InReach zone daysOfWeek hour minute after := by
  constructor
  · rintro ⟨_, hnext, hoccurrence⟩
    obtain ⟨k, rfl, hle, hk, -⟩ := (nextScheduleTime_weekly hzone haccepted).mp hnext
    refine ⟨⟨k, hle, hk⟩, ?_⟩
    intro t hlater hlt
    apply hoccurrence.earliest t hlater
    omega
  · intro hreach
    have hexists := hreach.occurs
    obtain ⟨hle, hk⟩ := Nat.find_spec hexists
    have hbefore (j : ℕ) (hj : j < Nat.find hexists) :
        ¬ Chosen daysOfWeek hour minute (zone.clock (firstCandidate after + j * 60000)) := by
      intro hchosen
      exact Nat.find_min hexists hj ⟨by omega, hchosen⟩
    refine ⟨_, (nextScheduleTime_weekly hzone haccepted).mpr ⟨Nat.find hexists, rfl, hle, hk, hbefore⟩, ?_, hk, ?_⟩
    · have := after_lt_firstCandidate after
      omega
    · intro t hlater _ hmod
      by_cases hfirst : t < firstCandidate after
      · exact hreach.first t hlater hfirst hmod
      · obtain ⟨j, rfl⟩ := exists_candidate hmod (not_lt.mp hfirst)
        apply hbefore
        omega

theorem exists_chosen (haccepted : (weekly daysOfWeek hour minute timezone).accepted = true) (start : ℤ) :
    ∃ m, start < m ∧ m ≤ start + 7 * 1440 ∧ Chosen daysOfWeek hour minute m := by
  simp only [accepted, ne_eq, decide_eq_true_eq] at haccepted
  obtain ⟨hdays, hrange, _, _, _, _, -⟩ := haccepted
  obtain ⟨day, _, rfl⟩ := exists_cons_of_ne_nil hdays
  obtain ⟨_, _⟩ := hrange day (by simp)
  -- The chosen minute of the week, counted from Thursday 00:00.
  have hweek := Int.emod_nonneg (start - ((day + 3) % 7 * 1440 + hour * 60 + minute)) (show (10080 : ℤ) ≠ 0 by decide)
  refine ⟨start - (start - ((day + 3) % 7 * 1440 + hour * 60 + minute)) % 10080 + 10080, by omega, by omega, ?_, by omega, by omega⟩
  rw [mem_cons]
  left
  omega

theorem SkipsNothing.occurs (h : SkipsNothing zone daysOfWeek hour minute after)
    (haccepted : (weekly daysOfWeek hour minute timezone).accepted = true) :
    ∃ k : ℕ, k ≤ 8 * 24 * 60 ∧ Chosen daysOfWeek hour minute (zone.clock (firstCandidate after + k * 60000)) := by
  obtain ⟨m, _, hweek, hchosen⟩ := exists_chosen haccepted (zone.clock (firstCandidate after))
  -- The first minute of the search at which the clock is not behind the chosen one.
  have hexists : ∃ k : ℕ, m ≤ zone.clock (firstCandidate after + k * 60000) := ⟨8 * 24 * 60, hweek.trans (by simpa using h.drift)⟩
  have hreached := Nat.find_spec hexists
  have hlast : Nat.find hexists ≤ 8 * 24 * 60 := Nat.find_min' hexists (hweek.trans (by simpa using h.drift))
  cases hfind : Nat.find hexists with
  | zero =>
    rw [hfind] at hreached
    simp only [Nat.cast_zero, zero_mul, add_zero] at hreached
    omega
  | succ k =>
    have hbehind := Nat.find_min hexists (show k < Nat.find hexists by omega)
    rw [hfind] at hreached
    refine ⟨k + 1, by omega, ?_⟩
    rcases hreached.lt_or_eq with hlt | rfl
    · refine absurd hchosen (h.skips k (by omega) m (not_le.mp hbehind) ?_)
      simpa using hlt
    · exact hchosen

/-- A weekly schedule gets its next occurrence when, and only when, the clock shows it within eight days and not in the minute that the
search leaves out before 1970; only a clock that jumps over it fails to. -/
theorem weekly_next_iff (hzone : ∀ t, calendar.timezoneParts t timezone = .ok (localTime (zone.clock t)))
    (haccepted : (AutomationSchedule.weekly daysOfWeek hour minute timezone).accepted = true) :
    ((∃ next, nextScheduleTime calendar (.weekly daysOfWeek hour minute timezone) after = .ok next ∧
      NextOccurrence zone daysOfWeek hour minute after next) ↔ InReach zone daysOfWeek hour minute after) ∧
    (SkipsNothing zone daysOfWeek hour minute after → 0 ≤ after → InReach zone daysOfWeek hour minute after) := by
  refine ⟨meets_iff hzone haccepted, ?_⟩
  intro hskips hafter
  refine ⟨hskips.occurs haccepted, ?_⟩
  intro t _ hlt _
  unfold firstCandidate at hlt
  rw [Int.tmod_eq_emod_of_nonneg hafter] at hlt
  omega

end Reach

section Transitions

def newYork : Zone := fun t => if t < 1772953200000 then -5 * 3600000 else -4 * 3600000

def Zone.intl (zone : Zone) : Calendar := ⟨fun t _ => .ok (localTime (zone.clock t)), fun _ _ _ => .ok none⟩

def Zone.Civil (zone : Zone) : Prop := ∀ t, |zone t - zone (t - 1)| ≤ 3 * 3600000

theorem newYork_civil : newYork.Civil := by
  intro t
  unfold newYork
  rw [abs_le]
  split <;> split <;> omega

/-- Sundays at 02:30, asked for on Sunday the first of March at 02:30. -/
theorem newYork_throws : ¬ ∀ (zone : Zone) (daysOfWeek : List ℤ) (hour minute : ℤ) (timezone : String) (after : ℤ), zone.Civil →
    (AutomationSchedule.weekly daysOfWeek hour minute timezone).accepted = true →
    ∃ next, nextScheduleTime zone.intl (.weekly daysOfWeek hour minute timezone) after = .ok next ∧
      NextOccurrence zone daysOfWeek hour minute after next := by
  intro hall
  have haccepted : (AutomationSchedule.weekly [0] 2 30 "America/New_York").accepted = true := by decide
  have hmeets := hall newYork [0] 2 30 "America/New_York" 1772350200000 newYork_civil haccepted
  obtain ⟨k, _, hday, hhour, hminute⟩ := ((meets_iff (fun _ => rfl) haccepted).mp hmeets).occurs
  have hfirst : firstCandidate 1772350200000 = 1772350260000 := by decide
  rw [hfirst] at hday hhour hminute
  unfold Zone.clock newYork at hday hhour hminute
  rw [mem_singleton] at hday
  split at hday <;> split at hhour <;> split at hminute <;> omega

theorem weekly_next_iff_monday : ∃ next,
    nextScheduleTime newYork.intl (.weekly [1] 2 30 "America/New_York") 1772350200000 = .ok next ∧
      NextOccurrence newYork [1] 2 30 1772350200000 next := by
  have hzone (t : ℤ) : newYork.intl.timezoneParts t "America/New_York" = .ok (localTime (newYork.clock t)) := rfl
  refine (weekly_next_iff hzone (by decide)).1.mpr ⟨⟨1439, by decide, by decide⟩, ?_⟩
  intro t _ hlt _
  have hfirst : firstCandidate 1772350200000 = 1772350260000 := by decide
  rw [hfirst] at hlt
  omega

end Transitions

end WorkAgent.Harness.Automation
