import WorkAgent.Quota.Consistency
import WorkAgent.Quota.Limits

namespace WorkAgent.Quota

open Library List Time

theorem Time.unix_mul_second (unix : ℤ) : (Time.mk (unix * second)).unix = unix := by
  change unix * second / second = unix
  apply Int.mul_ediv_cancel
  decide

theorem periodKey_unix (period : Period) (t : Time) : periodKey period ⟨t.unix * second⟩ = periodKey period t := by
  have hdays : (Time.mk (t.unix * second)).days = t.days := by
    unfold days
    rw [unix_mul_second]
  have hdate : (Time.mk (t.unix * second)).date = t.date := by
    unfold date
    rw [hdays]
  have hweek : (Time.mk (t.unix * second)).isoWeek = t.isoWeek := by
    unfold isoWeek
    rw [hdays]
  cases period with
  | daily => simp only [periodKey, hdate]
  | weekly => simp only [periodKey, hweek]

namespace ReservationRow

variable (r : ReservationRow)

def reservedAt : Time := ⟨r.createdAt * second⟩

def ReservedIn (period : Period) (time : Time) : Prop :=
  Quota.periodKey period r.reservedAt = Quota.periodKey period time

instance (period : Period) (time : Time) : Decidable (r.ReservedIn period time) := inferInstanceAs (Decidable (_ = _))

def Keyed : Prop := r.periodKey = Quota.periodKey r.period r.reservedAt

end ReservationRow

namespace Store

variable {s t : Store}

theorem keyed_reservationRow (request : ReserveRequest) (period : Period) (units : Units) :
    (reservationRow request period units).Keyed := (periodKey_unix period request.atTime).symm

theorem Closes.known {env : Env} {r : ReservationRow} {actual : Units} (h : Closes s env r actual t)
    (hr : s.reservationByRun r.runID = some r) (hst : r.status = .reserved) {x : String} {y : ReservationRow}
    (hy : t.reservationByRun x = some y) : ∃ z, s.reservationByRun x = some z := by
  obtain ⟨_, _, _, _, c⟩ := h.closed hr hst
  by_cases hx : x = r.runID
  · rw [hx]
    exact ⟨r, hr⟩
  · rw [c.others x hx] at hy
    exact ⟨y, hy⟩

theorem Settles.known {env : Env} {sid runtimeSID : String} {r : ReservationRow} {actual : Units}
    {result : Except QuotaError Unit} (h : Settles s env sid runtimeSID r actual result t)
    (hr : s.reservationByRun r.runID = some r) {x : String} {y : ReservationRow}
    (hy : t.reservationByRun x = some y) : ∃ z, s.reservationByRun x = some z := by
  cases h with
  | replay => exact ⟨y, hy⟩
  | pending =>
    rw [held_reservationByRun] at hy
    exact ⟨y, hy⟩
  | closed _ hst hc =>
    obtain ⟨z, hz⟩ := hc.known ((held_reservationByRun ..).trans hr) hst hy
    rw [held_reservationByRun] at hz
    exact ⟨z, hz⟩

end Store

theorem Effect.known {i : Call} {s t : Store} (h : Effect i s t) {x : String} {y : ReservationRow}
    (hy : t.reservationByRun x = some y) : (∃ z, s.reservationByRun x = some z) ∨ y.Keyed := by
  cases h with
  | same | record _ _ _ _ => exact .inl ⟨y, hy⟩
  | ledger _ _ hr =>
    left
    unfold Store.reservationByRun at hy
    rw [hr] at hy
    exact ⟨y, hy⟩
  | reserve _ request _ _ _ _ h =>
    cases hr : s.reservationByRun (request.dated (i.env 0)).runID with
    | some =>
      obtain ⟨-, -, rfl, -⟩ := Store.reserve_existing hr h
      exact .inl ⟨y, hy⟩
    | none =>
      obtain ⟨period, units, _, -, -, -, -, rfl⟩ := Store.reserve_new hr h
      let row := Store.reservationRow (request.dated (i.env 0)) period units
      by_cases hx : row.runID = x
      · right
        have hnew := Table.find?_insertOrIgnore_new (r := row) hr
        rw [hx] at hnew
        obtain rfl := Option.some.inj (hnew.symm.trans hy)
        exact Store.keyed_reservationRow _ period units
      · left
        exact ⟨y, (Table.find?_insertOrIgnore_ne (r := row) hx).symm.trans hy⟩
  | claim _ _ _ _ _ _ h =>
    left
    cases Store.claimRuntime_ok h with
    | unknown _ _ | settled _ _ _ _ | accepted _ _ _ _ => exact ⟨y, hy⟩
  | settle _ _ _ _ _ _ _ _ _ h =>
    left
    obtain ⟨r, hr, -, hset⟩ := Store.settle_ok h
    rw [← Store.runID_of_reservation hr] at hr
    exact hset.known hr hy
  | release _ _ _ _ h =>
    left
    obtain ⟨r, a, -, -, -, -, ⟨-, rfl⟩ | ⟨-, -, rfl⟩⟩ := Store.cancelUnacceptedSharedRun_ok h
    · exact ⟨y, hy⟩
    · unfold Store.reservationByRun at hy
      rw [Table.find?_update, Option.map_eq_some_iff] at hy
      obtain ⟨z, hz, -⟩ := hy
      exact ⟨z, hz⟩
  | recover _ _ _ h =>
    left
    obtain ⟨r, -, -, ⟨-, rfl⟩ | ⟨-, ⟨-, -, -, rfl⟩ | ⟨-, rfl⟩⟩⟩ := Store.recoverSharedRunAuthorization_ok h
    · exact ⟨y, hy⟩
    · exact ⟨y, hy⟩
    · exact ⟨y, hy⟩

theorem keyed_reachable {c : Config Store Call Outcome} (hc : system.Reachable c) :
    ∀ x y, c.store.reservationByRun x = some y → y.Keyed := by
  apply reachable_store (P := fun s => ∀ x y, s.reservationByRun x = some y → y.Keyed) ?_ ?_ hc
  · intro x y h
    cases h
  · intro i s t hs h x y hy
    rcases h.known hy with ⟨z, hz⟩ | hkeyed
    · obtain ⟨_, hz', hsame, -⟩ := h.later.reservation x z hz
      obtain rfl := Option.some.inj (hz'.symm.trans hy)
      have hkey := hs x z hz
      unfold ReservationRow.Keyed ReservationRow.reservedAt at hkey ⊢
      rw [hsame.periodKey, hsame.period, hsame.createdAt]
      exact hkey
    · exact hkeyed

namespace Store

variable (s : Store) (sid : String) (scope : AccountingScope) (period : Period) (time : Time)

def acpRuns : List ReservationRow :=
  s.reservations.rows.filter fun r => r.sid = sid ∧ r.engine = "acp" ∧ r.status = .settled ∧ r.modelID ∈ scope.models ∧
    r.ReservedIn period time

/-- The consumption is what the gateway recorded and, once each, the actual units of those reservations. -/
def Visible (u : Usage) : Prop :=
  u.consumedUnits.toInt = total (tokens (s.charges sid scope period time)) + total ((s.acpRuns sid scope period time).map settledUnits)

/-- The condition: those with units to count were reserved under a budget of the pool's period, and the sum is an int64. -/
def OnePeriod : Prop :=
  (∀ r ∈ s.acpRuns sid scope period time, r.period ≠ period → settledUnits r = 0) ∧
    total (tokens (s.charges sid scope period time)) + total ((s.acpRuns sid scope period time).map settledUnits) < 2 ^ 63

variable {s sid scope period time}

theorem estimates_eq (hkeyed : ∀ x y, s.reservationByRun x = some y → y.Keyed) :
    s.estimates sid scope period time = (s.acpRuns sid scope period time).filter fun r => r.period = period := by
  unfold estimates acpRuns
  rw [filter_filter]
  apply filter_congr
  intro r hr
  have hkey : r.periodKey = Quota.periodKey r.period r.reservedAt :=
    hkeyed r.runID r (Table.find?_of_mem hr)
  rw [← Bool.decide_and, decide_eq_decide]
  constructor
  · rintro ⟨hsid, rfl, hkeytime, hacp, hsettled, hmodel⟩
    exact ⟨rfl, hsid, hacp, hsettled, hmodel, hkey.symm.trans hkeytime⟩
  · rintro ⟨rfl, hsid, hacp, hsettled, hmodel, hin⟩
    exact ⟨hsid, rfl, hkey.trans hin, hacp, hsettled, hmodel⟩

theorem total_filter (p : ReservationRow → Bool) (rows : List ReservationRow) :
    total ((rows.filter p).map settledUnits) ≤ total (rows.map settledUnits) ∧
      (total ((rows.filter p).map settledUnits) = total (rows.map settledUnits) ↔
        ∀ r ∈ rows, p r = false → settledUnits r = 0) := by
  induction rows with
  | nil => simp
  | cons r _ ih =>
    obtain ⟨_, heq⟩ := ih
    have hr := settledUnits_nonneg r
    have hzero : (settledUnits r).toInt = 0 ↔ settledUnits r = 0 := by
      rw [← Int64.toInt_inj]
      rfl
    cases hp : p r with
    | true =>
      rw [filter_cons_of_pos hp]
      simp only [map_cons, total_cons, forall_mem_cons, hp]
      constructor
      · omega
      · simpa using heq
    | false =>
      rw [filter_cons_of_neg (by simp [hp])]
      simp only [map_cons, total_cons, forall_mem_cons, hp, forall_const, ← hzero, ← heq]
      constructor
      · omega
      · omega

theorem gatewayUsageFor_consumed {limit : Units} {u : Usage} (h : s.gatewayUsageFor sid scope period time limit = .ok u) :
    u.consumedUnits.toInt = total (tokens (s.charges sid scope period time)) +
      total ((s.estimates sid scope period time).map settledUnits) ↔
    total (tokens (s.charges sid scope period time)) + total ((s.estimates sid scope period time).map settledUnits) < 2 ^ 63 := by
  obtain ⟨consumed, hconsumed, h⟩ := bind_eq_ok.mp h
  obtain ⟨estimated, hestimated, h⟩ := bind_eq_ok.mp h
  obtain ⟨_, -, h⟩ := bind_eq_ok.mp h
  cases h
  obtain ⟨hcharges, hcharges0⟩ := selectSum_ok (tokens_nonneg _) hconsumed
  obtain ⟨hestimates, hestimates0⟩ := selectSum_ok (map_nonneg settledUnits_nonneg) hestimated
  rw [← hcharges, ← hestimates]
  change (consumed + estimated).toInt = _ ↔ _
  constructor
  · intro hsum
    rw [← hsum]
    exact (consumed + estimated).toInt_lt
  · exact toInt_add_of_lt hcharges0 hestimates0

end Store

/-- A pool counts every settled ACP reservation of its window exactly once when, and only when, they were reserved under a budget of its
period. -/
theorem acp_visible_iff {c : Config Store Call Outcome} (hc : system.Reachable c) {sid : String} {scope : Store.AccountingScope}
    {period : Period} {time : Time} {limit : Units} {u : Usage} (hu : c.store.gatewayUsageFor sid scope period time limit = .ok u) :
    c.store.Visible sid scope period time u ↔ c.store.OnePeriod sid scope period time := by
  have hsum := Store.gatewayUsageFor_consumed hu
  rw [Store.estimates_eq (keyed_reachable hc)] at hsum
  obtain ⟨_, heq⟩ := Store.total_filter (fun r => r.period = period) (c.store.acpRuns sid scope period time)
  simp only [decide_eq_false_iff_not] at heq
  have hbound := u.consumedUnits.toInt_lt
  unfold Store.Visible Store.OnePeriod
  constructor
  · intro _
    have hcounted := hsum.mpr (by omega)
    exact ⟨heq.mp (by omega), by omega⟩
  · rintro ⟨hother, hlt⟩
    rw [← heq.mpr hother] at hlt ⊢
    exact hsum.mpr hlt

namespace MixedPeriods

def models : List AuthorizedModel := [⟨"harness-default", "", []⟩, ⟨"gpt-5", "codex", []⟩]

def authorizer : Authorizer where
  authorized _ _ := .ok true
  listAuthorized := some fun _ => .ok models

def call (name : ℕ) (op : Op) : Call := ⟨name, fun _ => ⟨fun _ => ⟨0⟩, some authorizer⟩, op⟩

def calls : List Call :=
  [call 0 (.setBudget ⟨"S-1-5", "gpt-5", "daily", 100⟩), call 1 (.setBudget ⟨"S-1-5", "harness-default", "weekly", 100⟩),
    call 2 .useGatewayAccounting, call 3 (.reserve ⟨"run", "S-1-5", "gpt-5", 5, ⟨0⟩, "acp"⟩), call 4 (.settle ⟨"run", 5⟩)]

def scopes : List Store.AccountingScope :=
  models.map fun m => ⟨m.id, (List.insertionSort (· ≤ ·) (scopeCandidates models m)).destutter (· ≠ ·)⟩

def pool : Store.AccountingScope := scopes.head (by simp [scopes, models])

def model : Store.AccountingScope := scopes.getLast (by simp [scopes, models])

theorem reported {result : Except QuotaError Usage} {n : ℤ} (h : result.toOption.map (fun u => u.consumedUnits.toInt) = some n) :
    ∃ u, result = .ok u ∧ u.consumedUnits.toInt = n := by
  cases result with
  | error => cases h
  | ok u => exact ⟨u, rfl, Option.some.inj h⟩

end MixedPeriods

theorem acp_invisible_weekly : ¬ ∀ c : Config Store Call Outcome, system.Reachable c → c.store.gatewayAccounting = true →
    ∀ (a : Authorizer) (sid : String) (scopes : List Store.AccountingScope) (scope : Store.AccountingScope) (period : Period)
      (time : Time) (limit : Units) (u : Usage), a.accountingScopes sid = .ok scopes → scope ∈ scopes →
      c.store.budgetFor sid scope.id time = .ok (period, limit) →
      c.store.gatewayUsageFor sid scope period time limit = .ok u → c.store.Visible sid scope period time u := by
  intro hall
  obtain ⟨_, hreach⟩ := reachable_calls MixedPeriods.calls (by decide)
  have hmode : (storeAfter MixedPeriods.calls).gatewayAccounting = true := by decide
  have hbudget : (storeAfter MixedPeriods.calls).budgetFor "S-1-5" "harness-default" ⟨0⟩ = .ok (.weekly, ⟨100, by decide⟩) := by
    decide
  have husage : ((storeAfter MixedPeriods.calls).gatewayUsageFor "S-1-5" MixedPeriods.pool .weekly ⟨0⟩
      ⟨100, by decide⟩).toOption.map (fun u => u.consumedUnits.toInt) = some 0 := by
    decide
  have hdue : total (Store.tokens ((storeAfter MixedPeriods.calls).charges "S-1-5" MixedPeriods.pool .weekly ⟨0⟩)) +
      total (((storeAfter MixedPeriods.calls).acpRuns "S-1-5" MixedPeriods.pool .weekly ⟨0⟩).map Store.settledUnits) = 5 := by
    decide
  obtain ⟨u, hu, hzero⟩ := MixedPeriods.reported husage
  have hvisible := hall _ hreach hmode MixedPeriods.authorizer "S-1-5" MixedPeriods.scopes MixedPeriods.pool .weekly ⟨0⟩ _ u rfl
    (head_mem _) hbudget hu
  exact absurd (hzero.symm.trans (hvisible.trans hdue)) (by decide)

theorem acp_visible_iff_daily : ∃ (c : Config Store Call Outcome) (u : Usage), c.store = storeAfter MixedPeriods.calls ∧
    u.consumedUnits.toInt = 5 ∧ c.store.Visible "S-1-5" MixedPeriods.model .daily ⟨0⟩ u := by
  obtain ⟨returned, hreach⟩ := reachable_calls MixedPeriods.calls (by decide)
  have husage : ((storeAfter MixedPeriods.calls).gatewayUsageFor "S-1-5" MixedPeriods.model .daily ⟨0⟩
      ⟨100, by decide⟩).toOption.map (fun u => u.consumedUnits.toInt) = some 5 := by
    decide
  have hperiods : ((storeAfter MixedPeriods.calls).acpRuns "S-1-5" MixedPeriods.model .daily ⟨0⟩).all (fun r => r.period = .daily) := by
    decide
  have hsum : total (Store.tokens ((storeAfter MixedPeriods.calls).charges "S-1-5" MixedPeriods.model .daily ⟨0⟩)) +
      total (((storeAfter MixedPeriods.calls).acpRuns "S-1-5" MixedPeriods.model .daily ⟨0⟩).map Store.settledUnits) < 2 ^ 63 := by
    decide
  obtain ⟨u, hu, hfive⟩ := MixedPeriods.reported husage
  refine ⟨⟨storeAfter MixedPeriods.calls, [], MixedPeriods.calls.reverse, returned⟩, u, rfl, hfive, ?_⟩
  apply (acp_visible_iff hreach hu).mpr
  refine ⟨?_, hsum⟩
  intro r hr hother
  have hsame := all_eq_true.mp hperiods r hr
  exact absurd (of_decide_eq_true hsame) hother

end WorkAgent.Quota
