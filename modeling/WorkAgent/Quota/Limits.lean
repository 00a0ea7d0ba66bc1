import WorkAgent.Quota.Effects

namespace WorkAgent.Quota

open Library

structure Window where
  consumed : ℤ
  reserved : ℤ
  limit : ℤ
  deriving DecidableEq

namespace Store

variable {s : Store} {request : ReserveRequest}

def ownWindow (s : Store) (request : ReserveRequest) (period : Period) (limit : Units) : Window :=
  let rows := s.window request.sid request.modelID period (Quota.periodKey period request.atTime)
  { consumed := total (rows.map settledUnits)
    reserved := total (rows.map openUnits)
    limit := limit.toInt }

def scopeWindow (s : Store) (request : ReserveRequest) (scope : AccountingScope) (period : Period)
    (limit : Units) : Window where
  consumed := total (tokens (s.charges request.sid scope period request.atTime)) +
    total ((s.estimates request.sid scope period request.atTime).map settledUnits)
  reserved := total ((s.admissions request.sid scope).map (fun r => r.reservedUnits.val))
  limit := limit.toInt

inductive CheckedWindow (a : Authorizer) (s : Store) (request : ReserveRequest) : Window → Prop
  | own (period : Period) (limit : Units) (scopes : List AccountingScope)
      (hk : ¬ s.chargedByGateway request.modelID request.engine) (hs : s.scopesFor a request = .ok scopes)
      (hb : s.budgetFor request.sid request.modelID request.atTime = .ok (period, limit))
      (ho : request.engine = "acp" → s.gatewayAccounting = true →
        scopes.find? (fun scope => scope.id = request.modelID) = none) :
      CheckedWindow a s request (s.ownWindow request period limit)
  | acp (period : Period) (limit : Units) (scopes : List AccountingScope) (scope : AccountingScope)
      (he : request.engine = "acp") (hg : s.gatewayAccounting = true)
      (hs : s.scopesFor a request = .ok scopes)
      (hf : scopes.find? (fun scope => scope.id = request.modelID) = some scope)
      (hb : s.budgetFor request.sid request.modelID request.atTime = .ok (period, limit)) :
      CheckedWindow a s request (s.scopeWindow request scope period limit)
  | scope (period : Period) (cap : Units) (scopes : List AccountingScope) (scope : AccountingScope)
      (hk : s.chargedByGateway request.modelID request.engine)
      (hd : s.checkDollarAdmission request = .ok false) (hs : s.scopesFor a request = .ok scopes)
      (hm : scope ∈ scopes) (ha : request.applies scope)
      (hb : s.budgetFor request.sid scope.id request.atTime = .ok (period, cap)) :
      CheckedWindow a s request (s.scopeWindow request scope period cap)

theorem settledUnits_nonneg (r : ReservationRow) : 0 ≤ (settledUnits r).toInt := by
  unfold settledUnits
  split
  · cases h : r.actualUnits with
    | none => decide
    | some u => exact u.nonneg
  · decide

theorem openUnits_nonneg (r : ReservationRow) : 0 ≤ (openUnits r).toInt := by
  unfold openUnits
  split
  · exact r.reservedUnits.nonneg
  · decide

theorem selectSum_ok {context : String} {column : List Int64} {n : Int64}
    (hc : ∀ x ∈ column, 0 ≤ x.toInt) (h : selectSum context column = .ok n) :
    n.toInt = total column ∧ 0 ≤ n.toInt := by
  unfold selectSum at h
  split at h
  · rename_i m hm
    cases h
    have he := (sumChecked_eq_some hc).mp hm
    have hn := total_nonneg hc
    exact ⟨he, by omega⟩
  · cases h

theorem map_nonneg {ρ : Type} {rows : List ρ} {f : ρ → Int64} (hf : ∀ r, 0 ≤ (f r).toInt) :
    ∀ x ∈ rows.map f, 0 ≤ x.toInt := by
  intro x hx
  obtain ⟨r, -, rfl⟩ := List.mem_map.mp hx
  exact hf r

def Reads (u : Usage) (w : Window) : Prop :=
  ∀ e : Int64, 0 ≤ e.toInt → w.consumed + w.reserved + e.toInt < 2 ^ 63 →
    (u.consumedUnits + u.reservedUnits + e).toInt = w.consumed + w.reserved + e.toInt

variable {period : Period} {limit : Units} {u : Usage}

theorem usageFor_reads {sid modelID key : String}
    (h : s.usageFor sid modelID period key limit = .ok u) :
    Reads u ⟨total ((s.window sid modelID period key).map settledUnits),
      total ((s.window sid modelID period key).map openUnits), limit.toInt⟩ := by
  obtain ⟨consumed, hconsumed, h⟩ := bind_eq_ok.mp h
  obtain ⟨reserved, hreserved, h⟩ := bind_eq_ok.mp h
  cases h
  obtain ⟨hc, hc0⟩ := selectSum_ok (map_nonneg settledUnits_nonneg) hconsumed
  obtain ⟨hr, hr0⟩ := selectSum_ok (map_nonneg openUnits_nonneg) hreserved
  intro e he hlt
  simp only [← hc, ← hr] at hlt ⊢
  have hcr : (consumed + reserved).toInt = consumed.toInt + reserved.toInt :=
    toInt_add_of_lt hc0 hr0 (by omega)
  rw [toInt_add_of_lt (by omega) he (by omega), hcr]

theorem gatewayUsageFor_reads {scope : AccountingScope}
    (h : s.gatewayUsageFor request.sid scope period request.atTime limit = .ok u) :
    Reads u (s.scopeWindow request scope period limit) := by
  obtain ⟨consumed, hconsumed, h⟩ := bind_eq_ok.mp h
  obtain ⟨estimated, hestimated, h⟩ := bind_eq_ok.mp h
  obtain ⟨reserved, hreserved, h⟩ := bind_eq_ok.mp h
  cases h
  obtain ⟨hc, hc0⟩ := selectSum_ok (tokens_nonneg _) hconsumed
  obtain ⟨hs, hs0⟩ := selectSum_ok (map_nonneg settledUnits_nonneg) hestimated
  obtain ⟨hr, hr0⟩ := selectSum_ok (map_nonneg (fun r => r.reservedUnits.nonneg)) hreserved
  intro e he hlt
  simp only [scopeWindow, ← hc, ← hs, ← hr] at hlt ⊢
  have hcs : (consumed + estimated).toInt = consumed.toInt + estimated.toInt :=
    toInt_add_of_lt hc0 hs0 (by omega)
  have hcsr : (consumed + estimated + reserved).toInt =
      consumed.toInt + estimated.toInt + reserved.toInt := by
    rw [toInt_add_of_lt (by omega) hr0 (by omega), hcs]
  rw [toInt_add_of_lt (by omega) he (by omega), hcsr]

variable {w : Window}

theorem Reads.bounded (h : Reads u w) {e : Int64}
    (hl : w.limit = limit.toInt) (he : 0 ≤ e.toInt)
    (hp : ¬ limit.val < u.consumedUnits + u.reservedUnits + e)
    (hlt : w.consumed + w.reserved + e.toInt < 2 ^ 63) : w.consumed + w.reserved + e.toInt ≤ w.limit := by
  have hsum := h e he hlt
  rw [Int64.lt_iff_toInt_lt, not_lt, hsum] at hp
  rw [hl]
  exact hp

variable {scopes : List AccountingScope}

theorem checkScopes_ok {checked : Bool}
    (h : s.checkScopes request scopes checked = .ok true) {scope : AccountingScope}
    {cap : Units} (hm : scope ∈ scopes) (ha : request.applies scope)
    (hb : s.budgetFor request.sid scope.id request.atTime = .ok (period, cap)) :
    ∃ u, s.gatewayUsageFor request.sid scope period request.atTime cap = .ok u ∧
      ¬ cap.val < u.consumedUnits + u.reservedUnits + request.estimatedUnits := by
  induction scopes generalizing checked with
  | nil => cases hm
  | cons first _ ih =>
    unfold checkScopes at h
    by_cases hf : request.applies first
    · rw [if_pos hf] at h
      rcases List.mem_cons.mp hm with rfl | hm
      · rw [hb] at h
        obtain ⟨u, hu, h⟩ := bind_eq_ok.mp h
        refine ⟨u, hu, ?_⟩
        intro hlt
        rw [if_pos (.inr hlt)] at h
        cases h
      · split at h
        · split at h
          · exact ih h hm
          · cases h
        · obtain ⟨u, _, h⟩ := bind_eq_ok.mp h
          split at h
          · cases h
          · exact ih h hm
    · rw [if_neg hf] at h
      rcases List.mem_cons.mp hm with rfl | hm
      · exact absurd ha hf
      · exact ih h hm

theorem checkGateway_ok
    (h : s.checkGateway request scopes = .ok ()) (hd : s.checkDollarAdmission request = .ok false) :
    s.checkScopes request scopes false = .ok true := by
  obtain ⟨_, -, h⟩ := bind_eq_ok.mp h
  obtain ⟨_, hdollar, h⟩ := bind_eq_ok.mp h
  cases hd.symm.trans hdollar
  obtain ⟨checked, hchecked, h⟩ := bind_eq_ok.mp h
  cases checked with
  | true => exact hchecked
  | false => cases h

variable {a : Authorizer}

theorem checkAdmission_ok
    (h : s.checkAdmission a request = .ok period) :
    ∃ scopes limit u, s.scopesFor a request = .ok scopes ∧
      s.budgetFor request.sid request.modelID request.atTime = .ok (period, limit) ∧
      s.ownUsage request scopes period limit = .ok u ∧
      (¬ s.chargedByGateway request.modelID request.engine →
        ¬ limit.val < u.consumedUnits + u.reservedUnits + request.estimatedUnits) ∧
      (s.chargedByGateway request.modelID request.engine → s.checkGateway request scopes = .ok ()) := by
  unfold checkAdmission at h
  split at h
  · cases h
  · cases h
  · obtain ⟨scopes, hscopes, h⟩ := bind_eq_ok.mp h
    obtain ⟨⟨p, limit⟩, hb, h⟩ := bind_eq_ok.mp h
    obtain ⟨u, hu, h⟩ := bind_eq_ok.mp h
    split at h
    · cases h
    · rename_i hn
      have hcompare : ¬ s.chargedByGateway request.modelID request.engine →
          ¬ limit.val < u.consumedUnits + u.reservedUnits + request.estimatedUnits := by
        intro hk hlt
        apply hn
        refine ⟨hlt, ?_⟩
        by_contra hc
        simp only [not_or, Bool.not_eq_false] at hc
        exact hk hc
      split at h
      · obtain ⟨_, hgate, h⟩ := bind_eq_ok.mp h
        cases h
        exact ⟨scopes, limit, u, hscopes, hb, hu, hcompare, fun _ => hgate⟩
      · rename_i hk
        cases h
        exact ⟨scopes, limit, u, hscopes, hb, hu, hcompare, fun hc => absurd hc hk⟩

theorem ownUsage_reads (h : s.ownUsage request scopes period limit = .ok u) :
    (request.engine = "acp" ∧ s.gatewayAccounting = true ∧
      ∃ scope, scopes.find? (fun scope => scope.id = request.modelID) = some scope ∧
        Reads u (s.scopeWindow request scope period limit)) ∨
    Reads u (s.ownWindow request period limit) ∧ (request.engine = "acp" → s.gatewayAccounting = true →
      scopes.find? (fun scope => scope.id = request.modelID) = none) := by
  obtain ⟨_, husage, h⟩ := bind_eq_ok.mp h
  have hread := usageFor_reads husage
  split at h
  · rename_i hacp
    split at h
    · rename_i scope hfind
      exact .inl ⟨hacp.1, hacp.2, scope, hfind, gatewayUsageFor_reads h⟩
    · rename_i hfind
      cases h
      exact .inr ⟨hread, fun _ _ => hfind⟩
  · rename_i hacp
    cases h
    exact .inr ⟨hread, fun he hg => absurd ⟨he, hg⟩ hacp⟩

theorem CheckedWindow.bounded
    (hw : CheckedWindow a s request w) (h : s.checkAdmission a request = .ok period)
    (he : 0 ≤ request.estimatedUnits.toInt)
    (hlt : w.consumed + w.reserved + request.estimatedUnits.toInt < 2 ^ 63) :
    w.consumed + w.reserved + request.estimatedUnits.toInt ≤ w.limit := by
  obtain ⟨_, _, u, hscopes, hb, hu, hcompare, hgate⟩ := checkAdmission_ok h
  cases hw with
  | own _ _ _ hk hs hb' ho =>
    cases hb.symm.trans hb'
    cases hscopes.symm.trans hs
    rcases ownUsage_reads hu with ⟨hacp, hg, scope, hfind, -⟩ | ⟨hread, -⟩
    · rw [ho hacp hg] at hfind
      cases hfind
    · exact hread.bounded rfl he (hcompare hk) hlt
  | acp _ _ _ _ hacp hg hs hf hb' =>
    cases hb.symm.trans hb'
    cases hscopes.symm.trans hs
    have hk : ¬ s.chargedByGateway request.modelID request.engine := fun hk => hk.2.2 hacp
    rcases ownUsage_reads hu with ⟨-, -, _, hfind, hread⟩ | ⟨-, hnone⟩
    · cases hf.symm.trans hfind
      exact hread.bounded rfl he (hcompare hk) hlt
    · rw [hnone hacp hg] at hf
      cases hf
  | scope _ _ _ _ hk hd hs hm ha hb' =>
    cases hscopes.symm.trans hs
    obtain ⟨v, hv, hle⟩ := checkScopes_ok (checkGateway_ok (hgate hk) hd) hm ha hb'
    exact (gatewayUsageFor_reads hv).bounded rfl he hle hlt

theorem CheckedWindow.limit_lt
    (hw : CheckedWindow a s request w) : w.limit < 2 ^ 63 := by
  cases hw with
  | own _ l | acp _ l => exact l.val.toInt_lt
  | scope _ cap => exact cap.val.toInt_lt

end Store

/-- In the step in which a reservation is first granted, the exact sums of all checked budgets are
within their limits if and only if none of the int64 sums wraps. -/
theorem granted_within_limits_iff {c d : Config Store Call Outcome} (hc : system.Reachable c)
    (hs : system.Step c d) {i : Call} {res : Reservation}
    (hret : d.returned = (i, .ok (.reservation res false)) :: c.returned) {request : ReserveRequest}
    {auth : Option RunAuthorization} (hreq : i.admission = some (request, auth)) {a : Authorizer}
    (ha : (i.env 0).authorizer = some a) :
    (∀ w, c.store.CheckedWindow a (request.dated (i.env 0)) w →
      w.consumed + w.reserved + request.estimatedUnits.toInt ≤ w.limit) ↔
    (∀ w, c.store.CheckedWindow a (request.dated (i.env 0)) w →
      w.consumed + w.reserved + request.estimatedUnits.toInt < 2 ^ 63) := by
  obtain ⟨_, _, _, hop, ha', h⟩ := (answered hc hs hret).granted
  cases hreq.symm.trans hop
  cases ha.symm.trans ha'
  have hest : (request.dated (i.env 0)).estimatedUnits = request.estimatedUnits := by
    unfold ReserveRequest.dated
    split <;> rfl
  cases hx : c.store.reservationByRun (request.dated (i.env 0)).runID with
  | some =>
    have hv := (Store.reserve_existing hx h).2.1
    cases hv
  | none =>
    obtain ⟨_, units, _, hadm, hunits, -⟩ := Store.reserve_new hx h
    have he : 0 ≤ request.estimatedUnits.toInt := by
      rw [← hest, ← hunits]
      exact units.nonneg
    constructor
    · intro hle w hw
      have := hle w hw
      have := hw.limit_lt
      omega
    · intro hlt w hw
      have := hw.bounded hadm (by rw [hest]; exact he) (by rw [hest]; exact hlt w hw)
      rwa [hest] at this

namespace Overshoot

def setBudget : Call := ⟨0, fun _ => .still ⟨0⟩, .setBudget ⟨"S-1-5", "model", "daily", 100⟩⟩

def request (runID : String) (units : Int64) : ReserveRequest := ⟨runID, "S-1-5", "model", units, ⟨0⟩, ""⟩

def reserveForty : Call := ⟨1, fun _ => .still ⟨0⟩, .reserve (request "first" 40)⟩

def reserveMore (units : Int64) : Call := ⟨2, fun _ => .still ⟨0⟩, .reserve (request "second" units)⟩

def store : Store := storeAfter [setBudget, reserveForty]

def authorizer : Authorizer := { authorized := fun _ _ => .ok true, listAuthorized := none }

theorem checked (units : Int64) : store.CheckedWindow authorizer (request "second" units) ⟨0, 40, 100⟩ := by
  have hw : store.ownWindow (request "second" 0) .daily ⟨100, by decide⟩ = ⟨0, 40, 100⟩ := by
    decide
  have hsame : store.ownWindow (request "second" units) .daily ⟨100, by decide⟩ =
    store.ownWindow (request "second" 0) .daily ⟨100, by decide⟩ := rfl
  rw [← hw, ← hsame]
  exact .own .daily ⟨100, by decide⟩ [] (fun h => absurd (show false = true from h.1) (by decide)) rfl rfl
    (fun h => absurd (show "" = "acp" from h) (by decide))

theorem granting (units : Int64) {r : Reservation} {t : Store}
    (h : store.reserve authorizer (request "second" units) none = .ok ((r, false), t))
    (hv : validateReserve (request "second" units) = .ok ()) :
    ∃ c d, system.Reachable c ∧ c.store = store ∧ system.Step c d ∧
      d.returned = (reserveMore units, .ok (.reservation r false)) :: c.returned := by
  let body := fun s : Store => (s.reserve authorizer (request "second" units) none).map reservationAnswer
  have hp : (reserveMore units).prog = Prog.transaction body := by
    change reserveAuthorized (.still ⟨0⟩) (request "second" units) none = _
    unfold reserveAuthorized
    rw [hv]
    rfl
  have hbody : body store = .ok (.reservation r false, t) := by
    simp only [body, h]
    rfl
  obtain ⟨c, d, hc, hstore, hs, -, hret⟩ := last_call [setBudget, reserveForty] (reserveMore units)
    (by decide) (by change 2 ∉ [0, 1]; decide) (by rw [hp]; exact Prog.single_transaction _)
  rw [hp] at hret
  change d.returned = (reserveMore units, ((Prog.transaction body).run store).1) :: c.returned at hret
  rw [Prog.run_transaction_ok hbody] at hret
  exact ⟨c, d, hc, hstore, hs, hret⟩

end Overshoot

theorem granted_beyond_limit : ¬ ∀ c d : Config Store Call Outcome, system.Reachable c → system.Step c d →
    ∀ i res, d.returned = (i, .ok (.reservation res false)) :: c.returned →
      ∀ request auth, i.admission = some (request, auth) → ∀ a, (i.env 0).authorizer = some a →
        ∀ w, c.store.CheckedWindow a (request.dated (i.env 0)) w →
          w.consumed + w.reserved + request.estimatedUnits.toInt ≤ w.limit := by
  intro hall
  obtain ⟨c, d, hc, hstore, hs, hret⟩ := Overshoot.granting 9223372036854775807 rfl rfl
  have hw := Overshoot.checked 9223372036854775807
  rw [← hstore] at hw
  exact absurd (hall c d hc hs _ _ hret _ none rfl _ rfl _ hw) (by decide)

theorem granted_within_limits_iff_sixty : ∃ c : Config Store Call Outcome, c.store = Overshoot.store ∧
    ((∀ w, c.store.CheckedWindow Overshoot.authorizer (Overshoot.request "second" 60) w →
      w.consumed + w.reserved + (60 : Int64).toInt ≤ w.limit) ↔
    (∀ w, c.store.CheckedWindow Overshoot.authorizer (Overshoot.request "second" 60) w →
      w.consumed + w.reserved + (60 : Int64).toInt < 2 ^ 63)) := by
  obtain ⟨c, d, hc, hstore, hs, hret⟩ := Overshoot.granting 60 rfl rfl
  have hreq : (Overshoot.reserveMore 60).admission = some (Overshoot.request "second" 60, none) := rfl
  exact ⟨c, hstore, granted_within_limits_iff hc hs hret hreq (a := Overshoot.authorizer) rfl⟩

end WorkAgent.Quota
