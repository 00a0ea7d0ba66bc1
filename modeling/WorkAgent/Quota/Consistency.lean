import WorkAgent.Quota.Effects

namespace WorkAgent.Quota

open Library Table

namespace Store

variable {s t : Store}

section Frames

variable (env : Env) (r : ReservationRow)

@[simp] theorem holdCharged_reservations : (s.holdCharged env r).reservations = s.reservations := by
  unfold holdCharged
  split <;> rfl

@[simp] theorem holdCharged_authorizations : (s.holdCharged env r).authorizations = s.authorizations := by
  unfold holdCharged
  split <;> rfl

@[simp] theorem holdCharged_gatewayUsage : (s.holdCharged env r).gatewayUsage = s.gatewayUsage := by
  unfold holdCharged
  split <;> rfl

@[simp] theorem holdCharged_gatewayAccounting :
    (s.holdCharged env r).gatewayAccounting = s.gatewayAccounting := by
  unfold holdCharged
  split <;> rfl

end Frames

theorem runID_of_reservation {x : String} {r : ReservationRow} (h : s.reservationByRun x = some r) :
    r.runID = x := (find?_eq_some.mp h).2

theorem runID_of_authorization {x : String} {a : AuthorizationRow} (h : s.authorizationByRun x = some a) :
    a.runID = x := (find?_eq_some.mp h).2

theorem Amount.frame {env : Env} {r : ReservationRow} {actual : Units} {amount : Int64}
    {source : Option SettleSource} {pinned : Store} (h : Amount s env r actual amount source pinned) :
    pinned.reservations = s.reservations ∧ pinned.authorizations = s.authorizations := by
  cases h <;> exact ⟨rfl, rfl⟩

structure Closed (s : Store) (env : Env) (r : ReservationRow) (actual : Units) (amount : Int64)
    (source : Option SettleSource) (pinned : Store) (units : Units) (t : Store) : Prop where
  settledBy : Amount s env r actual amount source pinned
  value : units.val = amount
  run : t.reservationByRun r.runID = some (r.settle units (env.now 3).unix source)
  others : ∀ x, x ≠ r.runID → t.reservationByRun x = s.reservationByRun x
  authorizations : t.authorizations = s.authorizations
  usage : t.gatewayUsage = pinned.gatewayUsage
  mode : t.gatewayAccounting = s.gatewayAccounting

theorem Closes.closed {env : Env} {r : ReservationRow} {actual : Units} (h : Closes s env r actual t)
    (hr : s.reservationByRun r.runID = some r) (hs : r.status = .reserved) :
    ∃ amount source pinned units, Closed s env r actual amount source pinned units t := by
  cases h with
  | intro amount source pinned units ha hu =>
    have hfind (x : String) :
        ((pinned.close r.runID units (env.now 3).unix source).holdCharged env r).reservationByRun x =
          (s.reservationByRun x).map (fun y => if y.runID = r.runID ∧ y.status = .reserved then
            y.settle units (env.now 3).unix source else y) := by
      unfold reservationByRun
      rw [holdCharged_reservations]
      unfold close
      rw [find?_update, ha.frame.1]
    refine ⟨amount, source, pinned, units, ha, hu, ?_, ?_, ?_, ?_, ?_⟩
    · rw [hfind, hr, Option.map_some, if_pos ⟨rfl, hs⟩]
    · intro x hx
      rw [hfind]
      cases hy : s.reservationByRun x with
      | none => rfl
      | some => rw [Option.map_some, if_neg (fun h => hx ((runID_of_reservation hy) ▸ h.1))]
    · rw [holdCharged_authorizations]
      exact ha.frame.2
    · rw [holdCharged_gatewayUsage]
      rfl
    · rw [holdCharged_gatewayAccounting]
      exact ha.mode

theorem retained_authorization {env : Env} {runtimeSID : String} {r : ReservationRow} {actual : Units}
    {x : String} {a : AuthorizationRow}
    (h : (s.retained env runtimeSID r actual).authorizationByRun x = some a) :
    ∃ b, s.authorizationByRun x = some b ∧ (x ≠ r.runID → a = b) ∧ b.Extends a ∧
      a.acceptedAt = b.acceptedAt := by
  unfold retained freeze at h
  split at h
  · exact ⟨a, h, fun _ => rfl, .refl a, rfl⟩
  · unfold authorizationByRun at h
    rw [find?_update, Option.map_eq_some_iff] at h
    obtain ⟨b, hb, hab⟩ := h
    refine ⟨b, hb, ?_, ?_, ?_⟩
    · intro hx
      rw [if_neg (by rw [(find?_eq_some.mp hb).2]; exact hx)] at hab
      exact hab.symm
    · split at hab
      · subst hab
        refine ⟨rfl, rfl, rfl, rfl, fun _ h => h, ?_, ?_⟩
        · intro y hy
          simp [hy]
        · intro y hy
          simp [hy]
      · subst hab
        exact .refl _
    · split at hab <;> subst hab <;> rfl

end Store

structure Consistent (s : Store) : Prop where
  authorized : ∀ x a, s.authorizationByRun x = some a → ∃ r, s.reservationByRun x = some r
  retained : ∀ x r a, s.reservationByRun x = some r → r.status = .reserved →
    s.authorizationByRun x = some a → a.settlementUnits ≠ none → s.chargedByGateway r.modelID r.engine
  pinned : ∀ g x, g ∈ s.gatewayUsage → g.matchedRunID = some x →
    ∃ r, s.reservationByRun x = some r ∧ r.settleSource = some .gateway

namespace Consistent

variable {s t : Store}

theorem empty : Consistent .empty where
  authorized x a h := by cases h
  retained x r a h := by cases h
  pinned g x h := absurd h (not_mem_empty g)

theorem chargedByGateway_mono {s t : Store} (h : s.gatewayAccounting = true → t.gatewayAccounting = true)
    {modelID engine : String} (hc : s.chargedByGateway modelID engine) :
    t.chargedByGateway modelID engine := ⟨h hc.1, hc.2⟩

theorem of_eq (hs : Consistent s) (hr : t.reservations = s.reservations)
    (ha : t.authorizations = s.authorizations) (hg : t.gatewayUsage = s.gatewayUsage)
    (hm : s.gatewayAccounting = true → t.gatewayAccounting = true) : Consistent t where
  authorized := by
    unfold Store.authorizationByRun Store.reservationByRun
    rw [ha, hr]
    exact hs.authorized
  retained := by
    unfold Store.authorizationByRun Store.reservationByRun
    rw [ha, hr]
    intro x r a hx hst hax hne
    exact chargedByGateway_mono hm (hs.retained x r a hx hst hax hne)
  pinned := by
    unfold Store.reservationByRun
    rw [hg, hr]
    exact hs.pinned

theorem record (hs : Consistent s) {g : GatewayUsageRow} (hg : g.matchedRunID = none) :
    Consistent { s with gatewayUsage := s.gatewayUsage.insertOrIgnore g } :=
  { hs with
    pinned g' x h hx := by
      rcases mem_insertOrIgnore.mp h with h | ⟨rfl, -⟩
      · exact hs.pinned g' x h hx
      · rw [hg] at hx
        cases hx }

theorem reservation_later (h : Later s t) {x : String} (hx : ∃ r, s.reservationByRun x = some r) :
    ∃ r, t.reservationByRun x = some r := by
  obtain ⟨r, hr⟩ := hx
  obtain ⟨r', hr', -⟩ := h.reservation x r hr
  exact ⟨r', hr'⟩

theorem gateway_later (h : Later s t) {x : String}
    (hx : ∃ r, s.reservationByRun x = some r ∧ r.settleSource = some .gateway) :
    ∃ r, t.reservationByRun x = some r ∧ r.settleSource = some .gateway := by
  obtain ⟨r, hr, hsource⟩ := hx
  obtain ⟨r', hr', -, hsame⟩ := h.reservation x r hr
  obtain rfl := hsame (r.source_settled (by rw [hsource]; rfl))
  exact ⟨r', hr', hsource⟩

theorem reserve (hs : Consistent s) {a : Authorizer} {request : ReserveRequest}
    {auth : Option RunAuthorization} {v : Reservation × Bool} (h : s.reserve a request auth = .ok (v, t)) :
    Consistent t := by
  have hlater := Store.reserve_later h
  cases hr : s.reservationByRun request.runID with
  | some =>
    obtain ⟨-, -, rfl, -⟩ := Store.reserve_existing hr h
    exact hs
  | none =>
    obtain ⟨period, units, auths, -, -, -, hauth, rfl⟩ := Store.reserve_new hr h
    have hnone : s.authorizationByRun request.runID = none := by
      cases ha : s.authorizationByRun request.runID with
      | none => rfl
      | some =>
        obtain ⟨r, hx⟩ := hs.authorized _ _ ha
        cases hr.symm.trans hx
    have hfind : ∀ x e, auths.find? x = some e →
        s.authorizationByRun x = some e ∨ (x = request.runID ∧ e.settlementUnits = none) := by
      intro x e he
      cases hauth with
      | none | known => exact .inl he
      | new y candidates hz =>
        by_cases hx : request.runID = x
        · subst hx
          cases he.symm.trans (find?_insertOrIgnore_new
            (r := Store.authorizationRow request.runID y candidates) hz)
          exact .inr ⟨rfl, rfl⟩
        · rw [find?_insertOrIgnore_ne (r := Store.authorizationRow request.runID y candidates) hx] at he
          exact .inl he
    have hnew := find?_insertOrIgnore_new (r := Store.reservationRow request period units) hr
    refine ⟨?_, ?_, ?_⟩
    · intro x e he
      rcases hfind x e he with he | ⟨rfl, -⟩
      · exact reservation_later hlater (hs.authorized x e he)
      · exact ⟨_, hnew⟩
    · intro x r e hx hst he hne
      rcases hfind x e he with he | ⟨-, hno⟩
      · have hxr : (Store.reservationRow request period units).runID ≠ x := by
          rintro rfl
          cases hnone.symm.trans he
        have hx' : (s.reservations.insertOrIgnore (Store.reservationRow request period units)).find? x =
          some r := hx
        rw [find?_insertOrIgnore_ne hxr] at hx'
        exact hs.retained x r e hx' hst he hne
      · exact absurd hno hne
    · intro g x hg hx
      exact gateway_later hlater (hs.pinned g x hg hx)

theorem of_acceptance (hs : Consistent s) (hlater : Later s t) (hr : t.reservations = s.reservations)
    (hg : t.gatewayUsage = s.gatewayUsage)
    (ha : ∀ x a, t.authorizationByRun x = some a → (∃ r, s.reservationByRun x = some r) ∧
      (a.settlementUnits ≠ none → ∃ b, s.authorizationByRun x = some b ∧ b.settlementUnits ≠ none)) :
    Consistent t where
  authorized x a hax := reservation_later hlater (ha x a hax).1
  retained x r a hx hst hax hne := by
    have hx' : s.reservationByRun x = some r := by
      unfold Store.reservationByRun at hx ⊢
      rwa [hr] at hx
    obtain ⟨b, hb, hbne⟩ := (ha x a hax).2 hne
    exact chargedByGateway_mono hlater.mode (hs.retained x r b hx' hst hb hbne)
  pinned g x hgt hx := by
    rw [hg] at hgt
    exact gateway_later hlater (hs.pinned g x hgt hx)

theorem accept_authorization {x runID : String} {ms : ℤ} {a : AuthorizationRow}
    (h : (s.accept runID ms).authorizationByRun x = some a) :
    ∃ b, s.authorizationByRun x = some b ∧ a.settlementUnits = b.settlementUnits := by
  unfold Store.accept Store.authorizationByRun at h
  rw [find?_update, Option.map_eq_some_iff] at h
  obtain ⟨b, hb, rfl⟩ := h
  refine ⟨b, hb, ?_⟩
  split <;> rfl

section

variable (hs : Consistent s)
include hs

theorem claim {env : Env} {sid payerSID : String} {r : ReserveRequest}
    {v : Option Reservation} (h : s.claimRuntime env sid payerSID r = .ok (v, t)) : Consistent t := by
  have hlater := Store.claimRuntime_later h
  cases Store.claimRuntime_ok h with
  | unknown | settled => exact hs
  | accepted =>
    apply hs.of_acceptance hlater rfl rfl
    intro x e he
    obtain ⟨b, hb, hsame⟩ := accept_authorization he
    refine ⟨hs.authorized x b hb, ?_⟩
    intro hne
    exact ⟨b, hb, hsame ▸ hne⟩

theorem recover {env : Env} {r : SharedRunIdentity}
    (h : s.recoverSharedRunAuthorization env r = .ok t) : Consistent t := by
  have hlater := Store.recoverSharedRunAuthorization_later h
  obtain ⟨x, hx, -, ⟨-, rfl⟩ | ⟨-, ⟨-, -, -, rfl⟩ | ⟨hnone, rfl⟩⟩⟩ := Store.recoverSharedRunAuthorization_ok h
  · exact hs
  · exact hs
  · apply hs.of_acceptance hlater rfl rfl
    intro y a hy
    let row := Store.authorizationRow r.runID ⟨r.ownerSID, .shared, r.engine⟩ []
    have hy' : ((s.authorizations.insertOrIgnore row).update (fun a => a.runID = r.runID)
        (fun a => { a with acceptedAt := some (env.now 0).unixMilli })).find? y = some a := hy
    rw [find?_update, Option.map_eq_some_iff] at hy'
    obtain ⟨b, hb, hab⟩ := hy'
    have hunits : a.settlementUnits = b.settlementUnits := by
      rw [← hab]
      split <;> rfl
    by_cases hrun : r.runID = y
    · subst hrun
      cases hb.symm.trans (find?_insertOrIgnore_new (r := row) hnone)
      exact ⟨⟨x, hx⟩, fun hne => absurd hunits hne⟩
    · rw [find?_insertOrIgnore_ne (r := row) hrun] at hb
      exact ⟨hs.authorized y b hb, fun hne => ⟨b, hb, hunits ▸ hne⟩⟩

theorem release {env : Env} {payerSID runID : String}
    (h : s.cancelUnacceptedSharedRun env payerSID runID = .ok t) : Consistent t := by
  have hlater := Store.cancelUnacceptedSharedRun_later h
  obtain ⟨r, a, _, -, -, -, ⟨-, rfl⟩ | ⟨-, -, rfl⟩⟩ := Store.cancelUnacceptedSharedRun_ok h
  · exact hs
  · refine ⟨?_, ?_, ?_⟩
    · intro x e he
      exact reservation_later hlater (hs.authorized x e he)
    · intro x y e hx hst he hne
      unfold Store.reservationByRun at hx
      rw [find?_update, Option.map_eq_some_iff] at hx
      obtain ⟨z, hz, hzy⟩ := hx
      split at hzy
      · subst hzy
        cases hst
      · subst hzy
        exact hs.retained x z e hz hst he hne
    · intro g x hg hx
      exact gateway_later hlater (hs.pinned g x hg hx)

theorem settles {env : Env} {sid runtimeSID : String} {r : ReservationRow}
    {actual : Units} {result : Except QuotaError Unit} (hr : s.reservationByRun r.runID = some r)
    (h : Store.Settles s env sid runtimeSID r actual result t) : Consistent t := by
  have hlater := h.later hr
  cases h with
  | replay => exact hs
  | pending _ hw =>
    refine ⟨?_, ?_, ?_⟩
    · intro x a ha
      rw [Store.awaiting_authorizationByRun] at ha
      obtain ⟨b, hb, -⟩ := Store.retained_authorization ha
      rw [Store.held_reservationByRun]
      exact hs.authorized x b hb
    · intro x y a hx hy ha hne
      rw [Store.awaiting_authorizationByRun] at ha
      rw [Store.held_reservationByRun] at hx
      apply chargedByGateway_mono hlater.mode
      obtain ⟨b, hb, hsame, -⟩ := Store.retained_authorization ha
      by_cases hrun : x = r.runID
      · subst hrun
        cases hr.symm.trans hx
        have hcharged := hw.1
        unfold Store.chargedByGateway at hcharged ⊢
        rwa [Store.retained_gatewayAccounting] at hcharged
      · rw [hsame hrun] at hne
        exact hs.retained x y b hx hy hb hne
    · intro g x hg hx
      rw [Store.awaiting_gatewayUsage, Store.retained_gatewayUsage] at hg
      exact gateway_later hlater (hs.pinned g x hg hx)
  | closed _ hst hc =>
    obtain ⟨_, _, _, _, c⟩ := hc.closed ((Store.held_reservationByRun ..).trans hr) hst
    have hres : ∀ x, x ≠ r.runID → t.reservationByRun x = s.reservationByRun x := by
      intro x hx
      rw [c.others x hx, Store.held_reservationByRun]
    have hauth : ∀ x, t.authorizationByRun x = (s.retained env runtimeSID r actual).authorizationByRun x := by
      intro x
      unfold Store.authorizationByRun
      rw [c.authorizations, Store.awaiting_authorizations]
    refine ⟨?_, ?_, ?_⟩
    · intro x a ha
      rw [hauth] at ha
      obtain ⟨b, hb, -⟩ := Store.retained_authorization ha
      exact reservation_later hlater (hs.authorized x b hb)
    · intro x y a hx hy ha hne
      by_cases hrun : x = r.runID
      · subst hrun
        cases c.run.symm.trans hx
        cases hy
      · rw [hauth] at ha
        rw [hres x hrun] at hx
        obtain ⟨b, hb, hsame, -⟩ := Store.retained_authorization ha
        rw [hsame hrun] at hne
        exact chargedByGateway_mono hlater.mode (hs.retained x y b hx hy hb hne)
    · intro g x hg hx
      have hold : ∀ g', g' ∈ s.gatewayUsage → g'.matchedRunID = some x →
          ∃ y, t.reservationByRun x = some y ∧ y.settleSource = some .gateway :=
        fun g' hg' hx' => gateway_later hlater (hs.pinned g' x hg' hx')
      rw [c.usage] at hg
      cases c.settledBy with
      | estimate =>
        rw [Store.awaiting_gatewayUsage, Store.retained_gatewayUsage] at hg
        exact hold g hg hx
      | records =>
        obtain ⟨_, hg', hgg'⟩ := Store.mem_pin.mp hg
        rw [Store.awaiting_gatewayUsage, Store.retained_gatewayUsage] at hg'
        split at hgg'
        · subst hgg'
          cases hx
          exact ⟨_, c.run, rfl⟩
        · subst hgg'
          exact hold _ hg' hx

theorem effect {i : Call} (h : Effect i s t) : Consistent t := by
  cases h with
  | same => exact hs
  | ledger _ _ hr ha hg hm => exact hs.of_eq hr ha hg hm
  | record _ _ _ hg => exact hs.record hg
  | reserve _ _ _ _ _ _ h => exact hs.reserve h
  | claim _ _ _ _ _ _ h => exact hs.claim h
  | settle _ _ _ _ _ _ _ _ _ h =>
    obtain ⟨r, hr, -, hset⟩ := Store.settle_ok h
    rw [← Store.runID_of_reservation hr] at hr
    exact hs.settles hr hset
  | release _ _ _ _ h => exact hs.release h
  | recover _ _ _ h => exact hs.recover h

end

theorem reachable {c : Config Store Call Outcome} (hc : system.Reachable c) : Consistent c.store :=
  reachable_store .empty (fun _ _ _ hs h => hs.effect h) hc

end Consistent

end WorkAgent.Quota
