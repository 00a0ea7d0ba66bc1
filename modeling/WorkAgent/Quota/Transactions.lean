import WorkAgent.Quota.Later

namespace WorkAgent.Quota

open Library

namespace Store

variable {s t : Store}

def Names (a : RunAuthorization) (e : AuthorizationRow) : Prop :=
  e.ownerSID = a.ownerSID ∧ e.scope = a.scope ∧ e.engine = a.engine

variable {runID : String}

theorem persistRunAuthorization_ok {a : RunAuthorization} {candidates : List String}
    {create : Bool} (h : s.persistRunAuthorization runID a candidates create = .ok t) :
    (∃ e, s.authorizationByRun runID = some e ∧ Names a e ∧ t = s) ∨
    (s.authorizationByRun runID = none ∧ create = true ∧
      t = { s with authorizations := s.authorizations.insertOrIgnore (authorizationRow runID a candidates) }) := by
  unfold persistRunAuthorization at h
  split at h
  · rename_i e he
    split at h
    · cases h
    · rename_i hn
      cases h
      refine .inl ⟨e, he, ?_, rfl⟩
      simpa [Names, not_or] using hn
  · rename_i he
    split at h
    · rename_i hc
      cases h
      exact .inr ⟨he, hc, rfl⟩
    · cases h

variable {a : Authorizer} {request : ReserveRequest} {auth : Option RunAuthorization} {v : Reservation × Bool}

theorem reserve_existing
    {existing : ReservationRow}
    (hr : s.reservationByRun request.runID = some existing)
    (h : s.reserve a request auth = .ok (v, t)) :
    ¬ conflicts existing request ∧ v = (existing.reservation, true) ∧ t = s ∧
      ∀ x, auth = some x → ∃ e, s.authorizationByRun request.runID = some e ∧ Names x e := by
  unfold reserve at h
  rw [hr] at h
  simp only at h
  split at h
  · cases h
  · rename_i hc
    cases auth with
    | none =>
      cases h
      exact ⟨hc, rfl, rfl, by simp⟩
    | some =>
      obtain ⟨u, hu, h⟩ := bind_eq_ok.mp h
      cases h
      rcases persistRunAuthorization_ok hu with ⟨e, he, hn, rfl⟩ | ⟨-, hfalse, -⟩
      · refine ⟨hc, rfl, rfl, ?_⟩
        rintro y hy
        cases hy
        exact ⟨e, he, hn⟩
      · cases hfalse

inductive Authorizes (s : Store) (runID : String) :
    Option RunAuthorization → Table AuthorizationRow.runID → Prop
  | none : Authorizes s runID none s.authorizations
  | known (a : RunAuthorization) (e : AuthorizationRow) (he : s.authorizationByRun runID = some e)
      (hn : Names a e) : Authorizes s runID (some a) s.authorizations
  | new (a : RunAuthorization) (candidates : List String) (he : s.authorizationByRun runID = Option.none) :
      Authorizes s runID (some a) (s.authorizations.insertOrIgnore (authorizationRow runID a candidates))

theorem reserve_new (hr : s.reservationByRun request.runID = none)
    (h : s.reserve a request auth = .ok (v, t)) :
    ∃ period units authorizations, s.checkAdmission a request = .ok period ∧ units.val = request.estimatedUnits ∧
      v = ((reservationRow request period units).reservation, false) ∧
      Authorizes s request.runID auth authorizations ∧
      t = { s with
        reservations := s.reservations.insertOrIgnore (reservationRow request period units)
        authorizations := authorizations } := by
  unfold reserve at h
  rw [hr] at h
  obtain ⟨period, hp, h⟩ := bind_eq_ok.mp h
  cases hu : Units.check request.estimatedUnits with
  | none =>
    rw [hu] at h
    cases h
  | some units =>
    rw [hu] at h
    have hval := Units.check_eq_some.mp hu
    cases auth with
    | none =>
      cases h
      exact ⟨period, units, _, hp, hval, rfl, .none, rfl⟩
    | some x =>
      obtain ⟨u, hpersist, h⟩ := bind_eq_ok.mp h
      cases h
      rcases persistRunAuthorization_ok hpersist with ⟨e, he, hn, rfl⟩ | ⟨he, -, rfl⟩
      · exact ⟨period, units, _, hp, hval, rfl, .known x e he hn, rfl⟩
      · exact ⟨period, units, _, hp, hval, rfl, .new x _ he, rfl⟩

theorem reserve_later (h : s.reserve a request auth = .ok (v, t)) : Later s t := by
  cases hr : s.reservationByRun request.runID with
  | some =>
    obtain ⟨-, -, rfl, -⟩ := reserve_existing hr h
    exact .refl _
  | none =>
    obtain ⟨period, units, _, -, -, -, hauth, rfl⟩ := reserve_new hr h
    refine (Later.insert s (reservationRow request period units)).trans ?_
    cases hauth with
    | none | known => exact .refl _
    | new =>
      apply Later.insert_authorization
      intro r hx
      have hnew := Table.find?_insertOrIgnore_new (r := reservationRow request period units) hr
      cases hx.symm.trans hnew
      rfl

structure Claims (s : Store) (sid payerSID : String) (r : ReserveRequest) (existing : ReservationRow)
    (a : AuthorizationRow) : Prop where
  reservation : s.reservationByRun r.runID = some existing
  authorization : s.authorizationByRun r.runID = some a
  owner : a.ownerSID = sid
  payer : payerSID ≠ "" → payerSID = existing.sid
  model : existing.modelID = r.modelID
  units : existing.reservedUnits.val = r.estimatedUnits
  engine : r.engine ≠ "" → a.engine = r.engine

inductive Claimed (s : Store) (env : Env) (sid payerSID : String) (r : ReserveRequest) :
    Option Reservation → Store → Prop
  | unknown (hr : s.reservationByRun r.runID = none) (hp : payerSID = "") :
      Claimed s env sid payerSID r none s
  | accepted (existing : ReservationRow) (a : AuthorizationRow) (hc : Claims s sid payerSID r existing a)
      (hs : existing.status = .reserved) :
      Claimed s env sid payerSID r
        (some { existing.reservation with alreadyAccepted := a.acceptedAt.isSome, accepted := true })
        ((s.accept r.runID (env.now 0).unixMilli).setRunOwner r.runID sid)
  | settled (existing : ReservationRow) (a : AuthorizationRow) (hc : Claims s sid payerSID r existing a)
      (hs : existing.status = .settled) :
      Claimed s env sid payerSID r (some { existing.reservation with accepted := a.acceptedAt.isSome }) s

variable {env : Env} {sid payerSID : String} {r : ReserveRequest}

theorem claimRuntime_ok {v : Option Reservation}
    (h : s.claimRuntime env sid payerSID r = .ok (v, t)) : Claimed s env sid payerSID r v t := by
  unfold claimRuntime at h
  split at h
  · rename_i hr
    split at h
    · cases h
    · rename_i hp
      cases h
      exact .unknown hr (not_not.mp hp)
  · rename_i existing hr
    split at h
    · cases h
    · rename_i a ha
      split at h
      · cases h
      · rename_i howner
        split at h
        · cases h
        · rename_i hsame
          simp only [not_or, not_and, not_not] at howner hsame
          obtain ⟨hown, hpay⟩ := howner
          obtain ⟨hmodel, hunits, hengine⟩ := hsame
          have hc : Claims s sid payerSID r existing a := ⟨hr, ha, hown, hpay, hmodel, hunits, hengine⟩
          split at h
          · rename_i hs
            cases h
            exact .accepted existing a hc hs
          · rename_i hs
            cases h
            exact .settled existing a hc hs

theorem claimRuntime_none
    (h : s.claimRuntime env sid payerSID r = .ok (none, t)) : payerSID = "" := by
  generalize hv : (none : Option Reservation) = v at h
  cases claimRuntime_ok h with
  | unknown _ hp => exact hp
  | accepted | settled => cases hv

theorem accept_later {ms : ℤ}
    (hr : ∀ r, s.reservationByRun runID = some r → r.status = .reserved) :
    Later s (s.accept runID ms) := by
  apply Later.update_authorization s runID
  · intro a _
    refine ⟨rfl, rfl, rfl, rfl, ?_, fun _ h => h, fun _ h => h⟩
    intro x hx
    simp [hx]
  · exact hr

theorem setRunOwner_later (runID sid : String) : Later s (s.setRunOwner runID sid) :=
  Later.of_eq rfl rfl rfl (fun h => h)

theorem claimRuntime_later
    {v : Option Reservation} (h : s.claimRuntime env sid payerSID r = .ok (v, t)) : Later s t := by
  cases claimRuntime_ok h with
  | unknown | settled => exact .refl s
  | accepted _ _ hc hs =>
    refine (accept_later ?_).trans (setRunOwner_later _ _)
    intro x hx
    rw [hc.reservation] at hx
    cases hx
    exact hs

theorem cancelUnacceptedSharedRun_ok
    (h : s.cancelUnacceptedSharedRun env payerSID runID = .ok t) :
    ∃ r a, s.reservationByRun runID = some r ∧ s.authorizationByRun runID = some a ∧ r.sid = payerSID ∧
      a.scope = .shared ∧
      ((r.status = .settled ∧ t = s) ∨
        (r.status = .reserved ∧ a.acceptedAt = none ∧
          t = { s with
            reservations := s.reservations.update (fun r => r.runID = runID)
              (fun r => r.settle .zero (env.now 0).unix r.settleSource) (fun r => r.runID_settle _ _ _) })) := by
  unfold cancelUnacceptedSharedRun at h
  split at h
  · cases h
  · rename_i r hr
    split at h
    · cases h
    · rename_i hpay
      split at h
      · cases h
      · rename_i a ha
        split at h
        · cases h
        · rename_i hscope
          refine ⟨r, a, hr, ha, not_not.mp hpay, not_not.mp hscope, ?_⟩
          split at h
          · rename_i hs
            cases h
            exact .inl ⟨hs, rfl⟩
          · rename_i hs
            split at h
            · cases h
            · rename_i hacc
              cases h
              refine .inr ⟨?_, by simpa using hacc, rfl⟩
              cases hst : r.status with
              | reserved => rfl
              | settled => exact absurd hst hs

theorem cancelUnacceptedSharedRun_later
    (h : s.cancelUnacceptedSharedRun env payerSID runID = .ok t) : Later s t := by
  obtain ⟨r, a, hr, -, -, -, ⟨-, rfl⟩ | ⟨hs, -, rfl⟩⟩ := cancelUnacceptedSharedRun_ok h
  · exact .refl _
  · apply Later.update_reservation s _ .zero _ ReservationRow.settleSource
    intro x hx hrun
    have hx' : s.reservationByRun runID = some x := Table.find?_eq_some.mpr ⟨hx, hrun⟩
    cases hr.symm.trans hx'
    exact hs

def bindShared (s : Store) (env : Env) (r : SharedRunIdentity) : Store :=
  let row := authorizationRow r.runID ⟨r.ownerSID, .shared, r.engine⟩ []
  { s with authorizations := s.authorizations.insertOrIgnore row }.bindOwner r.runID r.ownerSID
    (env.now 0).unixMilli

theorem recoverSharedRunAuthorization_ok {r : SharedRunIdentity}
    (h : s.recoverSharedRunAuthorization env r = .ok t) :
    ∃ x, s.reservationByRun r.runID = some x ∧ x.sid = r.payerSID ∧
      ((x.status = .settled ∧ t = s) ∨
        (x.status = .reserved ∧
          ((∃ a, s.authorizationByRun r.runID = some a ∧ a.ownerSID = r.ownerSID ∧ t = s) ∨
            (s.authorizationByRun r.runID = none ∧ t = s.bindShared env r)))) := by
  unfold recoverSharedRunAuthorization at h
  split at h
  · cases h
  · rename_i x hx
    split at h
    · cases h
    · rename_i hpay
      refine ⟨x, hx, not_not.mp hpay, ?_⟩
      split at h
      · rename_i hs
        cases h
        exact .inl ⟨hs, rfl⟩
      · rename_i hs
        have hs' : x.status = .reserved := by
          cases hst : x.status with
          | reserved => rfl
          | settled => exact absurd hst hs
        refine .inr ⟨hs', ?_⟩
        split at h
        · rename_i a ha
          split at h
          · cases h
          · rename_i hsame
            cases h
            simp only [not_or, not_not] at hsame
            exact .inl ⟨a, ha, hsame.1, rfl⟩
        · rename_i ha
          obtain ⟨u, hu, h⟩ := bind_eq_ok.mp h
          rcases persistRunAuthorization_ok hu with ⟨e, he, -, -⟩ | ⟨-, -, rfl⟩
          · rw [ha] at he
            cases he
          · cases h
            exact .inr ⟨ha, rfl⟩

theorem recoverSharedRunAuthorization_later {r : SharedRunIdentity}
    (h : s.recoverSharedRunAuthorization env r = .ok t) : Later s t := by
  obtain ⟨x, hx, -, ⟨-, rfl⟩ | ⟨hs, ⟨a, -, -, rfl⟩ | ⟨ha, rfl⟩⟩⟩ := recoverSharedRunAuthorization_ok h
  · exact .refl _
  · exact .refl _
  · have hreserved : ∀ y, s.reservationByRun r.runID = some y → y.status = .reserved := by
      intro y hy
      rw [hx] at hy
      cases hy
      exact hs
    let row := authorizationRow r.runID ⟨r.ownerSID, .shared, r.engine⟩ []
    have hins := Later.insert_authorization s row hreserved
    refine hins.trans (Later.trans ?_ (setRunOwner_later _ _))
    apply Later.update_authorization _ r.runID
    · intro b hb
      have hnew := Table.find?_insertOrIgnore_new (r := row) ha
      cases hb.symm.trans hnew
      refine ⟨rfl, rfl, rfl, rfl, ?_, fun _ h => h, fun _ h => h⟩
      intro y hy
      cases hy
    · exact hreserved

end Store

end WorkAgent.Quota
