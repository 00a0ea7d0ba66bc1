import WorkAgent.Quota.Consistency

namespace WorkAgent.Quota

open Library

def Op.ownerCall : Op → Option (String × String)
  | .reserveSharedRun r => some (r.ownerSID, r.runID)
  | .reserveRuntime sid _ r => some (sid, r.runID)
  | .lookupRuntimeRun sid runID => some (sid, runID)
  | .settleRuntime sid _ r => some (sid, r.runID)
  | _ => none

namespace Store

variable {s t : Store}

theorem reserve_owner {a : Authorizer} {request : ReserveRequest} {auth : RunAuthorization}
    {e : AuthorizationRow} {v : Reservation × Bool} (hs : Consistent s)
    (he : s.authorizationByRun request.runID = some e) (h : s.reserve a request (some auth) = .ok (v, t)) :
    Names auth e ∧ t = s := by
  obtain ⟨r, hr⟩ := hs.authorized _ e he
  obtain ⟨-, -, rfl, hnames⟩ := reserve_existing hr h
  obtain ⟨_, he', hn⟩ := hnames auth rfl
  cases he.symm.trans he'
  exact ⟨hn, rfl⟩

theorem claimRuntime_owner {env : Env} {sid payerSID : String} {r : ReserveRequest} {e : AuthorizationRow}
    {v : Option Reservation} (hs : Consistent s) (he : s.authorizationByRun r.runID = some e)
    (h : s.claimRuntime env sid payerSID r = .ok (v, t)) : e.ownerSID = sid := by
  cases claimRuntime_ok h with
  | unknown hr =>
    obtain ⟨x, hx⟩ := hs.authorized _ e he
    cases hr.symm.trans hx
  | accepted _ _ hc | settled _ _ hc =>
    cases he.symm.trans hc.authorization
    exact hc.owner

theorem settle_owner {env : Env} {sid runtimeSID runID : String} {actual : Units} {e : AuthorizationRow}
    {result : Except QuotaError Unit} (hne : runtimeSID ≠ "") (he : s.authorizationByRun runID = some e)
    (h : s.settle env sid runtimeSID runID actual = .ok (result, t)) : e.ownerSID = runtimeSID := by
  obtain ⟨r, hr, hmay, -⟩ := settle_ok h
  obtain ⟨a, ha, howner, -⟩ := hmay.runtime hne
  rw [runID_of_reservation hr] at ha
  cases he.symm.trans ha
  exact howner

theorem lookupRuntimeRun_owner {sid runID : String} {e : AuthorizationRow} {r : Reservation}
    (he : s.authorizationByRun runID = some e) (h : s.lookupRuntimeRun sid runID = .ok r) :
    e.ownerSID = sid := by
  unfold lookupRuntimeRun at h
  rw [he] at h
  cases hr : s.reservationByRun runID with
  | none =>
    rw [hr] at h
    cases h
  | some =>
    rw [hr] at h
    simp only at h
    split at h
    · cases h
    · rename_i hown
      exact not_not.mp hown

end Store

theorem runID_dated (request : ReserveRequest) (env : Env) : (request.dated env).runID = request.runID := by
  unfold ReserveRequest.dated
  split <;> rfl

section Strangers

variable {i : Call} {s t : Store} {sid runID : String} {e : AuthorizationRow}

section

variable (hop : i.op.ownerCall = some (sid, runID))
include hop

theorem admission_of_ownerCall {request : ReserveRequest}
    {auth : Option RunAuthorization} (hadm : i.admission = some (request, auth)) :
    request.runID = runID ∧ ∃ x, auth = some x ∧ x.ownerSID = sid := by
  obtain ⟨_, _, op⟩ := i
  cases op <;> simp only [Op.ownerCall, Call.admission, reduceCtorEq, Option.some.injEq, Prod.mk.injEq] at hop hadm
  case reserveSharedRun r =>
    obtain ⟨rfl, rfl⟩ := hop
    obtain ⟨rfl, rfl⟩ := hadm
    exact ⟨rfl, _, rfl, rfl⟩
  case reserveRuntime caller payerSID r =>
    obtain ⟨rfl, rfl⟩ := hop
    obtain ⟨rfl, rfl⟩ := hadm
    exact ⟨rfl, _, rfl, rfl⟩

theorem settlement_of_ownerCall {payer runtimeSID : String}
    {request : SettleRequest} (hset : i.settlement = some (payer, runtimeSID, request)) (hv : i.RuntimeNamed) :
    request.runID = runID ∧ runtimeSID = sid ∧ sid ≠ "" := by
  obtain ⟨_, _, op⟩ := i
  cases op <;> simp only [Op.ownerCall, Call.settlement, reduceCtorEq, Option.some.injEq, Prod.mk.injEq] at hop hset
  case settleRuntime caller payerSID r =>
    obtain ⟨rfl, rfl⟩ := hop
    obtain ⟨-, rfl, rfl⟩ := hset
    exact ⟨rfl, rfl, hv _ _ _ rfl⟩

theorem not_administrative : ¬ i.op.Administrative := by
  obtain ⟨_, _, op⟩ := i
  cases op <;> simp [Op.ownerCall, Op.Administrative] at hop ⊢

end

section

variable (hs : Consistent s) (hop : i.op.ownerCall = some (sid, runID)) (he : s.authorizationByRun runID = some e) (hne : e.ownerSID ≠ sid)
include hs hop he hne

theorem Effect.of_stranger (h : Effect i s t) : t = s := by
  cases h with
  | same => rfl
  | ledger _ hadm => exact absurd hadm (not_administrative hop)
  | record _ _ hrec | recover _ _ hrec =>
    rw [hrec] at hop
    cases hop
  | reserve _ request _ _ _ hadm h =>
    obtain ⟨rfl, x, rfl, _⟩ := admission_of_ownerCall hop hadm
    rw [← runID_dated request (i.env 0)] at he
    exact (Store.reserve_owner hs he h).2
  | claim _ _ _ _ _ hcl h =>
    rw [hcl] at hop
    cases hop
    exact absurd (Store.claimRuntime_owner hs he h) hne
  | settle _ _ _ _ _ _ _ hset hv h =>
    rcases hset with hset | hrec
    · obtain ⟨rfl, rfl, hsid⟩ := settlement_of_ownerCall hop hset hv
      exact absurd (Store.settle_owner hsid he h) hne
    · rw [hrec] at hop
      cases hop
  | release _ _ _ hrel =>
    rw [hrel] at hop
    cases hop

theorem Returns.of_stranger {out : Outcome} (h : Returns i out s t) : ∃ err, out = .error err := by
  cases h with
  | error err => exact ⟨err, rfl⟩
  | reserve _ request _ _ _ _ hadm _ _ _ h =>
    obtain ⟨rfl, x, rfl, hx⟩ := admission_of_ownerCall hop hadm
    rw [← runID_dated request (i.env 0)] at he
    exact absurd ((Store.reserve_owner hs he h).1.1.trans hx) hne
  | claim _ _ _ _ _ _ hcl h =>
    rw [hcl] at hop
    cases hop
    exact absurd (Store.claimRuntime_owner hs he h) hne
  | lookup _ _ _ _ hl h =>
    rw [hl] at hop
    cases hop
    exact absurd (Store.lookupRuntimeRun_owner he h) hne
  | settle _ _ _ _ _ _ hset _ _ _ hv h =>
    obtain ⟨rfl, rfl, hsid⟩ := settlement_of_ownerCall hop hset hv
    exact absurd (Store.settle_owner hsid he h) hne
  | release _ _ _ _ hrel =>
    rw [hrel] at hop
    cases hop
  | recover _ _ _ hrec =>
    rw [hrec] at hop
    cases hop
  | done _ _ hadm =>
    rcases hadm with hadm | hrec | ⟨r, hrec⟩
    · exact absurd hadm (not_administrative hop)
    · rw [hrec] at hop
      cases hop
    · rw [hrec] at hop
      cases hop
  | usage _ _ _ _ _ hq | gatewayUsage _ _ _ _ hq | pending _ _ hq =>
    rw [hq] at hop
    cases hop

end

end Strangers

def freshClaim (x : String) : Call × Outcome → Bool
  | (⟨_, _, .reserveRuntime _ _ r⟩, .ok (.reservation v _)) =>
    r.runID = x ∧ v.status = .reserved ∧ v.alreadyAccepted = false
  | _ => false

theorem freshClaim_eq_true {x : String} {i : Call} {out : Outcome} (h : freshClaim x (i, out) = true) :
    ∃ sid payerSID r v replayed, i.op = .reserveRuntime sid payerSID r ∧ r.runID = x ∧
      out = .ok (.reservation v replayed) ∧ v.status = .reserved ∧ v.alreadyAccepted = false := by
  unfold freshClaim at h
  split at h
  · rename_i sid payerSID r v replayed heq
    cases heq
    obtain ⟨h₁, h₂, h₃⟩ := of_decide_eq_true h
    exact ⟨sid, payerSID, r, v, replayed, rfl, h₁, rfl, h₂, h₃⟩
  · cases h

theorem reserve_personal {s t : Store} {a : Authorizer} {request : ReserveRequest} {owner engine : String}
    {v : Reservation × Bool}
    (h : s.reserve a request (some ⟨owner, .personal, engine⟩) = .ok (v, t)) :
    ∃ e, t.authorizationByRun request.runID = some e ∧ e.scope = .personal := by
  cases hr : s.reservationByRun request.runID with
  | some =>
    obtain ⟨-, -, rfl, hnames⟩ := Store.reserve_existing hr h
    obtain ⟨e, he, hn⟩ := hnames _ rfl
    exact ⟨e, he, hn.2.1⟩
  | none =>
    obtain ⟨_, _, _, -, -, -, hauth, rfl⟩ := Store.reserve_new hr h
    generalize hx : some (⟨owner, .personal, engine⟩ : RunAuthorization) = x at hauth
    cases hauth with
    | none => cases hx
    | known _ e he hn =>
      cases hx
      exact ⟨e, he, hn.2.1⟩
    | new _ candidates he =>
      cases hx
      exact ⟨_, Table.find?_insertOrIgnore_new (r := Store.authorizationRow request.runID _ candidates) he, rfl⟩

theorem accept_acceptedAt {s : Store} {runID : String} (ms : ℤ) {a : AuthorizationRow}
    (ha : s.authorizationByRun runID = some a) :
    ∃ a', (s.accept runID ms).authorizationByRun runID = some a' ∧ a'.scope = a.scope ∧
      a'.acceptedAt.isSome := by
  refine ⟨{ a with acceptedAt := some (a.acceptedAt.getD ms) }, ?_, rfl, rfl⟩
  have hrun := Store.runID_of_authorization ha
  unfold Store.authorizationByRun at ha
  unfold Store.accept Store.authorizationByRun
  rw [Table.find?_update, ha, Option.map_some, if_pos hrun]

theorem Returns.fresh {i : Call} {s t : Store} {x : String} {out : Outcome}
    (h : Returns i out s t) (hf : freshClaim x (i, out) = true) :
    (∃ a, t.authorizationByRun x = some a ∧ a.scope = .personal) ∨
    ∃ a a', s.authorizationByRun x = some a ∧ t.authorizationByRun x = some a' ∧ a'.scope = a.scope ∧
      a.acceptedAt = none ∧ a'.acceptedAt.isSome := by
  obtain ⟨_, _, r, v, _, hop, rfl, hout, hst, hfresh⟩ := freshClaim_eq_true hf
  cases h with
  | error | usage _ _ _ _ _ hq | gatewayUsage _ _ _ _ hq | pending _ _ hq | settle | release | recover | done => cases hout
  | reserve _ _ _ _ _ _ hadm _ _ _ h =>
    left
    simp only [Call.admission, hop, Option.some.injEq, Prod.mk.injEq] at hadm
    obtain ⟨rfl, rfl⟩ := hadm
    obtain ⟨e, he, hscope⟩ := reserve_personal h
    rw [runID_dated] at he
    exact ⟨e, he, hscope⟩
  | claim _ _ _ w _ _ hcl h =>
    rw [hop] at hcl
    cases hcl
    cases hout
    generalize hw : some v = w at h
    cases Store.claimRuntime_ok h with
    | unknown => cases hw
    | settled existing _ _ hs =>
      cases hw
      rw [show (existing.reservation).status = existing.status from rfl, hs] at hst
      cases hst
    | accepted _ a hc =>
      cases hw
      obtain ⟨a', ha', hscope, hacc⟩ := accept_acceptedAt ((i.env 0).now 0).unixMilli hc.authorization
      exact .inr ⟨a, a', hc.authorization, ha', hscope, by simpa using hfresh, hacc⟩
  | lookup _ _ _ _ hq => rw [hop] at hq; cases hq

structure GrantedOnce (c : Config Store Call Outcome) (x : String) : Prop where
  unknown : c.store.authorizationByRun x = none → c.returned.countP (freshClaim x) = 0
  shared : ∀ a, c.store.authorizationByRun x = some a → a.scope = .shared →
    c.returned.countP (freshClaim x) ≤ if a.acceptedAt.isSome then 1 else 0

theorem GrantedOnce.later {c d : Config Store Call Outcome} {x : String} (h : GrantedOnce c x)
    (hlater : Later c.store d.store) (hret : d.returned.countP (freshClaim x) = c.returned.countP (freshClaim x)) :
    GrantedOnce d x where
  unknown hnone := by
    rw [hret]
    apply h.unknown
    cases ha : c.store.authorizationByRun x with
    | none => rfl
    | some a =>
      obtain ⟨a', ha', -⟩ := hlater.authorization x a ha
      cases hnone.symm.trans ha'
  shared a ha hscope := by
    rw [hret]
    cases hb : c.store.authorizationByRun x with
    | none =>
      rw [h.unknown hb]
      exact Nat.zero_le _
    | some b =>
      obtain ⟨_, ha', hext⟩ := hlater.authorization x b hb
      cases ha.symm.trans ha'
      refine le_trans (h.shared b hb (hext.scope ▸ hscope)) ?_
      cases hacc : b.acceptedAt with
      | none => exact Nat.zero_le _
      | some ms =>
        rw [hext.acceptedAt ms hacc]

theorem GrantedOnce.reachable {c : Config Store Call Outcome} (hc : system.Reachable c) (x : String) :
    GrantedOnce c x := by
  induction hc with
  | refl => exact ⟨fun _ => rfl, by intro a ha; cases ha⟩
  | @tail c d hc hs ih =>
    have hlater := sequential.rely_step (sequential.holds hc) hs
    rcases sequential.moves (sequential.holds hc) hs with ⟨-, h⟩ | ⟨j, -, -, h⟩ | ⟨j, b, -, hq, h⟩ | ⟨-, h⟩
    · exact ih.later hlater (by rw [h])
    · exact ih.later hlater (by rw [h])
    · by_cases hf : freshClaim x (j, b) = true
      · have hcount : d.returned.countP (freshClaim x) = c.returned.countP (freshClaim x) + 1 := by
          rw [h, List.countP_cons_of_pos hf]
        rcases hq.fresh hf with ⟨a, ha, hscope⟩ | ⟨a, a', ha, ha', hscope, hnone, hacc⟩
        · refine ⟨fun hno => ?_, fun a' ha' hshared => ?_⟩
          · cases ha.symm.trans hno
          · cases ha.symm.trans ha'
            rw [hscope] at hshared
            cases hshared
        · refine ⟨fun hno => ?_, fun a'' ha'' hshared => ?_⟩
          · cases ha'.symm.trans hno
          · cases ha'.symm.trans ha''
            have hzero := ih.shared a ha (hscope ▸ hshared)
            rw [hnone] at hzero
            rw [hcount, if_pos hacc]
            simpa using hzero
      · exact ih.later hlater (by rw [h, List.countP_cons_of_neg hf])
    · exact ih.later hlater (by rw [h])

section Releases

variable {i : Call} {s t : Store} {sid x : String}

theorem Call.plain (h : (∃ sid x, i.op = .releaseSharedRun sid x) ∨ ∃ r, i.op = .recoverSharedRunAuthorization r) :
    i.admission = none ∧ i.settlement = none ∧ ¬ i.op.Administrative := by
  unfold Call.admission Call.settlement
  rcases h with ⟨_, _, hop⟩ | ⟨_, hop⟩ <;> rw [hop] <;> exact ⟨rfl, rfl, id⟩

theorem Effect.of_release (hop : i.op = .releaseSharedRun sid x) (h : Effect i s t) :
    t = s ∨ ∃ r a, s.reservationByRun x = some r ∧ s.authorizationByRun x = some a ∧ r.sid = sid ∧
      a.acceptedAt = none ∧ t.authorizationByRun x = some a ∧
      ∃ r', t.reservationByRun x = some r' ∧ r'.status = .settled := by
  have hkind := Call.plain (.inl ⟨sid, x, hop⟩)
  cases h with
  | same => exact .inl rfl
  | ledger _ hadm => exact absurd hadm hkind.2.2
  | record _ _ hrec | recover _ _ hrec =>
    rw [hop] at hrec
    cases hrec
  | reserve _ _ _ _ _ hadm =>
    rw [hkind.1] at hadm
    cases hadm
  | claim _ _ _ _ _ hcl =>
    rw [hop] at hcl
    cases hcl
  | settle _ _ _ _ _ _ _ hset =>
    rcases hset with hset | hrec
    · rw [hkind.2.1] at hset
      cases hset
    · rw [hop] at hrec
      cases hrec
  | release _ _ _ hrel h =>
    rw [hop] at hrel
    cases hrel
    obtain ⟨r, a, hr, ha, hpay, -, ⟨-, rfl⟩ | ⟨_, hacc, rfl⟩⟩ := Store.cancelUnacceptedSharedRun_ok h
    · exact .inl rfl
    · refine .inr ⟨r, a, hr, ha, hpay, hacc, ha,
        r.settle .zero ((i.env 0).now 0).unix r.settleSource, ?_, rfl⟩
      have hr' : s.reservations.find? x = some r := hr
      unfold Store.reservationByRun
      rw [Table.find?_update, hr', Option.map_some, if_pos (Store.runID_of_reservation hr)]

theorem Returns.of_release (hop : i.op = .releaseSharedRun sid x) {r : ReservationRow}
    (hr : s.reservationByRun x = some r) (hne : r.sid ≠ sid) {out : Outcome} (h : Returns i out s t) :
    ∃ err, out = .error err := by
  have hkind := Call.plain (.inl ⟨sid, x, hop⟩)
  cases h with
  | error err => exact ⟨err, rfl⟩
  | reserve _ _ _ _ _ _ hadm =>
    rw [hkind.1] at hadm
    cases hadm
  | settle _ _ _ _ _ _ hset =>
    rw [hkind.2.1] at hset
    cases hset
  | release _ _ _ _ hrel h =>
    rw [hop] at hrel
    cases hrel
    obtain ⟨_, a, hr', -, hpay, -⟩ := Store.cancelUnacceptedSharedRun_ok h
    cases hr.symm.trans hr'
    exact absurd hpay hne
  | done _ _ hadm =>
    rcases hadm with hadm | hrec | ⟨r, hrec⟩
    · exact absurd hadm hkind.2.2
    · rw [hop] at hrec
      cases hrec
    · rw [hop] at hrec
      cases hrec
  | claim _ _ _ _ _ _ hq | lookup _ _ _ _ hq | usage _ _ _ _ _ hq | gatewayUsage _ _ _ _ hq
  | pending _ _ hq | recover _ _ _ hq =>
    rw [hop] at hq
    cases hq

section

variable {r : SharedRunIdentity} {a : AuthorizationRow} (hop : i.op = .recoverSharedRunAuthorization r)
  (ha : s.authorizationByRun r.runID = some a)
include hop ha

theorem Effect.of_recovery (h : Effect i s t) : t = s := by
  have hkind := Call.plain (.inr ⟨r, hop⟩)
  cases h with
  | same => rfl
  | ledger _ hadm => exact absurd hadm hkind.2.2
  | reserve _ _ _ _ _ hadm =>
    rw [hkind.1] at hadm
    cases hadm
  | settle _ _ _ _ _ _ _ hset =>
    rcases hset with hset | hrec
    · rw [hkind.2.1] at hset
      cases hset
    · rw [hop] at hrec
      cases hrec
  | recover _ _ hrec h =>
    rw [hop] at hrec
    cases hrec
    obtain ⟨y, -, -, ⟨-, rfl⟩ | ⟨-, ⟨_, _, _, rfl⟩ | ⟨hnone, rfl⟩⟩⟩ :=
      Store.recoverSharedRunAuthorization_ok h
    · rfl
    · rfl
    · cases ha.symm.trans hnone
  | record _ _ hq | claim _ _ _ _ _ hq | release _ _ _ hq =>
    rw [hop] at hq
    cases hq

theorem Returns.of_recovery (hne : a.ownerSID ≠ r.ownerSID) {y : ReservationRow} (hy : s.reservationByRun r.runID = some y)
    (hst : y.status = .reserved) {out : Outcome} (h : Returns i out s t) : ∃ err, out = .error err := by
  have hkind := Call.plain (.inr ⟨r, hop⟩)
  cases h with
  | error err => exact ⟨err, rfl⟩
  | reserve _ _ _ _ _ _ hadm =>
    rw [hkind.1] at hadm
    cases hadm
  | settle _ _ _ _ _ _ hset =>
    rw [hkind.2.1] at hset
    cases hset
  | done _ _ hadm =>
    rcases hadm with hadm | hrec | ⟨_, hrec⟩
    · exact absurd hadm hkind.2.2
    · rw [hop] at hrec
      cases hrec
    · rw [hop] at hrec
      cases hrec
  | recover _ _ _ hrec h =>
    rw [hop] at hrec
    cases hrec
    obtain ⟨z, hz, -, ⟨hs, -⟩ | ⟨-, ⟨_, ha', howner, -⟩ | ⟨hnone, -⟩⟩⟩ :=
      Store.recoverSharedRunAuthorization_ok h
    · cases hy.symm.trans hz
      rw [hst] at hs
      cases hs
    · cases ha.symm.trans ha'
      exact absurd howner hne
    · cases ha.symm.trans hnone
  | claim _ _ _ _ _ _ hq | lookup _ _ _ _ hq | usage _ _ _ _ _ hq | gatewayUsage _ _ _ _ hq
  | pending _ _ hq | release _ _ _ _ hq =>
    rw [hop] at hq
    cases hq

end

end Releases

def Refused (i : Call) (c d : Config Store Call Outcome) : Prop :=
  d.store = c.store ∧ ∀ out, d.returned = (i, out) :: c.returned → ∃ err, out = .error err

/-- Identity, authority and acceptance of runs, over every interleaving of the calls. -/
theorem shared_run_protocol {c : Config Store Call Outcome} (hc : system.Reachable c) :
    -- Identity.
    (∀ d x r a, system.Run c d → c.store.reservationByRun x = some r →
      c.store.authorizationByRun x = some a → ∃ r' a', d.store.reservationByRun x = some r' ∧
        d.store.authorizationByRun x = some a' ∧ a'.ownerSID = a.ownerSID ∧ a'.scope = a.scope ∧
        a'.engine = a.engine ∧ r'.sid = r.sid ∧ r'.modelID = r.modelID ∧
        r'.reservedUnits = r.reservedUnits) ∧
    -- Authority.
    (∀ d i sid x a, system.Advances i c d → i.op.ownerCall = some (sid, x) →
      c.store.authorizationByRun x = some a → a.ownerSID ≠ sid → Refused i c d) ∧
    (∀ d i sid x r, system.Advances i c d → i.op = .releaseSharedRun sid x →
      c.store.reservationByRun x = some r → r.sid ≠ sid → Refused i c d) ∧
    (∀ d i r a, system.Advances i c d → i.op = .recoverSharedRunAuthorization r →
      c.store.authorizationByRun r.runID = some a → a.ownerSID ≠ r.ownerSID → d.store = c.store ∧
        ((∃ y, c.store.reservationByRun r.runID = some y ∧ y.status = .reserved) → Refused i c d)) ∧
    -- Acceptance.
    (∀ x a, c.store.authorizationByRun x = some a → a.scope = .shared →
      c.returned.countP (freshClaim x) ≤ 1) ∧
    (∀ d e i sid x r r', system.Advances i c d → i.op = .releaseSharedRun sid x →
      c.store.reservationByRun x = some r → r.status = .reserved → d.store.reservationByRun x = some r' →
      r'.status = .settled → system.Run d e → ∃ a, e.store.authorizationByRun x = some a ∧
        a.acceptedAt = none) ∧
    (∀ d i sid x a, system.Advances i c d → i.op = .releaseSharedRun sid x →
      c.store.authorizationByRun x = some a → a.acceptedAt.isSome → d.store = c.store) := by
  have hs := Consistent.reachable hc
  have hmove {i : Call} {d : Config Store Call Outcome} (h : system.Advances i c d) :=
    Sequential.advances (sequential.holds hc) h
  refine ⟨?_, ?_, ?_, ?_, ?_, ?_, ?_⟩
  · intro d x r a hd hr ha
    have hlater := sequential.rely_run hc hd
    obtain ⟨r', hr', hsame, -⟩ := hlater.reservation x r hr
    obtain ⟨a', ha', hext⟩ := hlater.authorization x a ha
    exact ⟨r', a', hr', ha', hext.ownerSID, hext.scope, hext.engine, hsame.sid, hsame.modelID,
      hsame.reservedUnits⟩
  · intro d i sid x a hadv hop ha hne
    obtain ⟨heff, hret⟩ := hmove hadv
    exact ⟨heff.of_stranger hs hop ha hne, fun out hout => (hret out hout).of_stranger hs hop ha hne⟩
  · intro d i sid x r hadv hop hr hne
    obtain ⟨heff, hret⟩ := hmove hadv
    refine ⟨?_, fun out hout => (hret out hout).of_release hop hr hne⟩
    rcases heff.of_release hop with h | ⟨r', a, hr', -, hpay, -⟩
    · exact h
    · cases hr.symm.trans hr'
      exact absurd hpay hne
  · intro d i r a hadv hop ha hne
    obtain ⟨heff, hret⟩ := hmove hadv
    have hsame := heff.of_recovery hop ha
    refine ⟨hsame, ?_⟩
    rintro ⟨y, hy, hst⟩
    exact ⟨hsame, fun out hout => (hret out hout).of_recovery hop ha hne hy hst⟩
  · intro x a ha hscope
    have hle := (GrantedOnce.reachable hc x).shared a ha hscope
    split at hle <;> omega
  · intro d e i sid x r r' hadv hop hr hst hr' hst' he
    obtain ⟨heff, -⟩ := hmove hadv
    rcases heff.of_release hop with h | ⟨y, a, -, -, -, hacc, ha, -⟩
    · rw [h, hr] at hr'
      cases hr'
      rw [hst] at hst'
      cases hst'
    · have hreach : system.Reachable d := hc.run (Relation.ReflTransGen.single hadv.1)
      refine ⟨a, ?_, hacc⟩
      rw [(sequential.rely_run hreach he).settled x r' hr' hst', ha]
  · intro d i _ x a hadv hop ha hacc
    obtain ⟨heff, -⟩ := hmove hadv
    rcases heff.of_release hop with h | ⟨y, _, _, ha', -, hnone, -⟩
    · exact h
    · cases ha.symm.trans ha'
      rw [hnone] at hacc
      cases hacc

namespace PayerRelease

def setBudget : Call := ⟨0, fun _ => .still ⟨0⟩, .setBudget ⟨"S-1-5", "model", "daily", 100⟩⟩

def reserve : Call := ⟨1, fun _ => .still ⟨0⟩, .reserveSharedRun ⟨"run", "S-1-1", "S-1-5", "model", "codex", 10⟩⟩

def release : Call := ⟨2, fun _ => .still ⟨0⟩, .releaseSharedRun "S-1-5" "run"⟩

def calls : List Call := [setBudget, reserve]

end PayerRelease

/-- The payer of a shared run releases it, although the run's owner is someone else. -/
theorem payer_releases : ¬ ∀ c d : Config Store Call Outcome, system.Reachable c → ∀ i, system.Step c d →
    ∀ sid x a out, (i.op.ownerCall = some (sid, x) ∨ i.op = .releaseSharedRun sid x ∨
      ∃ r, i.op = .recoverSharedRunAuthorization r ∧ r.ownerSID = sid ∧ r.runID = x) →
    c.store.authorizationByRun x = some a → a.ownerSID ≠ sid → d.returned = (i, out) :: c.returned →
      d.store = c.store ∧ ∃ err, out = .error err := by
  intro hall
  have hp : PayerRelease.release.prog.Single := Prog.single_transaction _
  obtain ⟨c, d, hc, hstore, hs, _, hret⟩ := last_call PayerRelease.calls PayerRelease.release
    (by decide) (by decide) hp
  have hauth : ((storeAfter PayerRelease.calls).authorizationByRun "run").map AuthorizationRow.ownerSID =
      some "S-1-1" := by decide
  obtain ⟨a, ha, howner⟩ := Option.map_eq_some_iff.mp hauth
  rw [← hstore] at ha
  have hne : a.ownerSID ≠ "S-1-5" := by
    rw [howner]
    decide
  obtain ⟨-, _, herr⟩ := hall c d hc _ hs "S-1-5" "run" a _ (.inr (.inl rfl)) ha hne hret
  have hdone : (PayerRelease.release.prog.run (storeAfter PayerRelease.calls)).1 = .ok .done := rfl
  cases herr.symm.trans hdone

theorem shared_run_protocol_accepted : ∃ c : Config Store Call Outcome,
    c.store = storeAfter PayerRelease.calls ∧ ∀ x a, c.store.authorizationByRun x = some a →
      a.scope = .shared → c.returned.countP (freshClaim x) ≤ 1 := by
  obtain ⟨_, hreach⟩ := reachable_calls PayerRelease.calls (by decide)
  exact ⟨_, rfl, (shared_run_protocol hreach).2.2.2.2.1⟩

end WorkAgent.Quota
