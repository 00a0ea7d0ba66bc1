import WorkAgent.Quota.RuntimeAnswers

namespace WorkAgent.Quota

open Library

namespace Store

variable {s t : Store}

def OwnedBy (s : Store) (sid x : String) : Prop :=
  ∀ r, s.reservationByRun x = some r →
    ∃ a, s.authorizationByRun x = some a ∧ a.ownerSID = sid ∧ a.scope = .personal

variable {sid : String}

theorem OwnedBy.later {x : String} (h : s.OwnedBy sid x) (hlater : Later s t)
    (hx : ∃ r, s.reservationByRun x = some r) : t.OwnedBy sid x := by
  intro r _
  obtain ⟨r₀, hr₀⟩ := hx
  obtain ⟨a, ha, howner, hscope⟩ := h r₀ hr₀
  obtain ⟨a', ha', hext⟩ := hlater.authorization x a ha
  exact ⟨a', ha', hext.ownerSID.trans howner, hext.scope.trans hscope⟩

theorem reserve_ownedBy {a : Authorizer} {request : ReserveRequest} {engine : String}
    {v : Reservation × Bool} (h : s.reserve a request (some ⟨sid, .personal, engine⟩) = .ok (v, t)) :
    t.OwnedBy sid request.runID := by
  intro r _
  cases hr : s.reservationByRun request.runID with
  | some =>
    obtain ⟨-, -, rfl, hnames⟩ := reserve_existing hr h
    obtain ⟨e, he, howner, hscope, -⟩ := hnames _ rfl
    exact ⟨e, he, howner, hscope⟩
  | none =>
    obtain ⟨_, _, _, -, -, -, hauth, rfl⟩ := reserve_new hr h
    generalize hx : some (⟨sid, .personal, engine⟩ : RunAuthorization) = x at hauth
    cases hauth with
    | none => cases hx
    | known _ e he hn =>
      cases hx
      exact ⟨e, he, hn.1, hn.2.1⟩
    | new _ candidates he =>
      cases hx
      exact ⟨_, Table.find?_insertOrIgnore_new (r := authorizationRow request.runID _ candidates) he, rfl, rfl⟩

variable {env : Env} {r : ReservationRow} {actual : Units}

theorem settleNow_found :
    s.settleNow env r actual ≠ .error .reservationNotFound := by
  intro h
  unfold settleNow at h
  generalize s.settleAmount env r actual = x at h
  obtain ⟨⟨amount, _⟩, _⟩ := x
  simp only at h
  cases hu : Units.check amount with
  | none =>
    rw [hu] at h
    cases h
  | some =>
    rw [hu] at h
    simp only at h
    split at h <;> cases h

theorem settleReserved_found {runtimeSID : String} :
    s.settleReserved env runtimeSID r actual ≠ .error .reservationNotFound := by
  intro h
  rw [settleReserved_eq] at h
  split at h
  · cases h
  · cases hnow : ((s.retained env runtimeSID r actual).awaiting env r).settleNow env r
        (s.frozenUnits env runtimeSID r actual) with
    | ok u =>
      rw [hnow] at h
      cases h
    | error e =>
      rw [hnow] at h
      cases h
      exact settleNow_found hnow

theorem replaySettlement_found {request : SettleRequest} :
    s.replaySettlement r request ≠ .error .reservationNotFound := by
  intro h
  unfold replaySettlement at h
  split at h
  · cases h
  · split at h <;> cases h

theorem settle_found {runID : String}
    (howned : s.OwnedBy sid runID) (h : s.settle env "" sid runID actual = .error .reservationNotFound) :
    s.reservationByRun runID = none := by
  cases hr : s.reservationByRun runID with
  | none => rfl
  | some r =>
    exfalso
    obtain ⟨a, ha, howner, hscope⟩ := howned r hr
    have hmay : s.MaySettle "" sid r := by
      refine ⟨fun _ => ⟨a, ?_, howner, ?_⟩, fun hne => absurd rfl hne⟩
      · rw [runID_of_reservation hr]
        exact ha
      · intro hshared
        rw [hscope] at hshared
        cases hshared
    have hauth : s.authorizeSettlement "" sid r = .ok () := authorizeSettlement_ok.mpr hmay
    unfold settle at h
    simp only [hr, hauth] at h
    cases hst : r.status with
    | reserved =>
      rw [hst] at h
      exact settleReserved_found h
    | settled =>
      rw [hst] at h
      cases hreplay : s.replaySettlement r ⟨runID, actual.val⟩ with
      | ok =>
        change (s.replaySettlement r ⟨runID, actual.val⟩ >>= fun _ =>
          (pure (.ok (), s) : Except QuotaError (Except QuotaError Unit × Store))) =
          .error .reservationNotFound at h
        rw [hreplay] at h
        cases h
      | error =>
        change (s.replaySettlement r ⟨runID, actual.val⟩ >>= fun _ =>
          (pure (.ok (), s) : Except QuotaError (Except QuotaError Unit × Store))) =
          .error .reservationNotFound at h
        rw [hreplay] at h
        cases h
        exact replaySettlement_found hreplay

end Store

theorem Effect.new_run {i : Call} {s t : Store} (h : Effect i s t) {x : String}
    (hnone : s.reservationByRun x = none) {r : ReservationRow} (hr : t.reservationByRun x = some r) :
    ∃ a request auth v, i.admission = some (request, auth) ∧ request.runID = x ∧
      s.reserve a (request.dated (i.env 0)) auth = .ok (v, t) := by
  have hsame (u : Store) (hu : u.reservations = s.reservations) (hx : u.reservationByRun x = some r) :
      False := by
    unfold Store.reservationByRun at hx hnone
    rw [hu, hnone] at hx
    cases hx
  cases h with
  | same => exact (hsame s rfl hr).elim
  | ledger _ _ hres => exact (hsame t hres hr).elim
  | record => exact (hsame _ rfl hr).elim
  | reserve a request auth v _ hadm h =>
    by_cases hx : request.runID = x
    · exact ⟨a, request, auth, v, hadm, hx, h⟩
    · exfalso
      cases hrow : s.reservationByRun (request.dated (i.env 0)).runID with
      | some =>
        obtain ⟨-, -, rfl, -⟩ := Store.reserve_existing hrow h
        exact hsame t rfl hr
      | none =>
        obtain ⟨period, units, _, -, -, -, -, rfl⟩ := Store.reserve_new hrow h
        have hne : (Store.reservationRow (request.dated (i.env 0)) period units).runID ≠ x := by
          rw [show (Store.reservationRow (request.dated (i.env 0)) period units).runID =
            (request.dated (i.env 0)).runID from rfl, runID_dated]
          exact hx
        have hr' : (s.reservations.insertOrIgnore
            (Store.reservationRow (request.dated (i.env 0)) period units)).find? x = some r := hr
        rw [Table.find?_insertOrIgnore_ne hne] at hr'
        exact hsame s rfl hr'
  | claim _ _ _ _ _ _ h =>
    cases Store.claimRuntime_ok h with
    | unknown | settled => exact (hsame s rfl hr).elim
    | accepted => exact (hsame _ rfl hr).elim
  | settle env _ runtimeSID _ actual _ _ _ _ h =>
    exfalso
    obtain ⟨y, hy, -, hset⟩ := Store.settle_ok h
    obtain hrun := Store.runID_of_reservation hy
    cases hset with
    | replay => exact hsame s rfl hr
    | pending =>
      refine hsame _ ?_ hr
      rw [Store.awaiting_reservations, Store.retained_reservations]
    | closed _ hs hc =>
      have hy' : ((s.retained env runtimeSID y actual).awaiting env y).reservationByRun y.runID = some y := by
        unfold Store.reservationByRun
        rw [Store.awaiting_reservations, Store.retained_reservations, hrun]
        exact hy
      obtain ⟨_, _, _, _, hclosed⟩ := hc.closed hy' hs
      by_cases hx : x = y.runID
      · rw [hx, hrun, hy] at hnone
        cases hnone
      · rw [hclosed.others x hx] at hr
        refine hsame _ ?_ hr
        rw [Store.awaiting_reservations, Store.retained_reservations]
  | release _ _ _ _ h =>
    exfalso
    obtain ⟨y, a, -, -, -, -, ⟨-, rfl⟩ | ⟨-, -, rfl⟩⟩ := Store.cancelUnacceptedSharedRun_ok h
    · exact hsame t rfl hr
    · unfold Store.reservationByRun at hr hnone
      rw [Table.find?_update, hnone] at hr
      cases hr
  | recover _ _ _ h =>
    exfalso
    obtain ⟨y, -, -, ⟨-, rfl⟩ | ⟨-, ⟨_, _, _, rfl⟩ | ⟨_, rfl⟩⟩⟩ := Store.recoverSharedRunAuthorization_ok h
    · exact hsame t rfl hr
    · exact hsame t rfl hr
    · exact hsame _ rfl hr

def Refuses (i : Call) (out : Outcome) (s _ : Store) : Prop :=
  ∀ sid payerSID r, i.op = .settleRuntime sid payerSID r → out = .error .reservationNotFound →
    ∃ env actual, s.settle env "" sid r.runID actual = .error .reservationNotFound

theorem sound_refuses (i : Call) (s : Store) : Sound Holding Later (Effect i) (Refuses i) i.prog s s := by
  have hvacuous (h : ∀ sid payerSID r, i.op ≠ .settleRuntime sid payerSID r) :
      Sound Holding Later (Effect i) (Refuses i) i.prog s s := by
    apply (sound_call i s).weaken
    intro _ u v _ sid payerSID r hop
    exact absurd hop (h sid payerSID r)
  obtain ⟨_, env, op⟩ := i
  cases op with
  | settleRuntime sid _ request =>
    unfold Call.prog settleRuntime
    simp only
    split
    · rename_i e hv
      intro _ _ _ _ hout
      cases hout
      unfold validateSID at hv
      split at hv <;> cases hv
    · rename_i hv
      unfold settleAs
      split
      · intro _ _ _ _ hout
        cases hout
      · split
        · intro _ _ _ _ hout
          cases hout
        · rename_i actual _
          refine Sound.andThen (Q := fun result _ _ => result ≠ .error .reservationNotFound) ?_ ?_
          · apply Sound.transaction
            · intro u result v _ _ hb
              refine ⟨trivial, ?_, ?_⟩
              · refine .settle (env 0) "" sid request actual result v (.inl rfl) ?_ hb
                rintro _ _ _ ⟨⟩
                exact validateSID_ne hv
              · rintro rfl
                obtain ⟨_, _, _, hset⟩ := Store.settle_ok hb
                cases hset
            · intro u e _ _ hb
              refine ⟨.same, ?_⟩
              intro _ _ _ hop hout
              cases hop
              cases hout
              exact ⟨env 0, actual, hb⟩
          · rintro result u v hne _ _ _ _ hout
            cases result with
            | ok => cases hout
            | error =>
              cases hout
              exact absurd rfl hne
  | _ => exact hvacuous (by rintro _ _ _ ⟨⟩)

theorem refusing : Sequential system Holding Later Effect Refuses :=
  { sequential with prog := fun _ _ i s _ _ _ => sound_refuses i s }

theorem refused {c d : Config Store Call Outcome} (hc : system.Reachable c) (hs : system.Step c d)
    {i : Call} {sid payerSID : String} {r : SettleRequest} (hop : i.op = .settleRuntime sid payerSID r)
    (howned : c.store.OwnedBy sid r.runID)
    (hi : (i, .error .reservationNotFound) ∈ d.returned) (hnot : (i, .error .reservationNotFound) ∉ c.returned) :
    c.store.reservationByRun r.runID = none := by
  have hfound (hq : Refuses i (.error .reservationNotFound) c.store d.store) :
      c.store.reservationByRun r.runID = none := by
    obtain ⟨_, _, h⟩ := hq sid payerSID r hop rfl
    exact Store.settle_found howned h
  rcases refusing.moves (refusing.holds hc) hs with ⟨-, hr⟩ | ⟨j, -, -, hr⟩ | ⟨j, b, -, hq, hr⟩ | ⟨-, hr⟩
  · exact absurd (hr ▸ hi) hnot
  · exact absurd (hr ▸ hi) hnot
  · rw [hr] at hi
    rcases List.mem_cons.mp hi with heq | hi
    · cases heq
      exact hfound hq
    · exact absurd hi hnot
  · exact absurd (hr ▸ hi) hnot

end WorkAgent.Quota
