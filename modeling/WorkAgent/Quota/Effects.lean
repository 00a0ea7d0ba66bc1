import WorkAgent.Quota.SettlementSteps

namespace WorkAgent.Quota

open Library Sound

def Call.admission (c : Call) : Option (ReserveRequest × Option RunAuthorization) :=
  match c.op with
  | .reserve request => some (request, none)
  | .reserveForSID _ request => some (request, none)
  | .reserveSpeech sid runID estimatedSeconds =>
    some (⟨runID, sid, speechTranscriptionModelID, estimatedSeconds, .zero, ""⟩, none)
  | .reserveSharedRun r =>
    some (⟨r.runID, r.payerSID, r.modelID, r.estimatedUnits, .zero, r.engine⟩,
      some ⟨r.ownerSID, .shared, r.engine⟩)
  | .reserveRuntime sid _ r => some ({ r with sid := sid }, some ⟨sid, .personal, r.engine⟩)
  | _ => none

def Call.settlement (c : Call) : Option (String × String × SettleRequest) :=
  match c.op with
  | .settle request => some ("", "", request)
  | .settleForSID sid request => some (sid, "", request)
  | .settleSpeech runID actualSeconds => some ("", "", ⟨runID, actualSeconds⟩)
  | .settleRuntime sid _ request => some ("", sid, request)
  | _ => none

def Call.PayerUnnamed (c : Call) : Prop := ∀ sid payerSID r, c.op = .reserveRuntime sid payerSID r → payerSID = ""

def Call.RuntimeNamed (c : Call) : Prop := ∀ sid payerSID r, c.op = .settleRuntime sid payerSID r → sid ≠ ""

variable {sid : String}

theorem validateSID_ne (h : validateSID sid = .ok ()) : sid ≠ "" := by
  rintro rfl
  cases h

def Op.Administrative : Op → Prop
  | .setBudget _ | .ensureBudget _ | .adjustBudget .. | .syncDollarBilling _ => True
  | .useGatewayAccounting | .markGatewayDrained _ => True
  | _ => False

inductive Effect (i : Call) (s : Store) : Store → Prop
  | same : Effect i s s
  | ledger (t : Store) (hop : i.op.Administrative) (hr : t.reservations = s.reservations)
      (ha : t.authorizations = s.authorizations) (hg : t.gatewayUsage = s.gatewayUsage)
      (hm : s.gatewayAccounting = true → t.gatewayAccounting = true) : Effect i s t
  | record (r : GatewayUsageRecord) (g : GatewayUsageRow) (hop : i.op = .recordGatewayUsage r)
      (hg : g.matchedRunID = none) :
      Effect i s { s with gatewayUsage := s.gatewayUsage.insertOrIgnore g }
  | reserve (a : Authorizer) (request : ReserveRequest) (auth : Option RunAuthorization)
      (v : Reservation × Bool) (t : Store) (hop : i.admission = some (request, auth))
      (h : s.reserve a (request.dated (i.env 0)) auth = .ok (v, t)) : Effect i s t
  | claim (sid payerSID : String) (r : ReserveRequest) (v : Option Reservation) (t : Store)
      (hop : i.op = .reserveRuntime sid payerSID r)
      (h : s.claimRuntime (i.env 0) sid payerSID r = .ok (v, t)) : Effect i s t
  | settle (env : Env) (sid runtimeSID : String) (request : SettleRequest) (actual : Units)
      (result : Except QuotaError Unit) (t : Store)
      (hop : i.settlement = some (sid, runtimeSID, request) ∨ i.op = .reconcileSettlements)
      (hv : i.RuntimeNamed)
      (h : s.settle env sid runtimeSID request.runID actual = .ok (result, t)) : Effect i s t
  | release (sid runID : String) (t : Store) (hop : i.op = .releaseSharedRun sid runID)
      (h : s.cancelUnacceptedSharedRun (i.env 0) sid runID = .ok t) : Effect i s t
  | recover (r : SharedRunIdentity) (t : Store) (hop : i.op = .recoverSharedRunAuthorization r)
      (h : s.recoverSharedRunAuthorization (i.env 0) r = .ok t) : Effect i s t

variable {i : Call} {s t : Store}

theorem Effect.later (h : Effect i s t) : Later s t := by
  cases h with
  | same => exact .refl s
  | ledger _ _ hr ha hg hm => exact .of_eq hr ha hg hm
  | record _ g => exact .insert_usage s g
  | reserve _ _ _ _ _ _ h => exact Store.reserve_later h
  | claim _ _ _ _ _ _ h => exact Store.claimRuntime_later h
  | settle _ _ _ _ _ _ _ _ _ h => exact Store.settle_later h
  | release _ _ _ _ h => exact Store.cancelUnacceptedSharedRun_later h
  | recover _ _ _ h => exact Store.recoverSharedRunAuthorization_later h

inductive Returns (i : Call) : Outcome → Store → Store → Prop
  | error (e : QuotaError) (s t : Store) : Returns i (.error e) s t
  | reserve (a : Authorizer) (request : ReserveRequest) (auth : Option RunAuthorization)
      (v : Reservation × Bool) (s t : Store) (hop : i.admission = some (request, auth))
      (hp : i.PayerUnnamed) (ha : (i.env 0).authorizer = some a) (hv : validateReserve request = .ok ())
      (h : s.reserve a (request.dated (i.env 0)) auth = .ok (v, t)) :
      Returns i (.ok (.reservation v.1 v.2)) s t
  | claim (sid payerSID : String) (r : ReserveRequest) (v : Reservation) (s t : Store)
      (hop : i.op = .reserveRuntime sid payerSID r)
      (h : s.claimRuntime (i.env 0) sid payerSID r = .ok (some v, t)) :
      Returns i (.ok (.reservation v true)) s t
  | lookup (sid runID : String) (r : Reservation) (s : Store) (hop : i.op = .lookupRuntimeRun sid runID)
      (h : s.lookupRuntimeRun sid runID = .ok r) : Returns i (.ok (.reservation r true)) s s
  | settle (sid runtimeSID : String) (request : SettleRequest) (actual : Units) (s t : Store)
      (hop : i.settlement = some (sid, runtimeSID, request)) (hu : actual.val = request.actualUnits)
      (hp : ∀ env, (i.again env).prog = settleAs (env 0) sid runtimeSID request)
      (hb : isBlank request.runID = false) (hv : i.RuntimeNamed)
      (h : s.settle (i.env 0) sid runtimeSID request.runID actual = .ok (.ok (), t)) :
      Returns i (.ok .done) s t
  | release (sid runID : String) (s t : Store) (hop : i.op = .releaseSharedRun sid runID)
      (h : s.cancelUnacceptedSharedRun (i.env 0) sid runID = .ok t) : Returns i (.ok .done) s t
  | recover (r : SharedRunIdentity) (s t : Store) (hop : i.op = .recoverSharedRunAuthorization r)
      (h : s.recoverSharedRunAuthorization (i.env 0) r = .ok t) : Returns i (.ok .done) s t
  | done (s t : Store)
      (hop : i.op.Administrative ∨ i.op = .reconcileSettlements ∨ ∃ r, i.op = .recordGatewayUsage r) :
      Returns i (.ok .done) s t
  | usage (sid modelID : String) (time : Time) (u : Usage) (s : Store)
      (hop : i.op = .usage sid modelID time) : Returns i (.ok (.usage u)) s s
  | gatewayUsage (sid : String) (time : Time) (u : Store.GatewayUsage) (s : Store)
      (hop : i.op = .gatewayUsage sid time) : Returns i (.ok (.gatewayUsage u)) s s
  | pending (runs : List PendingQuotaRun) (s : Store) (hop : i.op = .pendingSharedRuns) :
      Returns i (.ok (.pending runs)) s s

theorem Returns.granted {r : Reservation}
    (h : Returns i (.ok (.reservation r false)) s t) :
    ∃ a request auth, i.admission = some (request, auth) ∧ (i.env 0).authorizer = some a ∧
      s.reserve a (request.dated (i.env 0)) auth = .ok ((r, false), t) := by
  generalize hout : (Except.ok (.reservation r false) : Outcome) = out at h
  cases h with
  | reserve a request auth _ _ _ hop _ ha _ h =>
    simp only [Except.ok.injEq, Answer.reservation.injEq] at hout
    obtain ⟨rfl, hfresh⟩ := hout
    refine ⟨a, request, auth, hop, ha, ?_⟩
    rw [hfresh]
    exact h
  | _ => cases hout

variable {runtimeSID : String} {request : SettleRequest}

theorem Returns.settled (h : Returns i (.ok .done) s t)
    (hset : i.settlement = some (sid, runtimeSID, request)) :
    ∃ actual : Units, actual.val = request.actualUnits ∧ isBlank request.runID = false ∧
      (∀ env, (i.again env).prog = settleAs (env 0) sid runtimeSID request) ∧
      s.settle (i.env 0) sid runtimeSID request.runID actual = .ok (.ok (), t) := by
  generalize hout : (Except.ok .done : Outcome) = out at h
  cases h with
  | settle _ _ _ actual _ _ hop hu hp hb _ h =>
    cases hset.symm.trans hop
    exact ⟨actual, hu, hb, hp, h⟩
  | release _ _ _ _ hop | recover _ _ _ hop => simp [Call.settlement, hop] at hset
  | done _ _ hop =>
    obtain ⟨_, _, op⟩ := i
    cases op <;> simp [Call.settlement, Op.Administrative] at hset hop
  | _ => cases hout

abbrev Holding (_ : Store) : Prop := True

variable {s₀ : Store}

theorem sound_write {body : Store → Except QuotaError Store}
    (h : ∀ s t, body s = .ok t → Effect i s t ∧ Returns i (.ok .done) s t) :
    Sound Holding Later (Effect i) (Returns i) (write body) s₀ s := by
  apply transaction
  · intro t a u _ _ hb
    obtain ⟨v, hv, hau⟩ := map_eq_ok.mp hb
    cases hau
    exact ⟨trivial, h t _ hv⟩
  · intro t e _ _ _
    exact ⟨.same, .error e t t⟩

theorem sound_query {f : Store → Except QuotaError Answer}
    (h : ∀ s a, f s = .ok a → Returns i (.ok a) s s) :
    Sound Holding Later (Effect i) (Returns i) (query f) s₀ s := by
  apply transaction
  · intro t a u _ _ hb
    obtain ⟨v, hv, hau⟩ := map_eq_ok.mp hb
    cases hau
    exact ⟨trivial, .same, h t _ hv⟩
  · intro t e _ _ _
    exact ⟨.same, .error e t t⟩

theorem sound_reserveAuthorized {request : ReserveRequest} {auth : Option RunAuthorization} (hop : i.admission = some (request, auth)) (hp : i.PayerUnnamed) :
    Sound Holding Later (Effect i) (Returns i) (reserveAuthorized (i.env 0) request auth) s₀ s := by
  unfold reserveAuthorized
  cases hv : validateReserve request with
  | error e => exact .error e s₀ s
  | ok u =>
    cases ha : (i.env 0).authorizer with
    | none => exact .error _ s₀ s
    | some a =>
      apply transaction
      · intro t x u _ _ hb
        obtain ⟨⟨v, w⟩, hw, hau⟩ := map_eq_ok.mp hb
        cases hau
        exact ⟨trivial, .reserve a request auth v w hop hw, .reserve a request auth v t w hop hp ha hv hw⟩
      · intro t e _ _ _
        exact ⟨.same, .error e t t⟩

theorem sound_reserveRuntime {payerSID : String} {r : ReserveRequest}
    (hop : i.op = .reserveRuntime sid payerSID r) :
    Sound Holding Later (Effect i) (Returns i) (reserveRuntime (i.env 0) sid payerSID r) s₀ s := by
  unfold reserveRuntime
  cases hv : validateSID sid with
  | error e => exact .error e s₀ s
  | ok u =>
    refine andThen (Q := fun a s t => (∀ v, a = some v → Returns i (.ok (.reservation v true)) s t) ∧
      (a = none → payerSID = "")) ?_ ?_
    · apply transaction
      · intro t a u _ _ hb
        refine ⟨trivial, .claim sid payerSID r a u hop hb, ?_⟩
        constructor
        · rintro v rfl
          exact .claim sid payerSID r v t u hop hb
        · rintro rfl
          exact Store.claimRuntime_none hb
      · intro t e _ _ _
        exact ⟨.same, .error e t t⟩
    · intro a _ t hq
      cases a with
      | some v => exact hq.1 v rfl
      | none =>
        apply sound_reserveAuthorized
        · simp [Call.admission, hop]
        · intro _ _ _ h
          rw [hop] at h
          cases h
          exact hq.2 rfl

theorem sound_settleAs {env : Env}
    {Q : Outcome → Store → Store → Prop}
    (hop : i.settlement = some (sid, runtimeSID, request) ∨ i.op = .reconcileSettlements)
    (hv : i.RuntimeNamed) (herr : ∀ e s t, Q (.error e) s t)
    (hok : ∀ s t actual, isBlank request.runID = false → actual.val = request.actualUnits →
      s.settle env sid runtimeSID request.runID actual = .ok (.ok (), t) → Q (.ok .done) s t) :
    Sound Holding Later (Effect i) Q (settleAs env sid runtimeSID request) s₀ s := by
  unfold settleAs
  split
  · exact herr _ _ _
  · rename_i hblank
    cases hu : Units.check request.actualUnits with
    | none => exact herr _ _ _
    | some actual =>
      have hval := Units.check_eq_some.mp hu
      refine andThen (Q := fun a s t => Q (a.map (fun _ => .done)) s t) ?_ ?_
      rotate_left
      · intro a _ t hq
        exact hq
      apply transaction
      · intro t a u _ _ hb
        refine ⟨trivial, .settle env sid runtimeSID request actual a u hop hv hb, ?_⟩
        cases a with
        | error e => exact herr e t u
        | ok => exact hok t u actual (by simpa using hblank) hval hb
      · intro t e _ _ _
        exact ⟨.same, herr e t t⟩

theorem sound_settlement
    (hop : i.settlement = some (sid, runtimeSID, request)) (hv : i.RuntimeNamed)
    (hp : ∀ env, (i.again env).prog = settleAs (env 0) sid runtimeSID request) :
    Sound Holding Later (Effect i) (Returns i) (settleAs (i.env 0) sid runtimeSID request) s₀ s := by
  apply sound_settleAs (.inl hop) hv
  · intro e s t
    exact .error e s t
  · intro s t actual hb hu h
    exact .settle sid runtimeSID request actual s t hop hu hp hb hv h

theorem addFailure_done {failures : Outcome} (hf : failures = .ok .done ∨ ∃ e, failures = .error e)
    (result : Outcome) :
    addFailure failures result = .ok .done ∨ ∃ e, addFailure failures result = .error e := by
  unfold addFailure
  split
  · exact hf
  · split
    · exact hf
    · split
      · exact .inr ⟨_, rfl⟩
      · exact .inr ⟨_, rfl⟩

theorem sound_reconcile (hop : i.op = .reconcileSettlements)
    (pending : List Store.PendingSettlement) (failures : Outcome)
    (hf : failures = .ok .done ∨ ∃ e, failures = .error e) (s₀ s : Store) :
    Sound Holding Later (Effect i) (Returns i) (reconcile i.env pending failures) s₀ s := by
  have hv : i.RuntimeNamed := by
    intro _ _ r hr
    rw [hop] at hr
    cases hr
  induction pending generalizing failures s₀ s with
  | nil =>
    rcases hf with rfl | ⟨e, rfl⟩
    · exact .done s₀ s (.inr (.inl hop))
    · exact .error e s₀ s
  | cons _ _ ih =>
    refine bind (Q := fun _ _ _ => True) ?_ ?_
    · unfold settleRuntime
      split
      · trivial
      · exact sound_settleAs (.inr hop) hv (fun _ _ _ => trivial) (fun _ _ _ _ _ _ => trivial)
    · intro a t₀ t _
      exact ih _ (addFailure_done hf a) t₀ t

theorem sound_call (i : Call) (s : Store) :
    Sound Holding Later (Effect i) (Returns i) i.prog s s := by
  unfold Call.prog
  obtain ⟨_, _, op⟩ := i
  cases op with
  | setBudget =>
    apply sound_write
    intro s t h
    obtain ⟨⟨period, limit⟩, -, h⟩ := bind_eq_ok.mp h
    cases h
    exact ⟨.ledger _ trivial rfl rfl rfl (fun h => h), .done _ _ (.inl trivial)⟩
  | ensureBudget =>
    apply sound_write
    intro s t h
    obtain ⟨⟨_, _⟩, -, h⟩ := bind_eq_ok.mp h
    cases h
    exact ⟨.ledger _ trivial rfl rfl rfl (fun h => h), .done _ _ (.inl trivial)⟩
  | adjustBudget =>
    apply sound_write
    intro s t h
    refine ⟨?_, .done _ _ (.inl trivial)⟩
    unfold Store.adjustBudget at h
    split at h
    · simp only at h
      split at h
      · cases h
      · split at h <;> cases h <;> exact .ledger _ trivial rfl rfl rfl (fun h => h)
    · cases h
  | syncDollarBilling | markGatewayDrained =>
    apply sound_write
    intro s t h
    cases h
    exact ⟨.ledger _ trivial rfl rfl rfl (fun h => h), .done _ _ (.inl trivial)⟩
  | useGatewayAccounting =>
    apply sound_write
    intro s t h
    cases h
    exact ⟨.ledger _ trivial rfl rfl rfl (fun _ => rfl), .done _ _ (.inl trivial)⟩
  | usage sid modelID time =>
    apply sound_query
    intro s a h
    obtain ⟨u, -, rfl⟩ := map_eq_ok.mp h
    exact .usage sid modelID time u s rfl
  | gatewayUsage sid time =>
    apply sound_query
    intro s a h
    obtain ⟨u, -, rfl⟩ := map_eq_ok.mp h
    exact .gatewayUsage sid time u s rfl
  | reserve | reserveSpeech => exact sound_reserveAuthorized rfl (by rintro _ _ _ ⟨⟩)
  | reserveForSID =>
    simp only
    split
    · exact .error _ s s
    · split
      · exact .error _ s s
      · exact sound_reserveAuthorized rfl (by rintro _ _ _ ⟨⟩)
  | reserveSharedRun =>
    simp only
    split
    · exact .error _ s s
    · exact sound_reserveAuthorized rfl (by rintro _ _ _ ⟨⟩)
  | reserveRuntime => exact sound_reserveRuntime rfl
  | lookupRuntimeRun sid runID =>
    apply sound_query
    intro s a h
    obtain ⟨r, hr, rfl⟩ := map_eq_ok.mp h
    exact .lookup sid runID r s rfl hr
  | settle | settleSpeech => exact sound_settlement rfl (by rintro _ _ _ ⟨⟩) (fun _ => rfl)
  | settleForSID =>
    simp only
    split
    · exact .error _ s s
    · rename_i hv
      apply sound_settlement rfl (by rintro _ _ _ ⟨⟩)
      intro env'
      simp only [Call.prog, Call.again, hv]
  | settleRuntime =>
    simp only [settleRuntime]
    split
    · exact .error _ s s
    · rename_i hv
      apply sound_settlement rfl (by rintro _ _ _ ⟨⟩; exact validateSID_ne hv)
      intro _
      simp only [Call.prog, Call.again, settleRuntime, hv]
  | releaseSharedRun sid runID =>
    apply sound_write
    intro s t h
    exact ⟨.release sid runID t rfl h, .release sid runID s t rfl h⟩
  | pendingSharedRuns =>
    apply sound_query
    intro s a h
    cases h
    exact .pending _ s rfl
  | recoverSharedRunAuthorization identity =>
    simp only
    split
    · exact .error _ s s
    · apply sound_write
      intro s t h
      exact ⟨.recover identity t rfl h, .recover identity s t rfl h⟩
  | reconcileSettlements =>
    refine Sound.bind (Q := fun _ _ _ => True) ?_ ?_
    · apply Sound.read
      intro t _ _
      exact ⟨.same, trivial⟩
    · intro pending t₀ t _
      exact sound_reconcile rfl pending _ (.inl rfl) t₀ t
  | recordGatewayUsage record =>
    apply sound_write
    intro s t h
    refine ⟨?_, .done _ _ (.inr (.inr ⟨record, rfl⟩))⟩
    unfold Store.recordGatewayUsage at h
    split at h
    · cases h
    · split at h
      · cases h
      · split at h
        · split at h
          · cases h
          · cases h
            exact .record record _ rfl rfl
        · cases h

theorem sequential : Sequential system Holding Later Effect Returns where
  refl := .refl
  trans _ _ _ := .trans
  guarantee _ _ _ := Effect.later
  init := trivial
  reopen s t _ h := by cases h; exact ⟨trivial, .refl s⟩
  prog _ _ i s _ _ _ := sound_call i s

theorem reachable_store {P : Store → Prop} (hinit : P .empty)
    (heffect : ∀ i s t, P s → Effect i s t → P t) {c : Config Store Call Outcome}
    (hc : system.Reachable c) : P c.store := by
  induction hc with
  | refl => exact hinit
  | @tail c d hc hs ih =>
    rcases sequential.moves (sequential.holds hc) hs with ⟨hs, -⟩ | ⟨i, -, hG, -⟩ | ⟨i, a, hs | ⟨-, hG⟩, -, -⟩ | ⟨hr, -⟩
    · rwa [hs]
    · exact heffect i _ _ ih hG
    · rwa [hs]
    · exact heffect i _ _ ih hG
    · have hr : c.store = d.store := hr
      rwa [← hr]

theorem answered {c d : Config Store Call Outcome} (hc : system.Reachable c) (hs : system.Step c d) {a : Outcome} (hret : d.returned = (i, a) :: c.returned) : Returns i a c.store d.store := by
  have hne : d.returned ≠ c.returned := by
    rw [hret]
    intro h
    have := congrArg List.length h
    simp at this
  rcases sequential.moves (sequential.holds hc) hs with ⟨-, h⟩ | ⟨j, -, -, h⟩ | ⟨j, b, -, hq, h⟩ | ⟨-, h⟩
  · exact absurd h hne
  · exact absurd h hne
  · rw [hret] at h
    cases h
    exact hq
  · exact absurd h hne

end WorkAgent.Quota
