import WorkAgent.Quota.Consistency

namespace WorkAgent.Quota

open Library Prog Relation.ReflTransGen

namespace Store

variable {s t : Store}

variable {env : Env} {sid runtimeSID : String} {request : SettleRequest} {actual : Units}

theorem run_settleAs
    (hb : isBlank request.runID = false) (hu : actual.val = request.actualUnits) :
    (settleAs env sid runtimeSID request).run s =
      match s.settle env sid runtimeSID request.runID actual with
      | .ok (result, t) => (result.map (fun _ => .done), t)
      | .error e => (.error e, s) := by
  unfold settleAs
  have hcheck : Units.check request.actualUnits = some actual := Units.check_eq_some.mpr hu
  rw [hb, if_neg Bool.false_ne_true, hcheck]
  simp only [andThen]
  rw [run_bind]
  cases h : s.settle env sid runtimeSID request.runID actual with
  | error => rw [run_transaction_error h, run_ret]
  | ok x =>
    obtain ⟨_, t⟩ := x
    rw [run_transaction_ok h, run_ret]

theorem single_settleAs (env : Env) (sid runtimeSID : String)
    (hb : isBlank request.runID = false) (hu : actual.val = request.actualUnits) :
    (settleAs env sid runtimeSID request).Single := by
  unfold settleAs
  have hcheck : Units.check request.actualUnits = some actual := Units.check_eq_some.mpr hu
  rw [hb, if_neg Bool.false_ne_true, hcheck]
  exact (single_transaction _).andThen _

variable {r : ReservationRow}

theorem settle_settled {runID : String}
    (hr : s.reservationByRun runID = some r) (hs : r.status = .settled) (hm : s.MaySettle sid runtimeSID r) :
    s.settle env sid runtimeSID runID actual =
      match s.replaySettlement r ⟨runID, actual.val⟩ with
      | .ok () => .ok (.ok (), s)
      | .error e => .error e := by
  unfold settle
  rw [hr]
  simp only
  rw [authorizeSettlement_ok.mpr hm, hs]
  cases s.replaySettlement r ⟨runID, actual.val⟩ <;> rfl

theorem replaySettlement_ok :
    s.replaySettlement r request = .ok () ↔ s.chargedByGateway r.modelID r.engine ∨
      r.actualUnits.map Units.val = some request.actualUnits := by
  unfold replaySettlement
  by_cases hk : s.chargedByGateway r.modelID r.engine
  · simp [hk]
  · by_cases hv : r.actualUnits.map Units.val = some request.actualUnits <;> simp [hk, hv]

theorem MaySettle.later {r' : ReservationRow} (h : s.MaySettle sid runtimeSID r)
    (hlater : Later s t) (hr : r.SameRun r') (hs : r'.status = .settled) : t.MaySettle sid runtimeSID r' where
  runtime hne := by
    obtain ⟨a, ha, howner, -⟩ := h.runtime hne
    obtain ⟨a', ha', hext⟩ := hlater.authorization _ a ha
    refine ⟨a', by rw [hr.runID]; exact ha', by rw [hext.ownerSID]; exact howner, ?_⟩
    intro _ hres
    rw [hs] at hres
    cases hres
  payer hne := by rw [hr.sid]; exact h.payer hne

theorem matching_retained (runtimeSID : String) (actual : Units)
    (hm : s.gatewayAccounting = false) :
    ((s.retained env runtimeSID r actual).awaiting env r).matching env r = s.matching env r := by
  have hauth : ((s.retained env runtimeSID r actual).awaiting env r).candidates env r = s.candidates env r := by
    unfold candidates
    rw [awaiting_authorizationByRun]
    cases ha : (s.retained env runtimeSID r actual).authorizationByRun r.runID with
    | some =>
      obtain ⟨b, hb, -, hext, -⟩ := retained_authorization ha
      simp only [hb, hext.modelCandidates]
    | none =>
      have hnone : s.authorizationByRun r.runID = none := by
        unfold retained freeze at ha
        split at ha
        · exact ha
        · unfold authorizationByRun at ha
          rwa [Table.find?_update, Option.map_eq_none_iff] at ha
      simp only [hnone]
  unfold matching
  rw [awaiting_gatewayUsage, retained_gatewayUsage]
  apply List.filter_congr
  intro g _
  rw [decide_eq_decide]
  unfold Matches
  rw [awaiting_gatewayAccounting, retained_gatewayAccounting, hauth, hm, if_neg Bool.false_ne_true,
    if_neg Bool.false_ne_true]

def Repeats (s : Store) (env : Env) (r : ReservationRow) (request : SettleRequest) : Prop :=
  s.chargedByGateway r.modelID r.engine ∨ r.status = .settled ∨ r.engine = "acp" ∨
    r.modelID = speechTranscriptionModelID ∨ s.matching env r = [] ∨
    sumWrap (tokens (s.matching env r)) = request.actualUnits

theorem Settles.mode
    {result : Except QuotaError Unit} (h : Settles s env sid runtimeSID r actual result t) :
    t.gatewayAccounting = s.gatewayAccounting := by
  cases h with
  | replay => rfl
  | pending => rw [awaiting_gatewayAccounting, retained_gatewayAccounting]
  | closed _ _ hc =>
    cases hc with
    | intro _ _ pinned _ ha =>
      rw [holdCharged_gatewayAccounting]
      change pinned.gatewayAccounting = _
      rw [ha.mode, awaiting_gatewayAccounting, retained_gatewayAccounting]

theorem settle_amount
    (hs : Consistent s) (hr : s.reservationByRun r.runID = some r)
    (hm : s.MaySettle sid runtimeSID r) (h : Settles s env sid runtimeSID r actual (.ok ()) t) :
    ∃ r', t.reservationByRun r.runID = some r' ∧ r.SameRun r' ∧ r'.status = .settled ∧
      (¬ s.chargedByGateway r.modelID r.engine →
        (r'.actualUnits.map Units.val = some actual.val ↔ s.Repeats env r ⟨r.runID, actual.val⟩)) := by
  cases h with
  | replay hst hreplay =>
    refine ⟨r, hr, .refl r, hst, ?_⟩
    intro hk
    refine ⟨fun _ => .inr (.inl hst), fun _ => ?_⟩
    exact (replaySettlement_ok.mp hreplay).resolve_left hk
  | closed _ hst hc =>
    obtain ⟨_, _, pinned, units, c⟩ := hc.closed (by
      unfold reservationByRun
      rw [awaiting_reservations, retained_reservations]
      exact hr) hst
    refine ⟨_, c.run, .settle r _ _ _, rfl, ?_⟩
    intro hk
    change some units.val = some actual.val ↔ _
    rw [Option.some_inj, c.value]
    have hfrozen : s.frozenUnits env runtimeSID r actual = actual := by
      unfold frozenUnits freeze
      split
      · rfl
      · rename_i hne
        obtain ⟨a, ha, -⟩ := hm.runtime hne
        have hnone : a.settlementUnits = none := by
          by_contra hsome
          exact hk (hs.retained _ r a hr hst ha hsome)
        simp only [ha, Option.bind_some, hnone, Option.getD_none]
    have hopen : r.status ≠ .settled := by rw [hst]; decide
    have hby := c.settledBy
    generalize hp : pinned = p at hby
    cases hby with
    | estimate _ _ hn =>
      refine ⟨fun _ => ?_, fun _ => by rw [hfrozen]⟩
      by_cases hacp : r.engine = "acp"
      · exact .inr (.inr (.inl hacp))
      by_cases hspeech : r.modelID = speechTranscriptionModelID
      · exact .inr (.inr (.inr (.inl hspeech)))
      have hmode : s.gatewayAccounting = false := by
        by_contra htrue
        exact hk ⟨by simpa using htrue, hspeech, hacp⟩
      right; right; right; right; left
      rw [← matching_retained runtimeSID actual hmode]
      by_contra hmatch
      refine hn ⟨⟨hacp, hspeech, .inl ?_⟩, hmatch⟩
      rw [awaiting_gatewayAccounting, retained_gatewayAccounting]
      exact hmode
    | records hrec hmatch =>
      have hmode : s.gatewayAccounting = false := by
        by_contra htrue
        exact hk ⟨by simpa using htrue, hrec.2.1, hrec.1⟩
      rw [matching_retained runtimeSID actual hmode] at hmatch ⊢
      unfold Repeats
      constructor
      · intro h
        exact .inr (.inr (.inr (.inr (.inr h))))
      · rintro (h | h | h | h | h | h)
        · exact absurd h hk
        · exact absurd h hopen
        · exact absurd h hrec.1
        · exact absurd h hrec.2.1
        · exact absurd h hmatch
        · exact h

end Store

/-- A settlement that succeeded is answered alike, and changes nothing, whenever it is made again
if and only if the run is one of `Repeats`. -/
theorem settlement_repeats_iff {c d : Config Store Call Outcome} (hc : system.Reachable c)
    (hs : system.Step c d) {i : Call} (hret : d.returned = (i, .ok .done) :: c.returned)
    {sid runtimeSID : String} {request : SettleRequest}
    (hset : i.settlement = some (sid, runtimeSID, request)) {r : ReservationRow}
    (hr : c.store.reservationByRun request.runID = some r) :
    (∀ e, system.Run d e → ∀ env, (i.again env).prog.run e.store = (.ok .done, e.store)) ↔
      c.store.Repeats (i.env 0) r request := by
  obtain ⟨actual, hu, hb, hprog, h⟩ := (answered hc hs hret).settled hset
  obtain ⟨_, hr₀, hmay, hsettles⟩ := Store.settle_ok h
  cases hr.symm.trans hr₀
  have hrun := Store.runID_of_reservation hr
  have hr' : c.store.reservationByRun r.runID = some r := by rw [hrun]; exact hr
  have hconsistent := Consistent.reachable hc
  obtain ⟨r₁, hr₁, hsame, hsettled, hamount⟩ := Store.settle_amount hconsistent hr' hmay hsettles
  have hlater := hsettles.later hr'
  have hrequest : (⟨r.runID, actual.val⟩ : SettleRequest) = request := by
    rw [hrun, hu]
  rw [hrequest] at hamount
  -- Every later store holds the settled run as it was written.
  have hrepeat (e : Config Store Call Outcome) (he : system.Run d e) (env : ℕ → Env) :
      (i.again env).prog.run e.store =
        match e.store.replaySettlement r₁ request with
        | .ok () => (.ok .done, e.store)
        | .error err => (.error err, e.store) := by
    have hde : Later d.store e.store := sequential.rely_run (hc.run (Relation.ReflTransGen.single hs)) he
    obtain ⟨r₂, hr₂, -, hkeep⟩ := hde.reservation _ r₁ hr₁
    obtain rfl := hkeep hsettled
    have hmay' := hmay.later (hlater.trans hde) hsame hsettled
    rw [hrun] at hr₂
    rw [hprog, Store.run_settleAs hb hu, Store.settle_settled hr₂ hsettled hmay', hu]
    cases e.store.replaySettlement r₂ request <;> rfl
  have hkind (u : Store) : u.chargedByGateway r₁.modelID r₁.engine ↔ u.chargedByGateway r.modelID r.engine := by
    rw [hsame.modelID, hsame.engine]
  constructor
  · intro hall
    by_cases hk : c.store.chargedByGateway r.modelID r.engine
    · exact .inl hk
    · have hd := hall d .refl i.env
      rw [hrepeat d .refl] at hd
      have hok : d.store.replaySettlement r₁ request = .ok () := by
        cases hreplay : d.store.replaySettlement r₁ request with
        | ok => rfl
        | error =>
          rw [hreplay] at hd
          cases hd
      rcases Store.replaySettlement_ok.mp hok with hcharged | hvalue
      · rw [hkind] at hcharged
        exact absurd ⟨hsettles.mode ▸ hcharged.1, hcharged.2⟩ hk
      · exact (hamount hk).mp (by rw [hu]; exact hvalue)
  · intro hrep e he _
    rw [hrepeat e he]
    have hok : e.store.replaySettlement r₁ request = .ok () := by
      rw [Store.replaySettlement_ok, hkind]
      by_cases hk : c.store.chargedByGateway r.modelID r.engine
      · have hde : Later d.store e.store :=
          sequential.rely_run (hc.run (Relation.ReflTransGen.single hs)) he
        exact .inl (Consistent.chargedByGateway_mono (hlater.trans hde).mode hk)
      · right
        rw [← hu]
        exact (hamount hk).mpr hrep
    rw [hok]

namespace Drained

def setBudget : Call := ⟨0, fun _ => .still ⟨0⟩, .setBudget ⟨"S-1-5", "model", "daily", 100⟩⟩

def reserve : Call := ⟨1, fun _ => .still ⟨0⟩, .reserve ⟨"run", "S-1-5", "model", 10, ⟨0⟩, ""⟩⟩

def record : Call := ⟨2, fun _ => .still ⟨0⟩, .recordGatewayUsage
  ⟨"request", "S-1-5", "provider", "model", "", "", "", false, 0, 0, 0, 0, 7, ⟨0⟩⟩⟩

def settle (units : Int64) : Call := ⟨3, fun _ => .still ⟨0⟩, .settle ⟨"run", units⟩⟩

def store : Store := storeAfter [setBudget, reserve, record]

theorem settling (units : Units) (h : ((settle units.val).prog.run store).1 = .ok .done) :
    ∃ c d, system.Reachable c ∧ c.store = store ∧ system.Step c d ∧
      d.store = ((settle units.val).prog.run store).2 ∧
      d.returned = (settle units.val, .ok .done) :: c.returned := by
  have hblank : isBlank (⟨"run", units.val⟩ : SettleRequest).runID = false := show isBlank "run" = false by decide
  have hunits : units.val = (⟨"run", units.val⟩ : SettleRequest).actualUnits := rfl
  have hp : (settle units.val).prog.Single := Store.single_settleAs _ _ _ hblank hunits
  obtain ⟨c, d, hc, hstore, hs, hd, hret⟩ := last_call [setBudget, reserve, record] (settle units.val)
    (by decide) (by change 3 ∉ [0, 1, 2]; decide) hp
  refine ⟨c, d, hc, hstore, hs, hd, ?_⟩
  rw [hret]
  exact congrArg (fun a => (settle units.val, a) :: c.returned) h

end Drained

/-- A settlement by 5 units that gateway records replaced by 7 is refused when it is made again. -/
theorem settlement_refused_again : ¬ ∀ c d : Config Store Call Outcome, system.Reachable c → system.Step c d →
    ∀ i, d.returned = (i, .ok .done) :: c.returned →
      ∀ sid runtimeSID request, i.settlement = some (sid, runtimeSID, request) →
        ∀ e, system.Run d e → ∀ env, ((i.again env).prog.run e.store).1 = .ok .done := by
  intro hall
  obtain ⟨c, d, hc, -, hs, hd, hret⟩ := Drained.settling ⟨5, by decide⟩ rfl
  have h := hall c d hc hs _ hret _ _ _ rfl d .refl (Drained.settle 5).env
  rw [hd] at h
  have hrefused : ((Drained.settle 5).prog.run ((Drained.settle 5).prog.run Drained.store).2).1 =
      .error .idempotencyConflict := rfl
  cases hrefused.symm.trans h

theorem settlement_repeats_iff_seven : ∃ c d : Config Store Call Outcome, system.Step c d ∧ ∃ r,
    c.store.reservationByRun "run" = some r ∧
    ((∀ e, system.Run d e → ∀ env,
      ((Drained.settle 7).again env).prog.run e.store = (.ok .done, e.store)) ↔
      c.store.Repeats (.still ⟨0⟩) r ⟨"run", 7⟩) := by
  obtain ⟨c, d, hc, hstore, hs, -, hret⟩ := Drained.settling ⟨7, by decide⟩ rfl
  have hr : (c.store.reservationByRun "run").isSome := by
    rw [hstore]
    decide
  obtain ⟨r, hr⟩ := Option.isSome_iff_exists.mp hr
  have hset : (Drained.settle 7).settlement = some ("", "", ⟨"run", 7⟩) := rfl
  exact ⟨c, d, hs, r, hr, settlement_repeats_iff hc hs hret hset hr⟩

end WorkAgent.Quota
