import WorkAgent.Quota.Transactions

namespace WorkAgent.Quota

open Library

namespace Store

variable {s t : Store} {env : Env} {r : ReservationRow} {actual : Units} {amount : Int64}

structure MaySettle (s : Store) (sid runtimeSID : String) (r : ReservationRow) : Prop where
  runtime : runtimeSID ≠ "" → ∃ a, s.authorizationByRun r.runID = some a ∧ a.ownerSID = runtimeSID ∧
    (a.scope = .shared → r.status = .reserved → a.acceptedAt.isSome)
  payer : sid ≠ "" → r.sid = sid

theorem authorizeSettlement_ok {sid runtimeSID : String} :
    s.authorizeSettlement sid runtimeSID r = .ok () ↔ s.MaySettle sid runtimeSID r := by
  have hpayer : (if sid ≠ "" ∧ r.sid ≠ sid then (throw .reservationNotFound : Except QuotaError Unit)
      else pure ()) = .ok () ↔ (sid ≠ "" → r.sid = sid) := by
    by_cases hs : sid ≠ "" ∧ r.sid ≠ sid
    · rw [if_pos hs, throw_eq_ok]
      exact ⟨False.elim, fun h => hs.2 (h hs.1)⟩
    · rw [if_neg hs]
      refine ⟨fun _ h => ?_, fun _ => rfl⟩
      by_contra hne
      exact hs ⟨h, hne⟩
  unfold authorizeSettlement
  by_cases hrt : runtimeSID = ""
  · rw [if_neg (not_not.mpr hrt)]
    refine Iff.trans hpayer ⟨fun h => ⟨fun hne => absurd hrt hne, h⟩, fun h => h.payer⟩
  · rw [if_pos hrt]
    cases ha : s.authorizationByRun r.runID with
    | none =>
      constructor
      · intro h; cases h
      · intro h
        obtain ⟨a, ha', -⟩ := h.runtime hrt
        rw [ha] at ha'
        cases ha'
    | some a =>
      by_cases howner : a.ownerSID = runtimeSID
      · by_cases hacc : a.scope = .shared ∧ a.acceptedAt = none ∧ r.status ≠ .settled
        · simp only [ne_eq, howner, not_true_eq_false, ↓reduceIte, if_pos hacc]
          constructor
          · intro h; cases h
          · intro h
            obtain ⟨b, hb, -, hshared⟩ := h.runtime hrt
            rw [ha] at hb
            cases hb
            have hres : r.status = .reserved := by
              cases hst : r.status with
              | reserved => rfl
              | settled => exact absurd hst hacc.2.2
            have := hshared hacc.1 hres
            rw [hacc.2.1] at this
            cases this
        · simp only [ne_eq, howner, not_true_eq_false, ↓reduceIte, if_neg hacc]
          refine Iff.trans hpayer ⟨fun h => ⟨fun _ => ⟨a, ha, howner, ?_⟩, h⟩, fun h => h.payer⟩
          intro hscope hres
          by_contra hnone
          exact hacc ⟨hscope, by simpa using hnone, by rw [hres]; decide⟩
      · simp only [ne_eq, howner, not_false_eq_true, ↓reduceIte]
        constructor
        · intro h; cases h
        · intro h
          obtain ⟨b, hb, hown, -⟩ := h.runtime hrt
          rw [ha] at hb
          cases hb
          exact absurd hown howner

def retained (s : Store) (env : Env) (runtimeSID : String) (r : ReservationRow) (actual : Units) : Store :=
  (s.freeze runtimeSID r.runID actual (env.now 0).unixMilli).2

def frozenUnits (s : Store) (env : Env) (runtimeSID : String) (r : ReservationRow) (actual : Units) : Units :=
  (s.freeze runtimeSID r.runID actual (env.now 0).unixMilli).1

def Waits (s : Store) (r : ReservationRow) : Prop :=
  s.chargedByGateway r.modelID r.engine ∧ s.gatewayOwner r ≠ r.sid

instance (r : ReservationRow) : Decidable (s.Waits r) := inferInstanceAs (Decidable (_ ∧ _))

def awaiting (s : Store) (env : Env) (r : ReservationRow) : Store :=
  if s.Waits r then s.hold r.runID (env.now 1).unixMilli else s

section Frames

variable (env : Env) (runtimeSID : String) (r : ReservationRow) (actual : Units)

@[simp] theorem retained_reservations : (s.retained env runtimeSID r actual).reservations = s.reservations := by
  unfold retained freeze
  split <;> rfl

@[simp] theorem retained_gatewayUsage : (s.retained env runtimeSID r actual).gatewayUsage = s.gatewayUsage := by
  unfold retained freeze
  split <;> rfl

@[simp] theorem retained_gatewayAccounting :
    (s.retained env runtimeSID r actual).gatewayAccounting = s.gatewayAccounting := by
  unfold retained freeze
  split <;> rfl

@[simp] theorem awaiting_reservations : (s.awaiting env r).reservations = s.reservations := by
  unfold awaiting
  split <;> rfl

@[simp] theorem awaiting_authorizations : (s.awaiting env r).authorizations = s.authorizations := by
  unfold awaiting
  split <;> rfl

@[simp] theorem awaiting_gatewayUsage : (s.awaiting env r).gatewayUsage = s.gatewayUsage := by
  unfold awaiting
  split <;> rfl

@[simp] theorem awaiting_gatewayAccounting :
    (s.awaiting env r).gatewayAccounting = s.gatewayAccounting := by
  unfold awaiting
  split <;> rfl

theorem awaiting_authorizationByRun (x : String) : (s.awaiting env r).authorizationByRun x = s.authorizationByRun x := by
  unfold authorizationByRun
  rw [awaiting_authorizations]

theorem held_reservationByRun (x : String) :
    ((s.retained env runtimeSID r actual).awaiting env r).reservationByRun x = s.reservationByRun x := by
  unfold reservationByRun
  rw [awaiting_reservations, retained_reservations]

theorem settleReserved_eq : s.settleReserved env runtimeSID r actual =
    if (s.retained env runtimeSID r actual).Waits r ∧ ¬ ((s.retained env runtimeSID r actual).awaiting env r).drained r.runID then
      .ok (.error .usagePending, (s.retained env runtimeSID r actual).awaiting env r)
    else ((s.retained env runtimeSID r actual).awaiting env r).settleNow env r (s.frozenUnits env runtimeSID r actual) >>= fun t =>
      pure (.ok (), t) := rfl

end Frames

def SettlesByRecords (s : Store) (r : ReservationRow) : Prop :=
  r.engine ≠ "acp" ∧ r.modelID ≠ speechTranscriptionModelID ∧
    (s.gatewayAccounting = false ∨ s.gatewayOwner r ≠ r.sid)

instance (r : ReservationRow) : Decidable (s.SettlesByRecords r) := inferInstanceAs (Decidable (_ ∧ _))

inductive Amount (s : Store) (env : Env) (r : ReservationRow) (actual : Units) :
    Int64 → Option SettleSource → Store → Prop
  | records (h : s.SettlesByRecords r) (hm : s.matching env r ≠ []) :
      Amount s env r actual (sumWrap (tokens (s.matching env r))) (some .gateway)
        (s.pin env r)
  | estimate (source : Option SettleSource) (hs : source ≠ some .gateway)
      (h : ¬ (s.SettlesByRecords r ∧ s.matching env r ≠ [])) : Amount s env r actual actual.val source s

theorem mem_pin {g : GatewayUsageRow} :
    g ∈ (s.pin env r).gatewayUsage ↔ ∃ g' ∈ s.gatewayUsage,
      g = if s.Matches env r g' then { g' with matchedRunID := some r.runID } else g' := by
  unfold pin
  rw [Table.mem_update]

theorem settleAmount_spec (env : Env) (r : ReservationRow) (actual : Units) :
    Amount s env r actual (s.settleAmount env r actual).1.1 (s.settleAmount env r actual).1.2
      (s.settleAmount env r actual).2 := by
  unfold settleAmount
  by_cases h : s.SettlesByRecords r
  · have h' := h
    unfold SettlesByRecords at h'
    rw [if_pos h']
    unfold matchGatewayUsage
    by_cases hm : s.matching env r = []
    · rw [if_pos hm]
      exact .estimate _ (by intro hg; cases hg) (fun hc => hc.2 hm)
    · rw [if_neg hm]
      exact .records h hm
  · have h' := h
    unfold SettlesByRecords at h'
    rw [if_neg h']
    split
    · exact .estimate _ (by intro hg; cases hg) (fun hc => h hc.1)
    · exact .estimate _ (by intro hg; cases hg) (fun hc => h hc.1)

def holdCharged (s : Store) (env : Env) (r : ReservationRow) : Store :=
  if s.chargedByGateway r.modelID r.engine then s.hold r.runID (env.now 4).unixMilli else s

inductive Closes (s : Store) (env : Env) (r : ReservationRow) (actual : Units) : Store → Prop
  | intro (amount : Int64) (source : Option SettleSource) (pinned : Store) (units : Units)
      (ha : Amount s env r actual amount source pinned) (hu : units.val = amount) :
      Closes s env r actual ((pinned.close r.runID units (env.now 3).unix source).holdCharged env r)

theorem Amount.mode
    {source : Option SettleSource} {pinned : Store} (h : Amount s env r actual amount source pinned) :
    pinned.gatewayAccounting = s.gatewayAccounting := by
  cases h <;> rfl

theorem settleNow_ok
    (h : s.settleNow env r actual = .ok t) : Closes s env r actual t := by
  unfold settleNow at h
  have hspec := settleAmount_spec (s := s) env r actual
  generalize s.settleAmount env r actual = x at h hspec
  obtain ⟨⟨amount, source⟩, pinned⟩ := x
  simp only at h hspec
  cases hu : Units.check amount with
  | none =>
    rw [hu] at h
    cases h
  | some units =>
    rw [hu] at h
    have hcharged : (pinned.close r.runID units (env.now 3).unix source).chargedByGateway r.modelID r.engine ↔
        s.chargedByGateway r.modelID r.engine := by
      unfold chargedByGateway close
      rw [hspec.mode]
    have ht : t = (pinned.close r.runID units (env.now 3).unix source).holdCharged env r := by
      unfold holdCharged
      simp only at h
      split at h
      · rename_i hc
        rw [if_pos (hcharged.mpr hc)]
        cases h
        rfl
      · rename_i hc
        rw [if_neg (fun hx => hc (hcharged.mp hx))]
        cases h
        rfl
    rw [ht]
    exact .intro amount source pinned units hspec (Units.check_eq_some.mp hu)

inductive Settles (s : Store) (env : Env) (sid runtimeSID : String) (r : ReservationRow) (actual : Units) :
    Except QuotaError Unit → Store → Prop
  | replay (hs : r.status = .settled) (h : s.replaySettlement r ⟨r.runID, actual.val⟩ = .ok ()) :
      Settles s env sid runtimeSID r actual (.ok ()) s
  | pending (hs : r.status = .reserved) (hw : (s.retained env runtimeSID r actual).Waits r) :
      Settles s env sid runtimeSID r actual (.error .usagePending)
        ((s.retained env runtimeSID r actual).awaiting env r)
  | closed (t : Store) (hs : r.status = .reserved)
      (c : Closes ((s.retained env runtimeSID r actual).awaiting env r) env r
        (s.frozenUnits env runtimeSID r actual) t) : Settles s env sid runtimeSID r actual (.ok ()) t

theorem settle_ok {sid runtimeSID runID : String}
    {result : Except QuotaError Unit} (h : s.settle env sid runtimeSID runID actual = .ok (result, t)) :
    ∃ r, s.reservationByRun runID = some r ∧ s.MaySettle sid runtimeSID r ∧
      Settles s env sid runtimeSID r actual result t := by
  unfold settle at h
  split at h
  · cases h
  · rename_i r hr
    have hrun : r.runID = runID := (Table.find?_eq_some.mp hr).2
    obtain ⟨u, hauth, h⟩ := bind_eq_ok.mp h
    refine ⟨r, hr, authorizeSettlement_ok.mp hauth, ?_⟩
    split at h
    · rename_i hs
      obtain ⟨v, hreplay, h⟩ := bind_eq_ok.mp h
      cases h
      subst hrun
      exact .replay hs hreplay
    · rename_i hs
      rw [settleReserved_eq] at h
      split at h
      · rename_i hw
        cases h
        exact .pending hs hw.1
      · obtain ⟨u, hnow, h⟩ := bind_eq_ok.mp h
        cases h
        exact .closed _ hs (settleNow_ok hnow)

theorem retained_later {runtimeSID : String}
    (hr : ∀ x, s.reservationByRun r.runID = some x → x.status = .reserved) :
    Later s (s.retained env runtimeSID r actual) := by
  unfold retained freeze
  split
  · exact .refl s
  · apply Later.update_authorization s r.runID
    · intro a _
      refine ⟨rfl, rfl, rfl, rfl, fun _ h => h, ?_, ?_⟩
      · intro x hx
        simp [hx]
      · intro x hx
        simp [hx]
    · exact hr

theorem awaiting_later (env : Env) (r : ReservationRow) : Later s (s.awaiting env r) :=
  Later.of_eq (by simp) (by simp) (by simp) (by simp)

theorem Amount.later
    {source : Option SettleSource} {pinned : Store} (h : Amount s env r actual amount source pinned) :
    Later s pinned := by
  cases h with
  | estimate => exact .refl s
  | records => exact Later.update_usage s _ r.runID (fun g hg => hg.1)

theorem close_later (runID : String) (actual : Units) (settledAt : ℤ) (source : Option SettleSource) :
    Later s (s.close runID actual settledAt source) :=
  Later.update_reservation s _ actual settledAt (fun _ => source) (fun _ _ h => h.2)

theorem holdCharged_later (env : Env) (r : ReservationRow) : Later s (s.holdCharged env r) := by
  unfold holdCharged
  split
  · exact Later.of_eq rfl rfl rfl (fun h => h)
  · exact .refl s

theorem Closes.later (h : Closes s env r actual t) :
    Later s t := by
  cases h with
  | intro _ _ _ _ ha =>
    exact ha.later.trans ((close_later _ _ _ _).trans (holdCharged_later _ _))

theorem Settles.later {sid runtimeSID : String}
    {result : Except QuotaError Unit} (hr : s.reservationByRun r.runID = some r)
    (h : Settles s env sid runtimeSID r actual result t) : Later s t := by
  have hopen (hs : r.status = .reserved) : Later s (s.retained env runtimeSID r actual) := by
    apply retained_later
    intro x hx
    cases hr.symm.trans hx
    exact hs
  cases h with
  | replay => exact .refl s
  | pending hs => exact (hopen hs).trans (awaiting_later _ _)
  | closed _ hs hc => exact (hopen hs).trans ((awaiting_later _ _).trans hc.later)

theorem settle_later {sid runtimeSID runID : String}
    {result : Except QuotaError Unit} (h : s.settle env sid runtimeSID runID actual = .ok (result, t)) :
    Later s t := by
  obtain ⟨r, hr, -, hset⟩ := settle_ok h
  obtain rfl : r.runID = runID := (Table.find?_eq_some.mp hr).2
  exact hset.later hr

end Store

end WorkAgent.Quota
