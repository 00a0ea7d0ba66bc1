import WorkAgent.Quota.Operations

namespace WorkAgent.Quota

open Library Table

structure ReservationRow.SameRun (r r' : ReservationRow) : Prop where
  runID : r'.runID = r.runID
  sid : r'.sid = r.sid
  modelID : r'.modelID = r.modelID
  period : r'.period = r.period
  periodKey : r'.periodKey = r.periodKey
  reservedUnits : r'.reservedUnits = r.reservedUnits
  createdAt : r'.createdAt = r.createdAt
  engine : r'.engine = r.engine

namespace ReservationRow.SameRun

theorem refl (r : ReservationRow) : r.SameRun r := ⟨rfl, rfl, rfl, rfl, rfl, rfl, rfl, rfl⟩

theorem trans {r₁ r₂ r₃ : ReservationRow} (h : r₁.SameRun r₂) (h' : r₂.SameRun r₃) : r₁.SameRun r₃ :=
  ⟨h'.1.trans h.1, h'.2.trans h.2, h'.3.trans h.3, h'.4.trans h.4, h'.5.trans h.5, h'.6.trans h.6,
    h'.7.trans h.7, h'.8.trans h.8⟩

theorem settle (r : ReservationRow) (actual : Units) (settledAt : ℤ) (source : Option SettleSource) :
    r.SameRun (r.settle actual settledAt source) := ⟨rfl, rfl, rfl, rfl, rfl, rfl, rfl, rfl⟩

end ReservationRow.SameRun

structure AuthorizationRow.Extends (a a' : AuthorizationRow) : Prop where
  ownerSID : a'.ownerSID = a.ownerSID
  scope : a'.scope = a.scope
  engine : a'.engine = a.engine
  modelCandidates : a'.modelCandidates = a.modelCandidates
  acceptedAt : ∀ x, a.acceptedAt = some x → a'.acceptedAt = some x
  settlementUnits : ∀ x, a.settlementUnits = some x → a'.settlementUnits = some x
  completedAt : ∀ x, a.completedAt = some x → a'.completedAt = some x

namespace AuthorizationRow.Extends

theorem refl (a : AuthorizationRow) : a.Extends a :=
  ⟨rfl, rfl, rfl, rfl, fun _ h => h, fun _ h => h, fun _ h => h⟩

theorem trans {a b c : AuthorizationRow} (h : a.Extends b) (h' : b.Extends c) : a.Extends c :=
  ⟨h'.1.trans h.1, h'.2.trans h.2, h'.3.trans h.3, h'.4.trans h.4, fun x hx => h'.5 x (h.5 x hx),
    fun x hx => h'.6 x (h.6 x hx), fun x hx => h'.7 x (h.7 x hx)⟩

end AuthorizationRow.Extends

def GatewayUsageRow.SameRecord (g g' : GatewayUsageRow) : Prop :=
  g' = { g with matchedRunID := g'.matchedRunID }

namespace GatewayUsageRow.SameRecord

theorem refl (g : GatewayUsageRow) : g.SameRecord g := rfl

theorem trans {g₁ g₂ g₃ : GatewayUsageRow} (h : g₁.SameRecord g₂) (h' : g₂.SameRecord g₃) :
    g₁.SameRecord g₃ := by
  unfold SameRecord at *
  rw [h', h]

end GatewayUsageRow.SameRecord

/-- What every operation leaves of the runs, authorizations and gateway records of the store. -/
structure Later (s t : Store) : Prop where
  reservation : ∀ x r, s.reservationByRun x = some r →
    ∃ r', t.reservationByRun x = some r' ∧ r.SameRun r' ∧ (r.status = .settled → r' = r)
  authorization : ∀ x a, s.authorizationByRun x = some a →
    ∃ a', t.authorizationByRun x = some a' ∧ a.Extends a'
  settled : ∀ x r, s.reservationByRun x = some r → r.status = .settled →
    t.authorizationByRun x = s.authorizationByRun x
  usage : ∀ x g, s.gatewayUsage.find? x = some g →
    ∃ g', t.gatewayUsage.find? x = some g' ∧ g.SameRecord g' ∧ (g.matchedRunID.isSome → g' = g)
  mode : s.gatewayAccounting = true → t.gatewayAccounting = true

namespace Later

theorem refl (s : Store) : Later s s where
  reservation _ r h := ⟨r, h, .refl r, fun _ => rfl⟩
  authorization _ a h := ⟨a, h, .refl a⟩
  settled _ _ _ _ := rfl
  usage _ g h := ⟨g, h, .refl g, fun _ => rfl⟩
  mode h := h

theorem trans {s t u : Store} (h : Later s t) (h' : Later t u) : Later s u where
  reservation x r hr := by
    obtain ⟨r₁, h₁, hs₁, he₁⟩ := h.reservation x r hr
    obtain ⟨r₂, h₂, hs₂, he₂⟩ := h'.reservation x r₁ h₁
    refine ⟨r₂, h₂, hs₁.trans hs₂, ?_⟩
    intro hr
    obtain rfl := he₁ hr
    exact he₂ hr
  authorization x a ha := by
    obtain ⟨a₁, h₁, he₁⟩ := h.authorization x a ha
    obtain ⟨a₂, h₂, he₂⟩ := h'.authorization x a₁ h₁
    exact ⟨a₂, h₂, he₁.trans he₂⟩
  settled x r hr hs := by
    obtain ⟨r₁, h₁, -, he₁⟩ := h.reservation x r hr
    obtain rfl := he₁ hs
    rw [h'.settled x r₁ h₁ hs, h.settled x r₁ hr hs]
  usage x g hg := by
    obtain ⟨g₁, h₁, hs₁, he₁⟩ := h.usage x g hg
    obtain ⟨g₂, h₂, hs₂, he₂⟩ := h'.usage x g₁ h₁
    refine ⟨g₂, h₂, hs₁.trans hs₂, ?_⟩
    intro hm
    obtain rfl := he₁ hm
    exact he₂ hm
  mode hm := h'.mode (h.mode hm)

theorem of_eq {s t : Store} (hr : t.reservations = s.reservations)
    (ha : t.authorizations = s.authorizations) (hg : t.gatewayUsage = s.gatewayUsage)
    (hm : s.gatewayAccounting = true → t.gatewayAccounting = true) : Later s t where
  reservation x r h := ⟨r, by rwa [Store.reservationByRun, hr], .refl r, fun _ => rfl⟩
  authorization x a h := ⟨a, by rwa [Store.authorizationByRun, ha], .refl a⟩
  settled x r _ _ := by rw [Store.authorizationByRun, Store.authorizationByRun, ha]
  usage x g h := ⟨g, by rwa [hg], .refl g, fun _ => rfl⟩
  mode := hm

theorem insert (s : Store) (r : ReservationRow) :
    Later s { s with reservations := s.reservations.insertOrIgnore r } where
  reservation x r' h := by
    refine ⟨r', ?_, .refl r', fun _ => rfl⟩
    exact find?_insertOrIgnore_of_some h
  authorization x a h := ⟨a, h, .refl a⟩
  settled _ _ _ _ := rfl
  usage _ g h := ⟨g, h, .refl g, fun _ => rfl⟩
  mode h := h

theorem insert_usage (s : Store) (g : GatewayUsageRow) :
    Later s { s with gatewayUsage := s.gatewayUsage.insertOrIgnore g } where
  reservation _ r h := ⟨r, h, .refl r, fun _ => rfl⟩
  authorization _ a h := ⟨a, h, .refl a⟩
  settled _ _ _ _ := rfl
  usage x g' h := by
    refine ⟨g', ?_, .refl g', fun _ => rfl⟩
    exact find?_insertOrIgnore_of_some h
  mode h := h

theorem insert_authorization (s : Store) (a : AuthorizationRow)
    (hr : ∀ r, s.reservationByRun a.runID = some r → r.status = .reserved) :
    Later s { s with authorizations := s.authorizations.insertOrIgnore a } where
  reservation _ r h := ⟨r, h, .refl r, fun _ => rfl⟩
  authorization x a' h := by
    refine ⟨a', ?_, .refl a'⟩
    exact find?_insertOrIgnore_of_some h
  settled x r hx hs := by
    have hne : a.runID ≠ x := by
      rintro rfl
      rw [hr r hx] at hs
      cases hs
    exact find?_insertOrIgnore_ne hne
  usage _ g h := ⟨g, h, .refl g, fun _ => rfl⟩
  mode h := h

theorem update_authorization (s : Store) (runID : String) (f : AuthorizationRow → AuthorizationRow)
    (hf : ∀ a, (f a).runID = a.runID) (he : ∀ a, s.authorizationByRun runID = some a → a.Extends (f a))
    (hr : ∀ r, s.reservationByRun runID = some r → r.status = .reserved) :
    Later s { s with authorizations := s.authorizations.update (fun a => a.runID = runID) f hf } where
  reservation _ r h := ⟨r, h, .refl r, fun _ => rfl⟩
  authorization x a h := by
    have h' : s.authorizations.find? x = some a := h
    have hx := (find?_eq_some.mp h').2
    refine ⟨if a.runID = runID then f a else a, ?_, ?_⟩
    · change (s.authorizations.update _ f hf).find? x = _
      rw [find?_update, h', Option.map_some]
    · split
      · rename_i hrun
        apply he
        rw [← hrun, hx]
        exact h
      · exact .refl a
  settled x r hx hs := by
    have hne : x ≠ runID := by
      rintro rfl
      rw [hr r hx] at hs
      cases hs
    change (s.authorizations.update _ f hf).find? x = s.authorizations.find? x
    rw [find?_update]
    cases ha : s.authorizations.find? x with
    | none => rfl
    | some =>
      have hrun := (find?_eq_some.mp ha).2
      rw [Option.map_some, if_neg (by rw [hrun]; exact hne)]
  usage _ g h := ⟨g, h, .refl g, fun _ => rfl⟩
  mode h := h

theorem update_reservation (s : Store) (p : ReservationRow → Prop) [DecidablePred p] (actual : Units)
    (settledAt : ℤ) (source : ReservationRow → Option SettleSource)
    (hp : ∀ r ∈ s.reservations, p r → r.status = .reserved) :
    Later s { s with
      reservations := s.reservations.update p (fun r => r.settle actual settledAt (source r))
        (fun r => r.runID_settle _ _ _) } where
  reservation x r h := by
    have h' : s.reservations.find? x = some r := h
    refine ⟨if p r then r.settle actual settledAt (source r) else r, ?_, ?_, ?_⟩
    · change (s.reservations.update p (fun r => r.settle actual settledAt (source r))
        (fun r => r.runID_settle _ _ _)).find? x = _
      rw [find?_update, h', Option.map_some]
    · split
      · exact .settle r _ _ _
      · exact .refl r
    · intro hs
      rw [if_neg]
      intro hpr
      rw [hp r (find?_eq_some.mp h').1 hpr] at hs
      cases hs
  authorization _ a h := ⟨a, h, .refl a⟩
  settled _ _ _ _ := rfl
  usage _ g h := ⟨g, h, .refl g, fun _ => rfl⟩
  mode h := h

theorem update_usage (s : Store) (p : GatewayUsageRow → Prop) [DecidablePred p] (runID : String)
    (hp : ∀ g, p g → g.matchedRunID = none) :
    Later s { s with
      gatewayUsage := s.gatewayUsage.update p (fun g => { g with matchedRunID := some runID }) } where
  reservation _ r h := ⟨r, h, .refl r, fun _ => rfl⟩
  authorization _ a h := ⟨a, h, .refl a⟩
  settled _ _ _ _ := rfl
  usage x g h := by
    refine ⟨if p g then { g with matchedRunID := some runID } else g, ?_, ?_, ?_⟩
    · rw [find?_update, h, Option.map_some]
    · split <;> rfl
    · intro hm
      rw [if_neg]
      intro hpg
      rw [hp g hpg] at hm
      cases hm
  mode h := h

end Later

end WorkAgent.Quota
