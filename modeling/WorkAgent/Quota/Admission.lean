import WorkAgent.Quota.Store
import WorkAgent.Library.Interleaving

namespace WorkAgent.Quota

open Library

structure RunAuthorization where
  ownerSID : String
  scope : Scope
  engine : String

def ReserveRequest.dated (request : ReserveRequest) (env : Env) : ReserveRequest :=
  if request.atTime.IsZero then { request with atTime := env.now 0 } else request

def ReserveRequest.applies (request : ReserveRequest) (scope : Store.AccountingScope) : Prop :=
  ¬ ((scope.id = "harness-default" ∧ request.engine ≠ "harness" ∧ request.modelID ≠ "harness-default") ∨
      (scope.id = "codex-native" ∧ (request.engine = "harness" ∨ request.modelID = "harness-default"))) ∧
    (scope.id = request.modelID ∨ request.modelID ∈ scope.models)

instance (request : ReserveRequest) (scope : Store.AccountingScope) :
    Decidable (request.applies scope) := inferInstanceAs (Decidable (_ ∧ _))

namespace Store

variable (s : Store)

def chargedByGateway (modelID engine : String) : Prop :=
  s.gatewayAccounting = true ∧ modelID ≠ speechTranscriptionModelID ∧ engine ≠ "acp"

instance (modelID engine : String) : Decidable (s.chargedByGateway modelID engine) :=
  inferInstanceAs (Decidable (_ ∧ _))

def authorizationByRun (runID : String) : Option AuthorizationRow := s.authorizations.find? runID

def authorizationRow (runID : String) (a : RunAuthorization) (candidates : List String) :
    AuthorizationRow where
  runID := runID
  ownerSID := a.ownerSID
  scope := a.scope
  engine := a.engine
  modelCandidates := candidates
  acceptedAt := none
  settlementUnits := none
  completedAt := none

def persistRunAuthorization (runID : String) (a : RunAuthorization) (candidates : List String)
    (create : Bool) : Except QuotaError Store :=
  match s.authorizationByRun runID with
  | some existing =>
    if existing.ownerSID ≠ a.ownerSID ∨ existing.scope ≠ a.scope ∨ existing.engine ≠ a.engine then
      .error .idempotencyConflict
    else .ok s
  | none =>
    if create then
      .ok { s with authorizations := s.authorizations.insertOrIgnore (authorizationRow runID a candidates) }
    else .error .reservationNotFound

def scopesFor (a : Authorizer) (request : ReserveRequest) : Except QuotaError (List AccountingScope) :=
  if s.gatewayAccounting = true ∧ request.modelID ≠ speechTranscriptionModelID then
    a.accountingScopes request.sid
  else .ok []

def ownUsage (request : ReserveRequest) (scopes : List AccountingScope) (period : Period)
    (limit : Units) : Except QuotaError Usage := do
  let usage ← s.usageFor request.sid request.modelID period (periodKey period request.atTime) limit
  if request.engine = "acp" ∧ s.gatewayAccounting = true then
    match scopes.find? (fun scope => scope.id = request.modelID) with
    | some scope => s.gatewayUsageFor request.sid scope period request.atTime limit
    | none => return usage
  else return usage

def checkScopes (request : ReserveRequest) : List AccountingScope → Bool → Except QuotaError Bool
  | [], checked => .ok checked
  | scope :: scopes, checked =>
    if request.applies scope then
      match s.budgetFor request.sid scope.id request.atTime with
      | .error e =>
        if e = .budgetNotConfigured ∧ scope.id ≠ request.modelID then checkScopes request scopes checked
        else .error e
      | .ok (period, cap) => do
        let actual ← s.gatewayUsageFor request.sid scope period request.atTime cap
        if cap.val ≤ actual.consumedUnits + actual.reservedUnits ∨
            cap.val < actual.consumedUnits + actual.reservedUnits + request.estimatedUnits then
          throw .exceeded
        else checkScopes request scopes true
    else checkScopes request scopes checked

def checkGateway (request : ReserveRequest) (scopes : List AccountingScope) : Except QuotaError Unit := do
  s.ensureGatewayFresh request.sid request.atTime
  let dollarChecked ← s.checkDollarAdmission request
  -- A dollar pool replaces the token caps: the loop leaves at its first scope.
  let checked ← if dollarChecked then .ok true else s.checkScopes request scopes false
  if checked then return ()
  else throw .budgetNotConfigured

def checkAdmission (a : Authorizer) (request : ReserveRequest) : Except QuotaError Period := do
  match a.authorized request.sid request.modelID with
  | .error _ => throw (.wrapped "authorize quota model")
  | .ok false => throw .modelUnauthorized
  | .ok true =>
    let scopes ← s.scopesFor a request
    let (period, limit) ← s.budgetFor request.sid request.modelID request.atTime
    let usage ← s.ownUsage request scopes period limit
    if limit.val < usage.consumedUnits + usage.reservedUnits + request.estimatedUnits ∧
        (s.gatewayAccounting = false ∨ request.modelID = speechTranscriptionModelID ∨
          request.engine = "acp") then
      throw .exceeded
    else if s.chargedByGateway request.modelID request.engine then
      s.checkGateway request scopes
      return period
    else return period

def reservationRow (request : ReserveRequest) (period : Period) (units : Units) : ReservationRow where
  runID := request.runID
  sid := request.sid
  modelID := request.modelID
  period := period
  periodKey := Quota.periodKey period request.atTime
  reservedUnits := units
  actualUnits := none
  status := .reserved
  createdAt := request.atTime.unix
  settledAt := none
  settleSource := none
  engine := request.engine
  actual_iff := by simp
  source_settled := by simp

def conflicts (existing : ReservationRow) (request : ReserveRequest) : Prop :=
  existing.sid ≠ request.sid ∨ existing.modelID ≠ request.modelID ∨
    existing.reservedUnits.val ≠ request.estimatedUnits ∨
    ((existing.engine = "acp" ∨ request.engine = "acp") ∧ existing.engine ≠ request.engine)

instance (existing : ReservationRow) (request : ReserveRequest) : Decidable (conflicts existing request) :=
  inferInstanceAs (Decidable (_ ∨ _))

/-- The transaction of `reserveAuthorized`; the flag says that the reservation was there before. -/
def reserve (a : Authorizer) (request : ReserveRequest) (authorization : Option RunAuthorization) :
    Except QuotaError ((Reservation × Bool) × Store) :=
  match s.reservationByRun request.runID with
  | some existing =>
    if conflicts existing request then .error .idempotencyConflict
    else
      match authorization with
      | some auth => do
        let t ← s.persistRunAuthorization request.runID auth [] false
        return ((existing.reservation, true), t)
      | none => .ok ((existing.reservation, true), s)
  | none => do
    let period ← s.checkAdmission a request
    match Units.check request.estimatedUnits with
    | none => throw (.wrapped "persist quota reservation")
    | some units =>
      let row := reservationRow request period units
      let t := { s with reservations := s.reservations.insertOrIgnore row }
      match authorization with
      | some auth => do
        let t ← t.persistRunAuthorization request.runID auth
          (a.modelCandidates request.sid request.modelID) true
        return ((row.reservation, false), t)
      | none => return ((row.reservation, false), t)

end Store

end WorkAgent.Quota
