import WorkAgent.Quota.Admission

namespace WorkAgent.Quota

open Library

structure GatewayUsageRecord where
  requestID : String
  sid : String
  provider : String
  model : String
  aliasName : String
  endpoint : String
  authType : String
  failed : Bool
  inputTokens : Int64
  outputTokens : Int64
  reasoningTokens : Int64
  cachedTokens : Int64
  totalTokens : Int64
  occurredAt : Time

namespace Store

variable (s : Store)

def markGatewayDrained (started : Time) : Store :=
  { s with checkpoint := some (match s.checkpoint with
      | none => started.unixMilli
      | some through => max through started.unixMilli) }

def usageRow (env : Env) (record : GatewayUsageRecord) (input output reasoning cached sum : Units) :
    GatewayUsageRow where
  requestID := record.requestID
  sid := record.sid
  provider := record.provider
  model := record.model
  aliasName := record.aliasName
  endpoint := record.endpoint
  authType := record.authType
  failed := record.failed
  inputTokens := input
  outputTokens := output
  reasoningTokens := reasoning
  cachedTokens := cached
  totalTokens := sum
  occurredAt := record.occurredAt.unix
  drainedAt := (env.now 0).unix
  matchedRunID := none

def recordGatewayUsage (env : Env) (record : GatewayUsageRecord) : Except QuotaError Store :=
  if isBlank record.requestID then .error (.text "gateway usage request ID is required")
  else
    match validateSID record.sid with
    | .error e => .error e
    | .ok () =>
      match Units.check record.inputTokens, Units.check record.outputTokens,
        Units.check record.reasoningTokens, Units.check record.cachedTokens,
        Units.check record.totalTokens with
      | some input, some output, some reasoning, some cached, some sum =>
        if record.occurredAt.IsZero then .error (.text "gateway usage timestamp is required")
        else
          .ok { s with gatewayUsage :=
            s.gatewayUsage.insertOrIgnore (usageRow env record input output reasoning cached sum) }
      | _, _, _, _, _ => .error (.text "gateway usage tokens cannot be negative")

def gatewayOwner (r : ReservationRow) : String :=
  match s.runOwners.find? r.runID with
  | some owner => owner.sid
  | none => r.sid

def candidates (env : Env) (r : ReservationRow) : List String :=
  let frozen := match s.authorizationByRun r.runID with
    | some a => a.modelCandidates
    | none => []
  if frozen ≠ [] then frozen
  else
    match env.authorizer with
    | some a => a.modelCandidates r.sid r.modelID
    | none => [r.modelID]

def completed (env : Env) (r : ReservationRow) : ℤ :=
  match (s.authorizationByRun r.runID).bind AuthorizationRow.completedAt with
  | some ms => ms.tdiv 1000
  | none => (env.now 2).unix

def matchSkew : ℤ := 120

def Matches (env : Env) (r : ReservationRow) (g : GatewayUsageRow) : Prop :=
  g.matchedRunID = none ∧ (g.model ∈ s.candidates env r ∨ g.aliasName ∈ s.candidates env r) ∧
    if s.gatewayAccounting = true then
      g.sid = s.gatewayOwner r ∧ r.createdAt ≤ g.occurredAt ∧ g.occurredAt ≤ s.completed env r
    else
      g.sid = r.sid ∧ g.failed = false ∧ r.createdAt - matchSkew ≤ g.occurredAt ∧
        g.occurredAt ≤ (env.now 2).unix + matchSkew

instance (env : Env) (r : ReservationRow) : DecidablePred (s.Matches env r) :=
  fun _ => inferInstanceAs (Decidable (_ ∧ _))

def matching (env : Env) (r : ReservationRow) : List GatewayUsageRow :=
  s.gatewayUsage.rows.filter (s.Matches env r)

def pin (env : Env) (r : ReservationRow) : Store :=
  { s with
    gatewayUsage := s.gatewayUsage.update (s.Matches env r)
      (fun g => { g with matchedRunID := some r.runID }) }

def matchGatewayUsage (env : Env) (r : ReservationRow) : Option Int64 × Store :=
  if s.matching env r = [] then (none, s)
  else
    (some (sumWrap (tokens (s.matching env r))), s.pin env r)

def authorizeSettlement (sid runtimeSID : String) (r : ReservationRow) : Except QuotaError Unit := do
  if runtimeSID ≠ "" then
    match s.authorizationByRun r.runID with
    | none => throw .reservationNotFound
    | some a =>
      if a.ownerSID ≠ runtimeSID then
        throw .reservationNotFound
      if a.scope = .shared ∧ a.acceptedAt = none ∧ r.status ≠ .settled then
        throw .runNotAccepted
  if sid ≠ "" ∧ r.sid ≠ sid then
    throw .reservationNotFound

def replaySettlement (r : ReservationRow) (request : SettleRequest) : Except QuotaError Unit :=
  if s.chargedByGateway r.modelID r.engine then .ok ()
  else if r.actualUnits.map Units.val = some request.actualUnits then .ok ()
  else .error .idempotencyConflict

def freeze (runtimeSID runID : String) (actual : Units) (completedAt : ℤ) : Units × Store :=
  if runtimeSID = "" then (actual, s)
  else
    (((s.authorizationByRun runID).bind AuthorizationRow.settlementUnits).getD actual,
      { s with
        authorizations := s.authorizations.update (fun a => a.runID = runID) (fun a =>
          { a with
            settlementUnits := some (a.settlementUnits.getD actual)
            completedAt := some (a.completedAt.getD completedAt) }) })

def hold (runID : String) (releaseAfterMs : ℤ) : Store :=
  { s with holds := s.holds.insertOrIgnore ⟨runID, releaseAfterMs⟩ }

def drained (runID : String) : Prop :=
  ∀ h, s.holds.find? runID = some h → h.releaseAfterMs ≤ s.through

instance (runID : String) : Decidable (s.drained runID) :=
  match h : s.holds.find? runID with
  | none => isTrue (by intro x hx; rw [h] at hx; cases hx)
  | some r => decidable_of_iff (r.releaseAfterMs ≤ s.through)
      ⟨fun hr x hx => by rw [h] at hx; cases hx; exact hr, fun hd => hd r h⟩

def close (runID : String) (actual : Units) (settledAt : ℤ) (source : Option SettleSource) : Store :=
  { s with
    reservations := s.reservations.update (fun r => r.runID = runID ∧ r.status = .reserved)
      (fun r => r.settle actual settledAt source) (fun r => r.runID_settle _ _ _) }

def settleAmount (env : Env) (r : ReservationRow) (actual : Units) :
    (Int64 × Option SettleSource) × Store :=
  if r.engine ≠ "acp" ∧ r.modelID ≠ speechTranscriptionModelID ∧
      (s.gatewayAccounting = false ∨ s.gatewayOwner r ≠ r.sid) then
    match s.matchGatewayUsage env r with
    | (some tokens, t) => ((tokens, some .gateway), t)
    | (none, t) => ((actual.val, some .estimated), t)
  else if r.engine = "acp" then ((actual.val, some .estimated), s)
  else ((actual.val, none), s)

def settleNow (env : Env) (r : ReservationRow) (actual : Units) : Except QuotaError Store := do
  let ((amount, source), t) := s.settleAmount env r actual
  match Units.check amount with
  | none => throw (.wrapped "settle quota reservation")
  | some units =>
    let t := t.close r.runID units (env.now 3).unix source
    if s.chargedByGateway r.modelID r.engine then
      return t.hold r.runID (env.now 4).unixMilli
    else return t

def settleReserved (env : Env) (runtimeSID : String) (r : ReservationRow) (actual : Units) :
    Except QuotaError (Except QuotaError Unit × Store) := do
  let (actual, s) := s.freeze runtimeSID r.runID actual (env.now 0).unixMilli
  let waits := s.chargedByGateway r.modelID r.engine ∧ s.gatewayOwner r ≠ r.sid
  let s := if waits then s.hold r.runID (env.now 1).unixMilli else s
  if waits ∧ ¬ s.drained r.runID then
    return (.error .usagePending, s)
  else
    let t ← s.settleNow env r actual
    return (.ok (), t)

def settle (env : Env) (sid runtimeSID : String) (runID : String) (actual : Units) :
    Except QuotaError (Except QuotaError Unit × Store) :=
  match s.reservationByRun runID with
  | none => .error .reservationNotFound
  | some r => do
    s.authorizeSettlement sid runtimeSID r
    match r.status with
    | .settled => do
      s.replaySettlement r ⟨runID, actual.val⟩
      return (.ok (), s)
    | .reserved => s.settleReserved env runtimeSID r actual

end Store

end WorkAgent.Quota
