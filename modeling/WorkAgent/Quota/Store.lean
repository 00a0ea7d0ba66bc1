import WorkAgent.Library.Table
import WorkAgent.Library.Sums
import WorkAgent.Quota.Calendar

namespace WorkAgent.Quota

open Library

structure Units where
  val : Int64
  nonneg : 0 ≤ val.toInt
  deriving DecidableEq

namespace Units

def check (n : Int64) : Option Units := if h : 0 ≤ n.toInt then some ⟨n, h⟩ else none

def toInt (u : Units) : ℤ := u.val.toInt

def zero : Units := ⟨0, by decide⟩

theorem check_eq_some {n : Int64} {u : Units} : check n = some u ↔ u.val = n := by
  unfold check
  constructor
  · intro h
    split at h
    · cases h; rfl
    · cases h
  · rintro rfl
    rw [dif_pos u.nonneg]

end Units

inductive QuotaError
  | budgetNotConfigured
  | exceeded
  | idempotencyConflict
  | reservationNotFound
  | modelUnauthorized
  | usageStale
  | usagePending
  | runNotAccepted
  | runAccepted
  | text (message : String)
  | wrapped (context : String)
  deriving DecidableEq

def QuotaError.message : QuotaError → String
  | .budgetNotConfigured => "quota budget is not configured"
  | .exceeded => "quota exceeded"
  | .idempotencyConflict => "quota idempotency conflict"
  | .reservationNotFound => "quota reservation not found"
  | .modelUnauthorized => "model is not authorized"
  | .usageStale => "gateway usage is unavailable or stale"
  | .usagePending => "gateway usage settlement is pending"
  | .runNotAccepted => "quota run was not accepted"
  | .runAccepted => "accepted quota run awaits runtime completion"
  | .text message => message
  | .wrapped context => context

def speechTranscriptionModelID : String := "speech-transcription"

inductive Status
  | reserved
  | settled
  deriving DecidableEq

inductive SettleSource
  | gateway
  | estimated
  deriving DecidableEq

inductive Scope
  | personal
  | shared
  deriving DecidableEq

structure BudgetRow where
  sid : String
  modelID : String
  period : Period
  limitUnits : Units

def BudgetRow.key (r : BudgetRow) : String × String := (r.sid, r.modelID)

structure OverrideRow where
  sid : String
  modelID : String
  period : Period
  periodKey : String
  limitUnits : Units

def OverrideRow.key (r : OverrideRow) : String × String := (r.sid, r.modelID)

structure ReservationRow where
  runID : String
  sid : String
  modelID : String
  period : Period
  periodKey : String
  reservedUnits : Units
  actualUnits : Option Units
  status : Status
  createdAt : ℤ
  settledAt : Option ℤ
  settleSource : Option SettleSource
  engine : String
  actual_iff : actualUnits.isSome ↔ status = .settled
  source_settled : settleSource.isSome → status = .settled

namespace ReservationRow

def settle (r : ReservationRow) (actual : Units) (settledAt : ℤ) (source : Option SettleSource) :
    ReservationRow :=
  { r with
    status := .settled
    actualUnits := some actual
    settledAt := some settledAt
    settleSource := source
    actual_iff := by simp
    source_settled := fun _ => rfl }

@[simp] theorem runID_settle (r : ReservationRow) (actual : Units) (settledAt : ℤ)
    (source : Option SettleSource) : (r.settle actual settledAt source).runID = r.runID := rfl

theorem source_none {r : ReservationRow} (h : r.status = .reserved) : r.settleSource = none := by
  cases hs : r.settleSource with
  | none => rfl
  | some =>
    have := r.source_settled (by simp [hs])
    rw [h] at this
    cases this

end ReservationRow

structure GatewayUsageRow where
  requestID : String
  sid : String
  provider : String
  model : String
  aliasName : String
  endpoint : String
  authType : String
  failed : Bool
  inputTokens : Units
  outputTokens : Units
  reasoningTokens : Units
  cachedTokens : Units
  totalTokens : Units
  occurredAt : ℤ
  drainedAt : ℤ
  matchedRunID : Option String

structure HoldRow where
  runID : String
  releaseAfterMs : ℤ

structure RunOwnerRow where
  runID : String
  sid : String

structure AuthorizationRow where
  runID : String
  ownerSID : String
  scope : Scope
  engine : String
  modelCandidates : List String
  acceptedAt : Option ℤ
  settlementUnits : Option Units
  completedAt : Option ℤ

structure DollarBudget where
  sid : String
  pool : String
  dailyLimitUSD : ℚ
  weeklyLimitUSD : ℚ
  dailyUSD : ℚ
  weeklyUSD : ℚ
  updatedAt : Time

def DollarBudget.key (r : DollarBudget) : String × String := (r.sid, r.pool)

structure Store where
  budgets : Table BudgetRow.key
  overrides : Table OverrideRow.key
  reservations : Table ReservationRow.runID
  gatewayUsage : Table GatewayUsageRow.requestID
  checkpoint : Option ℤ
  holds : Table HoldRow.runID
  runOwners : Table RunOwnerRow.runID
  authorizations : Table AuthorizationRow.runID
  dollarBudgets : Table DollarBudget.key
  gatewayAccounting : Bool

def Store.empty : Store where
  budgets := .empty
  overrides := .empty
  reservations := .empty
  gatewayUsage := .empty
  checkpoint := none
  holds := .empty
  runOwners := .empty
  authorizations := .empty
  dollarBudgets := .empty
  gatewayAccounting := false

structure AuthorizedModel where
  id : String
  providerID : String
  aliases : List String

/-- The model authorization port; `listAuthorized` is there when it also exposes the catalog. -/
structure Authorizer where
  authorized : String → String → Except String Bool
  listAuthorized : Option (String → Except String (List AuthorizedModel))

/-- What an operation meets outside the database: the readings of its clock and the port. -/
structure Env where
  now : ℕ → Time
  authorizer : Option Authorizer

structure ReserveRequest where
  runID : String
  sid : String
  modelID : String
  estimatedUnits : Int64
  atTime : Time
  engine : String

structure Reservation where
  accepted : Bool
  alreadyAccepted : Bool
  runID : String
  sid : String
  modelID : String
  engine : String
  period : Period
  periodKey : String
  reservedUnits : Units
  actualUnits : Option Units
  status : Status

def ReservationRow.reservation (r : ReservationRow) : Reservation where
  accepted := false
  alreadyAccepted := false
  runID := r.runID
  sid := r.sid
  modelID := r.modelID
  engine := r.engine
  period := r.period
  periodKey := r.periodKey
  reservedUnits := r.reservedUnits
  actualUnits := r.actualUnits
  status := r.status

structure SettleRequest where
  runID : String
  actualUnits : Int64

structure Usage where
  limitUnits : Units
  consumedUnits : Int64
  reservedUnits : Int64
  period : Period
  periodKey : String

def isBlank (text : String) : Bool := text.toList.all Char.isWhitespace

def validateSID (sid : String) : Except QuotaError Unit :=
  if "S-1-".toList.isPrefixOf sid.toList then .ok () else .error (.text "quota SID is invalid")

def validateReserve (request : ReserveRequest) : Except QuotaError Unit := do
  if request.engine ≠ "" ∧ request.engine ≠ "codex" ∧ request.engine ≠ "kimi" ∧
      request.engine ≠ "harness" ∧ request.engine ≠ "acp" then
    throw (.text "invalid quota engine")
  if isBlank request.runID then
    throw (.text "quota run ID is required")
  validateSID request.sid
  if isBlank request.modelID then
    throw (.text "quota model ID is required")
  if request.estimatedUnits < 0 then
    throw (.text "reserved quota usage cannot be negative")

namespace Store

variable (s : Store)

def budgetFor (sid modelID : String) (time : Time) : Except QuotaError (Period × Units) :=
  match s.budgets.find? (sid, modelID) with
  | none => .error .budgetNotConfigured
  | some b =>
    match s.overrides.find? (sid, modelID) with
    | some o =>
      if o.period = b.period ∧ o.periodKey = periodKey b.period time then .ok (b.period, o.limitUnits)
      else .ok (b.period, b.limitUnits)
    | none => .ok (b.period, b.limitUnits)

def window (sid modelID : String) (period : Period) (key : String) : List ReservationRow :=
  s.reservations.rows.filter
    (fun r => r.sid = sid ∧ r.modelID = modelID ∧ r.period = period ∧ r.periodKey = key)

def settledUnits (r : ReservationRow) : Int64 :=
  if r.status = .settled then (r.actualUnits.map Units.val).getD 0 else 0

def openUnits (r : ReservationRow) : Int64 := if r.status = .reserved then r.reservedUnits.val else 0

def selectSum (context : String) (column : List Int64) : Except QuotaError Int64 :=
  match sumChecked column with
  | some n => .ok n
  | none => .error (.wrapped context)

def usageFor (sid modelID : String) (period : Period) (key : String) (limit : Units) :
    Except QuotaError Usage := do
  let consumed ← selectSum "read quota usage" ((s.window sid modelID period key).map settledUnits)
  let reserved ← selectSum "read quota usage" ((s.window sid modelID period key).map openUnits)
  return { limitUnits := limit, consumedUnits := consumed, reservedUnits := reserved,
           period := period, periodKey := key }

def reservationByRun (runID : String) : Option ReservationRow := s.reservations.find? runID

def through : ℤ := s.checkpoint.getD 0

/-- `COALESCE(r.sid,g.sid)` over `LEFT JOIN quota_reservations r ON r.run_id=g.matched_run_id`. -/
def chargedSID (g : GatewayUsageRow) : String :=
  match g.matchedRunID.bind s.reservationByRun with
  | some r => r.sid
  | none => g.sid

structure AccountingScope where
  id : String
  models : List String

def AccountingScope.names (scope : AccountingScope) (g : GatewayUsageRow) : Prop :=
  g.model ∈ scope.models ∨ g.aliasName ∈ scope.models

instance (scope : AccountingScope) (g : GatewayUsageRow) : Decidable (scope.names g) :=
  inferInstanceAs (Decidable (_ ∨ _))

def charges (sid : String) (scope : AccountingScope) (period : Period) (time : Time) :
    List GatewayUsageRow :=
  s.gatewayUsage.rows.filter (fun g => s.chargedSID g = sid ∧
    (gatewayPeriodStart period time).unix ≤ g.occurredAt ∧ g.occurredAt ≤ time.unix ∧ scope.names g)

def tokens (rows : List GatewayUsageRow) : List Int64 := rows.map (fun g => g.totalTokens.val)

theorem tokens_nonneg (rows : List GatewayUsageRow) : ∀ x ∈ tokens rows, 0 ≤ x.toInt := by
  intro x hx
  obtain ⟨g, -, rfl⟩ := List.mem_map.mp hx
  exact g.totalTokens.nonneg

def estimates (sid : String) (scope : AccountingScope) (period : Period) (time : Time) :
    List ReservationRow :=
  s.reservations.rows.filter (fun r => r.sid = sid ∧ r.period = period ∧
    r.periodKey = periodKey period time ∧ r.engine = "acp" ∧ r.status = .settled ∧
    r.modelID ∈ scope.models)

def held (r : ReservationRow) : Prop :=
  ∃ h ∈ s.holds.rows, h.runID = r.runID ∧ s.through < h.releaseAfterMs

instance (r : ReservationRow) : Decidable (s.held r) := inferInstanceAs (Decidable (∃ _ ∈ _, _))

def admissions (sid : String) (scope : AccountingScope) : List ReservationRow :=
  s.reservations.rows.filter (fun r => r.sid = sid ∧ r.modelID ∈ scope.models ∧
    (r.status = .reserved ∨ s.held r))

def gatewayUsageFor (sid : String) (scope : AccountingScope) (period : Period) (time : Time)
    (limit : Units) : Except QuotaError Usage := do
  let consumed ← selectSum "" (tokens (s.charges sid scope period time))
  let estimated ← selectSum "" ((s.estimates sid scope period time).map settledUnits)
  let reserved ← selectSum "" ((s.admissions sid scope).map (fun r => r.reservedUnits.val))
  return { limitUnits := limit, consumedUnits := consumed + estimated, reservedUnits := reserved,
           period := period, periodKey := periodKey period time }

def ensureGatewayFresh (sid : String) (time : Time) : Except QuotaError Unit :=
  if 10000 < time.unixMilli - s.through then .error .usageStale
  else if s.reservations.rows.any (fun r => r.sid = sid ∧ s.held r) then .error .usagePending
  else .ok ()

def checkDollarAdmission (r : ReserveRequest) : Except QuotaError Bool :=
  let pool := if r.engine = "kimi" ∨ "kimi".toList.isPrefixOf r.modelID.toList then "kimi" else "codex"
  match s.dollarBudgets.find? (r.sid, pool) with
  | none => .ok false
  | some b =>
    if 15 * Time.second < r.atTime.ns - b.updatedAt.ns then .error .usageStale
    else if b.dailyLimitUSD ≤ b.dailyUSD ∨ b.weeklyLimitUSD ≤ b.weeklyUSD then .error .exceeded
    else .ok true

end Store

def engineProvider (id : String) : String :=
  if id = "codex-native" ∨ id = "harness-default" then "codex"
  else if id = "kimi-native" then "kimi"
  else ""

def scopeCandidates (models : List AuthorizedModel) (m : AuthorizedModel) : List String :=
  let provider := engineProvider m.id
  m.id :: m.aliases ++
    if provider = "" then []
    else (if provider = "codex" then ["harness-default", "codex-native"] else []) ++
      (models.filter (fun actual => actual.providerID = provider)).flatMap
        (fun actual => actual.id :: actual.aliases)

namespace Authorizer

def accountingScopes (a : Authorizer) (sid : String) : Except QuotaError (List Store.AccountingScope) :=
  match a.listAuthorized with
  | none => .error (.text "gateway accounting requires the model catalog")
  | some list =>
    match list sid with
    | .error e => .error (.text e)
    | .ok models => .ok (models.map (fun m =>
        ⟨m.id, (List.insertionSort (· ≤ ·) (scopeCandidates models m)).destutter (· ≠ ·)⟩))

def modelCandidates (a : Authorizer) (sid modelID : String) : List String :=
  match a.listAuthorized with
  | none => [modelID]
  | some list =>
    match list sid with
    | .error _ => [modelID]
    | .ok models => modelID :: (models.filter (fun m => m.id = modelID)).flatMap
        (fun m => m.aliases.filter (fun name => name ≠ "" ∧ name ≠ modelID))

end Authorizer

end WorkAgent.Quota
