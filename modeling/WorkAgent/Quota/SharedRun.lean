import WorkAgent.Quota.Settlement

namespace WorkAgent.Quota

open Library

structure SharedRunQuotaRequest where
  runID : String
  ownerSID : String
  payerSID : String
  modelID : String
  engine : String
  estimatedUnits : Int64

structure SharedRunIdentity where
  runID : String
  ownerSID : String
  payerSID : String
  engine : String

structure PendingQuotaRun where
  runID : String
  payerSID : String
  ownerSID : String
  legacy : Bool

namespace Store

variable (s : Store)

def setRunOwner (runID sid : String) : Store :=
  { s with runOwners := s.runOwners.upsert ⟨runID, sid⟩ (fun o => { o with sid := sid }) }

def accept (runID : String) (acceptedAt : ℤ) : Store :=
  { s with
    authorizations := s.authorizations.update (fun a => a.runID = runID)
      (fun a => { a with acceptedAt := some (a.acceptedAt.getD acceptedAt) }) }

def claimRuntime (env : Env) (sid payerSID : String) (r : ReserveRequest) :
    Except QuotaError (Option Reservation × Store) :=
  match s.reservationByRun r.runID with
  | none => if payerSID ≠ "" then .error .reservationNotFound else .ok (none, s)
  | some existing =>
    match s.authorizationByRun r.runID with
    | none => .error .reservationNotFound
    | some a =>
      if a.ownerSID ≠ sid ∨ (payerSID ≠ "" ∧ payerSID ≠ existing.sid) then .error .reservationNotFound
      else if existing.modelID ≠ r.modelID ∨ existing.reservedUnits.val ≠ r.estimatedUnits ∨
          (r.engine ≠ "" ∧ a.engine ≠ r.engine) then
        .error .idempotencyConflict
      else
        match existing.status with
        | .reserved =>
          .ok (some { existing.reservation with alreadyAccepted := a.acceptedAt.isSome, accepted := true },
            (s.accept r.runID (env.now 0).unixMilli).setRunOwner r.runID sid)
        | .settled => .ok (some { existing.reservation with accepted := a.acceptedAt.isSome }, s)

def lookupRuntimeRun (sid runID : String) : Except QuotaError Reservation :=
  match s.reservationByRun runID, s.authorizationByRun runID with
  | some r, some a =>
    if a.ownerSID ≠ sid then .error .reservationNotFound
    else .ok { r.reservation with accepted := a.acceptedAt.isSome }
  | _, _ => .error .reservationNotFound

def cancelUnacceptedSharedRun (env : Env) (payerSID runID : String) : Except QuotaError Store :=
  match s.reservationByRun runID with
  | none => .error .reservationNotFound
  | some r =>
    if r.sid ≠ payerSID then .error .reservationNotFound
    else
      match s.authorizationByRun runID with
      | none => .error .reservationNotFound
      | some a =>
        if a.scope ≠ .shared then .error .reservationNotFound
        else if r.status = .settled then .ok s
        else if a.acceptedAt.isSome then .error .runAccepted
        else .ok { s with
          reservations := s.reservations.update (fun r => r.runID = runID)
            (fun r => r.settle .zero (env.now 0).unix r.settleSource) (fun r => r.runID_settle _ _ _) }

def pendingSharedRuns : List PendingQuotaRun :=
  s.reservations.rows.filterMap (fun r =>
    match r.status, s.authorizationByRun r.runID with
    | .reserved, some a =>
      if a.scope = .shared then some ⟨r.runID, r.sid, a.ownerSID, false⟩ else none
    | .reserved, none => some ⟨r.runID, r.sid, "", true⟩
    | .settled, _ => none)

def bindOwner (runID ownerSID : String) (acceptedAt : ℤ) : Store :=
  ({ s with
    authorizations := s.authorizations.update (fun a => a.runID = runID)
      (fun a => { a with acceptedAt := some acceptedAt }) }).setRunOwner runID ownerSID

def recoverSharedRunAuthorization (env : Env) (r : SharedRunIdentity) : Except QuotaError Store :=
  match s.reservationByRun r.runID with
  | none => .error .reservationNotFound
  | some reservation =>
    if reservation.sid ≠ r.payerSID then .error .reservationNotFound
    else if reservation.status = .settled then .ok s
    else
      match s.authorizationByRun r.runID with
      | some a =>
        if a.ownerSID ≠ r.ownerSID ∨ a.scope ≠ .shared ∨ a.engine ≠ r.engine then
          .error .idempotencyConflict
        else .ok s
      | none => do
        let t ← s.persistRunAuthorization r.runID ⟨r.ownerSID, .shared, r.engine⟩ [] true
        return t.bindOwner r.runID r.ownerSID (env.now 0).unixMilli

structure PendingSettlement where
  runID : String
  owner : String
  units : Units

def pendingSettlements : List PendingSettlement :=
  s.authorizations.rows.filterMap (fun a =>
    match a.settlementUnits, s.reservationByRun a.runID with
    | some units, some r => if r.status = .reserved then some ⟨a.runID, a.ownerSID, units⟩ else none
    | _, _ => none)

end Store

end WorkAgent.Quota
