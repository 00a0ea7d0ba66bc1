import WorkAgent.Collaboration.Store

namespace WorkAgent.Collaboration

open Library
open Quota (Time)

structure Invite where
  id : String
  projectID : String
  inviterUserID : ℤ
  targetUserID : ℤ
  targetSID : String
  expiresAt : Time

structure OwnershipTransfer where
  id : String
  projectID : String
  toUserID : ℤ
  toSID : String

namespace Store

variable (s : Store)

def createProject (id : String) (ownerUserID : ℤ) (ownerSID name : String) (stamp : ℤ) :
    Except Error (Unit × Store) := do
  let projects ← s.projects.insertChecked True
    ⟨id, ownerUserID, ownerSID, name, .provisioning, none, stamp, stamp⟩ (.database "create shared project")
  let t := { s with projects := projects }
  let members ← t.insertMember ⟨id, ownerUserID, ownerSID, .owner, .accepted, false, stamp⟩
    (.database "create shared project owner")
  return ((), { t with members := members })

def setProvisioningResult (projectID : String) (active : Bool) (stamp : ℤ) : Except Error (Unit × Store) := do
  let projects ← s.projects.updateOne (fun p => p.id = trimSpace projectID ∧ p.state = .provisioning)
    (fun p => { p with state := if active then .active else .failed, updatedAt := stamp }) .conflict
  return ((), { s with projects := projects })

def abortProjectProvisioning (projectID : String) (ownerUserID : ℤ) : Except Error (Unit × Store) := do
  let p ← orError (s.project (trimSpace projectID)) .conflict
  require (p.ownerUserID = ownerUserID ∧ (p.state = .provisioning ∨ p.state = .failed)) .conflict
  let t ← s.deleteProject p.id
  return ((), t)

def renameProject (projectID : String) (ownerUserID : ℤ) (name : String) (stamp : ℤ) :
    Except Error (Unit × Store) := do
  let projects ← s.projects.updateOne
    (fun p => p.id = projectID ∧ p.ownerUserID = ownerUserID ∧ (p.state = .active ∨ p.state = .transferPending))
    (fun p => { p with name := name, updatedAt := stamp }) .forbidden
  return ((), { s with projects := projects })

def setHidden (projectID : String) (userID : ℤ) (hidden : Bool) : Except Error (Unit × Store) := do
  let members ← s.members.updateOne
    (fun m => m.projectID = projectID ∧ m.userID = userID ∧ m.state = .accepted)
    (fun m => { m with hidden := hidden }) .notFound
  return ((), { s with members := members })

def archiveProject (projectID : String) (ownerUserID : ℤ) (stamp : ℤ) : Except Error (Unit × Store) := do
  let projects ← s.projects.updateOne
    (fun p => p.id = projectID ∧ p.ownerUserID = ownerUserID ∧ p.state = .active)
    (fun p => { p with state := .archived, updatedAt := stamp }) .forbidden
  return ((), { s with projects := projects })

def expireInvites (p : InviteRow → Prop) [DecidablePred p] (stamp : ℤ) : Store :=
  { s with
    invites := s.invites.update (fun i => p i ∧ i.status = .pending ∧ i.expiresAt ≤ stamp)
      (fun i => { i with status := .expired, actedAt := some stamp }) }

def OpenInvite (i : InviteRow) : Prop := i.status = .pending ∨ i.status = .accepting

instance (i : InviteRow) : Decidable (OpenInvite i) := inferInstanceAs (Decidable (_ ∨ _))

def insertInvite (i : Invite) (stamp : ℤ) : Except Error (Unit × Store) := do
  let invites ← s.invites.insertChecked
    ((∃ p ∈ s.projects.rows, p.id = i.projectID) ∧
      ∀ x ∈ s.invites.rows, ¬ (x.projectID = i.projectID ∧ x.targetUserID = i.targetUserID ∧ OpenInvite x))
    ⟨i.id, i.projectID, i.inviterUserID, i.targetUserID, i.targetSID, .pending, i.expiresAt.unixMilli, stamp, none⟩
    (.database "create shared invite")
  return ((), { s with invites := invites })

def inviteAndProject (inviteID : String) : Option (InviteRow × ProjectRow) := do
  let i ← s.invites.find? inviteID
  let p ← s.project i.projectID
  some (i, p)

def Expired (expiresAt : ℤ) (now : Time) : Prop := expiresAt * 1000000 ≤ now.ns

instance (expiresAt : ℤ) (now : Time) : Decidable (Expired expiresAt now) := inferInstanceAs (Decidable (_ ≤ _))

def beginInviteAcceptance (inviteID : String) (targetUserID : ℤ) (now : Time) :
    Except Error (Except Error MemberRow × Store) := do
  let (i, p) ← orError (s.inviteAndProject inviteID) .notFound
  require (i.targetUserID = targetUserID) .forbidden
  require (i.status ≠ .expired) .inviteExpired
  require (i.status = .pending ∧ p.state = .active) .conflict
  if Expired i.expiresAt now then
    return (.error .inviteExpired, { s with
      invites := s.invites.update (fun x => x.id = inviteID ∧ x.status = .pending)
        (fun x => { x with status := .expired, actedAt := some now.unixMilli }) })
  else
    let m : MemberRow := ⟨i.projectID, targetUserID, i.targetSID, .member, .pendingACL, false, now.unixMilli⟩
    let members ← s.insertMember m .conflict
    let invites ← s.invites.updateOne (fun x => x.id = inviteID ∧ x.status = .pending)
      (fun x => { x with status := .accepting }) .conflict
    return (.ok m, { s with members := members, invites := invites })

def completeInviteAcceptance (inviteID : String) (targetUserID : ℤ) (stamp : ℤ) :
    Except Error (String × Store) := do
  let i ← orError (s.invites.find? inviteID) .conflict
  require (i.targetUserID = targetUserID ∧ i.status = .accepting) .conflict
  let members ← s.members.updateOne
    (fun m => m.projectID = i.projectID ∧ m.userID = targetUserID ∧ m.state = .pendingACL)
    (fun m => { m with state := .accepted }) .conflict
  let invites ← s.invites.updateOne
    (fun x => x.id = inviteID ∧ x.targetUserID = targetUserID ∧ x.status = .accepting)
    (fun x => { x with status := .accepted, actedAt := some stamp }) .conflict
  return (i.projectID, { s with members := members, invites := invites })

def abortInviteAcceptance (inviteID : String) (targetUserID : ℤ) (now : Time) (stamp : ℤ) :
    Except Error (Unit × Store) := do
  let i ← orError (s.invites.find? inviteID) .conflict
  require (i.targetUserID = targetUserID ∧ i.status = .accepting) .conflict
  let members ← s.members.deleteOne
    (fun m => m.projectID = i.projectID ∧ m.userID = targetUserID ∧ m.state = .pendingACL) .conflict
  let invites ← s.invites.updateOne (fun x => x.id = inviteID ∧ x.status = .accepting)
    (fun x => if Expired i.expiresAt now then { x with status := .expired, actedAt := some stamp }
      else { x with status := .pending, actedAt := none }) .conflict (by intro x; split <;> rfl)
  return ((), { s with members := members, invites := invites })

def declineInvite (inviteID : String) (targetUserID : ℤ) (stamp : ℤ) : Except Error (Unit × Store) := do
  let invites ← s.invites.updateOne
    (fun i => i.id = inviteID ∧ i.targetUserID = targetUserID ∧ i.status = .pending)
    (fun i => { i with status := .declined, actedAt := some stamp }) .forbidden
  return ((), { s with invites := invites })

def revokeInvite (inviteID : String) (ownerUserID : ℤ) (stamp : ℤ) : Except Error (Unit × Store) := do
  let invites ← s.invites.updateOne
    (fun i => i.id = inviteID ∧ i.status = .pending ∧
      ∃ p ∈ s.projects.rows, p.id = i.projectID ∧ p.ownerUserID = ownerUserID)
    (fun i => { i with status := .revoked, actedAt := some stamp }) .forbidden
  return ((), { s with invites := invites })

def MayRemove (p : ProjectRow) (requesterUserID targetUserID : ℤ) : Prop :=
  p.state = .active ∧ targetUserID ≠ p.ownerUserID ∧
    (requesterUserID = p.ownerUserID ∨ requesterUserID = targetUserID)

instance (p : ProjectRow) (requesterUserID targetUserID : ℤ) :
    Decidable (MayRemove p requesterUserID targetUserID) := inferInstanceAs (Decidable (_ ∧ _ ∧ _))

def beginMemberRemoval (projectID : String) (requesterUserID targetUserID : ℤ) :
    Except Error (MemberRow × Store) := do
  let p ← orError (s.project projectID) .notFound
  require (MayRemove p requesterUserID targetUserID) .forbidden
  let m ← orError (s.member projectID targetUserID) .notFound
  require (m.role = .member ∧ m.state = .accepted) .notFound
  let members ← s.members.updateOne
    (fun x => x.projectID = projectID ∧ x.userID = targetUserID ∧ x.state = .accepted)
    (fun x => { x with state := .removalPending }) .conflict
  return ({ m with state := .removalPending }, { s with members := members })

def authorizeMemberRemoval (projectID : String) (requesterUserID targetUserID : ℤ) : Except Error Unit := do
  let p ← orError (s.project projectID) .notFound
  require (MayRemove p requesterUserID targetUserID) .forbidden

def completeMemberRemoval (projectID : String) (targetUserID : ℤ) : Except Error (Unit × Store) := do
  let members ← s.members.deleteOne
    (fun m => m.projectID = projectID ∧ m.userID = targetUserID ∧ m.role = .member ∧ m.state = .removalPending)
    .conflict
  return ((), { s with members := members })

def abortMemberRemoval (projectID : String) (targetUserID : ℤ) : Except Error (Unit × Store) := do
  let members ← s.members.updateOne
    (fun m => m.projectID = projectID ∧ m.userID = targetUserID ∧ m.role = .member ∧ m.state = .removalPending)
    (fun m => { m with state := .accepted }) .conflict
  return ((), { s with members := members })

def Unfinalized (o : TransferRow) : Prop := o.state = .committed ∧ o.finalizedAt = none

instance (o : TransferRow) : Decidable (Unfinalized o) := inferInstanceAs (Decidable (_ ∧ _))

def beginOwnershipTransfer (equalFold : String → String → Bool) (transfer : OwnershipTransfer)
    (ownerUserID : ℤ) (stamp : ℤ) : Except Error (Unit × Store) := do
  let p ← orError (s.project transfer.projectID) .notFound
  require (p.ownerUserID = ownerUserID) .forbidden
  require (p.state ≠ .transferPending) .transferPending
  require (p.state = .active) .conflict
  require (∀ o ∈ s.transfers.rows, o.projectID = transfer.projectID → ¬ Unfinalized o) .transferPending
  let m ← orError (s.member transfer.projectID transfer.toUserID) .forbidden
  require (m.role = .member ∧ m.state = .accepted ∧ equalFold m.sid transfer.toSID = true) .forbidden
  let transfers ← s.transfers.insertChecked
    (∀ o ∈ s.transfers.rows, o.projectID = transfer.projectID → o.state ≠ .pending)
    ⟨transfer.id, transfer.projectID, ownerUserID, transfer.toUserID, transfer.toSID, .pending, stamp, stamp, none⟩
    (.database "begin ownership transfer")
  let projects ← s.projects.updateOne (fun x => x.id = transfer.projectID ∧ x.state = .active)
    (fun x => { x with state := .transferPending, pendingOwnerUserID := some transfer.toUserID, updatedAt := stamp })
    .conflict
  return ((), { s with transfers := transfers, projects := projects })

def completeOwnershipTransfer (transferID : String) (stamp : ℤ) : Except Error (TransferRow × Store) := do
  let o ← orError (s.transfers.find? transferID) .notFound
  require (o.state = .pending) .conflict
  let demoted ← s.members.updateOne
    (fun m => m.projectID = o.projectID ∧ m.userID = o.fromUserID ∧ m.role = .owner ∧ m.state = .accepted)
    (fun m => { m with role := .member }) .conflict
  let members ← demoted.updateOne
    (fun m => m.projectID = o.projectID ∧ m.userID = o.toUserID ∧ m.role = .member ∧ m.state = .accepted)
    (fun m => { m with role := .owner }) .conflict
  require (∀ m ∈ demoted.rows, m.projectID = o.projectID → m.role ≠ .owner) (.database "UNIQUE constraint failed")
  let projects ← s.projects.updateOne
    (fun p => p.id = o.projectID ∧ p.state = .transferPending ∧ p.pendingOwnerUserID = some o.toUserID)
    (fun p => { p with
      ownerUserID := o.toUserID, ownerSID := o.toSID, state := .active, pendingOwnerUserID := none
      updatedAt := stamp }) .conflict
  let transfers ← s.transfers.updateOne (fun x => x.id = transferID ∧ x.state = .pending)
    (fun x => { x with state := .committed, updatedAt := stamp }) .conflict
  return (o, { s with members := members, projects := projects, transfers := transfers })

def abortOwnershipTransfer (transferID : String) (stamp : ℤ) : Except Error (Unit × Store) := do
  let o ← orError (s.transfers.find? transferID) .notFound
  require (o.state = .pending) .notFound
  let projects ← s.projects.updateOne (fun p => p.id = o.projectID ∧ p.state = .transferPending)
    (fun p => { p with state := .active, pendingOwnerUserID := none, updatedAt := stamp }) .conflict
  let transfers ← s.transfers.updateOne (fun x => x.id = transferID ∧ x.state = .pending)
    (fun x => { x with state := .aborted, updatedAt := stamp }) .conflict
  return ((), { s with projects := projects, transfers := transfers })

def finalizeOwnershipTransfer (transferID : String) (stamp : ℤ) : Except Error (Unit × Store) := do
  let transfers ← s.transfers.updateOne (fun o => o.id = transferID ∧ o.state = .committed)
    (fun o => { o with finalizedAt := some (o.finalizedAt.getD stamp), updatedAt := stamp }) .conflict
  return ((), { s with transfers := transfers })

end Store

end WorkAgent.Collaboration
