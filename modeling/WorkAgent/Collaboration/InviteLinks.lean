import WorkAgent.Collaboration.Projects

namespace WorkAgent.Collaboration

open Library
open Quota (Time)

structure InviteLink where
  token : String
  projectID : String
  creatorUserID : ℤ
  maxUses : ℕ
  expiresAt : Time

namespace Store

variable (s : Store)

def insertInviteLink (l : InviteLink) (stamp : ℤ) : Except Error (Unit × Store) := do
  let inviteLinks ← s.inviteLinks.insertChecked (∃ p ∈ s.projects.rows, p.id = l.projectID)
    ⟨l.token, l.projectID, l.creatorUserID, l.maxUses, 0, .active, l.expiresAt.unixMilli, stamp, none⟩
    (.database "create shared invite link")
  return ((), { s with inviteLinks := inviteLinks })

def revokeInviteLink (token projectID : String) (ownerUserID : ℤ) (stamp : ℤ) : Except Error (Unit × Store) := do
  let inviteLinks ← s.inviteLinks.updateOne
    (fun l => l.token = token ∧ l.projectID = projectID ∧ l.creatorUserID = ownerUserID ∧ l.status = .active)
    (fun l => { l with status := .revoked, actedAt := some stamp }) .forbidden
  return ((), { s with inviteLinks := inviteLinks })

def linkAndProject (token : String) : Option (InviteLinkRow × ProjectRow) := do
  let l ← s.inviteLinks.find? token
  let p ← s.project l.projectID
  some (l, p)

def used (l : InviteLinkRow) (stamp : ℤ) : InviteLinkRow :=
  if 0 < l.maxUses ∧ l.maxUses ≤ l.useCount + 1 then
    { l with useCount := l.useCount + 1, status := .exhausted, actedAt := some stamp }
  else { l with useCount := l.useCount + 1, status := .active, actedAt := none }

def beginInviteLinkAcceptance (token : String) (userID : ℤ) (sid : String) (now : Time) :
    Except Error (MemberRow × Store) := do
  let (l, p) ← orError (s.linkAndProject token) .notFound
  require (l.status ≠ .revoked) .inviteLinkRevoked
  require (l.status ≠ .exhausted) .inviteLinkExhausted
  require (p.state = .active) .conflict
  require (¬ Expired l.expiresAt now) .inviteExpired
  let m : MemberRow := ⟨l.projectID, userID, sid, .member, .pendingACL, false, now.unixMilli⟩
  let members ← s.insertMember m .conflict
  let inviteLinks ← s.inviteLinks.updateOne
    (fun x => x.token = token ∧ x.status = .active ∧ x.useCount = l.useCount)
    (fun x => used x now.unixMilli) .conflict (by intro x; unfold used; split <;> rfl)
  return (m, { s with members := members, inviteLinks := inviteLinks })

theorem key_accepted (m : MemberRow) : { m with state := .accepted }.key = m.key := rfl

def completeInviteLinkAcceptance (token : String) (userID : ℤ) : Except Error (String × Store) := do
  let l ← orError (s.inviteLinks.find? token) .notFound
  let members ← s.members.updateOne
    (fun m => m.projectID = l.projectID ∧ m.userID = userID ∧ m.state = .pendingACL)
    (fun m => { m with state := .accepted }) .conflict key_accepted
  return (l.projectID, { s with members := members })

def restored (l : InviteLinkRow) : InviteLinkRow :=
  if l.status = .exhausted ∧ l.useCount < l.maxUses + 1 then
    { l with useCount := l.useCount - 1, status := .active, actedAt := none }
  else { l with useCount := l.useCount - 1 }

def abortInviteLinkAcceptance (token : String) (userID : ℤ) : Except Error (Unit × Store) := do
  let l ← orError (s.inviteLinks.find? token) .notFound
  let members ← s.members.deleteOne
    (fun m => m.projectID = l.projectID ∧ m.userID = userID ∧ m.state = .pendingACL) .conflict
  require (0 < l.useCount) (.database "CHECK constraint failed")
  let inviteLinks ← s.inviteLinks.updateOne (fun x => x.token = token) restored .conflict
    (by intro x; unfold restored; split <;> rfl)
  return ((), { s with members := members, inviteLinks := inviteLinks })

end Store

end WorkAgent.Collaboration
