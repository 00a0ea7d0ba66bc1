import WorkAgent.Library.Stretches
import WorkAgent.Collaboration.Operations

namespace WorkAgent.Collaboration

open Library
open Quota (Time)

def Launched (p : ProjectRow) : Prop := p.state ≠ .provisioning ∧ p.state ≠ .failed

structure Later (s t : Store) : Prop where
  launched : ∀ id p, s.project id = some p → Launched p → ∃ q, t.project id = some q ∧ Launched q
  lastSeq : s.lastSeq ≤ t.lastSeq

theorem Later.refl (s : Store) : Later s s := ⟨fun _ p h hp => ⟨p, h, hp⟩, Nat.le_refl _⟩

theorem Later.trans {s t u : Store} (h : Later s t) (h' : Later t u) : Later s u := by
  refine ⟨?_, Nat.le_trans h.lastSeq h'.lastSeq⟩
  intro id p hp hl
  obtain ⟨q, hq, hlq⟩ := h.launched id p hp hl
  exact h'.launched id q hq hlq

def Op.runID : Op → Option String
  | .reserveAIRun runID _ _ => some runID
  | .reserveAssistantRun runID _ _ _ => some runID
  | _ => none

def Op.trigger : Op → Option Trigger
  | .reserveAIRun _ message _ => some message
  | .reserveAssistantRun _ message _ _ => some message
  | _ => none

def Op.newConversation : Op → Option NewConversation
  | .createConversation c _ => some c.normal
  | .defaultConversation projectID _ => some (discussion projectID).normal
  | _ => none

def Op.finishes : Op → Option AIRun
  | .finishAIRun run _ => some run
  | _ => none

/-- The operations whose answer `done` or handle comes with the one stretch in which they write. -/
def Op.Commits : Op → Prop
  | .beginMemberRemoval .. | .completeMemberRemoval .. | .abortMemberRemoval .. => True
  | .beginInviteLinkAcceptance .. | .abortInviteLinkAcceptance .. => True
  | .addMessage .. | .messageByID .. => True
  | .reserveAIRun .. | .reserveAssistantRun .. | .finishAIRun .. | .stopAssistantRun .. => True
  | _ => False

structure Admitted (started : List Call) (returned : List (Call × Outcome)) (i : Call) : Prop where
  name : ∀ j ∈ started, j.name ≠ i.name
  runID : ∀ id, i.op.runID = some id → ∀ j ∈ started, j.op.runID ≠ some id
  trigger : ∀ message, i.op.trigger = some message →
    ∃ j r, (j, .ok (.message r)) ∈ returned ∧ message = ⟨r.seq, r.id, r.conversationID⟩
  finishes : ∀ run, i.op.finishes = some run → ∃ j, (j, .ok (.run run)) ∈ returned

def system : System Store Call Outcome :=
  ⟨.empty, Call.prog, Admitted, fun s t => ∃ stamp, s.reopened stamp = .ok t⟩

theorem allowedAll_of_plain {c : Config Store Call Outcome} {l : List Call}
    (hnew : ∀ i ∈ l, ∀ j ∈ c.started, j.name ≠ i.name) (hnodup : (l.map Call.name).Nodup)
    (hplain : ∀ i ∈ l, i.op.runID = none ∧ i.op.trigger = none ∧ i.op.finishes = none) : system.AllowedAll c l := by
  induction l generalizing c with
  | nil => trivial
  | cons i l ih =>
    obtain ⟨hid, htrigger, hfinishes⟩ := hplain i List.mem_cons_self
    rw [List.map_cons, List.nodup_cons] at hnodup
    refine ⟨⟨hnew i List.mem_cons_self, ?_, ?_, ?_⟩, ih ?_ hnodup.2 (fun j hj => hplain j (List.mem_cons_of_mem i hj))⟩
    · intro _ h
      rw [hid] at h
      cases h
    · intro _ h
      rw [htrigger] at h
      cases h
    · intro _ h
      rw [hfinishes] at h
      cases h
    · intro j hj k hk hname
      rcases List.mem_cons.mp hk with rfl | hk
      · exact hnodup.1 (hname ▸ List.mem_map_of_mem hj)
      · exact hnew j (List.mem_cons_of_mem i hj) k hk hname

inductive MemberEffect (env : Env) (s t : Store) : Op → Option Outcome → Prop
  | createProject (id owner sid name a)
      (h : s.createProject (trimSpace id) owner sid (trimSpace name) (env.stamp 0) = .ok ((), t)) :
      MemberEffect env s t (.createProject id owner sid name) a
  | setProvisioningResult (id active a) (h : s.setProvisioningResult id active (env.stamp 0) = .ok ((), t)) :
      MemberEffect env s t (.setProvisioningResult id active) a
  | abortProjectProvisioning (id owner a) (h : s.abortProjectProvisioning id owner = .ok ((), t)) :
      MemberEffect env s t (.abortProjectProvisioning id owner) a
  | renameProject (id owner name a) (h : s.renameProject id owner (trimSpace name) (env.stamp 0) = .ok ((), t)) :
      MemberEffect env s t (.renameProject id owner name) a
  | setHidden (id user hidden a) (h : s.setHidden id user hidden = .ok ((), t)) :
      MemberEffect env s t (.setHidden id user hidden) a
  | archiveProject (id owner a) (h : s.archiveProject id owner (env.stamp 0) = .ok ((), t)) :
      MemberEffect env s t (.archiveProject id owner) a
  | beginInviteAcceptance (id target x a) (h : s.beginInviteAcceptance id target (env.now 0) = .ok (x, t)) :
      MemberEffect env s t (.beginInviteAcceptance id target) a
  | completeInviteAcceptance (id target x a)
      (h : s.completeInviteAcceptance id target (env.stamp 0) = .ok (x, t)) :
      MemberEffect env s t (.completeInviteAcceptance id target) a
  | abortInviteAcceptance (id target a)
      (h : s.abortInviteAcceptance id target (env.now 0) (env.stamp 1) = .ok ((), t)) :
      MemberEffect env s t (.abortInviteAcceptance id target) a
  | beginMemberRemoval (id requester target m) (h : s.beginMemberRemoval id requester target = .ok (m, t)) :
      MemberEffect env s t (.beginMemberRemoval id requester target) (some (.ok (.member m)))
  | completeMemberRemoval (id requester target) (h : s.completeMemberRemoval id target = .ok ((), t)) :
      MemberEffect env s t (.completeMemberRemoval id requester target) (some (.ok .done))
  | abortMemberRemoval (id requester target) (h : s.abortMemberRemoval id target = .ok ((), t)) :
      MemberEffect env s t (.abortMemberRemoval id requester target) (some (.ok .done))
  | beginOwnershipTransfer (transfer owner a)
      (h : s.beginOwnershipTransfer env.equalFold transfer owner (env.stamp 0) = .ok ((), t)) :
      MemberEffect env s t (.beginOwnershipTransfer transfer owner) a
  | completeOwnershipTransfer (id o a) (h : s.completeOwnershipTransfer id (env.stamp 0) = .ok (o, t)) :
      MemberEffect env s t (.completeOwnershipTransfer id) a
  | abortOwnershipTransfer (id a) (h : s.abortOwnershipTransfer id (env.stamp 0) = .ok ((), t)) :
      MemberEffect env s t (.abortOwnershipTransfer id) a
  | finalizeOwnershipTransfer (id a) (h : s.finalizeOwnershipTransfer id (env.stamp 0) = .ok ((), t)) :
      MemberEffect env s t (.finalizeOwnershipTransfer id) a
  | beginInviteLinkAcceptance (token user sid m)
      (h : s.beginInviteLinkAcceptance token user sid (env.now 0) = .ok (m, t)) :
      MemberEffect env s t (.beginInviteLinkAcceptance token user sid) (some (.ok (.member m)))
  | completeInviteLinkAcceptance (token user x a) (h : s.completeInviteLinkAcceptance token user = .ok (x, t)) :
      MemberEffect env s t (.completeInviteLinkAcceptance token user) a
  | abortInviteLinkAcceptance (token user) (h : s.abortInviteLinkAcceptance token user = .ok ((), t)) :
      MemberEffect env s t (.abortInviteLinkAcceptance token user) (some (.ok .done))

inductive InviteEffect (env : Env) (s t : Store) : Op → Option Outcome → Prop
  | expire (op a) (p : InviteRow → Prop) [DecidablePred p] (hop : ¬ op.Commits)
      (h : t = s.expireInvites p (env.stamp 0)) : InviteEffect env s t op a
  | create (i a) (h : s.insertInvite i (env.stamp 0) = .ok ((), t)) : InviteEffect env s t (.createInvite i) a
  | decline (id target a) (h : s.declineInvite id target (env.stamp 0) = .ok ((), t)) :
      InviteEffect env s t (.declineInvite id target) a
  | revoke (id owner a) (h : s.revokeInvite id owner (env.stamp 0) = .ok ((), t)) :
      InviteEffect env s t (.revokeInvite id owner) a
  | createLink (l a p) (hp : s.project (trimSpace l.projectID) = some p) (hl : Launched p)
      (h : s.insertInviteLink l (env.stamp 0) = .ok ((), t)) : InviteEffect env s t (.createInviteLink l) a
  | revokeLink (token id owner a) (h : s.revokeInviteLink token id owner (env.stamp 0) = .ok ((), t)) :
      InviteEffect env s t (.revokeInviteLink token id owner) a

inductive ConversationEffect (env : Env) (s t : Store) : Op → Option Outcome → Prop
  | create (op a c p) (hop : op.newConversation = some c)
      (hp : s.project (trimSpace c.projectID) = some p) (hl : Launched p)
      (h : s.insertConversation c (env.stamp 0) = .ok ((), t)) : ConversationEffect env s t op a
  | seedAssistant (op a r) (hop : ¬ op.Commits) (h : s.seedAssistant r = .ok ((), t)) :
      ConversationEffect env s t op a
  | seedSession (op a id assistant key) (hop : ¬ op.Commits)
      (h : s.seedSession ⟨id, assistant, key, 0⟩ = .ok ((), t)) : ConversationEffect env s t op a
  | setHidden (id user hidden a) (h : s.setConversationHidden id user hidden = .ok ((), t)) :
      ConversationEffect env s t (.setConversationHidden id user hidden) a
  | metadata (id user name pinned hidden a)
      (h : s.updateConversationMetadata (trimSpace id) user (name.map trimSpace) pinned hidden (env.stamp 0)
        (env.stamp 1) = .ok ((), t)) :
      ConversationEffect env s t (.updateConversationMetadata id user name pinned hidden) a
  | delete (id user a) (h : s.deleteConversation (trimSpace id) user = .ok ((), t)) :
      ConversationEffect env s t (.deleteConversation id user) a
  | addMessage (m m' user r) (h : s.addMessage m' user (env.stamp 0) = .ok (r, t)) :
      ConversationEffect env s t (.addMessage m user) none
  | touch (m user id r) (hpos : 0 < r.seq) (hseq : r.seq ≤ s.lastSeq)
      (h : s.touchConversation id (env.stamp 0) = .ok ((), t)) :
      ConversationEffect env s t (.addMessage m user) (some (.ok (.message r)))
  | found (id conversation user r) (hr : r ∈ s.messages) (h : t = s) :
      ConversationEffect env s t (.messageByID id conversation user) (some (.ok (.message r)))
  | inviteAssistant (op a x) (hop : ¬ op.Commits) (h : s.insertAssistant x (env.stamp 0) = .ok ((), t)) :
      ConversationEffect env s t op a
  | updateAssistant (op a project assistant model effort) (hop : ¬ op.Commits)
      (h : s.updateAssistant project assistant model effort = .ok ((), t)) : ConversationEffect env s t op a
  | updateModels (op a project assistant model effort) (hop : ¬ op.Commits)
      (h : s.updateConversationModels project assistant model effort = .ok ((), t)) : ConversationEffect env s t op a
  | removeAssistant (project assistant user a) (h : s.removeAssistant project assistant = .ok ((), t)) :
      ConversationEffect env s t (.removeAssistant project assistant user) a

inductive RunEffect (env : Env) (s t : Store) : Op → Option Outcome → Prop
  | reserve (op runID message payer assistant run) (hid : op.runID = some runID)
      (hmessage : op.trigger = some message) (hpos : 0 < message.seq)
      (h : s.reserveAssistantRun runID message payer assistant env.sessionKey (env.stamp 0) = .ok (run, t)) :
      RunEffect env s t op (some (.ok (.run run)))
  | finish (run result m) (h : s.finishAIRun run result.normal (env.stamp 0) = .ok (m, t)) :
      RunEffect env s t (.finishAIRun run result) (some (.ok (.message m)))
  | stop (id assistant user message run m)
      (h : s.stopAssistantRun id assistant user message (env.stamp 0) = .ok ((run, m), t)) :
      RunEffect env s t (.stopAssistantRun id assistant user message) (some (.ok (.stopped run m)))

inductive TaskEffect (env : Env) (s t : Store) : Op → Option Outcome → Prop
  | submit (o a) (h : s.insertTask (o.submitted.row (env.stamp 0)) = .ok ((), t)) :
      TaskEffect env s t (.beginPersonalTask o) a
  | record (o id a) (h : s.recordPersonalTaskSession o id (env.stamp 0) = .ok ((), t)) :
      TaskEffect env s t (.recordPersonalTaskSession o id) a
  | complete (o a) (h : s.completePersonalTaskCreation o (env.stamp 0) = .ok ((), t)) :
      TaskEffect env s t (.completePersonalTaskCreation o) a
  | enroll (id user sid project name runtime a)
      (h : s.insertTask ⟨id, user, sid, project, name, "{}", runtime, .deleting, "", env.stamp 0⟩ = .ok ((), t)) :
      TaskEffect env s t (.beginPersonalTaskDeletion id user sid) a
  | mark (id user sid a) (h : s.markTaskDeleting id user (env.stamp 1) = .ok ((), t)) :
      TaskEffect env s t (.beginPersonalTaskDeletion id user sid) a
  | completeDeletion (o a) (h : s.completePersonalTaskDeletion o (env.stamp 0) = .ok ((), t)) :
      TaskEffect env s t (.completePersonalTaskDeletion o) a
  | setError (o code rejected a) (h : s.setPersonalTaskError o code rejected (env.stamp 0) = .ok ((), t)) :
      TaskEffect env s t (.setPersonalTaskError o code rejected) a

inductive Effect (env : Env) (op : Op) (a : Option Outcome) (s t : Store) : Prop
  | same (h : t = s) (ha : ∀ x, a = some (.ok x) → ¬ op.Commits)
  | member (h : MemberEffect env s t op a)
  | invite (h : InviteEffect env s t op a)
  | conversation (h : ConversationEffect env s t op a)
  | run (h : RunEffect env s t op a)
  | task (h : TaskEffect env s t op a)

end WorkAgent.Collaboration
