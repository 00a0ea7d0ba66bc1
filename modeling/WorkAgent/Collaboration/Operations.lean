import WorkAgent.Collaboration.PersonalTasks

namespace WorkAgent.Collaboration

open Library
open Quota (Time)

inductive Op
  | createProject (id : String) (ownerUserID : ℤ) (ownerSID name : String)
  | setProvisioningResult (projectID : String) (active : Bool)
  | abortProjectProvisioning (projectID : String) (ownerUserID : ℤ)
  | projectForUser (projectID : String) (userID : ℤ) (includeHidden : Bool)
  | renameProject (projectID : String) (ownerUserID : ℤ) (name : String)
  | setHidden (projectID : String) (userID : ℤ) (hidden : Bool)
  | archiveProject (projectID : String) (ownerUserID : ℤ)
  | createInvite (invite : Invite)
  | beginInviteAcceptance (inviteID : String) (targetUserID : ℤ)
  | completeInviteAcceptance (inviteID : String) (targetUserID : ℤ)
  | abortInviteAcceptance (inviteID : String) (targetUserID : ℤ)
  | declineInvite (inviteID : String) (targetUserID : ℤ)
  | revokeInvite (inviteID : String) (ownerUserID : ℤ)
  | invitesForTarget (targetUserID : ℤ)
  | projectInvites (projectID : String) (userID : ℤ)
  | beginMemberRemoval (projectID : String) (requesterUserID targetUserID : ℤ)
  | completeMemberRemoval (projectID : String) (requesterUserID targetUserID : ℤ)
  | abortMemberRemoval (projectID : String) (requesterUserID targetUserID : ℤ)
  | beginOwnershipTransfer (transfer : OwnershipTransfer) (ownerUserID : ℤ)
  | completeOwnershipTransfer (transferID : String)
  | abortOwnershipTransfer (transferID : String)
  | finalizeOwnershipTransfer (transferID : String)
  | createInviteLink (link : InviteLink)
  | revokeInviteLink (token projectID : String) (ownerUserID : ℤ)
  | beginInviteLinkAcceptance (token : String) (userID : ℤ) (sid : String)
  | completeInviteLinkAcceptance (token : String) (userID : ℤ)
  | abortInviteLinkAcceptance (token : String) (userID : ℤ)
  | createConversation (conversation : NewConversation) (userID : ℤ)
  | defaultConversation (projectID : String) (userID : ℤ)
  | conversationForUser (conversationID : String) (userID : ℤ) (includeHidden : Bool)
  | setConversationHidden (conversationID : String) (userID : ℤ) (hidden : Bool)
  | updateConversationMetadata (conversationID : String) (userID : ℤ) (name : Option String)
      (pinned hidden : Option Bool)
  | deleteConversation (conversationID : String) (userID : ℤ)
  | updateConversationRuntime (conversationID : String) (userID : ℤ) (modelID thinkingEffort : String)
  | bindAssistant (conversationID : String) (userID : ℤ) (assistantID backend modelID effort : String)
  | addMessage (message : NewMessage) (userID : ℤ)
  | messageByID (id conversationID : String) (userID : ℤ)
  | inviteAssistant (member : NewAssistant) (userID : ℤ)
  | updateAssistantSettings (projectID assistantID : String) (userID : ℤ) (model effort : String)
  | removeAssistant (projectID assistantID : String) (userID : ℤ)
  | reserveAIRun (runID : String) (message : Trigger) (payerUserID : ℤ)
  | reserveAssistantRun (runID : String) (message : Trigger) (payerUserID : ℤ) (assistantID : String)
  | finishAIRun (run : AIRun) (result : RunResult)
  | stopAssistantRun (conversationID assistantID : String) (userID : ℤ) (messageID : String)
  | beginPersonalTask (op : PersonalTask)
  | personalTaskOperation (id : String) (userID : ℤ)
  | recordPersonalTaskSession (op : PersonalTask) (sessionID : String)
  | completePersonalTaskCreation (op : PersonalTask)
  | beginPersonalTaskDeletion (id : String) (userID : ℤ) (sid : String)
  | completePersonalTaskDeletion (op : PersonalTask)
  | setPersonalTaskError (op : PersonalTask) (code : String) (rejected : Bool)

inductive Answer
  | done
  | project (project : Project)
  | member (member : MemberRow)
  | invite (invite : InviteRow)
  | invites (invites : List InviteRow)
  | inviteLink (link : InviteLinkRow)
  | transfer (transfer : TransferRow)
  | conversation (conversation : Conversation)
  | message (message : MessageRow)
  | assistant (member : AssistantMember)
  | run (run : AIRun)
  | stopped (run : AIRun) (message : MessageRow)
  | task (op : PersonalTask)

abbrev Outcome := Except Error Answer

abbrev Action (α : Type) := Prog Store (Except Error α)

def query {α : Type} (f : Store → Except Error α) : Action α := Prog.read f

def guarded {α : Type} (check : Except Error Unit) (next : Action α) : Action α :=
  match check with
  | .ok _ => next
  | .error e => .fail e

def answer {α : Type} (p : Action α) (f : α → Answer) : Action Answer := p.andThen (fun a => .ret (.ok (f a)))

def write (body : Store → Except Error (Unit × Store)) : Action Answer := answer (.transaction body) (fun _ => .done)

section Projects

variable (env : Env)

def readProject (projectID : String) (userID : ℤ) (includeHidden : Bool) : Action Answer :=
  answer (query (fun s => s.projectForUser projectID userID includeHidden)) .project

def createProject (id : String) (ownerUserID : ℤ) (ownerSID name : String) : Action Answer :=
  guarded (require (stableID (trimSpace id) ∧ 0 < ownerUserID ∧ validSID ownerSID ∧ trimSpace name ≠ "" ∧
      (trimSpace name).utf8ByteSize ≤ 128) (.text "invalid shared project"))
    ((Prog.transaction (fun s => s.createProject (trimSpace id) ownerUserID ownerSID (trimSpace name)
      (env.stamp 0))).andThen (fun _ => readProject (trimSpace id) ownerUserID true))

def renameProject (projectID : String) (ownerUserID : ℤ) (name : String) : Action Answer :=
  guarded (require (trimSpace name ≠ "" ∧ (trimSpace name).utf8ByteSize ≤ 128)
      (.text "invalid shared project name"))
    ((Prog.transaction (fun s => s.renameProject projectID ownerUserID (trimSpace name) (env.stamp 0))).andThen
      (fun _ => readProject projectID ownerUserID true))

def ownedProject (projectID : String) (userID : ℤ) (s : Store) : Except Error Project :=
  match s.projectForUser projectID userID true with
  | .ok p => if p.currentRole = .owner ∧ p.state = .active then .ok p else .error .forbidden
  | .error _ => .error .forbidden

def readInvite (id : String) : Action Answer :=
  answer (query (fun s => orError (s.inviteAndProject id) .notFound)) (fun x => .invite x.1)

def createInvite (i : Invite) : Action Answer :=
  guarded (require (stableID i.id ∧ 0 < i.inviterUserID ∧ 0 < i.targetUserID ∧
      i.inviterUserID ≠ i.targetUserID ∧ validSID i.targetSID ∧ ¬ i.expiresAt.IsZero)
      (.text "invalid shared invite"))
    ((query (ownedProject i.projectID i.inviterUserID)).andThen fun _ =>
      (query (fun s => require (s.member i.projectID i.targetUserID = none) .memberExists)).andThen fun _ =>
      (Prog.transaction (fun s => .ok ((), s.expireInvites
        (fun x => x.projectID = i.projectID ∧ x.targetUserID = i.targetUserID) (env.stamp 0)))).andThen fun _ =>
      (query (fun s => require (∀ x ∈ s.invites.rows, ¬ (x.projectID = i.projectID ∧
        x.targetUserID = i.targetUserID ∧ Store.OpenInvite x)) .invitePending)).andThen fun _ =>
      guarded (require ((env.now 0).ns < i.expiresAt.ns) .inviteExpired)
        ((Prog.transaction (fun s => s.insertInvite i (env.stamp 0))).andThen fun _ => readInvite i.id))

def beginInviteAcceptance (inviteID : String) (targetUserID : ℤ) : Action Answer :=
  (Prog.transaction (fun s => s.beginInviteAcceptance inviteID targetUserID (env.now 0))).andThen
    (fun result => .ret (result.map .member))

def completeInviteAcceptance (inviteID : String) (targetUserID : ℤ) : Action Answer :=
  (Prog.transaction (fun s => s.completeInviteAcceptance inviteID targetUserID (env.stamp 0))).andThen
    (fun projectID => readProject projectID targetUserID true)

def invitesForTarget (targetUserID : ℤ) : Action Answer :=
  (Prog.transaction (fun s => .ok ((), s.expireInvites (fun x => x.targetUserID = targetUserID)
    (env.stamp 0)))).andThen fun _ =>
  answer (query (fun s => .ok (s.invites.rows.filter
    (fun i => i.targetUserID = targetUserID ∧ i.status = .pending)))) .invites

def projectInvites (projectID : String) (userID : ℤ) : Action Answer :=
  (query (fun s => s.projectForUser projectID userID true)).andThen fun p =>
  guarded (require (p.currentRole = .owner) .forbidden)
    ((Prog.transaction (fun s => .ok ((), s.expireInvites (fun x => x.projectID = projectID)
      (env.stamp 0)))).andThen fun _ =>
    answer (query (fun s => .ok (s.invites.rows.filter (fun i => i.projectID = projectID)))) .invites)

def beginMemberRemoval (projectID : String) (requesterUserID targetUserID : ℤ) : Action Answer :=
  guarded (require (0 < requesterUserID ∧ 0 < targetUserID) .forbidden)
    (answer (.transaction (fun s => s.beginMemberRemoval projectID requesterUserID targetUserID)) .member)

def completeMemberRemoval (projectID : String) (requesterUserID targetUserID : ℤ) : Action Answer :=
  (query (fun s => s.authorizeMemberRemoval projectID requesterUserID targetUserID)).andThen fun _ =>
    write (fun s => s.completeMemberRemoval projectID targetUserID)

def abortMemberRemoval (projectID : String) (requesterUserID targetUserID : ℤ) : Action Answer :=
  (query (fun s => s.authorizeMemberRemoval projectID requesterUserID targetUserID)).andThen fun _ =>
    write (fun s => s.abortMemberRemoval projectID targetUserID)

def beginOwnershipTransfer (transfer : OwnershipTransfer) (ownerUserID : ℤ) : Action Answer :=
  guarded (require (stableID transfer.id ∧ 0 < transfer.toUserID ∧ transfer.toUserID ≠ ownerUserID ∧
      validSID transfer.toSID) (.text "invalid ownership transfer"))
    ((Prog.transaction (fun s => s.beginOwnershipTransfer env.equalFold transfer ownerUserID
      (env.stamp 0))).andThen fun _ =>
    answer (query (fun s => orError (s.transfers.find? transfer.id) .notFound)) .transfer)

def completeOwnershipTransfer (transferID : String) : Action Answer :=
  (Prog.transaction (fun s => s.completeOwnershipTransfer transferID (env.stamp 0))).andThen
    (fun o => readProject o.projectID o.toUserID true)

end Projects

section InviteLinks

variable (env : Env)

def createInviteLink (l : InviteLink) : Action Answer :=
  guarded (require (stableID l.token ∧ 0 < l.creatorUserID ∧ ¬ l.expiresAt.IsZero)
      (.text "invalid shared invite link"))
    ((query (ownedProject l.projectID l.creatorUserID)).andThen fun _ =>
      guarded (require ((env.now 0).ns < l.expiresAt.ns) .inviteExpired)
        ((Prog.transaction (fun s => s.insertInviteLink l (env.stamp 0))).andThen fun _ =>
        answer (query (fun s => orError (s.linkAndProject l.token) .notFound)) (fun x => .inviteLink x.1)))

def beginInviteLinkAcceptance (token : String) (userID : ℤ) (sid : String) : Action Answer :=
  guarded (require (0 < userID ∧ validSID sid) .forbidden)
    (answer (.transaction (fun s => s.beginInviteLinkAcceptance token userID sid (env.now 0))) .member)

def completeInviteLinkAcceptance (token : String) (userID : ℤ) : Action Answer :=
  (Prog.transaction (fun s => s.completeInviteLinkAcceptance token userID)).andThen
    (fun projectID => readProject projectID userID true)

end InviteLinks

section Conversations

variable (env : Env)

def readConversation (conversationID : String) (userID : ℤ) : Action Answer :=
  answer (query (fun s => s.conversationForUser conversationID userID true)) .conversation

def seedConversationAssistant (c : NewConversation) : Action Unit :=
  if c.assistantID = "" then .ret (.ok ())
  else (Prog.transaction (fun s => s.seedAssistant ⟨c.projectID, c.assistantID, c.assistantID, c.assistantBackend,
      c.modelID, c.thinkingEffort, .accepted, env.stamp 1⟩)).andThen fun _ =>
    Prog.transaction (fun s => s.seedSession ⟨c.id, c.assistantID, "session-shared-" ++ c.id, 0⟩)

def activeProject (projectID : String) (userID : ℤ) (s : Store) : Except Error Unit :=
  match s.projectForUser projectID userID true with
  | .ok p => require (p.state = .active) .forbidden
  | .error _ => .error .forbidden

def createConversation (c : NewConversation) (userID : ℤ) : Action Answer :=
  guarded c.normal.validate
    ((query (activeProject c.normal.projectID userID)).andThen fun _ =>
      (Prog.transaction (fun s => s.insertConversation c.normal (env.stamp 0))).andThen fun _ =>
      (seedConversationAssistant env c.normal).andThen fun _ => readConversation c.normal.id userID)

def orElse {α : Type} (p : Action α) (next : Error → Action α) : Action α :=
  p.bind (fun
    | .ok a => .ret (.ok a)
    | .error e => next e)

def discussion (projectID : String) : NewConversation :=
  ⟨"discussion_" ++ projectID, projectID, "项目讨论", .discussion, 0, "", "", "", "", ""⟩

def defaultConversation (projectID : String) (userID : ℤ) : Action Answer :=
  orElse (readConversation ("discussion_" ++ projectID) userID) fun e =>
    if e ≠ .notFound then .fail e
    else orElse (createConversation env (discussion projectID) userID)
      (fun _ => readConversation ("discussion_" ++ projectID) userID)

def setConversationHidden (conversationID : String) (userID : ℤ) (hidden : Bool) : Action Answer :=
  (query (fun s => s.conversationForUser conversationID userID true)).andThen fun _ =>
  (Prog.transaction (fun s => s.setConversationHidden conversationID userID hidden)).andThen fun _ =>
  readConversation conversationID userID

def validName : Option String → Bool
  | none => true
  | some name => name ≠ "" ∧ name.utf8ByteSize ≤ 128

def updateConversationMetadata (conversationID : String) (userID : ℤ) (name : Option String)
    (pinned hidden : Option Bool) : Action Answer :=
  guarded (require (name ≠ none ∨ pinned ≠ none ∨ hidden ≠ none) (.text "shared conversation update is empty"))
    (guarded (require (validName (name.map trimSpace) = true) (.text "shared conversation name is invalid"))
      ((Prog.transaction (fun s => s.updateConversationMetadata (trimSpace conversationID) userID
        (name.map trimSpace) pinned hidden (env.stamp 0) (env.stamp 1))).andThen fun _ =>
      readConversation (trimSpace conversationID) userID))

def addMessage (m : NewMessage) (userID : ℤ) : Action Answer :=
  let m := { m with id := trimSpace m.id, body := trimSpace m.body, authorName := trimSpace m.authorName }
  guarded (require (stableID m.id ∧ m.body ≠ "" ∧ m.body.utf8ByteSize ≤ 128 * 1024 ∧ m.authorName ≠ "" ∧
      m.kind = .user) (.text "invalid shared message"))
    ((query (fun s => s.conversationForUser m.conversationID userID true)).andThen fun _ =>
      (Prog.transaction (fun s => s.addMessage m userID (env.stamp 0))).andThen fun r =>
      answer (.transaction (fun s => s.touchConversation m.conversationID (env.stamp 0))) (fun _ => .message r))

def messageByID (id conversationID : String) (userID : ℤ) : Action Answer :=
  (query (fun s => s.conversationForUser conversationID userID true)).andThen fun _ =>
  answer (query (fun s => orError (s.messages.rows.find? (fun m => m.id = id ∧ m.conversationID = conversationID ∧
    m.authorUserID = some userID)) .notFound)) .message

end Conversations

section Assistants

variable (env : Env)

def projectOfOwner (projectID : String) (userID : ℤ) : Action Project :=
  (query (fun s => s.projectForUser projectID userID true)).andThen fun p =>
  guarded (require (p.currentRole = .owner) .forbidden) (.ret (.ok p))

def assistantMember (projectID assistantID : String) (userID : ℤ) : Action (Option AssistantMember) :=
  (query (fun s => s.projectForUser projectID userID true)).andThen fun _ =>
  query (fun s => .ok ((s.assistantMembers projectID "").find? (fun a => a.row.assistantID = assistantID)))

def NewAssistant.normal (a : NewAssistant) : NewAssistant :=
  { a with assistantID := trimSpace a.assistantID, name := trimSpace a.name }

def checkRejoin (a : NewAssistant) (s : Store) : Except Error Unit :=
  match s.assistants.find? (a.projectID, a.assistantID) with
  | none => .ok ()
  | some x =>
    if x.backend ≠ a.backend then .error .assistantLocked
    else if x.state = .accepted then .error .memberExists
    else .ok ()

def inviteAssistant (member : NewAssistant) (userID : ℤ) : Action Answer :=
  let a := member.normal
  (projectOfOwner a.projectID userID).andThen fun _ =>
  guarded (require (a.assistantID ≠ "" ∧ a.assistantID.utf8ByteSize ≤ 128 ∧ a.name ≠ "" ∧
      validAssistantRuntime a.backend a.modelID a.thinkingEffort) (.text "invalid_shared_runtime"))
    ((query (checkRejoin a)).andThen fun _ =>
      (Prog.transaction (fun s => s.insertAssistant a (env.stamp 0))).andThen fun _ =>
      (assistantMember a.projectID a.assistantID userID).andThen fun found =>
      .ret ((orError found .notFound).map .assistant))

def updateAssistantSettings (projectID assistantID : String) (userID : ℤ) (model effort : String) :
    Action AssistantMember :=
  (projectOfOwner projectID userID).andThen fun _ =>
  (assistantMember projectID assistantID userID).andThen fun found =>
  match found with
  | none => .fail .notFound
  | some current =>
    if current.row.assistantID = "" then .fail .notFound
    else guarded (require (validAssistantRuntime current.row.backend model effort) (.text "invalid_shared_runtime"))
      ((Prog.transaction (fun s => s.updateAssistant projectID assistantID model effort)).andThen fun _ =>
      (Prog.transaction (fun s => s.updateConversationModels projectID assistantID model effort)).andThen fun _ =>
      .ret (.ok { current with row := { current.row with modelID := model, thinkingEffort := effort } }))

def removeAssistant (projectID assistantID : String) (userID : ℤ) : Action Answer :=
  (projectOfOwner projectID userID).andThen fun _ => write (fun s => s.removeAssistant projectID assistantID)

def updateConversationRuntime (conversationID : String) (userID : ℤ) (modelID thinkingEffort : String) :
    Action Answer :=
  (query (fun s => s.conversationForUser conversationID userID true)).andThen fun current =>
  (updateAssistantSettings current.row.projectID current.row.assistantID userID modelID thinkingEffort).andThen
    fun _ => readConversation conversationID userID

def bindAssistant (conversationID : String) (userID : ℤ) (assistantID backend modelID effort : String) :
    Action Answer :=
  (query (fun s => s.conversationForUser conversationID userID true)).andThen fun current =>
  guarded (require (current.role = .owner) .forbidden)
    (guarded (require (current.row.assistantID ≠ "" ∧ current.row.assistantID = assistantID ∧
        current.row.assistantBackend = backend) .assistantLocked)
      (updateConversationRuntime conversationID userID modelID effort))

end Assistants

section Runs

variable (env : Env)

def reserveAssistantRun (runID : String) (message : Trigger) (payerUserID : ℤ) (assistantID : String) :
    Action Answer :=
  guarded (require (stableID (trimSpace runID) ∧ 0 < message.seq ∧ stableID message.id ∧ 0 < payerUserID ∧
      assistantID ≠ "") (.text "shared AI reservation is invalid"))
    (answer (.transaction (fun s => s.reserveAssistantRun runID message payerUserID assistantID env.sessionKey
      (env.stamp 0))) .run)

def reserveAIRun (runID : String) (message : Trigger) (payerUserID : ℤ) : Action Answer :=
  (query (fun s => s.conversationForUser message.conversationID payerUserID true)).andThen fun c =>
  reserveAssistantRun env runID message payerUserID c.row.assistantID

def finishAIRun (run : AIRun) (result : RunResult) : Action Answer :=
  guarded (require (stableID result.normal.messageID ∧ (result.runErr = none →
      result.normal.runtimeSessionID ≠ "" ∧ result.normal.assistantBody ≠ "")) (.text "shared AI result is invalid"))
    (answer (.transaction (fun s => s.finishAIRun run result.normal (env.stamp 0))) .message)

def stopAssistantRun (conversationID assistantID : String) (userID : ℤ) (messageID : String) : Action Answer :=
  guarded (require (stableID (trimSpace conversationID) ∧ stableID (trimSpace messageID) ∧ 0 < userID)
      (.text "shared AI stop is invalid"))
    (answer (.transaction (fun s => s.stopAssistantRun conversationID assistantID userID messageID (env.stamp 0)))
      (fun x => .stopped x.1 x.2))

end Runs

section PersonalTasks

variable (env : Env)

def readTask (id : String) (userID : ℤ) : Action Answer :=
  answer (query (fun s => s.personalTaskOperation id userID)) .task

def resubmitted (o : PersonalTask) (existing : PersonalTask) : Action Answer :=
  guarded (require (o.Repeats existing) .conflict) (.ret (.ok (.task existing)))

def PersonalTask.submitted (o : PersonalTask) : PersonalTask :=
  { o with
    name := trimSpace o.name, state := if o.runtimeSessionID = "" then .creating else .linking, error := "" }

/-- The operation, once it is stored, is looked up by the same function again; `depth` bounds the stack. -/
def submitPersonalTask (o : PersonalTask) : ℕ → Action Answer
  | 0 => .fail (.text "goroutine stack exceeds its limit")
  | depth + 1 =>
    (query (fun s => s.personalTaskOperation o.id o.userID)).bind fun
      | .ok existing => resubmitted { o with name := trimSpace o.name } existing
      | .error e =>
        if e ≠ .notFound then .fail e
        else (query (fun s => s.projectForUser o.projectID o.userID true)).andThen fun p =>
          guarded (require (p.state = .active) .conflict)
            ((Prog.transaction (fun s => s.insertTask (o.submitted.row (env.stamp 0)))).andThen
              fun _ => submitPersonalTask o depth)

def beginPersonalTask (o : PersonalTask) (depth : ℕ) : Action Answer :=
  guarded (require (stableID o.id ∧ 0 < o.userID ∧ o.creatorSID ≠ "" ∧ trimSpace o.name ≠ "" ∧
      (trimSpace o.name).utf8ByteSize ≤ 128 ∧ env.jsonValid o.configuration) (.text "invalid personal task"))
    (submitPersonalTask env o depth)

def recordPersonalTaskSession (o : PersonalTask) (sessionID : String) : Action Answer :=
  guarded (require (stableID sessionID) (.text "invalid runtime session"))
    (write (fun s => s.recordPersonalTaskSession o sessionID (env.stamp 0)))

def enrollPersonalTask (id : String) (userID : ℤ) (sid : String) : Action Unit :=
  (query (fun s => s.conversationForUser id userID true)).andThen fun c =>
  guarded (require (c.row.kind = .personalTask ∧ c.row.creatorUserID = userID) .forbidden)
    (Prog.transaction (fun s => s.insertTask
      ⟨id, userID, sid, c.row.projectID, c.row.name, "{}", c.row.runtimeSessionID, .deleting, "", env.stamp 0⟩))

def beginPersonalTaskDeletion (id : String) (userID : ℤ) (sid : String) : Action Answer :=
  ((query (fun s => s.personalTaskOperation id userID)).bind fun
    | .ok _ => .ret (.ok ())
    | .error .notFound => enrollPersonalTask env id userID sid
    | .error e => .fail e).andThen fun _ =>
  (Prog.transaction (fun s => s.markTaskDeleting id userID (env.stamp 1))).andThen fun _ => readTask id userID

end PersonalTasks

/-- One call of an operation, under a name of its own, with what it meets and the depth of its stack. -/
structure Call where
  name : ℕ
  env : Env
  depth : ℕ
  op : Op

def Call.prog (i : Call) : Action Answer :=
  let env := i.env
  match i.op with
  | .createProject id ownerUserID ownerSID name => createProject env id ownerUserID ownerSID name
  | .setProvisioningResult projectID active => write (fun s => s.setProvisioningResult projectID active (env.stamp 0))
  | .abortProjectProvisioning projectID ownerUserID =>
    write (fun s => s.abortProjectProvisioning projectID ownerUserID)
  | .projectForUser projectID userID includeHidden => readProject projectID userID includeHidden
  | .renameProject projectID ownerUserID name => renameProject env projectID ownerUserID name
  | .setHidden projectID userID hidden => write (fun s => s.setHidden projectID userID hidden)
  | .archiveProject projectID ownerUserID => write (fun s => s.archiveProject projectID ownerUserID (env.stamp 0))
  | .createInvite invite => createInvite env invite
  | .beginInviteAcceptance inviteID targetUserID => beginInviteAcceptance env inviteID targetUserID
  | .completeInviteAcceptance inviteID targetUserID => completeInviteAcceptance env inviteID targetUserID
  | .abortInviteAcceptance inviteID targetUserID =>
    write (fun s => s.abortInviteAcceptance inviteID targetUserID (env.now 0) (env.stamp 1))
  | .declineInvite inviteID targetUserID => write (fun s => s.declineInvite inviteID targetUserID (env.stamp 0))
  | .revokeInvite inviteID ownerUserID => write (fun s => s.revokeInvite inviteID ownerUserID (env.stamp 0))
  | .invitesForTarget targetUserID => invitesForTarget env targetUserID
  | .projectInvites projectID userID => projectInvites env projectID userID
  | .beginMemberRemoval projectID requester target => beginMemberRemoval projectID requester target
  | .completeMemberRemoval projectID requester target => completeMemberRemoval projectID requester target
  | .abortMemberRemoval projectID requester target => abortMemberRemoval projectID requester target
  | .beginOwnershipTransfer transfer ownerUserID => beginOwnershipTransfer env transfer ownerUserID
  | .completeOwnershipTransfer transferID => completeOwnershipTransfer env transferID
  | .abortOwnershipTransfer transferID => write (fun s => s.abortOwnershipTransfer transferID (env.stamp 0))
  | .finalizeOwnershipTransfer transferID => write (fun s => s.finalizeOwnershipTransfer transferID (env.stamp 0))
  | .createInviteLink link => createInviteLink env link
  | .revokeInviteLink token projectID ownerUserID =>
    write (fun s => s.revokeInviteLink token projectID ownerUserID (env.stamp 0))
  | .beginInviteLinkAcceptance token userID sid => beginInviteLinkAcceptance env token userID sid
  | .completeInviteLinkAcceptance token userID => completeInviteLinkAcceptance token userID
  | .abortInviteLinkAcceptance token userID => write (fun s => s.abortInviteLinkAcceptance token userID)
  | .createConversation conversation userID => createConversation env conversation userID
  | .defaultConversation projectID userID => defaultConversation env projectID userID
  | .conversationForUser conversationID userID includeHidden =>
    answer (query (fun s => s.conversationForUser conversationID userID includeHidden)) .conversation
  | .setConversationHidden conversationID userID hidden => setConversationHidden conversationID userID hidden
  | .updateConversationMetadata conversationID userID name pinned hidden =>
    updateConversationMetadata env conversationID userID name pinned hidden
  | .deleteConversation conversationID userID =>
    write (fun s => s.deleteConversation (trimSpace conversationID) userID)
  | .updateConversationRuntime conversationID userID modelID thinkingEffort =>
    updateConversationRuntime conversationID userID modelID thinkingEffort
  | .bindAssistant conversationID userID assistantID backend modelID effort =>
    bindAssistant conversationID userID assistantID backend modelID effort
  | .addMessage message userID => addMessage env message userID
  | .messageByID id conversationID userID => messageByID id conversationID userID
  | .inviteAssistant member userID => inviteAssistant env member userID
  | .updateAssistantSettings projectID assistantID userID model effort =>
    answer (updateAssistantSettings projectID assistantID userID model effort) .assistant
  | .removeAssistant projectID assistantID userID => removeAssistant projectID assistantID userID
  | .reserveAIRun runID message payerUserID => reserveAIRun env runID message payerUserID
  | .reserveAssistantRun runID message payerUserID assistantID =>
    reserveAssistantRun env runID message payerUserID assistantID
  | .finishAIRun run result => finishAIRun env run result
  | .stopAssistantRun conversationID assistantID userID messageID =>
    stopAssistantRun env conversationID assistantID userID messageID
  | .beginPersonalTask op => beginPersonalTask env op i.depth
  | .personalTaskOperation id userID => readTask id userID
  | .recordPersonalTaskSession op sessionID => recordPersonalTaskSession env op sessionID
  | .completePersonalTaskCreation op => write (fun s => s.completePersonalTaskCreation op (env.stamp 0))
  | .beginPersonalTaskDeletion id userID sid => beginPersonalTaskDeletion env id userID sid
  | .completePersonalTaskDeletion op => write (fun s => s.completePersonalTaskDeletion op (env.stamp 0))
  | .setPersonalTaskError op code rejected =>
    write (fun s => s.setPersonalTaskError op code rejected (env.stamp 0))

end WorkAgent.Collaboration
