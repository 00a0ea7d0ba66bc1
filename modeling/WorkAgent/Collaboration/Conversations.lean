import WorkAgent.Collaboration.InviteLinks

namespace WorkAgent.Collaboration

open Library

/-- A conversation as `CreateConversation` is given it; an empty kind is a discussion. -/
structure NewConversation where
  id : String
  projectID : String
  name : String
  kind : ConversationKind
  creatorUserID : ℤ
  runtimeSessionID : String
  assistantID : String
  assistantBackend : String
  modelID : String
  thinkingEffort : String

def NewConversation.normal (c : NewConversation) : NewConversation :=
  let c := { c with
    id := trimSpace c.id, name := trimSpace c.name, runtimeSessionID := trimSpace c.runtimeSessionID
    assistantID := trimSpace c.assistantID, modelID := trimSpace c.modelID
    thinkingEffort := trimSpace c.thinkingEffort }
  if c.assistantID = "" then { c with assistantBackend := "codex", modelID := "", thinkingEffort := "" } else c

def NewConversation.validate (c : NewConversation) : Except Error Unit := do
  require (stableID c.id ∧ c.name ≠ "" ∧ c.name.utf8ByteSize ≤ 128 ∧
    (c.assistantID ≠ "" → c.modelID ≠ "" ∧ c.thinkingEffort ≠ "") ∧
    (c.assistantBackend = "codex" ∨ c.assistantBackend = "kimi")) (.text "invalid shared conversation")
  require (c.kind = .personalTask → 0 < c.creatorUserID ∧ stableID c.runtimeSessionID ∧ c.assistantID = "")
    (.text "invalid personal task conversation")

structure NewMessage where
  id : String
  conversationID : String
  authorName : String
  kind : MessageKind
  body : String
  mentions : List Mention
  attachments : List String

structure NewAssistant where
  projectID : String
  assistantID : String
  name : String
  backend : String
  modelID : String
  thinkingEffort : String

def validAssistantRuntime (backend model effort : String) : Bool :=
  (backend = "codex" ∨ backend = "kimi") ∧ trimSpace model ≠ "" ∧ model.utf8ByteSize ≤ 256 ∧
    trimSpace effort ≠ "" ∧ effort.utf8ByteSize ≤ 32

namespace Store

variable (s : Store)

def insertConversation (c : NewConversation) (stamp : ℤ) : Except Error (Unit × Store) := do
  let conversations ← s.conversations.insertChecked (∃ p ∈ s.projects.rows, p.id = c.projectID)
    ⟨c.id, c.projectID, c.name, c.assistantID, c.assistantBackend, c.modelID, c.thinkingEffort, .idle, 0,
      stamp, stamp, c.kind, c.creatorUserID, c.runtimeSessionID⟩ (.database "")
  return ((), { s with conversations := conversations })

def seedAssistant (a : AssistantRow) : Except Error (Unit × Store) := do
  require (∃ p ∈ s.projects.rows, p.id = a.projectID) (.database "FOREIGN KEY constraint failed")
  return ((), { s with assistants := s.assistants.insertOrIgnore a })

def seedSession (x : SessionRow) : Except Error (Unit × Store) := do
  require (∃ c ∈ s.conversations.rows, c.id = x.conversationID) (.database "FOREIGN KEY constraint failed")
  return ((), if ∃ y ∈ s.sessions.rows, y.sessionKey = x.sessionKey then s
    else { s with sessions := s.sessions.insertOrIgnore x })

def setConversationHidden (conversationID : String) (userID : ℤ) (hidden : Bool) :
    Except Error (Unit × Store) := do
  require (∃ c ∈ s.conversations.rows, c.id = conversationID) (.database "FOREIGN KEY constraint failed")
  return ((), { s with
    visibility := s.visibility.upsert ⟨conversationID, userID, hidden⟩ (fun v => { v with hidden := hidden }) })

def renameConversation (conversationID : String) (name : Option String) (stamp : ℤ) : Store :=
  match name with
  | none => s
  | some name =>
    { s with
      conversations := s.conversations.update (fun c => c.id = conversationID)
        (fun c => { c with name := name, updatedAt := stamp }) }

def pinConversation (conversationID : String) (userID : ℤ) (pinned : Option Bool) (stamp : ℤ) : Store :=
  match pinned with
  | none => s
  | some pinned =>
    let pinnedAt := if pinned then some stamp else none
    { s with
      userStates := s.userStates.upsert ⟨conversationID, userID, pinned, pinnedAt⟩
        (fun u => { u with pinned := pinned, pinnedAt := pinnedAt }) }

def hideConversation (conversationID : String) (userID : ℤ) (hidden : Option Bool) : Store :=
  match hidden with
  | none => s
  | some hidden =>
    { s with
      visibility := s.visibility.upsert ⟨conversationID, userID, hidden⟩ (fun v => { v with hidden := hidden }) }

def updateConversationMetadata (conversationID : String) (userID : ℤ) (name : Option String)
    (pinned hidden : Option Bool) (renamedAt pinnedAt : ℤ) : Except Error (Unit × Store) := do
  let (c, _, m) ← orError (s.visible conversationID userID) .notFound
  require (name ≠ none → c.kind ≠ .personalTask → m.role = .owner) .forbidden
  return ((), ((s.renameConversation conversationID name renamedAt).pinConversation conversationID userID pinned
    pinnedAt).hideConversation conversationID userID hidden)

def deleteConversation (conversationID : String) (userID : ℤ) : Except Error (Unit × Store) := do
  let (c, _, m) ← orError (s.visible conversationID userID) .notFound
  require (c.kind ≠ .personalTask → m.role = .owner) .forbidden
  require (c.state = .idle) .conflict
  let t ← s.deleteConversations (fun x => x = conversationID)
  return ((), t)

def addMessage (m : NewMessage) (userID : ℤ) (stamp : ℤ) : Except Error (MessageRow × Store) := do
  let r : MessageRow := ⟨s.lastSeq + 1, m.id, m.conversationID, some userID, m.authorName, "", m.kind, m.body,
    m.mentions, m.attachments, stamp⟩
  let t ← s.insertMessage r
  return (r, t)

def touchConversation (conversationID : String) (stamp : ℤ) : Except Error (Unit × Store) :=
  .ok ((), { s with
    conversations := s.conversations.update (fun c => c.id = conversationID)
      (fun c => { c with updatedAt := stamp }) })

def insertAssistant (a : NewAssistant) (stamp : ℤ) : Except Error (Unit × Store) := do
  require (∃ p ∈ s.projects.rows, p.id = a.projectID) (.database "FOREIGN KEY constraint failed")
  return ((), { s with
    assistants := s.assistants.upsert
      ⟨a.projectID, a.assistantID, a.name, a.backend, a.modelID, a.thinkingEffort, .accepted, stamp⟩
      (fun x => { x with state := .accepted, name := a.name, joinedAt := stamp }) })

def updateAssistant (projectID assistantID model effort : String) : Except Error (Unit × Store) := do
  let assistants ← s.assistants.updateOne
    (fun a => a.projectID = projectID ∧ a.assistantID = assistantID ∧ a.state = .accepted ∧
      ¬ s.assistantRunning projectID assistantID)
    (fun a => { a with modelID := model, thinkingEffort := effort }) .conflict
  return ((), { s with assistants := assistants })

def updateConversationModels (projectID assistantID model effort : String) : Except Error (Unit × Store) :=
  .ok ((), { s with
    conversations := s.conversations.update (fun c => c.projectID = projectID ∧ c.assistantID = assistantID)
      (fun c => { c with modelID := model, thinkingEffort := effort }) })

def removeAssistant (projectID assistantID : String) : Except Error (Unit × Store) := do
  let assistants ← s.assistants.updateOne
    (fun a => a.projectID = projectID ∧ a.assistantID = assistantID ∧ a.state = .accepted ∧
      ¬ s.assistantRunning projectID assistantID)
    (fun a => { a with state := .removed }) .conflict
  return ((), { s with assistants := assistants })

end Store

end WorkAgent.Collaboration
