import WorkAgent.Library.Guards
import WorkAgent.Quota.Calendar

namespace WorkAgent.Collaboration

open Library
open Quota (Time)

inductive Error
  | notFound
  | forbidden
  | conflict
  | inviteExpired
  | invitePending
  | memberExists
  | transferPending
  | inviteLinkRevoked
  | inviteLinkExhausted
  | assistantLocked
  | text (message : String)
  | database (context : String)
  deriving DecidableEq

def Error.message : Error → String
  | .notFound => "shared project not found"
  | .forbidden => "shared project access forbidden"
  | .conflict => "shared project conflict"
  | .inviteExpired => "shared project invite expired"
  | .invitePending => "shared_invite_already_pending"
  | .memberExists => "shared_member_already_exists"
  | .transferPending => "shared ownership transfer pending"
  | .inviteLinkRevoked => "shared invite link revoked"
  | .inviteLinkExhausted => "shared invite link exhausted"
  | .assistantLocked => "shared assistant identity is fixed; invite a separate assistant member"
  | .text message => message
  | .database context => context

inductive ProjectState
  | provisioning
  | active
  | transferPending
  | archived
  | failed
  deriving DecidableEq

inductive Role
  | owner
  | member
  deriving DecidableEq

inductive MemberState
  | pendingACL
  | accepted
  | removalPending
  deriving DecidableEq

inductive InviteStatus
  | pending
  | accepting
  | accepted
  | declined
  | revoked
  | expired
  deriving DecidableEq

inductive LinkStatus
  | active
  | revoked
  | exhausted
  deriving DecidableEq

inductive TransferState
  | pending
  | committed
  | aborted
  deriving DecidableEq

inductive ConversationState
  | idle
  | running
  | recovering
  | frozen
  deriving DecidableEq

inductive ConversationKind
  | discussion
  | personalTask
  deriving DecidableEq

inductive MessageKind
  | user
  | assistant
  | system
  deriving DecidableEq

inductive RunState
  | running
  | succeeded
  | failed
  | stopped
  deriving DecidableEq

inductive AssistantState
  | accepted
  | removed
  deriving DecidableEq

inductive TaskState
  | creating
  | linking
  | ready
  | deleting
  | deleted
  | rejected
  deriving DecidableEq

structure ProjectRow where
  id : String
  ownerUserID : ℤ
  ownerSID : String
  name : String
  state : ProjectState
  pendingOwnerUserID : Option ℤ
  createdAt : ℤ
  updatedAt : ℤ
  deriving DecidableEq

structure MemberRow where
  projectID : String
  userID : ℤ
  sid : String
  role : Role
  state : MemberState
  hidden : Bool
  joinedAt : ℤ
  deriving DecidableEq

structure InviteRow where
  id : String
  projectID : String
  inviterUserID : ℤ
  targetUserID : ℤ
  targetSID : String
  status : InviteStatus
  expiresAt : ℤ
  createdAt : ℤ
  actedAt : Option ℤ
  deriving DecidableEq

structure InviteLinkRow where
  token : String
  projectID : String
  creatorUserID : ℤ
  maxUses : ℕ
  useCount : ℕ
  status : LinkStatus
  expiresAt : ℤ
  createdAt : ℤ
  actedAt : Option ℤ
  deriving DecidableEq

structure TransferRow where
  id : String
  projectID : String
  fromUserID : ℤ
  toUserID : ℤ
  toSID : String
  state : TransferState
  createdAt : ℤ
  updatedAt : ℤ
  finalizedAt : Option ℤ
  deriving DecidableEq

structure ConversationRow where
  id : String
  projectID : String
  name : String
  assistantID : String
  assistantBackend : String
  modelID : String
  thinkingEffort : String
  state : ConversationState
  lastAIMessageSeq : ℕ
  createdAt : ℤ
  updatedAt : ℤ
  kind : ConversationKind
  creatorUserID : ℤ
  runtimeSessionID : String
  deriving DecidableEq

structure VisibilityRow where
  conversationID : String
  userID : ℤ
  hidden : Bool
  deriving DecidableEq

structure UserStateRow where
  conversationID : String
  userID : ℤ
  pinned : Bool
  pinnedAt : Option ℤ
  deriving DecidableEq

structure Mention where
  kind : String
  id : String
  deriving DecidableEq

structure MessageRow where
  seq : ℕ
  id : String
  conversationID : String
  authorUserID : Option ℤ
  authorName : String
  authorAssistantID : String
  kind : MessageKind
  body : String
  mentions : List Mention
  attachments : List String
  createdAt : ℤ
  deriving DecidableEq

structure RunRow where
  id : String
  conversationID : String
  triggerMessageID : String
  assistantID : String
  assistantName : String
  engine : String
  state : RunState
  ownerUserID : ℤ
  ownerSID : String
  contextFromSeq : ℕ
  contextThroughSeq : ℕ
  runtimeSessionID : Option String
  createdAt : ℤ
  finishedAt : Option ℤ
  deriving DecidableEq

structure PayerRow where
  runID : String
  userID : ℤ
  sid : String
  deriving DecidableEq

structure AssistantRow where
  projectID : String
  assistantID : String
  name : String
  backend : String
  modelID : String
  thinkingEffort : String
  state : AssistantState
  joinedAt : ℤ
  deriving DecidableEq

structure SessionRow where
  conversationID : String
  assistantID : String
  sessionKey : String
  lastContextSeq : ℕ
  deriving DecidableEq

structure TaskRow where
  id : String
  userID : ℤ
  creatorSID : String
  projectID : String
  name : String
  configuration : String
  runtimeSessionID : String
  state : TaskState
  error : String
  updatedAt : ℤ
  deriving DecidableEq

def MemberRow.key (m : MemberRow) : String × ℤ := (m.projectID, m.userID)

def VisibilityRow.key (v : VisibilityRow) : String × ℤ := (v.conversationID, v.userID)

def UserStateRow.key (u : UserStateRow) : String × ℤ := (u.conversationID, u.userID)

def PayerRow.key (p : PayerRow) : String × ℤ := (p.runID, p.userID)

def AssistantRow.key (a : AssistantRow) : String × String := (a.projectID, a.assistantID)

def SessionRow.key (x : SessionRow) : String × String := (x.conversationID, x.assistantID)

/-- The collaboration database. `lastSeq` is the last value that AUTOINCREMENT gave a message. -/
structure Store where
  projects : Table ProjectRow.id
  members : Table MemberRow.key
  invites : Table InviteRow.id
  inviteLinks : Table InviteLinkRow.token
  transfers : Table TransferRow.id
  conversations : Table ConversationRow.id
  visibility : Table VisibilityRow.key
  userStates : Table UserStateRow.key
  messages : Table MessageRow.seq
  lastSeq : ℕ
  runs : Table RunRow.id
  payers : Table PayerRow.key
  assistants : Table AssistantRow.key
  sessions : Table SessionRow.key
  tasks : Table TaskRow.id

def Store.empty : Store :=
  ⟨.empty, .empty, .empty, .empty, .empty, .empty, .empty, .empty, .empty, 0, .empty, .empty, .empty,
    .empty, .empty⟩

/-- What a call meets: the clock at each of its readings, a random session key, and the library
functions `strings.EqualFold` and `json.Valid`. -/
structure Env where
  now : ℕ → Time
  sessionKey : String
  equalFold : String → String → Bool
  jsonValid : String → Bool

def Env.stamp (env : Env) (k : ℕ) : ℤ := (env.now k).unixMilli

def isSpace (c : Char) : Bool :=
  (9 ≤ c.toNat ∧ c.toNat ≤ 13) ∨ c.toNat = 0x20 ∨ c.toNat = 0x85 ∨ c.toNat = 0xA0 ∨ c.toNat = 0x1680 ∨
    (0x2000 ≤ c.toNat ∧ c.toNat ≤ 0x200A) ∨ c.toNat = 0x2028 ∨ c.toNat = 0x2029 ∨ c.toNat = 0x202F ∨
    c.toNat = 0x205F ∨ c.toNat = 0x3000

def trimSpace (text : String) : String :=
  String.ofList ((text.toList.dropWhile isSpace).reverse.dropWhile isSpace).reverse

def stableID (id : String) : Bool :=
  16 ≤ id.toList.length ∧ id.toList.length ≤ 128 ∧
    id.toList.all (fun c => c.isAlphanum ∨ c = '_' ∨ c = '-')

def validSID (value : String) : Bool :=
  match (trimSpace value).toList with
  | c :: rest => (c = 'S' ∨ c = 's' ∨ c = 'ſ') ∧ "-1-".toList.isPrefixOf rest ∧ value.utf8ByteSize ≤ 184
  | [] => false

structure Project where
  id : String
  ownerUserID : ℤ
  ownerSID : String
  name : String
  state : ProjectState
  currentRole : Role
  hidden : Bool
  pendingOwnerID : Option ℤ
  createdAt : ℤ
  updatedAt : ℤ

structure AssistantMember where
  row : AssistantRow
  running : Bool
  active : Bool

structure Conversation where
  row : ConversationRow
  projectName : String
  role : Role
  assistantLocked : Bool
  assistants : List AssistantMember
  pinned : Bool
  pinnedAt : Option ℤ
  hidden : Bool

structure AIRun where
  id : String
  assistantID : String
  assistantName : String
  modelID : String
  thinkingEffort : String
  sessionKey : String
  conversationID : String
  triggerMessageID : String
  engine : String
  ownerUserID : ℤ
  ownerSID : String
  payerUserID : ℤ
  payerSID : String
  contextFromSeq : ℕ
  contextThroughSeq : ℕ
  previousRuntimeSessionID : String
  deriving DecidableEq

namespace Store

variable (s : Store)

def project (id : String) : Option ProjectRow := s.projects.find? id

def member (projectID : String) (userID : ℤ) : Option MemberRow := s.members.find? (projectID, userID)

def conversation (id : String) : Option ConversationRow := s.conversations.find? id

def run (id : String) : Option RunRow := s.runs.find? id

def session (conversationID assistantID : String) : Option SessionRow :=
  s.sessions.find? (conversationID, assistantID)

def task (id : String) : Option TaskRow := s.tasks.find? id

def acceptedMember (projectID : String) (userID : ℤ) : Option MemberRow :=
  (s.member projectID userID).filter (fun m => m.state = .accepted)

def projectForUser (projectID : String) (userID : ℤ) (includeHidden : Bool) : Except Error Project := do
  let p ← orError (s.project (trimSpace projectID)) .notFound
  let m ← orError (s.acceptedMember p.id userID) .notFound
  require (m.hidden = true → includeHidden = true) .notFound
  return ⟨p.id, p.ownerUserID, p.ownerSID, p.name, p.state, m.role, m.hidden, p.pendingOwnerUserID,
    p.createdAt, p.updatedAt⟩

def runningIn (conversationID : String) : Prop :=
  ∃ r ∈ s.runs.rows, r.conversationID = conversationID ∧ r.state = .running

instance (conversationID : String) : Decidable (s.runningIn conversationID) :=
  inferInstanceAs (Decidable (∃ r ∈ s.runs.rows, r.conversationID = conversationID ∧ r.state = .running))

def activeIn (conversationID assistantID : String) : Prop :=
  ∃ r ∈ s.runs.rows, r.conversationID = conversationID ∧ r.assistantID = assistantID ∧ r.state = .running

instance (conversationID assistantID : String) : Decidable (s.activeIn conversationID assistantID) :=
  inferInstanceAs (Decidable (∃ r ∈ s.runs.rows, r.conversationID = conversationID ∧
    r.assistantID = assistantID ∧ r.state = .running))

def assistantRunning (projectID assistantID : String) : Prop :=
  ∃ r ∈ s.runs.rows, r.assistantID = assistantID ∧ r.state = .running ∧
    ∃ c ∈ s.conversations.rows, c.id = r.conversationID ∧ c.projectID = projectID

instance (projectID assistantID : String) : Decidable (s.assistantRunning projectID assistantID) :=
  inferInstanceAs (Decidable (∃ r ∈ s.runs.rows, r.assistantID = assistantID ∧ r.state = .running ∧
    ∃ c ∈ s.conversations.rows, c.id = r.conversationID ∧ c.projectID = projectID))

def assistantMembers (projectID conversationID : String) : List AssistantMember :=
  (s.assistants.rows.filter (fun a => a.projectID = projectID ∧ a.state = .accepted)).map
    (fun a => ⟨a, s.assistantRunning a.projectID a.assistantID, s.activeIn conversationID a.assistantID⟩)

def visible (conversationID : String) (userID : ℤ) : Option (ConversationRow × ProjectRow × MemberRow) := do
  let c ← s.conversation conversationID
  let p ← s.project c.projectID
  let m ← s.acceptedMember p.id userID
  if (p.state = .active ∨ p.state = .transferPending) ∧ (c.kind = .discussion ∨ c.creatorUserID = userID) then
    some (c, p, m)
  else none

def conversationForUser (conversationID : String) (userID : ℤ) (includeHidden : Bool) :
    Except Error Conversation := do
  let (c, p, m) ← orError (s.visible (trimSpace conversationID) userID) .notFound
  let hidden := ((s.visibility.find? (c.id, userID)).map VisibilityRow.hidden).getD false
  let state := s.userStates.find? (c.id, userID)
  require (hidden = true → includeHidden = true) .notFound
  return { row := c
           projectName := p.name
           role := m.role
           assistantLocked := s.runs.rows.any (fun r => r.conversationID = c.id)
           assistants := s.assistantMembers c.projectID c.id
           pinned := (state.map UserStateRow.pinned).getD false
           pinnedAt := state.bind UserStateRow.pinnedAt
           hidden := hidden }

def insertMember (r : MemberRow) (e : Error) : Except Error (Table MemberRow.key) :=
  s.members.insertChecked
    ((∃ p ∈ s.projects.rows, p.id = r.projectID) ∧
      (∀ m ∈ s.members.rows, m.projectID = r.projectID → m.sid ≠ r.sid) ∧
      (r.role = .owner → ∀ m ∈ s.members.rows, m.projectID = r.projectID → m.role ≠ .owner)) r e

def insertMessage (r : MessageRow) : Except Error Store := do
  let messages ← s.messages.insertChecked
    ((∃ c ∈ s.conversations.rows, c.id = r.conversationID) ∧ ∀ m ∈ s.messages.rows, m.id ≠ r.id)
    { r with seq := s.lastSeq + 1 } (.database "")
  return { s with messages := messages, lastSeq := s.lastSeq + 1 }

def Restricts (p : String → Prop) : Prop :=
  ∃ r ∈ s.runs.rows, ¬ p r.conversationID ∧
    ∃ m ∈ s.messages.rows, m.id = r.triggerMessageID ∧ p m.conversationID

instance (p : String → Prop) [DecidablePred p] : Decidable (s.Restricts p) :=
  inferInstanceAs (Decidable (∃ r ∈ s.runs.rows, ¬ p r.conversationID ∧
    ∃ m ∈ s.messages.rows, m.id = r.triggerMessageID ∧ p m.conversationID))

def cascadeConversations (p : String → Prop) [DecidablePred p] : Store :=
  { s with
    conversations := s.conversations.delete (fun c => p c.id)
    visibility := s.visibility.delete (fun v => p v.conversationID)
    userStates := s.userStates.delete (fun u => p u.conversationID)
    messages := s.messages.delete (fun m => p m.conversationID)
    payers := s.payers.delete (fun y => ∃ r ∈ s.runs.rows, r.id = y.runID ∧ p r.conversationID)
    runs := s.runs.delete (fun r => p r.conversationID)
    sessions := s.sessions.delete (fun x => p x.conversationID) }

def deleteConversations (p : String → Prop) [DecidablePred p] : Except Error Store := do
  require (¬ s.Restricts p) (.database "FOREIGN KEY constraint failed")
  return s.cascadeConversations p

def deleteProject (id : String) : Except Error Store := do
  let t ← s.deleteConversations (fun c => ∃ x ∈ s.conversations.rows, x.id = c ∧ x.projectID = id)
  return { t with
           projects := t.projects.delete (fun p => p.id = id)
           members := t.members.delete (fun m => m.projectID = id)
           invites := t.invites.delete (fun i => i.projectID = id)
           inviteLinks := t.inviteLinks.delete (fun l => l.projectID = id)
           transfers := t.transfers.delete (fun o => o.projectID = id)
           assistants := t.assistants.delete (fun a => a.projectID = id) }

end Store

end WorkAgent.Collaboration
