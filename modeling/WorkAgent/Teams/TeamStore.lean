import WorkAgent.Library.Table
import WorkAgent.Library.Acts
import WorkAgent.Harness.Strings

namespace WorkAgent.Teams

open Library Harness

inductive EngineId
  | harness
  | codex
  | kimi
  | acp
  deriving DecidableEq

inductive Role
  | lead
  | member
  deriving DecidableEq

inductive MemberStatus
  | idle
  | running
  | error
  deriving DecidableEq

/-- The ids of the store are numbers: `n` stands for the text that the draw `n` of `randomUUID` gives. -/
structure TeamMember where
  id : ℕ
  name : String
  engine : EngineId
  acpCatalogId : Option String
  presetId : String
  role : Role
  status : MemberStatus
  sessionId : ℕ
  deriving DecidableEq

structure Team where
  id : ℕ
  version : ℕ
  name : String
  workspaceId : String
  sessionMode : Option String
  members : List TeamMember
  deriving DecidableEq

inductive TaskStatus
  | queued
  | running
  | succeeded
  | failed
  | cancelled
  deriving DecidableEq

structure TeamTask where
  id : ℕ
  teamId : ℕ
  memberId : ℕ
  version : ℕ
  dependsOnIds : List ℕ
  title : String
  input : String
  status : TaskStatus
  sessionId : Option String
  result : Option String
  error : Option String
  deriving DecidableEq

structure TeamMailboxMessage where
  id : ℕ
  teamId : ℕ
  fromMemberId : Option ℕ
  toMemberId : Option ℕ
  body : String
  readAt : Option ℤ
  deriving DecidableEq

inductive EventType
  | teamUpdated
  | teamCreated
  | teamRenamed
  | teamRemoved
  | memberAdded
  | memberRenamed
  | memberRemoved
  | taskQueued
  | taskStarted
  | taskCompleted
  | taskFailed
  | taskCancelled
  | mailReceived
  | runUpdated
  | dispatchUpdated
  | taskUpdated
  deriving DecidableEq

structure TeamEvent where
  teamId : ℕ
  sequence : ℕ
  type : EventType
  subjectId : ℕ
  deriving DecidableEq

inductive RunStatus
  | running
  | paused
  | pausedLimit
  | completed
  | cancelled
  | interrupted
  deriving DecidableEq

structure TeamRun where
  id : ℕ
  teamId : ℕ
  input : String
  status : RunStatus
  segment : ℕ
  dispatchCount : ℕ
  recruitedCount : ℕ
  reason : Option String
  result : Option String
  deriving DecidableEq

inductive DispatchStatus
  | queued
  | running
  | succeeded
  | failed
  | cancelled
  | interrupted
  deriving DecidableEq

structure TeamDispatch where
  id : ℕ
  teamId : ℕ
  runId : ℕ
  memberId : ℕ
  taskId : Option ℕ
  messageIds : List ℕ
  input : String
  parentId : Option ℕ
  depth : ℕ
  fanoutMemberIds : List ℕ
  status : DispatchStatus
  turnId : Option String
  submittedAt : Option ℤ
  notBefore : Option ℤ
  result : Option String
  error : Option String
  deriving DecidableEq

structure Operation where
  id : String
  input : String
  result : String
  deriving DecidableEq

def TaskStatus.Terminal (status : TaskStatus) : Prop := status = .succeeded ∨ status = .failed ∨ status = .cancelled

instance (status : TaskStatus) : Decidable status.Terminal := inferInstanceAs (Decidable (_ ∨ _))

def TaskStatus.Pending (status : TaskStatus) : Prop := status = .queued ∨ status = .running

instance (status : TaskStatus) : Decidable status.Pending := inferInstanceAs (Decidable (_ ∨ _))

def RunStatus.Finished (status : RunStatus) : Prop := status = .completed ∨ status = .cancelled

instance (status : RunStatus) : Decidable status.Finished := inferInstanceAs (Decidable (_ ∨ _))

def DispatchStatus.Pending (status : DispatchStatus) : Prop := status = .queued ∨ status = .running

instance (status : DispatchStatus) : Decidable status.Pending := inferInstanceAs (Decidable (_ ∨ _))

structure Document where
  teams : Table Team.id
  tasks : Table TeamTask.id
  messages : Table TeamMailboxMessage.id
  runs : Table TeamRun.id
  dispatches : Table TeamDispatch.id
  operations : Table Operation.id
  events : List TeamEvent
  sequence : ℕ
  quotaReconciledTaskIds : List ℕ

def Document.empty : Document := ⟨.empty, .empty, .empty, .empty, .empty, .empty, [], 0, []⟩

/-- `file` is the saved file, `drawn` counts the ids, and `disk` tells how the next writes of the file end. -/
structure TeamStore extends Document where
  batch : Bool
  file : Document
  drawn : ℕ
  disk : List Bool

def TeamStore.start : TeamStore := ⟨.empty, false, .empty, 0, []⟩

/-- The texts of the ids, `toLocaleLowerCase`, and the text of a schema's error for a field. -/
structure Host where
  uuid : ℕ → UUID
  lower : String → String
  schemaError : String → String

abbrev StoreAct := Act TeamStore String

def boundedText (text : String) (bound : ℕ) : Option String :=
  let trimmed := String.ofList ((text.toList.dropWhile Harness.isSpace).reverse.dropWhile Harness.isSpace).reverse
  if trimmed ≠ "" ∧ codeUnits trimmed ≤ bound then some trimmed else none

def isBlank (text : String) : Bool := text.toList.all Harness.isSpace

section Basics

variable (host : Host)

def parsed {α : Type} (path : String) (value : Option α) : StoreAct α := .required value (host.schemaError path)

def refuse (condition : Prop) [Decidable condition] (error : String) : StoreAct Unit :=
  if condition then .throw error else pure ()

def whenever (condition : Prop) [Decidable condition] (body : StoreAct Unit) : StoreAct Unit :=
  if condition then body else pure ()

def randomUUID : StoreAct ℕ := fun s => (.ok s.drawn, { s with drawn := s.drawn + 1 })

def save : StoreAct Unit := fun s =>
  if s.batch then (.ok (), s)
  else if s.disk.head? = some false then (.error "write_failed", { s with disk := s.disk.tail })
  else (.ok (), { s with file := s.toDocument, disk := s.disk.tail })

def event (teamId : ℕ) (type : EventType) (subjectId : ℕ) : StoreAct Unit :=
  .modify fun s => { s with events := s.events ++ [⟨teamId, s.sequence + 1, type, subjectId⟩], sequence := s.sequence + 1 }

def setTeam (team : Team) : StoreAct Unit := .modify fun s => { s with teams := s.teams.set team }

def setTask (task : TeamTask) : StoreAct Unit := .modify fun s => { s with tasks := s.tasks.set task }

def setRun (run : TeamRun) : StoreAct Unit := .modify fun s => { s with runs := s.runs.set run }

def setDispatch (dispatch : TeamDispatch) : StoreAct Unit := .modify fun s => { s with dispatches := s.dispatches.set dispatch }

def requiredTeam (id : ℕ) : StoreAct Team := do
  let s ← Act.read
  Act.required (s.teams.find? id) "team_not_found"

def requiredTask (id : ℕ) : StoreAct TeamTask := do
  let s ← Act.read
  Act.required (s.tasks.find? id) "team_task_not_found"

def requiredMember (team : Team) (id : ℕ) : StoreAct TeamMember :=
  Act.required (team.members.find? fun member => member.id = id) "team_member_not_found"

def theRun (id : ℕ) : StoreAct TeamRun := do
  let s ← Act.read
  Act.required (s.runs.find? id) "TypeError"

def theDispatch (id : ℕ) : StoreAct TeamDispatch := do
  let s ← Act.read
  Act.required (s.dispatches.find? id) "TypeError"

def theLead (team : Team) : StoreAct TeamMember :=
  Act.required (team.members.find? fun member => member.role = .lead) "TypeError"

def transaction {α : Type} (perform : StoreAct α) : StoreAct α := fun s =>
  if s.batch then perform s
  else
    match perform { s with batch := true } with
    | (.ok result, t) =>
      match save { t with batch := false } with
      | (.ok (), u) => (.ok result, u)
      | (.error error, u) => (.error error, restored s u)
    | (.error error, t) => (.error error, restored s t)
where
  restored (s t : TeamStore) : TeamStore :=
    { t with
      teams := s.teams
      tasks := s.tasks
      messages := s.messages
      runs := s.runs
      dispatches := s.dispatches
      operations := s.operations
      events := s.events
      sequence := s.sequence
      batch := false }

end Basics

section Roster

variable (host : Host)

structure MemberInput where
  name : String
  engine : EngineId
  acpCatalogId : Option String
  presetId : String

def parseMember (id sessionId : ℕ) (role : Role) (status : MemberStatus) (input : MemberInput) : StoreAct TeamMember := do
  let name ← parsed host "name" (boundedText input.name 120)
  refuse (input.acpCatalogId = some "") (host.schemaError "acpCatalogId")
  refuse (input.presetId = "") (host.schemaError "presetId")
  return ⟨id, name, input.engine, input.acpCatalogId, input.presetId, role, status, sessionId⟩

def create (name workspaceId : String) (leadInput : MemberInput) : StoreAct Team := do
  let name ← parsed host "name" (boundedText name 120)
  refuse (workspaceId = "") (host.schemaError "workspaceId")
  let id ← randomUUID
  let leadId ← randomUUID
  let sessionId ← randomUUID
  let lead ← parseMember host leadId sessionId .lead .idle leadInput
  let team : Team := ⟨id, 1, name, workspaceId, none, [lead]⟩
  setTeam team
  event id .teamCreated id
  save
  return team

def validOrder (team : Team) (memberIds : List ℕ) : Prop :=
  memberIds.length = team.members.length ∧ memberIds.Nodup ∧
    memberIds.head? = (team.members.find? fun member => member.role = .lead).map TeamMember.id ∧
    ∀ id ∈ memberIds, ∃ member ∈ team.members, member.id = id

instance (team : Team) (memberIds : List ℕ) : Decidable (validOrder team memberIds) := inferInstanceAs (Decidable (_ ∧ _))

structure TeamMutation where
  name : Option String
  sessionMode : Option (Option String)
  memberIds : Option (List ℕ)

def update (id expectedVersion : ℕ) (mutation : TeamMutation) : StoreAct Team := do
  let team ← requiredTeam id
  refuse (team.version ≠ expectedVersion) "team_version_conflict"
  refuse (∃ memberIds ∈ mutation.memberIds, ¬ validOrder team memberIds) "invalid_member_order"
  let name ← parsed host "name" (boundedText (mutation.name.getD team.name) 120)
  let sessionMode ← parsed host "sessionMode" ((mutation.sessionMode.getD team.sessionMode).elim (some none) fun mode =>
    (boundedText mode 40).map some)
  let members := mutation.memberIds.elim team.members fun memberIds =>
    memberIds.filterMap fun id => team.members.find? fun member => member.id = id
  let next : Team := ⟨team.id, team.version + 1, name, team.workspaceId, sessionMode, members⟩
  setTeam next
  event id (if mutation.name = none then .teamUpdated else .teamRenamed) id
  save
  return next

def sameName (member : TeamMember) (name : String) : Prop :=
  host.lower member.name = host.lower (String.ofList ((name.toList.dropWhile Harness.isSpace).reverse.dropWhile Harness.isSpace).reverse)

instance (member : TeamMember) (name : String) : Decidable (sameName host member name) := inferInstanceAs (Decidable (_ = _))

def addMember (teamId : ℕ) (input : MemberInput) : StoreAct Team := do
  let team ← requiredTeam teamId
  refuse (∃ member ∈ team.members, sameName host member input.name) "team_member_name_conflict"
  let id ← randomUUID
  let sessionId ← randomUUID
  let member ← parseMember host id sessionId .member .idle input
  let next : Team := { team with version := team.version + 1, members := team.members ++ [member] }
  setTeam next
  event teamId .memberAdded id
  save
  return next

structure MemberMutation where
  name : Option String
  engine : Option EngineId
  acpCatalogId : Option String
  presetId : Option String

def updateMember (teamId memberId : ℕ) (input : MemberMutation) : StoreAct Team := do
  let team ← requiredTeam teamId
  let current ← requiredMember team memberId
  refuse (current.status = .running) "team_member_busy"
  refuse (∃ name ∈ input.name, ∃ member ∈ team.members, member.id ≠ memberId ∧ sameName host member name) "team_member_name_conflict"
  let changedEngine := (input.engine.any (· ≠ current.engine) ∨ input.presetId.any (· ≠ current.presetId) ∨
    input.acpCatalogId.any (some · ≠ current.acpCatalogId))
  let drawnId ← randomUUID
  let updated ← parseMember host memberId (if changedEngine then drawnId else current.sessionId) current.role current.status
    ⟨input.name.getD current.name, input.engine.getD current.engine, input.acpCatalogId.or current.acpCatalogId,
      input.presetId.getD current.presetId⟩
  let next : Team := { team with
    version := team.version + 1
    members := team.members.map fun member => if member.id = memberId then updated else member }
  setTeam next
  event teamId (if input.name.any (· ≠ current.name) then .memberRenamed else .teamUpdated) memberId
  save
  return next

def removeMember (teamId memberId : ℕ) : StoreAct Team := do
  let team ← requiredTeam teamId
  let member ← requiredMember team memberId
  refuse (member.role = .lead) "team_lead_cannot_be_removed"
  let s ← Act.read
  refuse (member.status = .running ∨ (∃ item ∈ s.dispatches.rows, item.memberId = memberId ∧ item.status.Pending) ∨
    ∃ task ∈ s.tasks.rows, task.teamId = teamId ∧ task.memberId = memberId ∧ task.status.Pending) "team_member_busy"
  let next : Team := { team with
    version := team.version + 1
    members := team.members.filter fun member => member.id ≠ memberId }
  setTeam next
  event teamId .memberRemoved memberId
  save
  return next

def operationPrefix (teamId : ℕ) : String := "team-" ++ (host.uuid teamId).text ++ ":"

def delete (teamId : ℕ) : StoreAct Unit := do
  let _ ← requiredTeam teamId
  let s ← Act.read
  refuse ((∃ item ∈ s.dispatches.rows, item.teamId = teamId ∧ item.status.Pending) ∨
    ∃ task ∈ s.tasks.rows, task.teamId = teamId ∧ task.status.Pending) "team_has_active_task"
  event teamId .teamRemoved teamId
  Act.modify fun s => { s with
    teams := s.teams.delete fun team => team.id = teamId
    runs := s.runs.delete fun run => run.teamId = teamId
    dispatches := s.dispatches.delete fun item => item.teamId = teamId
    operations := s.operations.delete fun operation => (operationPrefix host teamId).toList.isPrefixOf operation.id.toList
    tasks := s.tasks.delete fun task => task.teamId = teamId
    messages := s.messages.delete fun message => message.teamId = teamId
    events := s.events.filter fun event => event.teamId ≠ teamId ∨ event.type = .teamRemoved }
  save

end Roster
end WorkAgent.Teams
