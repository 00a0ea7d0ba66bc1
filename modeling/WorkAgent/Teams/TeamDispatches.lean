import Mathlib
import WorkAgent.Teams.TeamStore

namespace WorkAgent.Teams

open Library Harness

section Dispatches


def addTarget (ids : List ℕ) (id : ℕ) : List ℕ := if id ∈ ids then ids else ids ++ [id]

def pauseAtLimit (runId : ℕ) (reason : String) : StoreAct Unit :=
  .modify fun s => { s with
    runs := s.runs.update (fun run => run.id = runId) fun run => { run with status := .pausedLimit, reason := some reason } }

def registerEdge (run : TeamRun) (memberId : ℕ) (parentId : Option ℕ) : StoreAct ℕ := do
  let s ← Act.read
  let parent := parentId.bind s.dispatches.find?
  refuse (∃ p ∈ parent, p.runId ≠ run.id ∨ p.status = .cancelled) "team_dispatch_expired"
  refuse run.status.Finished "team_run_finished"
  let targets := addTarget (parent.elim [] TeamDispatch.fanoutMemberIds) memberId
  let depth := parent.elim 0 fun p => p.depth + 1
  Act.forEach (fun p : TeamDispatch => setDispatch { p with fanoutMemberIds := targets }) parent.toList
  whenever (4 < targets.length ∨ 8 < depth) do
    pauseAtLimit run.id (if 4 < targets.length then "fanout_limit" else "depth_limit")
    event run.teamId .runUpdated run.id
  return depth

def enqueue (run : TeamRun) (memberId : ℕ) (input : String) (parentId taskId : Option ℕ) (messageIds : List ℕ) : StoreAct Unit := do
  let depth ← registerEdge run memberId parentId
  let id ← randomUUID
  setDispatch ⟨id, run.teamId, run.id, memberId, taskId, messageIds, input, parentId, depth, [], .queued, none, none, none, none, none⟩
  event run.teamId .dispatchUpdated id

def TeamStore.activeRun (s : TeamStore) (teamId : ℕ) : Option TeamRun :=
  s.runs.rows.reverse.find? fun run => run.teamId = teamId ∧ ¬ run.status.Finished

def ensureRun (teamId : ℕ) (input : String) : StoreAct TeamRun := do
  let _ ← requiredTeam teamId
  let s ← Act.read
  match s.activeRun teamId with
  | some active => return active
  | none =>
    let id ← randomUUID
    let run : TeamRun := ⟨id, teamId, input, .running, 1, 0, 0, none, none⟩
    setRun run
    event teamId .runUpdated id
    return run

def idleMember (teamId memberId : ℕ) (failed : Bool) : StoreAct Unit := do
  let team ← requiredTeam teamId
  setTeam { team with
    members := team.members.map fun member =>
      if member.id = memberId then { member with status := if failed then .error else .idle } else member }

end Dispatches

section Tasks

variable (host : Host)

/-- The depth-first walk through the dependencies, as a stack. With the bound of `validateDependencies` it never ends early. -/
def visit (tasks : Table TeamTask.id) (teamId : ℕ) (taskId : Option ℕ) : ℕ → List ℕ → List ℕ → Except String (List ℕ)
  | 0, _, _ => .error "RangeError"
  | _ + 1, [], seen => .ok seen
  | bound + 1, id :: ids, seen =>
    if taskId = some id then .error "team_task_dependency_cycle"
    else if id ∈ seen then visit tasks teamId taskId bound ids seen
    else
      match tasks.find? id with
      | none => .error "team_task_not_found"
      | some task =>
        if task.teamId ≠ teamId then .error "team_task_dependency_other_team"
        else visit tasks teamId taskId bound (task.dependsOnIds ++ ids) (id :: seen)

def visitBound (tasks : Table TeamTask.id) (ids : List ℕ) : ℕ :=
  ids.length + (tasks.rows.map fun task => task.dependsOnIds.length).sum + 1

def visitAll (tasks : Table TeamTask.id) (teamId : ℕ) (taskId : Option ℕ) : List ℕ → Except String Unit
  | [] => .ok ()
  | id :: ids =>
    match visit tasks teamId taskId (visitBound tasks [id]) [id] [] with
    | .error error => .error error
    | .ok _ => visitAll tasks teamId taskId ids

def validateDependencies (teamId : ℕ) (ids : List ℕ) (taskId : Option ℕ) : StoreAct Unit := do
  refuse (¬ ids.Nodup) "invalid_task_dependencies"
  let s ← Act.read
  match visitAll s.tasks teamId taskId ids with
  | .error error => Act.throw error
  | .ok () => return ()

structure TaskInput where
  memberId : ℕ
  title : String
  input : String
  dependsOnIds : List ℕ

def queueTask (teamId : ℕ) (input : TaskInput) (parentId : Option ℕ) : StoreAct TeamTask := transaction do
  let team ← requiredTeam teamId
  let _ ← requiredMember team input.memberId
  validateDependencies teamId input.dependsOnIds none
  let id ← randomUUID
  let title ← parsed host "title" (boundedText input.title 200)
  let text ← parsed host "input" (boundedText input.input 65536)
  let task : TeamTask := ⟨id, teamId, input.memberId, 1, input.dependsOnIds, title, text, .queued, none, none, none⟩
  setTask task
  let run ← ensureRun teamId text
  enqueue run input.memberId text parentId (some id) []
  event teamId .taskQueued id
  save
  return task

def beginTask (id : ℕ) : StoreAct Unit := do
  let task ← requiredTask id
  refuse (task.status ≠ .queued) "team_task_not_queued"
  let team ← requiredTeam task.teamId
  let member ← requiredMember team task.memberId
  let s ← Act.read
  refuse (∃ id ∈ task.dependsOnIds, (s.tasks.find? id).map TeamTask.status ≠ some .succeeded) "team_task_blocked"
  refuse (member.status = .running) "team_member_busy"
  setTask { task with status := .running }
  setTeam { team with
    members := team.members.map fun value => if value.id = member.id then { member with status := .running } else value }
  event team.id .taskStarted id
  save

inductive Outcome
  | succeeded (sessionId : String) (result : Option String)
  | failed (error : String)
  deriving DecidableEq

def Outcome.isFailed : Outcome → Bool
  | .succeeded _ _ => false
  | .failed _ => true

def Outcome.result : Outcome → Option String
  | .succeeded _ result => result
  | .failed _ => none

def Outcome.error : Outcome → Option String
  | .succeeded _ _ => none
  | .failed error => some error

def Outcome.sessionId : Outcome → Option String
  | .succeeded sessionId _ => some sessionId
  | .failed _ => none

def finishTask (id : ℕ) (outcome : Outcome) : StoreAct Unit := do
  let task ← requiredTask id
  whenever (task.status ≠ .cancelled) do
    refuse (task.status ≠ .running) "team_task_not_running"
    refuse (outcome.sessionId = some "") (host.schemaError "sessionId")
    setTask { task with
      status := if outcome.isFailed then .failed else .succeeded
      sessionId := outcome.sessionId
      result := outcome.result
      error := outcome.error }
    idleMember task.teamId task.memberId outcome.isFailed
    event task.teamId (if outcome.isFailed then .taskFailed else .taskCompleted) id
    save

def cancelDispatches (taskId : ℕ) : StoreAct Unit :=
  .modify fun s => { s with
    dispatches := s.dispatches.update (fun item => item.taskId = some taskId ∧ item.status.Pending) fun item =>
      { item with status := .cancelled } }

def cancelTask (teamId id : ℕ) : StoreAct Unit := do
  let task ← requiredTask id
  refuse (task.teamId ≠ teamId) "team_task_not_found"
  refuse (¬ task.status.Pending) "team_task_not_cancellable"
  setTask { task with status := .cancelled }
  cancelDispatches id
  whenever (task.status = .running) (idleMember teamId task.memberId false)
  event teamId .taskCancelled id
  save

structure TaskMutation where
  title : Option String
  input : Option String
  dependsOnIds : Option (List ℕ)
  succeeds : Option Bool
  result : Option String

def checkCaller (teamId : ℕ) (task : TeamTask) (caller : ℕ) : StoreAct Unit :=
  whenever (task.memberId ≠ caller) do
    let team ← requiredTeam teamId
    let member ← requiredMember team caller
    refuse (member.role ≠ .lead) "team_task_forbidden"

def setQueuedInput (taskId : ℕ) (input : String) : StoreAct Unit :=
  .modify fun s => { s with
    dispatches := s.dispatches.update (fun item => item.taskId = some taskId ∧ item.status = .queued) fun item =>
      { item with input := input } }

def checkUpdate (teamId version : ℕ) (task : TeamTask) (input : TaskMutation) (callerMemberId : Option ℕ) : StoreAct Unit := do
  refuse (task.teamId ≠ teamId) "team_task_not_found"
  refuse (task.version ≠ version) "team_task_version_conflict"
  refuse (input.succeeds ≠ none ∧ task.status ≠ .running) "team_task_not_running"
  Act.forEach (checkCaller teamId task) callerMemberId.toList
  Act.forEach (fun ids => validateDependencies teamId ids (some task.id)) input.dependsOnIds.toList
  refuse (task.status ≠ .queued ∧ (input.input.any (· ≠ "") ∨ input.dependsOnIds ≠ none)) "team_task_already_started"

def updateTask (teamId taskId version : ℕ) (input : TaskMutation) (callerMemberId : Option ℕ) : StoreAct TeamTask := do
  let task ← requiredTask taskId
  checkUpdate teamId version task input callerMemberId
  let title ← parsed host "title" (boundedText (input.title.getD task.title) 200)
  let text ← parsed host "input" (boundedText (input.input.getD task.input) 65536)
  let next : TeamTask := { task with
    version := task.version + 1
    dependsOnIds := input.dependsOnIds.getD task.dependsOnIds
    title := title
    input := text
    status := input.succeeds.elim task.status fun succeeds => if succeeds then .succeeded else .failed
    result := input.result.or task.result }
  setTask next
  Act.forEach (setQueuedInput taskId) (input.input.filter (· ≠ "")).toList
  event teamId .taskUpdated taskId
  save
  return next

end Tasks

section Messages

variable (host : Host)

structure MessageInput where
  fromMemberId : Option ℕ
  toMemberId : Option ℕ
  body : String

def TeamStore.pendingFor (s : TeamStore) (runId memberId : ℕ) : Option TeamDispatch :=
  s.dispatches.rows.find? fun item =>
    item.runId = runId ∧ item.memberId = memberId ∧ item.status = .queued ∧ item.taskId = none ∧ item.messageIds ≠ []

def messageText (input : MessageInput) : String :=
  "团队消息（" ++ input.fromMemberId.elim "用户" (fun id => "member-" ++ (host.uuid id).text) ++ "）：\n" ++ input.body

def setMessage (message : TeamMailboxMessage) : StoreAct Unit := .modify fun s => { s with messages := s.messages.set message }

def deliver (run : TeamRun) (messageId : ℕ) (text : String) (parentId : Option ℕ) (memberId : ℕ) : StoreAct Unit := do
  let s ← Act.read
  match s.pendingFor run.id memberId with
  | some pending =>
    let depth ← registerEdge run memberId parentId
    setDispatch { pending with
      depth := max pending.depth depth
      messageIds := pending.messageIds ++ [messageId]
      input := pending.input ++ "\n\n" ++ text }
  | none => enqueue run memberId text parentId none [messageId]

def sendMessage (teamId : ℕ) (input : MessageInput) (parentId : Option ℕ) : StoreAct TeamMailboxMessage := transaction do
  let team ← requiredTeam teamId
  Act.forEach (fun id => do let _ ← requiredMember team id) input.fromMemberId.toList
  Act.forEach (fun id => do let _ ← requiredMember team id) input.toMemberId.toList
  let id ← randomUUID
  let body ← parsed host "body" (boundedText input.body 65536)
  let message : TeamMailboxMessage := ⟨id, teamId, input.fromMemberId, input.toMemberId, body, none⟩
  setMessage message
  let run ← ensureRun teamId input.body
  let targets := input.toMemberId.elim
    ((team.members.filter fun member => some member.id ≠ input.fromMemberId).map TeamMember.id) fun id => [id]
  Act.forEach (deliver run id (messageText host input) parentId) targets
  event teamId .mailReceived id
  save
  return message

end Messages

section Runs

variable (host : Host)

def startRun (teamId : ℕ) (input : String) (memberId : Option ℕ) : StoreAct TeamRun := do
  refuse (isBlank input ∨ 65536 < codeUnits input) "invalid_team_input"
  let team ← requiredTeam teamId
  let target ← memberId.elim (TeamMember.id <$> theLead team) pure
  let _ ← requiredMember team target
  let run ← ensureRun teamId input
  refuse (run.status ≠ .running) "team_run_requires_resume"
  enqueue run target input none none []
  save
  return run

inductive RunAction
  | pause
  | resume
  | cancel
  deriving DecidableEq

def RunAction.status : RunAction → RunStatus
  | .pause => .paused
  | .resume => .running
  | .cancel => .cancelled

def cancelItem (teamId runId : ℕ) (item : TeamDispatch) : StoreAct Unit :=
  whenever (item.runId = runId ∧ item.status.Pending) do
    setDispatch { item with status := .cancelled }
    Act.forEach (fun taskId => do
      let task ← requiredTask taskId
      whenever task.status.Pending (cancelTask teamId taskId)) item.taskId.toList
    idleMember teamId item.memberId false

def cancelItems (teamId runId : ℕ) : List ℕ → StoreAct Unit :=
  Act.forEach fun id => do
    let s ← Act.read
    Act.forEach (cancelItem teamId runId) (s.dispatches.find? id).toList

def continueText : String := "用户要求继续团队目标。上次运行中断，已经发送的操作可能发生过，请先检查成员会话和文件状态；不要盲目重复外部操作。"

def resetDepths (runId : ℕ) : StoreAct Unit :=
  .modify fun s => { s with
    dispatches := s.dispatches.update (fun item => item.runId = runId ∧ item.status = .queued) fun item =>
      { item with depth := 0, parentId := none } }

def controlRun (teamId runId : ℕ) (action : RunAction) : StoreAct TeamRun := transaction do
  let s ← Act.read
  let run ← Act.required (s.runs.find? runId) "team_run_not_found"
  refuse (run.teamId ≠ teamId) "team_run_not_found"
  refuse run.status.Finished "team_run_finished"
  let next : TeamRun := { run with
    status := action.status
    reason := none
    segment := if action = .resume then run.segment + 1 else run.segment
    dispatchCount := if action = .resume then 0 else run.dispatchCount
    recruitedCount := if action = .resume then 0 else run.recruitedCount }
  setRun next
  whenever (action = .cancel) (cancelItems teamId runId (s.dispatches.rows.map TeamDispatch.id))
  whenever (action = .resume) do
    resetDepths runId
    whenever (run.status = .interrupted ∨ run.reason = some "dependency_failed") do
      let team ← requiredTeam teamId
      let lead ← theLead team
      enqueue next lead.id continueText none none []
  event teamId .runUpdated runId
  save
  return next

def recruit (teamId parentId : ℕ) (input : MemberInput) : StoreAct Team := transaction do
  let s ← Act.read
  let parent ← Act.required (s.dispatches.find? parentId) "team_dispatch_expired"
  refuse (parent.teamId ≠ teamId ∨ parent.status ≠ .running) "team_dispatch_expired"
  let run ← theRun parent.runId
  refuse (run.status ≠ .running) "team_run_paused"
  refuse (8 ≤ run.recruitedCount) "team_recruit_limit"
  let team ← addMember host teamId input
  setRun { run with
    recruitedCount := run.recruitedCount + 1
    status := if 8 ≤ run.recruitedCount + 1 then .pausedLimit else run.status
    reason := if 8 ≤ run.recruitedCount + 1 then some "recruit_limit" else run.reason }
  event teamId .runUpdated run.id
  save
  return team

def dependencyFailed : List ℕ → StoreAct Bool
  | [] => return false
  | id :: ids => do
    let task ← requiredTask id
    if task.status = .failed ∨ task.status = .cancelled then return true else dependencyFailed ids

def goesOn : List TeamDispatch → StoreAct Bool
  | [] => return false
  | item :: items =>
    if item.status = .running then return true
    else
      match item.taskId with
      | none => return true
      | some taskId => do
        let task ← requiredTask taskId
        let failed ← dependencyFailed task.dependsOnIds
        if failed then goesOn items else return true

def pauseBlockedRun (run : TeamRun) : StoreAct Unit :=
  whenever (run.status = .running) do
    let s ← Act.read
    let outstanding := s.dispatches.rows.filter fun item => item.runId = run.id ∧ item.status.Pending
    whenever (outstanding ≠ []) do
      let free ← goesOn outstanding
      whenever (free = false) do
        setRun { run with status := .paused, reason := some "dependency_failed" }
        event run.teamId .runUpdated run.id
        save

def pauseBlockedRuns : StoreAct Unit := do
  let s ← Act.read
  Act.forEach (fun id => do
    let s ← Act.read
    Act.forEach pauseBlockedRun (s.runs.find? id).toList) (s.runs.rows.map TeamRun.id)

end Runs

section Turns

variable (host : Host)

def TeamStore.queuedDispatches (s : TeamStore) (now : ℤ) : List TeamDispatch :=
  s.dispatches.rows.filter fun item =>
    item.status = .queued ∧ (s.runs.find? item.runId).map TeamRun.status = some .running ∧ ∀ t ∈ item.notBefore, t ≤ now

def beginDispatch (id : ℕ) : StoreAct Unit := do
  let item ← theDispatch id
  let run ← theRun item.runId
  refuse (item.status ≠ .queued ∨ run.status ≠ .running) "team_dispatch_not_ready"
  let team ← requiredTeam item.teamId
  let member ← requiredMember team item.memberId
  let s ← Act.read
  refuse (member.status = .running ∨ 4 ≤ s.dispatches.count fun row => row.runId = item.runId ∧ row.status = .running) "team_member_busy"
  if 64 ≤ run.dispatchCount ∨ 8 < item.depth then
    setRun { run with
      status := .pausedLimit
      reason := some (if 64 ≤ run.dispatchCount then "dispatch_budget" else "depth_limit") }
    event team.id .runUpdated run.id
    save
    Act.throw "team_run_limit"
  else
    transaction do
      item.taskId.elim (setTeam { team with
        members := team.members.map fun row => if row.id = member.id then { row with status := .running } else row }) beginTask
      setRun { run with dispatchCount := run.dispatchCount + 1 }
      setDispatch { item with status := .running, notBefore := none }
      event team.id .dispatchUpdated id
      save

def readMessages (ids : List ℕ) (now : ℤ) : StoreAct Unit :=
  .modify fun s => { s with
    messages := s.messages.update (fun message => message.id ∈ ids) fun message => { message with readAt := some now } }

def submittedDispatch (id : ℕ) (turnId : String) (now : ℤ) : StoreAct Unit := do
  let item ← theDispatch id
  whenever (item.status = .running) do
    setDispatch { item with turnId := some turnId, submittedAt := some now }
    readMessages item.messageIds now
    save

def deferDispatch (id : ℕ) (now : ℤ) : StoreAct Unit := do
  let item ← theDispatch id
  whenever (item.status = .running ∧ item.submittedAt = none) do
    setDispatch { item with status := .queued, notBefore := some (now + 1000) }
    let run ← theRun item.runId
    setRun { run with dispatchCount := run.dispatchCount - 1 }
    Act.forEach (fun taskId => do
      let task ← requiredTask taskId
      setTask { task with status := .queued }) item.taskId.toList
    idleMember item.teamId item.memberId false
    save

def reportText (id : ℕ) (outcome : Outcome) : String :=
  "成员回合 team-dispatch-" ++ (host.uuid id).text ++ (if outcome.isFailed then " 失败：\n" else " 完成：\n") ++
    (outcome.error.getD (outcome.result.getD "已完成，请检查成果。"))

def openTask (taskId : Option ℕ) : StoreAct (Option ℕ) :=
  taskId.elim (pure none) fun id => do
    let task ← requiredTask id
    return if task.status = .running then some id else none

def reportTurn (item : TeamDispatch) (run : TeamRun) (outcome : Outcome) : StoreAct Unit := do
  let team ← requiredTeam item.teamId
  let lead ← theLead team
  if lead.id ≠ item.memberId then
    let _ ← sendMessage host team.id ⟨some item.memberId, some lead.id, reportText host item.id outcome⟩ (some item.id)
  else
    let s ← Act.read
    whenever (¬ ∃ row ∈ s.dispatches.rows, row.runId = run.id ∧ row.status.Pending)
      (setRun { run with
        status := if outcome.isFailed then .interrupted else .completed
        reason := outcome.error
        result := outcome.result })

def finishDispatch (id : ℕ) (outcome : Outcome) : StoreAct Unit := transaction do
  let item ← theDispatch id
  whenever (item.status = .running) do
    setDispatch { item with
      status := if outcome.isFailed then .failed else .succeeded
      result := outcome.result
      error := outcome.error }
    let openId ← openTask item.taskId
    openId.elim (idleMember item.teamId item.memberId outcome.isFailed) fun taskId => finishTask host taskId outcome
    let run ← theRun item.runId
    whenever (¬ (run.status.Finished ∨ run.status = .interrupted)) (reportTurn host item run outcome)
    event item.teamId .dispatchUpdated id
    event item.teamId .runUpdated run.id
    save

inductive Ending
  | turned (outcome : Outcome)
  | busy

def execute (id : ℕ) (now : ℤ) : Ending → StoreAct Unit
  | .turned (.succeeded sessionId result) => fun s =>
    match finishDispatch host id (.succeeded sessionId result) s with
    | (.ok (), t) => (.ok (), t)
    | (.error error, t) => finishDispatch host id (.failed error) t
  | .turned (.failed error) => finishDispatch host id (.failed error)
  | .busy => deferDispatch id now

end Turns

section Recovery


def interruptedExecutions : StoreAct (List ℕ) := do
  let s ← Act.read
  let tasks := s.tasks.rows.filter fun task =>
    task.status = .failed ∧ task.error = some "runtime_restarted" ∧ task.id ∉ s.quotaReconciledTaskIds ∧
      ¬ ∃ item ∈ s.dispatches.rows, item.taskId = some task.id ∧ item.status = .interrupted
  let items := s.dispatches.rows.filter fun item => item.status = .interrupted ∧ item.id ∉ s.quotaReconciledTaskIds
  Act.forEach (fun task : TeamTask => do
    let team ← requiredTeam task.teamId
    let _ ← requiredMember team task.memberId) tasks
  Act.forEach (fun item : TeamDispatch => do
    let team ← requiredTeam item.teamId
    let _ ← requiredMember team item.memberId) items
  return tasks.map TeamTask.id ++ items.map TeamDispatch.id

def acknowledge (id : ℕ) : StoreAct Unit :=
  .modify fun s => { s with quotaReconciledTaskIds := if id ∈ s.quotaReconciledTaskIds then s.quotaReconciledTaskIds else s.quotaReconciledTaskIds ++ [id] }

def acknowledgeInterruptedExecution (id : ℕ) : StoreAct Unit := do
  let s ← Act.read
  if (s.dispatches.find? id).map TeamDispatch.status = some .interrupted then
    acknowledge id
    save
  else
    let task ← requiredTask id
    refuse (task.status ≠ .failed ∨ task.error ≠ some "runtime_restarted") "team_task_not_interrupted"
    acknowledge id
    save

def Document.interrupted (d : Document) : Document :=
  let runs := d.runs.update (fun run => ∃ item ∈ d.dispatches.rows, item.status = .running ∧ item.runId = run.id) fun run =>
    { run with status := .interrupted, reason := some "runtime_restarted" }
  let tasks := d.tasks.update (fun task => task.status = .running) fun task =>
    { task with status := .failed, error := some "runtime_restarted" }
  let dispatches := d.dispatches.update (fun item => item.status = .running) fun item =>
    { item with status := .interrupted, error := some "runtime_restarted" }
  { d with
    runs := runs
    tasks := tasks
    dispatches := dispatches.update (fun item => item.status = .queued ∧
      ∃ task ∈ tasks.rows, item.taskId = some task.id ∧ task.status.Terminal) fun item => { item with status := .cancelled } }

def construct (d : Document) : StoreAct Unit := do
  Act.modify fun s => { s with toDocument := d.interrupted, batch := false }
  let s ← Act.read
  let orphans := s.tasks.rows.filter fun task =>
    task.status = .queued ∧ ¬ ∃ item ∈ s.dispatches.rows, item.taskId = some task.id
  Act.forEach (fun task : TeamTask => do
    let run ← ensureRun task.teamId task.input
    enqueue run task.memberId task.input none (some task.id) []) orphans
  whenever (orphans ≠ [] ∨ (∃ task ∈ d.tasks.rows, task.status = .running) ∨ ∃ item ∈ d.dispatches.rows, item.status = .running) do
    Act.modify fun s => { s with
      teams := s.teams.update (fun _ => True) fun team => { team with
        members := team.members.map fun member => if member.status = .running then { member with status := .idle } else member } }
    save

end Recovery

section Operations

def setOperation (operation : Operation) : StoreAct Unit :=
  .modify fun s => { s with operations := s.operations.set operation }

/-- `operation`: the result, or the JSON image of the first one. `image` is `JSON.stringify` of a result, `input` that of the input. -/
def operation {α : Type} (image : α → Option String) (id input : String) (perform : StoreAct α) : StoreAct (α ⊕ String) := do
  refuse (id.toList = [] ∨ 200 < id.toList.length ∨ ∃ c ∈ id.toList, ¬ (c.isAlphanum ∨ c ∈ ['_', ':', '@', '.', '-'])) "invalid_operation_id"
  let s ← Act.read
  match s.operations.find? id with
  | some previous =>
    refuse (previous.input ≠ input) "operation_id_conflict"
    return .inr previous.result
  | none =>
    transaction do
      let result ← perform
      let text ← Act.required (image result) "SyntaxError"
      setOperation ⟨id, input, text⟩
      return .inl result

end Operations

end WorkAgent.Teams
