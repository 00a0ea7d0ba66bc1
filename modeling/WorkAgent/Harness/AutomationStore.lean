import WorkAgent.Library.Table
import WorkAgent.Library.Executions
import WorkAgent.Harness.Strings

namespace WorkAgent.Harness.Automation

open Library

abbrev Instant := ℤ

inductive AutomationSchedule
  | once (instant : Instant)
  | interval (everyMinutes : ℤ)
  | weekly (daysOfWeek : List ℤ) (hour minute : ℤ) (timezone : String)
  | cron (expression timezone : String)
  deriving DecidableEq

namespace AutomationSchedule

def accepted : AutomationSchedule → Bool
  | once _ => true
  | interval everyMinutes => 1 ≤ everyMinutes ∧ everyMinutes ≤ 525600
  | weekly daysOfWeek hour minute timezone =>
    daysOfWeek ≠ [] ∧ (∀ day ∈ daysOfWeek, 0 ≤ day ∧ day ≤ 6) ∧ 0 ≤ hour ∧ hour ≤ 23 ∧ 0 ≤ minute ∧ minute ≤ 59 ∧
      1 ≤ codeUnits timezone ∧ codeUnits timezone ≤ 100
  | cron expression timezone => codeUnits expression ≤ 200 ∧ 1 ≤ codeUnits timezone ∧ codeUnits timezone ≤ 100

def isOnce : AutomationSchedule → Bool
  | once _ => true
  | _ => false

end AutomationSchedule

structure LocalTime where
  day : Option ℤ
  hour : ℤ
  minute : ℤ

/-- `Intl.DateTimeFormat` and `Cron.nextRun`, which throw on a time zone or an expression they do
not know. -/
structure Calendar where
  timezoneParts : Instant → String → Except String LocalTime
  nextRun : String → String → Instant → Except String (Option Instant)

def searchWindow : List ℕ := List.range (8 * 24 * 60 + 1)

def nextWeekly (calendar : Calendar) (daysOfWeek : List ℤ) (hour minute : ℤ) (timezone : String)
    (candidate : Instant) : List ℕ → Except String Instant
  | [] => throw "automation_schedule_has_no_next_run"
  | offset :: offsets => do
    let value := candidate + offset * 60000
    let here ← calendar.timezoneParts value timezone
    if here.day.any (· ∈ daysOfWeek) ∧ here.hour = hour ∧ here.minute = minute then
      return value
    nextWeekly calendar daysOfWeek hour minute timezone candidate offsets

def nextScheduleTime (calendar : Calendar) (schedule : AutomationSchedule) (after : Instant) :
    Except String Instant := do
  if ¬ schedule.accepted then
    throw "invalid_schedule"
  match schedule with
  | .once instant =>
    if instant ≤ after then
      throw "automation_once_time_in_past"
    return instant
  | .interval everyMinutes => return after + everyMinutes * 60000
  | .cron expression timezone =>
    if expression.toList.all isSpace then
      throw "automation_schedule_manual_only"
    match ← calendar.nextRun expression timezone after with
    | none => throw "automation_schedule_has_no_next_run"
    | some next => return next
  | .weekly daysOfWeek hour minute timezone =>
    let _ ← calendar.timezoneParts after timezone
    nextWeekly calendar daysOfWeek hour minute timezone (after - after.tmod 60000 + 60000) searchWindow

structure AutomationDefinition where
  id : String
  version : ℤ
  enabled : Bool
  schedule : AutomationSchedule
  messageNotificationEnabled : Bool
  messageNotificationTargetId : Option String
  nextRunAt : Option Instant
  lastRunAt : Option Instant
  createdAt : Instant
  updatedAt : Instant
  deriving DecidableEq

structure AutomationMutation where
  enabled : Bool
  schedule : AutomationSchedule
  messageNotificationEnabled : Bool
  messageNotificationTargetId : Option String

structure AutomationPatch where
  enabled : Option Bool
  schedule : Option AutomationSchedule
  messageNotificationEnabled : Option Bool
  messageNotificationTargetId : Option (Option String)

inductive Trigger
  | scheduled
  | manual
  deriving DecidableEq

inductive RunStatus
  | pending
  | waiting
  | running
  | succeeded
  | failed
  | cancelled
  | skippedBusy
  deriving DecidableEq

def RunStatus.Final (status : RunStatus) : Prop :=
  status = .succeeded ∨ status = .failed ∨ status = .cancelled ∨ status = .skippedBusy

structure AutomationRun where
  id : String
  automationId : String
  definitionSnapshot : AutomationDefinition
  trigger : Trigger
  scheduledFor : Instant
  status : RunStatus
  notBefore : Option Instant := none
  busyRetryCount : ℕ := 0
  lastWaitReason : Option String := none
  submittedAt : Option Instant := none
  turnId : Option String := none
  attempt : ℕ
  sessionId : Option String
  result : Option String
  skillSuggestionPath : Option String := none
  error : Option String
  createdAt : Instant
  startedAt : Option Instant
  finishedAt : Option Instant
  deriving DecidableEq

structure Operation where
  id : String
  input : String
  result : AutomationDefinition
  deriving DecidableEq

structure AutomationDocument where
  definitions : Table AutomationDefinition.id
  runs : Table AutomationRun.id
  quotaReconciledRunIds : List String
  operations : Table Operation.id

structure AutomationStore where
  memory : AutomationDocument
  batch : Bool
  file : AutomationDocument

def validateMessageNotification (enabled : Bool) (target : Option String) : Except String Unit :=
  if enabled ∧ target = none then throw "automation_notification_target_required" else return ()

def parseMutation (schedule : Option AutomationSchedule) (target : Option String) : Except String Unit :=
  if schedule.all (·.accepted) ∧ target ≠ some "" then return () else throw "invalid_mutation"

def definitionId (uuid : UUID) : String := "automation-" ++ uuid.text

def manualRunId (uuid : UUID) : String := "automation-run-" ++ uuid.text

def scheduledRunId (automationId : String) (scheduledFor : Instant) : String :=
  "automation-run-" ++ automationId ++ "-" ++ scheduledFor.repr

namespace AutomationDefinition

variable (definition : AutomationDefinition)

def due (now : Instant) : Option Instant :=
  if definition.enabled then definition.nextRunAt.filter (· ≤ now) else none

def occurrence (scheduledFor now : Instant) : AutomationRun where
  id := scheduledRunId definition.id scheduledFor
  automationId := definition.id
  definitionSnapshot := definition
  trigger := .scheduled
  scheduledFor := scheduledFor
  status := .pending
  attempt := 0
  sessionId := none
  result := none
  error := none
  createdAt := now
  startedAt := none
  finishedAt := none

def manualRun (uuid : UUID) (now : Instant) : AutomationRun where
  id := manualRunId uuid
  automationId := definition.id
  definitionSnapshot := definition
  trigger := .manual
  scheduledFor := now
  status := .pending
  attempt := 0
  sessionId := none
  result := none
  error := none
  createdAt := now
  startedAt := none
  finishedAt := none

def claimed (calendar : Calendar) (scheduledFor now : Instant) : Except String AutomationDefinition := do
  let nextRunAt ← (if definition.schedule.isOnce then return none
    else some <$> nextScheduleTime calendar definition.schedule now : Except String (Option Instant))
  return { definition with
    version := definition.version + 1
    lastRunAt := some scheduledFor
    enabled := if definition.schedule.isOnce then false else definition.enabled
    nextRunAt := nextRunAt
    updatedAt := now }

end AutomationDefinition

inductive RunOutcome
  | succeeded (sessionId : String) (result skillSuggestionPath : Option String)
  | failed (error : String) (sessionId : Option String)

namespace AutomationRun

variable (run : AutomationRun) (now : Instant)

def parse : Except String AutomationRun :=
  if run.sessionId = some "" then throw "invalid_run" else return run

def begun : AutomationRun :=
  { run with
    status := .running
    attempt := run.attempt + 1
    startedAt := some now
    error := none
    notBefore := none }

def deferred : AutomationRun :=
  let exhausted := 3 ≤ run.busyRetryCount
  { run with
    status := if exhausted then .skippedBusy else .waiting
    attempt := run.attempt - 1
    busyRetryCount := run.busyRetryCount + if exhausted then 0 else 1
    notBefore := if exhausted then none else some (now + 30000)
    lastWaitReason := some "session_busy"
    error := if exhausted then some "automation_session_busy_after_retries" else none
    startedAt := none
    finishedAt := if exhausted then some now else none }

def finished : RunOutcome → AutomationRun
  | .succeeded sessionId result skillSuggestionPath =>
    { run with
      status := .succeeded
      sessionId := some sessionId
      result := result
      skillSuggestionPath := skillSuggestionPath
      error := none
      finishedAt := some now }
  | .failed error sessionId =>
    { run with
      status := .failed
      sessionId := sessionId.or run.sessionId
      result := none
      skillSuggestionPath := none
      error := some error
      finishedAt := some now }

def cancelled : AutomationRun := { run with status := .cancelled, finishedAt := some now }

def interrupted : AutomationRun :=
  { run with status := .failed, error := some "runtime_restarted", finishedAt := some now }

end AutomationRun

namespace AutomationDocument

def empty : AutomationDocument := ⟨.empty, .empty, [], .empty⟩

def setRun (document : AutomationDocument) (run : AutomationRun) : AutomationDocument :=
  { document with runs := document.runs.set run }

def setDefinition (document : AutomationDocument) (definition : AutomationDefinition) : AutomationDocument :=
  { document with definitions := document.definitions.set definition }

def claimDue (calendar : Calendar) (now : Instant) :
    List AutomationDefinition → AutomationDocument → Bool → Except String Bool × AutomationDocument
  | [], document, changed => (.ok changed, document)
  | definition :: definitions, document, changed =>
    match definition.due now with
    | none => claimDue calendar now definitions document changed
    | some scheduledFor =>
      let inserted :=
        { document with runs := document.runs.insertOrIgnore (definition.occurrence scheduledFor now) }
      match definition.claimed calendar scheduledFor now with
      | .error e => (.error e, inserted)
      | .ok next => claimDue calendar now definitions (inserted.setDefinition next) true

def runnable (document : AutomationDocument) (now : Instant) : List AutomationRun :=
  (document.runs.rows.filter fun run =>
    run.status = .pending ∨ (run.status = .waiting ∧ run.notBefore.any (· ≤ now))).mergeSort
      fun left right => left.createdAt ≤ right.createdAt

end AutomationDocument

namespace AutomationStore

def empty : AutomationStore := ⟨.empty, false, .empty⟩

variable (store : AutomationStore)

def save : AutomationStore := if store.batch then store else { store with file := store.memory }

def withMemory (memory : AutomationDocument) : AutomationStore := { store with memory := memory }

def required (id : String) : Except String AutomationDefinition :=
  (store.memory.definitions.find? id).elim (throw "automation_not_found") pure

def requiredRun (id : String) : Except String AutomationRun :=
  (store.memory.runs.find? id).elim (throw "automation_run_not_found") pure

def reopen (now : String → Instant) (file : AutomationDocument) : AutomationStore :=
  let runs := file.runs.update (fun run => run.status = .running) fun run => run.interrupted (now run.id)
  let store : AutomationStore := ⟨{ file with runs := runs }, false, file⟩
  if ∃ run ∈ file.runs.rows, run.status = .running then store.save else store

def create (calendar : Calendar) (now : Instant) (uuid : UUID) (input : AutomationMutation) :
    Except String (AutomationDefinition × AutomationStore) := do
  parseMutation (some input.schedule) input.messageNotificationTargetId
  let nextRunAt ← (if input.enabled then some <$> nextScheduleTime calendar input.schedule now else return none :
    Except String (Option Instant))
  let definition : AutomationDefinition :=
    { id := definitionId uuid
      version := 1
      enabled := input.enabled
      schedule := input.schedule
      messageNotificationEnabled := input.messageNotificationEnabled
      messageNotificationTargetId := input.messageNotificationTargetId
      nextRunAt := nextRunAt
      lastRunAt := none
      createdAt := now
      updatedAt := now }
  validateMessageNotification definition.messageNotificationEnabled definition.messageNotificationTargetId
  return (definition, (store.withMemory (store.memory.setDefinition definition)).save)

def cancelScheduled (document : AutomationDocument) (id : String) (now : Instant) : AutomationDocument :=
  { document with
    runs := document.runs.update
      (fun run => run.automationId = id ∧ (run.status = .waiting ∨ run.status = .pending) ∧ run.trigger = .scheduled)
      (fun run => run.cancelled now) }

def update (calendar : Calendar) (now : Instant) (id : String) (expectedVersion : ℤ) (input : AutomationPatch) :
    Except String (AutomationDefinition × AutomationStore) := do
  let current ← store.required id
  if current.version ≠ expectedVersion then
    throw "automation_version_conflict"
  parseMutation input.schedule (input.messageNotificationTargetId.getD none)
  let enabled := input.enabled.getD current.enabled
  let schedule := input.schedule.getD current.schedule
  let nextRunAt ← (if ¬ enabled then return none
    else if ¬ current.enabled ∨ input.schedule.isSome then some <$> nextScheduleTime calendar schedule now
    else return current.nextRunAt : Except String (Option Instant))
  let next :=
    { current with
      enabled := enabled
      schedule := schedule
      messageNotificationEnabled := input.messageNotificationEnabled.getD current.messageNotificationEnabled
      messageNotificationTargetId := input.messageNotificationTargetId.getD current.messageNotificationTargetId
      version := current.version + 1
      nextRunAt := nextRunAt
      updatedAt := now }
  validateMessageNotification next.messageNotificationEnabled next.messageNotificationTargetId
  let changed := store.memory.setDefinition next
  return (next, (store.withMemory (if input.enabled = some false then cancelScheduled changed id now else changed)).save)

def delete (id : String) : Except String (Unit × AutomationStore) := do
  let _ ← store.required id
  if ∃ run ∈ store.memory.runs.rows, run.automationId = id ∧
      (run.status = .pending ∨ run.status = .waiting ∨ run.status = .running) then
    throw "automation_has_active_run"
  return ((), (store.withMemory
    { store.memory with
      definitions := store.memory.definitions.delete (fun definition => definition.id = id)
      runs := store.memory.runs.delete (fun run => run.automationId = id) }).save)

def runNow (now : Instant) (uuid : UUID) (automationId : String) :
    Except String (AutomationRun × AutomationStore) := do
  let definition ← store.required automationId
  let run := definition.manualRun uuid now
  return (run, (store.withMemory (store.memory.setRun run)).save)

def claimRunnable (calendar : Calendar) (now : Instant) : Except String (List AutomationRun) × AutomationStore :=
  match store.memory.claimDue calendar now store.memory.definitions.rows false with
  | (.error e, memory) => (.error e, store.withMemory memory)
  | (.ok changed, memory) =>
    (.ok (memory.runnable now), if changed then (store.withMemory memory).save else store.withMemory memory)

def begin (now : Instant) (runId : String) : Except String (AutomationRun × AutomationStore) := do
  let run ← store.requiredRun runId
  if run.status ≠ .pending ∧ run.status ≠ .waiting then
    throw "automation_run_not_pending"
  let next := run.begun now
  return (next, (store.withMemory (store.memory.setRun next)).save)

def bindSession (runId sessionId : String) : Except String (Unit × AutomationStore) := do
  let run ← store.requiredRun runId
  if run.status ≠ .running then
    return ((), store)
  let next ← { run with sessionId := some sessionId }.parse
  return ((), (store.withMemory (store.memory.setRun next)).save)

def submitted (now : Instant) (runId turnId : String) : Except String (Unit × AutomationStore) := do
  let run ← store.requiredRun runId
  if run.status ≠ .running then
    return ((), store)
  let next := { run with turnId := some turnId, submittedAt := some now }
  return ((), (store.withMemory (store.memory.setRun next)).save)

def deferBusy (now : Instant) (runId : String) : Except String (AutomationRun × AutomationStore) := do
  let run ← store.requiredRun runId
  if run.status = .cancelled then
    return (run, store)
  if run.status ≠ .running ∨ run.submittedAt.isSome then
    throw "automation_run_not_retryable"
  let next := run.deferred now
  return (next, (store.withMemory (store.memory.setRun next)).save)

def acknowledgeInterruptedExecution (runId : String) : Except String (Unit × AutomationStore) := do
  let run ← store.requiredRun runId
  if run.status ≠ .failed ∨ run.error ≠ some "runtime_restarted" then
    throw "automation_run_not_interrupted"
  let ids := store.memory.quotaReconciledRunIds
  return ((), (store.withMemory
    { store.memory with quotaReconciledRunIds := if runId ∈ ids then ids else ids ++ [runId] }).save)

def finish (now : Instant) (runId : String) (outcome : RunOutcome) :
    Except String (AutomationRun × AutomationStore) := do
  let run ← store.requiredRun runId
  if run.status = .cancelled then
    return (run, store)
  if run.status ≠ .running then
    throw "automation_run_not_running"
  let next ← (run.finished now outcome).parse
  return (next, (store.withMemory (store.memory.setRun next)).save)

def cancel (now : Instant) (automationId runId : String) : Except String (AutomationRun × AutomationStore) := do
  let run ← store.requiredRun runId
  if run.automationId ≠ automationId then
    throw "automation_run_not_found"
  if run.status ≠ .pending ∧ run.status ≠ .waiting ∧ run.status ≠ .running then
    throw "automation_run_not_cancellable"
  let next := run.cancelled now
  return (next, (store.withMemory (store.memory.setRun next)).save)

def validOperationId (id : String) : Bool :=
  1 ≤ id.length ∧ id.length ≤ 200 ∧
    id.toList.all fun c => c.isAlphanum || c ∈ ['_', ':', '@', '.', '-']

def operation (id input : String)
    (perform : AutomationStore → Except String (AutomationDefinition × AutomationStore)) :
    Except String (AutomationDefinition × AutomationStore) := do
  if ¬ validOperationId id then
    throw "invalid_operation_id"
  match store.memory.operations.find? id with
  | some known =>
    if known.input ≠ input then
      throw "operation_id_conflict"
    return (known.result, store)
  | none =>
    let (result, performed) ← perform { store with batch := true }
    let memory := { performed.memory with operations := performed.memory.operations.set ⟨id, input, result⟩ }
    return (result, { performed with memory := memory, batch := false }.save)

end AutomationStore

inductive Edit
  | create (now : Instant) (uuid : UUID) (input : AutomationMutation)
  | update (now : Instant) (id : String) (expectedVersion : ℤ) (input : AutomationPatch)
  | refused (error : String)

namespace Edit

def perform (calendar : Calendar) :
    Edit → AutomationStore → Except String (AutomationDefinition × AutomationStore)
  | create now uuid input, store => store.create calendar now uuid input
  | update now id expectedVersion input, store => store.update calendar now id expectedVersion input
  | refused error, _ => throw error

def uuids : Edit → List UUID
  | create _ uuid _ => [uuid]
  | _ => []

end Edit

inductive Call
  | create (now : Instant) (uuid : UUID) (input : AutomationMutation)
  | update (now : Instant) (id : String) (expectedVersion : ℤ) (input : AutomationPatch)
  | delete (id : String)
  | runNow (now : Instant) (uuid : UUID) (automationId : String)
  | claimRunnable (now : Instant)
  | begin (now : Instant) (runId : String)
  | bindSession (runId sessionId : String)
  | submitted (now : Instant) (runId turnId : String)
  | deferBusy (now : Instant) (runId : String)
  | acknowledgeInterruptedExecution (runId : String)
  | finish (now : Instant) (runId : String) (outcome : RunOutcome)
  | cancel (now : Instant) (automationId runId : String)
  | operation (id input : String) (edit : Edit)
  | restart (now : String → Instant)

inductive Answer
  | done
  | definition (definition : AutomationDefinition)
  | run (run : AutomationRun)
  | runs (runs : List AutomationRun)

def attempt {α : Type} (store : AutomationStore) (answer : α → Answer)
    (outcome : Except String (α × AutomationStore)) : Except String Answer × AutomationStore :=
  match outcome with
  | .ok (a, next) => (.ok (answer a), next)
  | .error e => (.error e, store)

namespace Call

def uuids : Call → List UUID
  | create _ uuid _ => [uuid]
  | runNow _ uuid _ => [uuid]
  | operation _ _ edit => edit.uuids
  | _ => []

def perform (calendar : Calendar) (store : AutomationStore) : Call → Except String Answer × AutomationStore
  | create now uuid input => attempt store .definition (store.create calendar now uuid input)
  | update now id expectedVersion input =>
    attempt store .definition (store.update calendar now id expectedVersion input)
  | delete id => attempt store (fun _ => .done) (store.delete id)
  | runNow now uuid automationId => attempt store .run (store.runNow now uuid automationId)
  | claimRunnable now => ((store.claimRunnable calendar now).1.map .runs, (store.claimRunnable calendar now).2)
  | begin now runId => attempt store .run (store.begin now runId)
  | bindSession runId sessionId => attempt store (fun _ => .done) (store.bindSession runId sessionId)
  | submitted now runId turnId => attempt store (fun _ => .done) (store.submitted now runId turnId)
  | deferBusy now runId => attempt store .run (store.deferBusy now runId)
  | acknowledgeInterruptedExecution runId =>
    attempt store (fun _ => .done) (store.acknowledgeInterruptedExecution runId)
  | finish now runId outcome => attempt store .run (store.finish now runId outcome)
  | cancel now automationId runId => attempt store .run (store.cancel now automationId runId)
  | operation id input edit => attempt store .definition (store.operation id input (edit.perform calendar))
  | restart now => (.ok .done, AutomationStore.reopen now store.file)

end Call

structure Event where
  call : Call
  answer : Except String Answer

structure World where
  store : AutomationStore
  drawn : List UUID

def World.start : World := ⟨.empty, []⟩

inductive Step (calendar : Calendar) (w : World) : Event → World → Prop
  | call (call : Call) (hfresh : ∀ uuid ∈ call.uuids, uuid ∉ w.drawn) :
      Step calendar w ⟨call, (call.perform calendar w.store).1⟩ ⟨(call.perform calendar w.store).2, call.uuids ++ w.drawn⟩

def World.after (calendar : Calendar) : List Call → World → World
  | [], w => w
  | call :: calls, w => after calendar calls ⟨(call.perform calendar w.store).2, call.uuids ++ w.drawn⟩

def Draws : List Call → List UUID → Prop
  | [], _ => True
  | call :: calls, drawn => (∀ uuid ∈ call.uuids, uuid ∉ drawn) ∧ Draws calls (call.uuids ++ drawn)

theorem World.execution_after {calendar : Calendar} {calls : List Call} {w : World} (h : Draws calls w.drawn) :
    ∃ es, Execution (Step calendar) w es (World.after calendar calls w) := by
  induction calls generalizing w with
  | nil => exact ⟨[], .start⟩
  | cons call _ ih =>
    obtain ⟨_, hes⟩ := ih (w := ⟨(call.perform calendar w.store).2, call.uuids ++ w.drawn⟩) h.2
    exact ⟨_, (Execution.single (Step.call call h.1)).trans hes⟩

end WorkAgent.Harness.Automation
