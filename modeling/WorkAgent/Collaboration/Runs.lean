import Mathlib.Data.String.Basic
import WorkAgent.Collaboration.Conversations

namespace WorkAgent.Collaboration

open Library

inductive RunError
  | quotaExceeded
  | quotaNotConfigured
  | modelUnauthorized
  | other
  deriving DecidableEq

def sharedRunFailureBody : RunError → String
  | .quotaExceeded => "AI run was not started: the quota of the member who mentioned the assistant is exhausted."
  | .quotaNotConfigured =>
    "AI run was not started: no quota budget is configured for the member who mentioned the assistant."
  | .modelUnauthorized =>
    "AI run was not started: the member who mentioned the assistant is not authorized for this model."
  | .other => "AI run failed; the triggering messages remain available for retry."

def stoppedBody : String :=
  "AI run was stopped. Messages sent during the run remain in the next shared context."

def interruptedBody : String :=
  "AI run was interrupted by a Portal restart; its triggering messages remain available for retry."

structure Trigger where
  seq : ℕ
  id : String
  conversationID : String
  deriving DecidableEq

structure RunResult where
  messageID : String
  runtimeSessionID : String
  assistantBody : String
  runErr : Option RunError

def RunResult.normal (r : RunResult) : RunResult :=
  { r with
    messageID := trimSpace r.messageID, runtimeSessionID := trimSpace r.runtimeSessionID
    assistantBody := trimSpace r.assistantBody }

def RunResult.state (r : RunResult) : RunState := if r.runErr = none then .succeeded else .failed

def nullableString (value : String) : Option String := if value = "" then none else some value

namespace Store

variable (s : Store)

structure RunContext where
  conversation : ConversationRow
  project : ProjectRow
  payer : MemberRow
  assistant : AssistantRow

def runContext (conversationID assistantID : String) (payerUserID : ℤ) : Option RunContext := do
  let c ← s.conversation conversationID
  let p ← s.project c.projectID
  let m ← s.acceptedMember p.id payerUserID
  let a ← (s.assistants.find? (p.id, assistantID)).filter (fun a => a.state = .accepted)
  some ⟨c, p, m, a⟩

def previousRuntimeSession (conversationID assistantID : String) : String :=
  let succeeded := s.runs.rows.filter
    (fun r => r.conversationID = conversationID ∧ r.assistantID = assistantID ∧ r.state = .succeeded)
  ((pick (fun r best => best.finishedAt.getD 0 ≤ r.finishedAt.getD 0) succeeded).bind
    RunRow.runtimeSessionID).getD ""

def contextFrom (last : ℕ) : ℕ := if last = 0 then 0 else last + 1

def reserveAssistantRun (runID : String) (message : Trigger) (payerUserID : ℤ) (assistantID sessionKey : String)
    (stamp : ℤ) : Except Error (AIRun × Store) := do
  let x ← orError (s.runContext message.conversationID assistantID payerUserID) .forbidden
  require (x.project.state = .active) .conflict
  require (∀ r ∈ s.runs.rows, ¬ (r.triggerMessageID = message.id ∧ r.assistantID = assistantID)) .conflict
  require (¬ s.activeIn message.conversationID assistantID) .conflict
  let (_, t) ← s.seedSession ⟨message.conversationID, assistantID, sessionKey, 0⟩
  let session ← orError (t.session message.conversationID assistantID) (.database "sql: no rows in result set")
  require (session.lastContextSeq < message.seq) .conflict
  let run : AIRun :=
    { id := runID
      assistantID := x.assistant.assistantID
      assistantName := x.assistant.name
      modelID := x.assistant.modelID
      thinkingEffort := x.assistant.thinkingEffort
      sessionKey := session.sessionKey
      conversationID := x.conversation.id
      triggerMessageID := message.id
      engine := x.assistant.backend
      ownerUserID := x.project.ownerUserID
      ownerSID := x.project.ownerSID
      payerUserID := payerUserID
      payerSID := x.payer.sid
      contextFromSeq := contextFrom session.lastContextSeq
      contextThroughSeq := message.seq
      previousRuntimeSessionID := t.previousRuntimeSession message.conversationID assistantID }
  let runs ← t.runs.insertChecked (∃ m ∈ t.messages.rows, m.id = message.id)
    ⟨run.id, run.conversationID, run.triggerMessageID, run.assistantID, run.assistantName, run.engine, .running,
      run.ownerUserID, run.ownerSID, run.contextFromSeq, run.contextThroughSeq, none, stamp, none⟩ (.database "")
  let payers ← t.payers.insertChecked True ⟨run.id, run.payerUserID, run.payerSID⟩ (.database "")
  return (run, { t with
    runs := runs, payers := payers
    conversations := t.conversations.update (fun c => c.id = run.conversationID)
      (fun c => { c with state := .running, updatedAt := stamp }) })

def stateAfter (conversationID : String) : ConversationState :=
  if s.runningIn conversationID then .running else .idle

def sharedMessagesRange (conversationID : String) (fromSeq throughSeq : ℕ) : List MessageRow :=
  s.messages.rows.filter (fun m => m.conversationID = conversationID ∧ fromSeq ≤ m.seq ∧ m.seq ≤ throughSeq)

def cursorAfter (run : AIRun) (result : RunResult) : ℕ := if result.runErr = none then run.contextThroughSeq else 0

def finishAIRun (run : AIRun) (result : RunResult) (stamp : ℤ) : Except Error (MessageRow × Store) := do
  let runs ← s.runs.updateOne (fun r => r.id = run.id ∧ r.state = .running)
    (fun r => { r with
      state := result.state, runtimeSessionID := nullableString result.runtimeSessionID
      finishedAt := some stamp }) .conflict
  let r : MessageRow := ⟨s.lastSeq + 1, result.messageID, run.conversationID, none, run.assistantName,
    run.assistantID, if result.runErr = none then .assistant else .system,
    result.runErr.elim result.assistantBody sharedRunFailureBody, [], [], stamp⟩
  let t ← { s with runs := runs }.insertMessage r
  let lastAI := cursorAfter run result
  let sessions := if 0 < lastAI then
      t.sessions.update (fun x => x.conversationID = run.conversationID ∧ x.assistantID = run.assistantID)
        (fun x => { x with lastContextSeq := lastAI })
    else t.sessions
  return (r, { t with
    sessions := sessions
    conversations := t.conversations.update (fun c => c.id = run.conversationID)
      (fun c => { c with
        state := t.stateAfter c.id
        lastAIMessageSeq := if 0 < lastAI ∧ c.assistantID = run.assistantID then lastAI else c.lastAIMessageSeq
        updatedAt := stamp }) })

def stoppable (conversationID assistantID : String) (userID : ℤ) : Option (RunRow × PayerRow) := do
  let c ← s.conversation conversationID
  let _ ← s.acceptedMember c.projectID userID
  let r ← pick (fun r best => r.createdAt < best.createdAt ∨ (r.createdAt = best.createdAt ∧ r.id < best.id))
    (s.runs.rows.filter (fun r => r.conversationID = conversationID ∧
      (assistantID = "" ∨ r.assistantID = assistantID) ∧ r.state = .running ∧
      ∃ y ∈ s.payers.rows, y.runID = r.id))
  let y ← s.payers.rows.find? (fun y => y.runID = r.id)
  some (r, y)

def stopAssistantRun (conversationID assistantID : String) (userID : ℤ) (messageID : String) (stamp : ℤ) :
    Except Error ((AIRun × MessageRow) × Store) := do
  let (r, y) ← orError (s.stoppable conversationID assistantID userID) .notFound
  let t : Store := { s with
    runs := s.runs.update (fun x => x.id = r.id ∧ x.state = .running)
      (fun x => { x with state := .stopped, finishedAt := some stamp }) }
  let u : Store := { t with
    conversations := t.conversations.update (fun c => c.id = conversationID)
      (fun c => { c with state := t.stateAfter c.id, updatedAt := stamp }) }
  let m : MessageRow := ⟨s.lastSeq + 1, messageID, conversationID, none, "System", "", .system, stoppedBody, [],
    [], stamp⟩
  let v ← u.insertMessage m
  return (({ id := r.id, assistantID := r.assistantID, assistantName := r.assistantName, modelID := ""
             thinkingEffort := "", sessionKey := "", conversationID := r.conversationID
             triggerMessageID := r.triggerMessageID, engine := r.engine, ownerUserID := r.ownerUserID
             ownerSID := r.ownerSID, payerUserID := y.userID, payerSID := y.sid
             contextFromSeq := r.contextFromSeq, contextThroughSeq := r.contextThroughSeq
             previousRuntimeSessionID := "" }, m), v)

def insertMessageOrIgnore (r : MessageRow) : Except Error Store := do
  require (∃ c ∈ s.conversations.rows, c.id = r.conversationID) (.database "FOREIGN KEY constraint failed")
  if ∃ m ∈ s.messages.rows, m.id = r.id then return s else s.insertMessage r

def recoverInterruptedRun (r : RunRow) (stamp : ℤ) : Except Error Store :=
  let t : Store := { s with
    runs := s.runs.update (fun x => x.id = r.id ∧ x.state = .running)
      (fun x => { x with state := .failed, finishedAt := some stamp })
    conversations := s.conversations.update (fun c => c.id = r.conversationID ∧ c.state = .running)
      (fun c => { c with state := .idle, updatedAt := stamp }) }
  t.insertMessageOrIgnore ⟨t.lastSeq + 1, "recovery_" ++ r.id, r.conversationID, none, "System", "", .system,
    interruptedBody, [], [], stamp⟩

def interrupted : List RunRow :=
  (s.runs.rows.filter (fun r => r.state = .running)).mergeSort
    (fun r r' => r.createdAt < r'.createdAt ∨ (r.createdAt = r'.createdAt ∧ r.id ≤ r'.id))

def recoverInterruptedRuns (stamp : ℤ) : Except Error Store :=
  s.interrupted.foldlM (fun t r => t.recoverInterruptedRun r stamp) s

def migrateAssistantMembers : Store :=
  let bound := s.conversations.rows.filter (fun c => c.assistantID ≠ "")
  let latest := bound.mergeSort (fun c c' => c'.updatedAt ≤ c.updatedAt)
  let t := latest.foldl (fun t c => { t with
    assistants := t.assistants.insertOrIgnore
      ⟨c.projectID, c.assistantID, c.assistantID, c.assistantBackend, c.modelID, c.thinkingEffort, .accepted,
        c.createdAt⟩ }) s
  bound.foldl (fun t c =>
    if ∃ x ∈ t.sessions.rows, x.sessionKey = "session-shared-" ++ c.id then t
    else { t with
      sessions := t.sessions.insertOrIgnore ⟨c.id, c.assistantID, "session-shared-" ++ c.id, c.lastAIMessageSeq⟩ }) t

def reopened (stamp : ℤ) : Except Error Store := s.migrateAssistantMembers.recoverInterruptedRuns stamp

end Store

end WorkAgent.Collaboration
