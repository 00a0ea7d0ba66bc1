import WorkAgent.Collaboration.Runs

namespace WorkAgent.Collaboration

open Library

structure PersonalTask where
  id : String
  userID : ℤ
  creatorSID : String
  projectID : String
  name : String
  configuration : String
  runtimeSessionID : String
  state : TaskState
  error : String
  deriving DecidableEq

def TaskRow.operation (r : TaskRow) : PersonalTask :=
  ⟨r.id, r.userID, r.creatorSID, r.projectID, r.name, r.configuration, r.runtimeSessionID, r.state, r.error⟩

def PersonalTask.row (o : PersonalTask) (stamp : ℤ) : TaskRow :=
  ⟨o.id, o.userID, o.creatorSID, o.projectID, o.name, o.configuration, o.runtimeSessionID, o.state, o.error, stamp⟩

def PersonalTask.Repeats (o existing : PersonalTask) : Prop :=
  existing.projectID = o.projectID ∧ existing.name = o.name ∧ existing.configuration = o.configuration ∧
    (o.runtimeSessionID ≠ "" → existing.runtimeSessionID = o.runtimeSessionID)

instance (o existing : PersonalTask) : Decidable (o.Repeats existing) :=
  inferInstanceAs (Decidable (_ ∧ _ ∧ _ ∧ (_ → _)))

namespace Store

variable (s : Store)

def personalTaskOperation (id : String) (userID : ℤ) : Except Error PersonalTask := do
  let r ← orError ((s.task id).filter (fun r => r.userID = userID)) .notFound
  return r.operation

def insertTask (r : TaskRow) : Except Error (Unit × Store) :=
  .ok ((), { s with tasks := s.tasks.insertOrIgnore r })

def recordPersonalTaskSession (o : PersonalTask) (sessionID : String) (stamp : ℤ) : Except Error (Unit × Store) := do
  let tasks ← s.tasks.updateOne
    (fun r => r.id = o.id ∧ r.userID = o.userID ∧ (r.state = .creating ∨ r.state = .deleting) ∧
      r.runtimeSessionID = "")
    (fun r => { r with
      runtimeSessionID := sessionID, state := if r.state = .deleting then .deleting else .linking, error := ""
      updatedAt := stamp }) .conflict
  return ((), { s with tasks := tasks })

def projectOfMember (projectID : String) (userID : ℤ) : Option ProjectRow := do
  let p ← s.project projectID
  let _ ← s.acceptedMember p.id userID
  some p

def completePersonalTaskCreation (o : PersonalTask) (stamp : ℤ) : Except Error (Unit × Store) := do
  let p ← orError (s.projectOfMember o.projectID o.userID) .forbidden
  require (p.state ≠ .archived ∧ p.state ≠ .failed) .forbidden
  require (p.state = .active) .conflict
  let tasks ← s.tasks.updateOne
    (fun r => r.id = o.id ∧ r.userID = o.userID ∧ r.state = .linking ∧ r.runtimeSessionID = o.runtimeSessionID)
    (fun r => { r with state := .ready, error := "", updatedAt := stamp }) .conflict
  let conversations ← s.conversations.insertChecked True
    ⟨o.id, o.projectID, o.name, "", "codex", "", "", .idle, 0, stamp, stamp, .personalTask, o.userID,
      o.runtimeSessionID⟩ (.database "")
  return ((), { s with tasks := tasks, conversations := conversations })

def Deletable (r : TaskRow) : Prop := r.state = .ready ∨ r.state = .linking ∨ r.state = .creating

instance (r : TaskRow) : Decidable (Deletable r) := inferInstanceAs (Decidable (_ ∨ _ ∨ _))

def markTaskDeleting (id : String) (userID : ℤ) (stamp : ℤ) : Except Error (Unit × Store) :=
  .ok ((), { s with
    tasks := s.tasks.update (fun r => r.id = id ∧ r.userID = userID ∧ Deletable r)
      (fun r => { r with state := .deleting, error := "", updatedAt := stamp }) })

def IsListRow (o : PersonalTask) (c : ConversationRow) : Prop :=
  c.id = o.id ∧ c.kind = .personalTask ∧ c.creatorUserID = o.userID

instance (o : PersonalTask) (c : ConversationRow) : Decidable (IsListRow o c) := inferInstanceAs (Decidable (_ ∧ _ ∧ _))

def completePersonalTaskDeletion (o : PersonalTask) (stamp : ℤ) : Except Error (Unit × Store) := do
  let t ← s.deleteConversations (fun id => ∃ c ∈ s.conversations.rows, c.id = id ∧ IsListRow o c)
  let tasks ← t.tasks.updateOne (fun r => r.id = o.id ∧ r.userID = o.userID ∧ r.state = .deleting)
    (fun r => { r with state := .deleted, error := "", updatedAt := stamp }) .conflict
  return ((), { t with tasks := tasks })

def setPersonalTaskError (o : PersonalTask) (code : String) (rejected : Bool) (stamp : ℤ) :
    Except Error (Unit × Store) :=
  .ok ((), { s with
    tasks := s.tasks.update (fun r => r.id = o.id ∧ r.userID = o.userID ∧ r.state = o.state)
      (fun r => { r with
        state := if rejected then .rejected else o.state, error := code, updatedAt := stamp }) })

end Store

end WorkAgent.Collaboration
