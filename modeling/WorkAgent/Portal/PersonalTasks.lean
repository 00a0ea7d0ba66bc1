import WorkAgent.Library.Concurrent
import WorkAgent.Collaboration.RunSteps

namespace WorkAgent.Portal

open Library Collaboration

/-- What a call of the Runtime fails of: `personalTaskRuntimeError`, or anything else, a lost reply included. -/
inductive Cause
  | runtime (status : ℕ) (code : String)
  | other
  deriving DecidableEq

inductive Outage
  | none
  | before
  | after
  deriving DecidableEq

structure Account where
  id : ℤ
  disabled : Bool

/-- `personalTaskService`. An operation in flight stands with the name of the call that is at it, and not with
`true`. -/
structure Service where
  store : Store
  inflight : String → Option ℕ
  deletes : List (PersonalTask × Option Cause)

def Service.withStore (store : Store) (s : Service) : Service := { s with store := store }

abbrev Task (α : Type) := Prog Service (Except Error α)

structure Weather where
  call : ℕ → Env
  outage : ℕ → Outage
  expired : Bool
  account : String → Option Account
  create : PersonalTask → Except Cause String
  sessionID : String → Option String
  delete : PersonalTask → Option Cause

def contextEnded : Error := .text "context canceled"

def asTask (p : Action Answer) : Action PersonalTask :=
  p.andThen fun
    | .task o => .ret (.ok o)
    | _ => .fail (.text "")

namespace Weather

variable (w : Weather)

def ask {α : Type} (k : ℕ) (p : Action α) : Task α :=
  match w.outage k with
  | .none => p.within Service.store Service.withStore
  | .before => .fail contextEnded
  | .after => (p.within Service.store Service.withStore).andThen fun _ => .fail contextEnded

def operation (k : ℕ) (o : PersonalTask) : Task PersonalTask :=
  w.ask k (query (fun s => s.personalTaskOperation o.id o.userID))

def setError (k : ℕ) (o : PersonalTask) (code : String) (rejected : Bool) : Task Answer :=
  w.ask k (write (fun s => s.setPersonalTaskError o code rejected ((w.call k).stamp 0)))

def beginDeletion (k : ℕ) (o : PersonalTask) : Task PersonalTask :=
  w.ask k (asTask (beginPersonalTaskDeletion (w.call k) o.id o.userID o.creatorSID))

def completeDeletion (k : ℕ) (o : PersonalTask) : Task Answer :=
  w.ask k (write (fun s => s.completePersonalTaskDeletion o ((w.call k).stamp 0)))

end Weather

def verdict (o : PersonalTask) : Cause → String × Bool
  | .other => ("personal_task_retry_pending", false)
  | .runtime status code =>
    let first := if code = "operation_deleted" then ("personal_task_already_deleted", true)
      else ("personal_task_retry_pending", false)
    if 400 ≤ status ∧ status < 500 ∧ status ≠ 408 ∧ status ≠ 429 then
      if status = 400 then (code, decide (o.state = .creating)) else first
    else first

def IsDeleted : Cause → Prop
  | .runtime _ code => code = "operation_deleted"
  | .other => False

instance : DecidablePred IsDeleted
  | .runtime _ code => inferInstanceAs (Decidable (code = _))
  | .other => inferInstanceAs (Decidable False)

section Advance

variable (w : Weather)

def failed (o : PersonalTask) (cause : Cause) : Task PersonalTask :=
  if cause = .runtime 404 "shared_project_not_found" then w.beginDeletion 10 o
  else if IsDeleted cause ∧ o.state = .deleting then
    (w.completeDeletion 11 o).andThen fun _ => w.operation 12 o
  else (w.setError 13 o (verdict o cause).1 (verdict o cause).2).andThen fun _ => w.operation 14 o

def runtimeDelete (o : PersonalTask) : Prog Service (Option Cause) :=
  .step (fun s => { s with deletes := (o, w.delete o) :: s.deletes }) (fun _ => .ret (w.delete o))

def removing (o : PersonalTask) : Task PersonalTask :=
  if o.state = .deleting then
    (runtimeDelete w o).bind fun
      | some cause => failed w o cause
      | none => (w.completeDeletion 8 o).andThen fun _ => w.operation 9 o
  else w.operation 9 o

def linking (o : PersonalTask) : Task PersonalTask :=
  if o.state = .linking then
    (w.ask 6 (write (fun s => s.completePersonalTaskCreation o ((w.call 6).stamp 0)))).bind fun
      | .ok _ => removing w o
      | .error e =>
        -- Only a membership that was really revoked is compensated.
        if e = .forbidden then (w.beginDeletion 7 o).andThen (removing w) else failed w o .other
  else removing w o

def creating (o : PersonalTask) : Task PersonalTask :=
  if o.state = .creating then
    match w.create o with
    | .error cause => failed w o cause
    | .ok session =>
      match w.sessionID session with
      | none => failed w o .other
      | some id =>
        if id = "" then failed w o .other
        else (w.ask 4 (recordPersonalTaskSession (w.call 4) o id)).andThen fun _ =>
          (w.operation 5 o).andThen (linking w)
  else linking w o

def Weather.Available (o : PersonalTask) : Prop :=
  ∃ a ∈ w.account o.creatorSID, a.disabled = false ∧ a.id = o.userID

instance (o : PersonalTask) : Decidable (w.Available o) := inferInstanceAs (Decidable (∃ a ∈ _, _ ∧ _))

def verified (o : PersonalTask) : Task PersonalTask :=
  if w.Available o then
    (w.ask 2 (query (fun s => s.projectForUser o.projectID o.userID true))).bind fun
      | .ok p => if p.state = .archived ∨ p.state = .failed then (w.beginDeletion 3 o).andThen (creating w)
        else creating w o
      | .error e => if e = .notFound then (w.beginDeletion 3 o).andThen (creating w) else .fail e
  else (w.setError 1 o "personal_task_account_unavailable" false).andThen fun _ => .ret (.ok o)

def advanceHeld (o : PersonalTask) : Task PersonalTask :=
  (w.operation 0 o).andThen fun o =>
  if w.expired then .fail contextEnded
  else if o.state = .creating ∨ o.state = .linking then verified w o
  else creating w o

def release {α : Type} (id : String) (x : Except Error α) : Task α :=
  .step (fun s => { s with inflight := Function.update s.inflight id none }) (fun _ => .ret x)

def advance (name : ℕ) (o : PersonalTask) : Task PersonalTask :=
  .step (fun s => if s.inflight o.id = none
      then { s with inflight := Function.update s.inflight o.id (some name) } else s)
    (fun s => if s.inflight o.id = none then (advanceHeld w o).bind (release o.id) else .ret (.ok o))

end Advance

/-- A call that reaches the Portal: one of the store, or one of `personalTaskService.advance`. -/
inductive Request
  | store (i : Call)
  | advance (name : ℕ) (w : Weather) (o : PersonalTask)

def Request.name : Request → ℕ
  | .store i => i.name
  | .advance name _ _ => name

def Request.prog : Request → Task Answer
  | .store i => i.prog.within Service.store Service.withStore
  | .advance name w o => (Portal.advance w name o).andThen fun o => .ret (.ok (.task o))

def Serviced : Op → Prop
  | .recordPersonalTaskSession .. | .completePersonalTaskCreation .. => True
  | .completePersonalTaskDeletion .. | .setPersonalTaskError .. => True
  | .createConversation c _ => c.kind = .personalTask
  | _ => False

structure Accepted (started : List Request) (i : Request) : Prop where
  name : ∀ j ∈ started, j.name ≠ i.name
  op : ∀ call, i = .store call → ¬ Serviced call.op

def portal : System Service Request Outcome where
  init := ⟨.empty, fun _ => none, []⟩
  prog := Request.prog
  allowed := fun started _ i => Accepted started i
  reopen := fun s t => (∃ stamp, s.store.reopened stamp = .ok t.store) ∧ t.inflight = (fun _ => none) ∧
    t.deletes = s.deletes

end WorkAgent.Portal
