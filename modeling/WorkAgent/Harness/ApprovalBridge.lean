import WorkAgent.Library.Table
import WorkAgent.Library.Executions
import WorkAgent.Harness.Strings

namespace WorkAgent.Harness.Approvals

open Library

abbrev Instant := ℤ

inductive NativeOutcome
  | allow
  | reject
  | cancel
  deriving DecidableEq

structure NativeApprovalOption where
  id : String
  outcome : NativeOutcome
  deriving DecidableEq

inductive NativeApprovalDecision
  | plain (outcome : NativeOutcome)
  | option (optionId : String)
  deriving DecidableEq

inductive Resolution
  | allowed
  | rejected
  | cancelled
  | unavailable
  deriving DecidableEq

inductive InteractionStatus
  | pending
  | resolved (resolution : Resolution)
  deriving DecidableEq

inductive Outcome
  | allowedOnce
  | rejected
  | cancelled
  | unavailable
  | option (optionId : String)
  deriving DecidableEq

structure Details where
  sessionId : String
  turnId : String
  tool : String
  summary : String
  native : Bool
  choices : List NativeApprovalOption
  deriving DecidableEq

structure PendingInteraction extends Details where
  id : UUID
  status : InteractionStatus
  createdAt : Instant
  resolvedAt : Option Instant
  selectedOptionId : Option String
  deriving DecidableEq

def NativeOutcome.resolution : NativeOutcome → Resolution
  | allow => .allowed
  | reject => .rejected
  | cancel => .cancelled

def delivered (resolution : Resolution) : Option String → Outcome
  | some optionId => .option optionId
  | none =>
    match resolution with
    | .allowed => .allowedOnce
    | .rejected => .rejected
    | .cancelled => .cancelled
    | .unavailable => .unavailable

def Outcome.ask : Outcome → Outcome
  | option _ => .cancelled
  | outcome => outcome

def Outcome.requestNative : Outcome → NativeApprovalDecision
  | option optionId => .option optionId
  | allowedOnce => .plain .allow
  | rejected => .plain .reject
  | _ => .plain .cancel

namespace PendingInteraction

def requested (details : Details) (id : UUID) (now : Instant) : PendingInteraction where
  toDetails := details
  id := id
  status := .pending
  createdAt := now
  resolvedAt := none
  selectedOptionId := none

variable (row : PendingInteraction)

def settled (resolution : Resolution) (optionId : Option String) (now : Instant) : PendingInteraction :=
  { row with
    status := .resolved resolution
    resolvedAt := some now
    selectedOptionId := if optionId.isSome then optionId else row.selectedOptionId }

def recovered (now : Instant) : PendingInteraction :=
  if row.status = .pending then { row with status := .resolved .unavailable, resolvedAt := some now } else row

theorem recovered_id (now : Instant) : (row.recovered now).id = row.id := by
  unfold recovered
  split <;> rfl

def choice (optionId : String) : Option NativeApprovalOption := row.choices.find? (fun choice => choice.id = optionId)

def outcome : Option Outcome :=
  match row.status with
  | .pending => none
  | .resolved resolution => some (delivered resolution row.selectedOptionId)

end PendingInteraction

inductive Field
  | missing
  | text (value : String)
  | other
  deriving DecidableEq

structure Body where
  sessionId : Field
  optionId : Field
  decision : Field
  deriving DecidableEq

inductive Reply
  | interactionNotFound
  | invalidDecision
  | repeated (resolution : Resolution)
  | alreadyResolved
  | noLongerLive
  | accepted (resolution : Resolution)
  deriving DecidableEq

def Body.choice (body : Body) (row : PendingInteraction) : Option NativeApprovalOption :=
  match body.optionId with
  | .text optionId => if row.native then row.choice optionId else none
  | _ => none

def Body.asks (body : Body) (row : PendingInteraction) : Option (Resolution × Option String) :=
  match body.choice row with
  | some choice => some (choice.outcome.resolution, some choice.id)
  | none =>
    if body.optionId ≠ .missing then none
    else if body.decision = .text "allow" then some (.allowed, none)
    else if body.decision = .text "reject" then some (.rejected, none)
    else none

/-- `#handle` of a response once its body is there: the reply, and what it settles the interaction
with. -/
def handle (live : Bool) (row : PendingInteraction) (body : Body) : Reply × Option (Resolution × Option String) :=
  if body.sessionId ≠ .missing ∧ body.sessionId ≠ .text row.sessionId then (.interactionNotFound, none)
  else match body.asks row with
    | none => (.invalidDecision, none)
    | some (resolution, optionId) =>
      match row.status with
      | .resolved status =>
        if status = resolution ∧ row.selectedOptionId = optionId then (.repeated status, none) else (.alreadyResolved, none)
      | .pending =>
        if ¬ live then (.noLongerLive, some (.unavailable, none)) else (.accepted resolution, some (resolution, optionId))

def respondNative (live : Bool) (row : PendingInteraction) (sessionId : String) (decision : NativeApprovalDecision) :
    Option (Resolution × Option String) :=
  if row.native ≠ true ∨ row.sessionId ≠ sessionId ∨ row.status ≠ .pending ∨ ¬ live then none
  else match decision with
    | .plain outcome => some (outcome.resolution, none)
    | .option optionId => (row.choice optionId).map fun choice => (choice.outcome.resolution, some choice.id)

inductive Answer
  | native (sessionId : String) (decision : NativeApprovalDecision)
  | http (body : Body)
  | aborted
  | tornDown
  | notPublished
  deriving DecidableEq

def Answer.decides (live : Bool) (row : PendingInteraction) : Answer → Option (Resolution × Option String)
  | native sessionId decision => respondNative live row sessionId decision
  | http body => (handle live row body).2
  | aborted => some (.cancelled, none)
  | tornDown => some (.cancelled, none)
  | notPublished => some (.unavailable, none)

/-- A call that has not returned. `asking` and `publishing` are in the callback of a `publish`, which
may call the bridge again; `failing` is the `catch` around the former, and `teardown` has the rest
of the interactions of its loop. `live` tells that `#settle` has found a resolver. -/
inductive Frame
  | asking (id : UUID)
  | failing (id : UUID)
  | saving (id : UUID) (outcome : Outcome) (live : Bool)
  | publishing (id : UUID) (outcome : Outcome) (live : Bool)
  | teardown (rest : List UUID)
  deriving DecidableEq

/-- The bridge, its file and the calls it is in, the inner ones first. `asked` are the requests of
this process and `unsettled` those whose promise is open; `handlers` are the responses that wait
for their body; `unsaved` tells that the last save has failed. -/
structure World where
  interactions : Table PendingInteraction.id
  resolvers : List UUID
  file : Table PendingInteraction.id
  running : Bool
  disposed : Bool
  stack : List Frame
  asked : List UUID
  unsettled : List UUID
  handlers : List UUID
  drawn : List UUID
  unsaved : Bool

def World.start : World := ⟨.empty, [], .empty, false, false, [], [], [], [], [], false⟩

@[irreducible] def retained (rows : Table PendingInteraction.id) : Table PendingInteraction.id where
  rows := (rows.rows.mergeSort (fun a b => a.createdAt ≤ b.createdAt)).drop (rows.rows.length - 1000)
  nodup := by
    have hsorted := ((List.mergeSort_perm rows.rows (fun a b => a.createdAt ≤ b.createdAt)).map PendingInteraction.id).nodup_iff.mpr rows.nodup
    exact hsorted.sublist ((List.drop_sublist _ _).map _)

def loaded (file : Table PendingInteraction.id) (now : Instant) : Table PendingInteraction.id :=
  file.update (fun row => row.status = .pending) (fun row => row.recovered now)
    (fun row => row.recovered_id now)

def raise : List Frame → List Frame
  | .teardown _ :: stack => stack
  | stack => stack

inductive Event
  | quiet
  | requested (row : PendingInteraction)
  | requestFailed (row : PendingInteraction)
  | decided (row : PendingInteraction) (answer : Answer) (resolution : Resolution) (optionId : Option String)
  | resolved (id : UUID) (outcome : Outcome) (heard thrown : Bool)
  | rejected (id : UUID) (heard : Bool)
  | died
  | started

namespace World

variable (w : World)

def callable : Bool :=
  w.running && match w.stack with
    | [] => true
    | .asking _ :: _ => true
    | .publishing _ _ _ :: _ => true
    | _ => false

def settle (row : PendingInteraction) (resolution : Resolution) (optionId : Option String) (now : Instant) : World :=
  { w with
    interactions := w.interactions.set (row.settled resolution optionId now)
    resolvers := w.resolvers.filter (· ≠ row.id)
    stack := .saving row.id (delivered resolution optionId) (row.id ∈ w.resolvers) :: w.stack }

def withStack (stack : List Frame) : World := { w with stack := stack }

def close (id : UUID) : World := { w with unsettled := w.unsettled.filter (· ≠ id) }

def resolve (id : UUID) (live : Bool) : World := if live then w.close id else w

def save : World := { w with file := retained w.interactions, unsaved := false }

def request (row : PendingInteraction) : World :=
  { w with interactions := w.interactions.set row, drawn := row.id :: w.drawn }

def dead : World :=
  { w with
    interactions := .empty, resolvers := [], running := false, disposed := false, stack := []
    asked := [], unsettled := [], handlers := [] }

end World

/-- The steps of the bridges, of one process after the other. A step is what a call does up to the
next save, callback or return; saves and callbacks may fail. -/
inductive Step (w : World) : Event → World → Prop
  | request (details : Details) (id : UUID) (now : Instant) (hcallable : w.callable = true) (hdisposed : w.disposed = false)
      (hfresh : id ∉ w.drawn) :
      Step w (.requested (.requested details id now))
        { (w.request (.requested details id now)).save with
          resolvers := id :: w.resolvers, stack := .asking id :: w.stack, asked := id :: w.asked, unsettled := id :: w.unsettled }
  | requestFails (details : Details) (id : UUID) (now : Instant) (hcallable : w.callable = true) (hdisposed : w.disposed = false)
      (hfresh : id ∉ w.drawn) :
      Step w (.requestFailed (.requested details id now)) { w.request (.requested details id now) with unsaved := true }
  | askReturns (id : UUID) (stack : List Frame) (hstack : w.stack = .asking id :: stack) : Step w .quiet (w.withStack stack)
  | askThrows (id : UUID) (stack : List Frame) (row : PendingInteraction) (now : Instant) (hstack : w.stack = .asking id :: stack)
      (hrow : row ∈ w.interactions) (hid : row.id = id) (hpending : row.status = .pending) :
      Step w (.decided row .notPublished .unavailable none)
        ((w.withStack (.failing id :: stack)).settle row .unavailable none now)
  | askThrowsLate (id : UUID) (stack : List Frame) (hstack : w.stack = .asking id :: stack)
      (hsettled : ∀ row ∈ w.interactions, row.id = id → row.status ≠ .pending) :
      Step w .quiet (w.withStack (.failing id :: stack))
  | rejects (id : UUID) (stack : List Frame) (hstack : w.stack = .failing id :: stack) :
      Step w (.rejected id (id ∈ w.unsettled)) ((w.withStack stack).close id)
  | saved (id : UUID) (outcome : Outcome) (live : Bool) (stack : List Frame) (hstack : w.stack = .saving id outcome live :: stack) :
      Step w .quiet (w.save.withStack (.publishing id outcome live :: stack))
  | saveFails (id : UUID) (outcome : Outcome) (live : Bool) (stack : List Frame)
      (hstack : w.stack = .saving id outcome live :: stack) :
      Step w (.resolved id outcome (live && id ∈ w.unsettled) true)
        { (w.withStack (raise stack)).resolve id live with unsaved := true }
  | published (id : UUID) (outcome : Outcome) (live : Bool) (stack : List Frame)
      (hstack : w.stack = .publishing id outcome live :: stack) :
      Step w (.resolved id outcome (live && id ∈ w.unsettled) false) ((w.withStack stack).resolve id live)
  | publishFails (id : UUID) (outcome : Outcome) (live : Bool) (stack : List Frame)
      (hstack : w.stack = .publishing id outcome live :: stack) :
      Step w (.resolved id outcome (live && id ∈ w.unsettled) true) ((w.withStack (raise stack)).resolve id live)
  | teardown (hcallable : w.callable = true) (hdisposed : w.disposed = false) :
      Step w .quiet { w with
        disposed := true, stack := .teardown (w.interactions.rows.map PendingInteraction.id) :: w.stack }
  | tearsDown (id : UUID) (rest : List UUID) (stack : List Frame) (row : PendingInteraction) (now : Instant)
      (hstack : w.stack = .teardown (id :: rest) :: stack) (hrow : row ∈ w.interactions) (hid : row.id = id)
      (hpending : row.status = .pending) :
      Step w (.decided row .tornDown .cancelled none) ((w.withStack (.teardown rest :: stack)).settle row .cancelled none now)
  | passesBy (id : UUID) (rest : List UUID) (stack : List Frame) (hstack : w.stack = .teardown (id :: rest) :: stack)
      (hsettled : ∀ row ∈ w.interactions, row.id = id → row.status ≠ .pending) :
      Step w .quiet (w.withStack (.teardown rest :: stack))
  | tornDown (stack : List Frame) (hstack : w.stack = .teardown [] :: stack) : Step w .quiet (w.withStack stack)
  | answer (row : PendingInteraction) (answer : Answer) (resolution : Resolution) (optionId : Option String) (now : Instant)
      (hcallable : w.callable = true) (hrow : row ∈ w.interactions) (hpending : row.status = .pending)
      (hanswer : answer = .aborted ∨ ∃ sessionId decision, answer = .native sessionId decision)
      (hdecides : answer.decides (row.id ∈ w.resolvers) row = some (resolution, optionId)) :
      Step w (.decided row answer resolution optionId) (w.settle row resolution optionId now)
  | lookup (row : PendingInteraction) (hcallable : w.callable = true) (hrow : row ∈ w.interactions) :
      Step w .quiet { w with handlers := row.id :: w.handlers }
  | body (row : PendingInteraction) (body : Body) (resolution : Resolution) (optionId : Option String) (now : Instant)
      (hcallable : w.callable = true) (hhandler : row.id ∈ w.handlers) (hrow : row ∈ w.interactions)
      (hdecides : (handle (row.id ∈ w.resolvers) row body).2 = some (resolution, optionId)) :
      Step w (.decided row (.http body) resolution optionId)
        ({ w with handlers := w.handlers.erase row.id }.settle row resolution optionId now)
  | bodyRefused (row : PendingInteraction) (body : Body) (hcallable : w.callable = true) (hhandler : row.id ∈ w.handlers)
      (hrow : row ∈ w.interactions) (hdecides : (handle (row.id ∈ w.resolvers) row body).2 = none) :
      Step w .quiet { w with handlers := w.handlers.erase row.id }
  | died (hrunning : w.running = true) : Step w .died w.dead
  | started (now : Instant) (hrunning : w.running = false) :
      Step w .started { w with
        interactions := loaded w.file now
        file := if ∃ row ∈ w.file.rows, row.status = .pending then retained (loaded w.file now) else w.file
        running := true
        unsaved := false }

end WorkAgent.Harness.Approvals
