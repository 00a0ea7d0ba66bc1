import WorkAgent.Harness.SharedTurns

namespace WorkAgent.Harness

open Library Quota

structure ConversationEntry where
  runId : String
  sessionId : String
  modelId : String
  engine : Option String
  estimatedUnits : Option ℕ
  turnId : Option String
  finished : Bool

structure BeginRequest where
  sessionId : String
  modelId : String
  content : String
  turnId : Option String
  engine : Option String

def BeginRequest.entry (b : BeginRequest) (runId : String) : ConversationEntry where
  runId := runId
  sessionId := b.sessionId
  modelId := b.modelId
  engine := b.engine
  estimatedUnits := some (estimatedAutomationUnits b.content)
  turnId := b.turnId
  finished := false

def BeginRequest.reserveRequest (b : BeginRequest) (runId : String) : QuotaReserveRequest :=
  ⟨runId, b.engine.getD "", b.modelId, estimatedAutomationUnits b.content, ""⟩

/-- A `#release` that waits for its settlement; `promise` is what its callers wait for. -/
structure Release where
  promise : ℕ
  runId : String
  name : ℕ
  actualUnits : ℕ

inductive ReleaseLoop
  | recover
  | finished (b : BeginRequest)
  | ended (sessionId turnId : String)

inductive Task
  | starting (b : BeginRequest)
  | settling (b : BeginRequest) (promises : List ℕ)
  | loop (l : ReleaseLoop) (promise : Option ℕ) (rest : List String)
  | reserving (b : BeginRequest) (runId : String) (name : ℕ)
  | releaseSession (sessionId : String) (reserving : List String)
  | releasing (rest : List String)

/-- `ConversationQuota` with its journal's file. Entries that were spliced out are still held by
the loops that saw them; `drawn` are the run ids that `randomUUID` gave so far. -/
structure Conversations where
  entries : List ConversationEntry
  spliced : List ConversationEntry
  file : List ConversationEntry
  settling : List Release
  outcomes : List (ℕ × Bool)
  next : ℕ
  releasedSessions : List String
  ready : Option Bool
  tasks : List Task
  drawn : List String

namespace Conversations

def empty : Conversations := ⟨[], [], [], [], [], 0, [], none, [.loop .recover none []], []⟩

variable (c : Conversations)

def save (written : Bool) : Conversations := if written then { c with file := c.entries } else c

def entry? (runId : String) : Option ConversationEntry := c.entries.find? (fun e => e.runId = runId)

def object? (runId : String) : Option ConversationEntry :=
  (c.entries ++ c.spliced).find? (fun e => e.runId = runId)

def finish (runId : String) : Conversations :=
  { c with entries := c.entries.map (fun e => if e.runId = runId then { e with finished := true } else e) }

def splice (runId : String) : Conversations :=
  { c with
    entries := c.entries.eraseP (fun e => e.runId = runId)
    spliced := (c.entry? runId).toList ++ c.spliced }

def conclude (promise : ℕ) (resolved : Bool) : Conversations :=
  { c with
    settling := c.settling.filter (fun r => r.promise ≠ promise)
    outcomes := (promise, resolved) :: c.outcomes }

def actualUnits : Option ConversationEntry → ℕ
  | none => 0
  | some e => if e.engine = some "acp" ∧ e.turnId.getD "" ≠ "" then e.estimatedUnits.getD 0 else 0

variable (sid : String) (name : ℕ) (env : ℕ → Env)

def settle (runId : String) (units : ℕ) : ℕ × List Call × Conversations :=
  (c.next, [postSettle sid name env ⟨runId, units, ""⟩],
    { c with next := c.next + 1, settling := c.settling ++ [⟨c.next, runId, name, units⟩] })

def release (runId : String) (written : Bool) : ℕ × List Call × Conversations :=
  match c.settling.find? (fun r => r.runId = runId) with
  | some r => (r.promise, [], c)
  | none =>
    match c.entry? runId, written with
    | none, _ => c.settle sid name env runId 0
    | some _, false => (c.next, [], { (c.finish runId).conclude c.next false with next := c.next + 1 })
    | some e, true => ((c.finish runId).save true).settle sid name env runId (actualUnits (some e))

def started (sessionId turnId : String) (written : Bool) : Conversations :=
  let waits := fun e : ConversationEntry => e.sessionId = sessionId ∧ e.turnId = none ∧ e.finished = false
  if c.entries.any waits then
    { c with entries := c.entries.map (fun e => if waits e then { e with turnId := some turnId } else e) }.save
      written
  else c

def reserving (sessionId : String) : List String :=
  c.tasks.filterMap (fun
    | .reserving b runId _ => if b.sessionId = sessionId then some runId else none
    | _ => none)

def wants : ReleaseLoop → String → Bool
  | .recover, _ => true
  | .finished _, runId => ((c.object? runId).map (fun e => e.finished)).getD false
  | .ended sessionId turnId, runId =>
    ((c.object? runId).map (fun e => decide (e.sessionId = sessionId ∧ e.turnId = some turnId))).getD false

def Over : Task → Prop
  | .starting b => c.ready = some false ∨ (c.ready = some true ∧ b.sessionId ∈ c.releasedSessions)
  | .settling _ promises => ∃ n ∈ promises, (n, false) ∈ c.outcomes
  | .loop (.finished _) (some n) _ => (n, false) ∈ c.outcomes
  | .loop (.finished b) none [] => b.sessionId ∈ c.releasedSessions
  | .loop (.ended _ _) (some n) _ => (n, false) ∈ c.outcomes
  | .loop (.ended _ _) none [] => True
  | .releasing [] => True
  | _ => False

def restart : Conversations :=
  { empty with
    entries := c.file, file := c.file, drawn := c.drawn
    tasks := [.loop .recover none (c.file.map ConversationEntry.runId)] }

end Conversations

/-- What `ConversationQuota` does between two awaits. Nobody names a run before `begin` has drawn
its id: `own` are the ids that `randomUUID` draws here. -/
inductive ConversationMoves (sid : String) (own : String → Prop) (answers : List (Call × Outcome)) :
    Conversations → List Call → Conversations → Prop
  | «begin» (c : Conversations) (b : BeginRequest) :
      ConversationMoves sid own answers c [] { c with tasks := c.tasks ++ [.starting b] }
  | ended (c : Conversations) (sessionId turnId : String) :
      ConversationMoves sid own answers c []
        { c with
          tasks := c.tasks ++
            [.loop (.ended sessionId turnId) none (c.entries.map ConversationEntry.runId)] }
  | releaseSession (c : Conversations) (sessionId : String) :
      ConversationMoves sid own answers c []
        { c with
          releasedSessions := sessionId :: c.releasedSessions
          tasks := c.tasks ++ [.releaseSession sessionId (c.reserving sessionId)] }
  | release (c : Conversations) (runId : String) (written : Bool) (name : ℕ) (env : ℕ → Env)
      (h : own runId → runId ∈ c.drawn) (promise : ℕ) (requests : List Call) (c' : Conversations)
      (hr : c.release sid name env runId written = (promise, requests, c')) :
      ConversationMoves sid own answers c requests c'
  | started (c : Conversations) (sessionId turnId : String) (written : Bool) :
      ConversationMoves sid own answers c [] (c.started sessionId turnId written)
  | ends (c : Conversations) (before after : List Task) (t : Task) (ht : c.tasks = before ++ t :: after)
      (h : c.Over t) : ConversationMoves sid own answers c [] { c with tasks := before ++ after }
  | ready (c : Conversations) (before after : List Task) (b : BeginRequest)
      (ht : c.tasks = before ++ .starting b :: after) (h : c.ready = some true)
      (hs : b.sessionId ∉ c.releasedSessions) :
      ConversationMoves sid own answers c []
        { c with tasks := before ++ .settling b (c.settling.map Release.promise) :: after }
  | settledOthers (c : Conversations) (before after : List Task) (b : BeginRequest) (promises : List ℕ)
      (ht : c.tasks = before ++ .settling b promises :: after)
      (h : ∀ n ∈ promises, (n, true) ∈ c.outcomes) :
      ConversationMoves sid own answers c []
        { c with
          tasks := before ++ .loop (.finished b) none (c.entries.map ConversationEntry.runId) :: after }
  | skip (c : Conversations) (before after : List Task) (l : ReleaseLoop) (runId : String)
      (rest : List String) (ht : c.tasks = before ++ .loop l none (runId :: rest) :: after)
      (h : c.wants l runId = false) :
      ConversationMoves sid own answers c [] { c with tasks := before ++ .loop l none rest :: after }
  | loop (c : Conversations) (before after : List Task) (l : ReleaseLoop) (runId : String)
      (rest : List String) (ht : c.tasks = before ++ .loop l none (runId :: rest) :: after)
      (h : c.wants l runId = true) (written : Bool) (name : ℕ) (env : ℕ → Env) (promise : ℕ)
      (requests : List Call) (c' : Conversations)
      (hr : c.release sid name env runId written = (promise, requests, c')) :
      ConversationMoves sid own answers c requests
        { c' with tasks := before ++ .loop l (some promise) rest :: after }
  | resolved (c : Conversations) (before after : List Task) (l : ReleaseLoop) (n : ℕ) (rest : List String)
      (ht : c.tasks = before ++ .loop l (some n) rest :: after) (h : (n, true) ∈ c.outcomes) :
      ConversationMoves sid own answers c [] { c with tasks := before ++ .loop l none rest :: after }
  | recovered (c : Conversations) (before after : List Task)
      (ht : c.tasks = before ++ .loop .recover none [] :: after) :
      ConversationMoves sid own answers c [] { c with ready := some true, tasks := before ++ after }
  | recoveryFails (c : Conversations) (before after : List Task) (n : ℕ) (rest : List String)
      (ht : c.tasks = before ++ .loop .recover (some n) rest :: after) (h : (n, false) ∈ c.outcomes) :
      ConversationMoves sid own answers c [] { c with ready := some false, tasks := before ++ after }
  | reserve (c : Conversations) (before after : List Task) (b : BeginRequest) (runId : String) (name : ℕ)
      (env : ℕ → Env) (ht : c.tasks = before ++ .loop (.finished b) none [] :: after)
      (hs : b.sessionId ∉ c.releasedSessions) (ho : own runId) (hd : runId ∉ c.drawn) :
      ConversationMoves sid own answers c [postReserve sid name env (b.reserveRequest runId)]
        { c with
          entries := c.entries ++ [b.entry runId]
          file := c.entries ++ [b.entry runId]
          drawn := runId :: c.drawn
          tasks := before ++ .reserving b runId name :: after }
  | reserveUnwritten (c : Conversations) (before after : List Task) (b : BeginRequest) (runId : String)
      (ht : c.tasks = before ++ .loop (.finished b) none [] :: after)
      (hs : b.sessionId ∉ c.releasedSessions) (ho : own runId) (hd : runId ∉ c.drawn) :
      ConversationMoves sid own answers c []
        { c with
          entries := c.entries ++ [b.entry runId]
          drawn := runId :: c.drawn
          tasks := before ++ after }
  | reserved (c : Conversations) (before after : List Task) (b : BeginRequest) (runId : String) (n : ℕ)
      (v : Reservation) (replayed : Bool) (ht : c.tasks = before ++ .reserving b runId n :: after)
      (h : Received answers n (.ok (.reservation v replayed))) :
      ConversationMoves sid own answers c [] { c with tasks := before ++ after }
  | reserveAgain (c : Conversations) (before after : List Task) (b : BeginRequest) (runId : String)
      (n name : ℕ) (env : ℕ → Env) (e : QuotaError)
      (ht : c.tasks = before ++ .reserving b runId n :: after) (he : retriesReserve e)
      (h : Received answers n (.error e)) :
      ConversationMoves sid own answers c [postReserve sid name env (b.reserveRequest runId)]
        { c with tasks := before ++ .reserving b runId name :: after }
  | reserveFails (c : Conversations) (before after : List Task) (b : BeginRequest) (runId : String) (n : ℕ)
      (ht : c.tasks = before ++ .reserving b runId n :: after) (written : Bool) (name : ℕ) (env : ℕ → Env)
      (promise : ℕ) (requests : List Call) (c' : Conversations)
      (hr : c.release sid name env runId written = (promise, requests, c')) :
      ConversationMoves sid own answers c requests { c' with tasks := before ++ after }
  | reservationsBack (c : Conversations) (before after : List Task) (sessionId : String)
      (runIds : List String) (ht : c.tasks = before ++ .releaseSession sessionId runIds :: after)
      (h : ∀ runId ∈ runIds, runId ∉ c.reserving sessionId) :
      ConversationMoves sid own answers c []
        { c with
          tasks := before ++ .releasing
            ((c.entries.filter (fun e => e.sessionId = sessionId)).map ConversationEntry.runId) :: after }
  | releasing (c : Conversations) (before after : List Task) (runId : String) (rest : List String)
      (ht : c.tasks = before ++ .releasing (runId :: rest) :: after) (written : Bool) (name : ℕ)
      (env : ℕ → Env) (promise : ℕ) (requests : List Call) (c' : Conversations)
      (hr : c.release sid name env runId written = (promise, requests, c')) :
      ConversationMoves sid own answers c requests { c' with tasks := before ++ .releasing rest :: after }
  | settled (c : Conversations) (r : Release) (hr : r ∈ c.settling) (written : Bool) (out : Outcome)
      (h : Received answers r.name out) (hout : out = .ok .done ∨ out = .error .reservationNotFound) :
      ConversationMoves sid own answers c []
        (((c.splice r.runId).save written).conclude r.promise written)
  | settleAgain (c : Conversations) (before after : List Release) (r : Release) (name : ℕ) (env : ℕ → Env)
      (hr : c.settling = before ++ r :: after) (h : Received answers r.name (.error .usagePending)) :
      ConversationMoves sid own answers c [postSettle sid name env ⟨r.runId, r.actualUnits, ""⟩]
        { c with settling := before ++ { r with name := name } :: after }
  | settleFails (c : Conversations) (r : Release) (hr : r ∈ c.settling) :
      ConversationMoves sid own answers c [] (c.conclude r.promise false)
  | restart (c : Conversations) : ConversationMoves sid own answers c [] c.restart

def runNamed : Op → Option String
  | .reserve r => some r.runID
  | .reserveForSID _ r => some r.runID
  | .reserveSpeech _ runID _ => some runID
  | .reserveSharedRun r => some r.runID
  | .reserveRuntime _ _ r => some r.runID
  | .lookupRuntimeRun _ runID => some runID
  | .settle r => some r.runID
  | .settleForSID _ r => some r.runID
  | .settleSpeech runID _ => some runID
  | .settleRuntime _ _ r => some r.runID
  | .releaseSharedRun _ runID => some runID
  | .recoverSharedRunAuthorization identity => some identity.runID
  | _ => none

/-- The conversations of the runtime `sid` on the Portal's quota store. Other callers never name a
run of theirs. -/
def conversations (sid : String) (own : String → Prop) : Protocol Store Call Outcome Conversations :=
  quotaProtocol (fun i => ∀ x, own x → runNamed i.op ≠ some x) .empty (ConversationMoves sid own)

end WorkAgent.Harness
