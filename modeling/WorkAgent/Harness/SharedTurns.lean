import WorkAgent.Harness.QuotaClient

namespace WorkAgent.Harness

open Library Quota

structure SharedTurnRuntimeRequest where
  runId : String
  engine : String
  modelId : String
  quotaModelId : Option String
  context : String
  payerSid : String
  payer_named : payerSid ≠ ""

def estimatedAutomationUnits (input : String) : ℕ := max 1 ((input.utf8ByteSize + 3) / 4 + 1024)

/-- An entry object. Its `actualUnits` is assigned while others hold the object, so it is kept
beside the entries, under the object. -/
structure SharedTurnQuotaEntry where
  address : ℕ
  runId : String
  payerSid : String
  modelId : String
  estimatedUnits : ℕ
  payer_named : payerSid ≠ ""
  estimated_pos : 0 < estimatedUnits
  deriving DecidableEq

def SharedTurnRuntimeRequest.entry (request : SharedTurnRuntimeRequest) (address : ℕ) :
    SharedTurnQuotaEntry where
  address := address
  runId := request.runId
  payerSid := request.payerSid
  modelId := request.quotaModelId.getD request.modelId
  estimatedUnits := estimatedAutomationUnits request.context
  payer_named := request.payer_named
  estimated_pos := lt_of_lt_of_le Nat.one_pos (Nat.le_max_left _ _)

namespace SharedTurnQuotaEntry

def reserveRequest (e : SharedTurnQuotaEntry) (engine : String) : QuotaReserveRequest :=
  ⟨e.runId, engine, e.modelId, e.estimatedUnits, e.payerSid⟩

def settleRequest (e : SharedTurnQuotaEntry) (actualUnits : ℕ) : QuotaSettleRequest :=
  ⟨e.runId, actualUnits, e.payerSid⟩

end SharedTurnQuotaEntry

structure JournalEntries where
  table : Table SharedTurnQuotaEntry.runId
  actualUnits : SharedTurnQuotaEntry → Option ℕ

structure SharedTurnQuotaJournal where
  next : ℕ
  memory : JournalEntries
  file : JournalEntries

namespace SharedTurnQuotaJournal

def empty : SharedTurnQuotaJournal := ⟨0, ⟨.empty, fun _ => none⟩, ⟨.empty, fun _ => none⟩⟩

variable (j : SharedTurnQuotaJournal)

def save (written : Bool) : SharedTurnQuotaJournal := if written then { j with file := j.memory } else j

def track (entry : SharedTurnQuotaEntry) (written : Bool) : SharedTurnQuotaJournal :=
  { j with memory := { j.memory with table := j.memory.table.set entry } }.save written

def release (runId : String) (written : Bool) : SharedTurnQuotaJournal :=
  match j.memory.table.find? runId with
  | none => j
  | some _ =>
    { j with memory := { j.memory with table := j.memory.table.delete (fun e => e.runId = runId) } }.save
      written

def assign (entry : SharedTurnQuotaEntry) (actualUnits : Option ℕ) : SharedTurnQuotaJournal :=
  { j with memory := { j.memory with actualUnits := Function.update j.memory.actualUnits entry actualUnits } }

def entryFor (request : SharedTurnRuntimeRequest) : SharedTurnQuotaEntry :=
  (j.memory.table.find? request.runId).getD (request.entry j.next)

def allocate (request : SharedTurnRuntimeRequest) : SharedTurnQuotaJournal :=
  match j.memory.table.find? request.runId with
  | some _ => j
  | none => { j.assign (request.entry j.next) none with next := j.next + 1 }

def settleUnits (entry : SharedTurnQuotaEntry) : ℕ :=
  (j.memory.actualUnits entry).getD entry.estimatedUnits

def reopen : SharedTurnQuotaJournal := { j with memory := j.file }

end SharedTurnQuotaJournal

inductive Await
  | reserve (name : ℕ)
  | inner
  | settle (name actualUnits : ℕ)

structure Turn where
  engine : String
  entry : SharedTurnQuotaEntry
  awaits : Await

inductive RecoveryAwait
  | lookup (name : ℕ)
  | settle (name actualUnits : ℕ)

/-- A `reconcileInterrupted` at one of its entries; the entries are those of when it started. -/
structure Recovery where
  entry : SharedTurnQuotaEntry
  awaits : RecoveryAwait
  rest : List SharedTurnQuotaEntry

inductive Event
  | invoked (runId : String) (estimatedUnits : ℕ)
  | succeeded (runId : String) (estimatedUnits : ℕ)
  | failed (runId : String)
  | settle (runId : String) (actualUnits : ℕ)
  deriving DecidableEq

structure Runtime where
  journal : SharedTurnQuotaJournal
  active : List String
  cancelled : List String
  turns : List Turn
  reconciling : Option Recovery
  history : List Event

namespace Runtime

def empty : Runtime := ⟨.empty, [], [], [], none, []⟩

variable (r : Runtime)

def admitted (request : SharedTurnRuntimeRequest) (written : Bool) : Runtime :=
  { r with journal := (r.journal.allocate request).track (r.journal.entryFor request) written }

def enter (request : SharedTurnRuntimeRequest) (name : ℕ) : Runtime :=
  { r.admitted request true with
    active := request.runId :: r.active
    turns := r.turns ++ [⟨request.engine, r.journal.entryFor request, .reserve name⟩] }

def release (runId : String) (written : Bool) : Runtime :=
  { r with journal := r.journal.release runId written }

def leave (before after : List Turn) (runId : String) : Runtime :=
  { r with
    turns := before ++ after
    active := r.active.filter (fun x => x ≠ runId)
    cancelled := r.cancelled.filter (fun x => x ≠ runId) }

def wait (before after : List Turn) (t : Turn) (awaits : Await) : Runtime :=
  { r with turns := before ++ { t with awaits := awaits } :: after }

def log (event : Event) : Runtime := { r with history := event :: r.history }

variable (sid : String) (name : ℕ) (env : ℕ → Env)

def charge (entry : SharedTurnQuotaEntry) (actualUnits : ℕ) (written : Bool) : Runtime :=
  { r with journal := (r.journal.assign entry (some actualUnits)).track entry written }

def resume (rest : List SharedTurnQuotaEntry) : List Call × Runtime :=
  match rest.dropWhile (fun e => e.runId ∈ r.active) with
  | [] => ([], { r with reconciling := none })
  | e :: rest =>
    ([postLookup sid name env e.runId], { r with reconciling := some ⟨e, .lookup name, rest⟩ })

def settle (before after : List Turn) (t : Turn) : List Call × Runtime :=
  let units := r.journal.settleUnits t.entry
  ([postSettle sid name env (t.entry.settleRequest units)],
    (r.log (.settle t.entry.runId units)).wait before after t (.settle name units))

def conclude (before after : List Turn) (t : Turn) (actualUnits : ℕ) : Bool → List Call × Runtime
  | false => ([], (r.charge t.entry actualUnits false).leave before after t.entry.runId)
  | true => (r.charge t.entry actualUnits true).settle sid name env before after t

end Runtime

/-- What the runner of the runtime `sid` does between two awaits. A new turn finds its run not
active; a turn that fails to reserve or to settle, or is refused, only leaves. -/
inductive TurnMoves (sid : String) (answers : List (Call × Outcome)) :
    Runtime → List Call → Runtime → Prop
  | execute (r : Runtime) (request : SharedTurnRuntimeRequest) (name : ℕ) (env : ℕ → Env)
      (h : request.runId ∉ r.active) :
      TurnMoves sid answers r
        [postReserve sid name env ((r.journal.entryFor request).reserveRequest request.engine)]
        (r.enter request name)
  | executeUnwritten (r : Runtime) (request : SharedTurnRuntimeRequest) (h : request.runId ∉ r.active) :
      TurnMoves sid answers r []
        ((r.admitted request false).leave r.turns [] request.runId)
  | reserveAgain (r : Runtime) (before after : List Turn) (t : Turn) (n name : ℕ) (env : ℕ → Env)
      (e : QuotaError) (ht : r.turns = before ++ t :: after) (ha : t.awaits = .reserve n)
      (he : retriesReserve e) (h : Received answers n (.error e)) :
      TurnMoves sid answers r [postReserve sid name env (t.entry.reserveRequest t.engine)]
        (r.wait before after t (.reserve name))
  | reserveFails (r : Runtime) (before after : List Turn) (t : Turn) (n : ℕ)
      (ht : r.turns = before ++ t :: after) (ha : t.awaits = .reserve n) :
      TurnMoves sid answers r [] (r.leave before after t.entry.runId)
  | alreadySettled (r : Runtime) (before after : List Turn) (t : Turn) (n : ℕ) (v : Reservation)
      (replayed written : Bool) (ht : r.turns = before ++ t :: after) (ha : t.awaits = .reserve n)
      (h : Received answers n (.ok (.reservation v replayed))) (hv : v.status = .settled) :
      TurnMoves sid answers r [] ((r.release t.entry.runId written).leave before after t.entry.runId)
  | alreadyAccepted (r : Runtime) (before after : List Turn) (t : Turn) (n : ℕ) (v : Reservation)
      (replayed : Bool) (ht : r.turns = before ++ t :: after) (ha : t.awaits = .reserve n)
      (h : Received answers n (.ok (.reservation v replayed))) (hv : v.status = .reserved)
      (hacc : v.alreadyAccepted = true) :
      TurnMoves sid answers r [] (r.leave before after t.entry.runId)
  | cancelledBefore (r : Runtime) (before after : List Turn) (t : Turn) (n : ℕ) (v : Reservation)
      (replayed written : Bool) (name : ℕ) (env : ℕ → Env) (ht : r.turns = before ++ t :: after)
      (ha : t.awaits = .reserve n) (h : Received answers n (.ok (.reservation v replayed)))
      (hv : Fresh v) (hcancelled : t.entry.runId ∈ r.cancelled)
      (requests : List Call) (r' : Runtime)
      (hr : r.conclude sid name env before after t 0 written = (requests, r')) :
      TurnMoves sid answers r requests r'
  | invoke (r : Runtime) (before after : List Turn) (t : Turn) (n : ℕ) (v : Reservation) (replayed : Bool)
      (ht : r.turns = before ++ t :: after) (ha : t.awaits = .reserve n)
      (h : Received answers n (.ok (.reservation v replayed))) (hv : Fresh v)
      (hcancelled : t.entry.runId ∉ r.cancelled) :
      TurnMoves sid answers r []
        ((r.log (.invoked t.entry.runId t.entry.estimatedUnits)).wait before after t .inner)
  | innerSucceeds (r : Runtime) (before after : List Turn) (t : Turn) (written : Bool) (name : ℕ)
      (env : ℕ → Env) (ht : r.turns = before ++ t :: after) (ha : t.awaits = .inner)
      (requests : List Call) (r' : Runtime)
      (hr : (r.log (.succeeded t.entry.runId t.entry.estimatedUnits)).conclude sid name env before after t
        t.entry.estimatedUnits written = (requests, r')) :
      TurnMoves sid answers r requests r'
  | innerFails (r : Runtime) (before after : List Turn) (t : Turn) (written : Bool) (name : ℕ)
      (env : ℕ → Env) (ht : r.turns = before ++ t :: after) (ha : t.awaits = .inner)
      (requests : List Call) (r' : Runtime)
      (hr : (r.log (.failed t.entry.runId)).conclude sid name env before after t 0 written = (requests, r')) :
      TurnMoves sid answers r requests r'
  | settled (r : Runtime) (before after : List Turn) (t : Turn) (n units : ℕ) (written : Bool)
      (ht : r.turns = before ++ t :: after) (ha : t.awaits = .settle n units)
      (h : Received answers n (.ok .done)) :
      TurnMoves sid answers r [] ((r.release t.entry.runId written).leave before after t.entry.runId)
  | settleAgain (r : Runtime) (before after : List Turn) (t : Turn) (n units name : ℕ) (env : ℕ → Env)
      (ht : r.turns = before ++ t :: after) (ha : t.awaits = .settle n units)
      (h : Received answers n (.error .usagePending)) :
      TurnMoves sid answers r [postSettle sid name env (t.entry.settleRequest units)]
        ((r.log (.settle t.entry.runId units)).wait before after t (.settle name units))
  | settleFails (r : Runtime) (before after : List Turn) (t : Turn) (n units : ℕ)
      (ht : r.turns = before ++ t :: after) (ha : t.awaits = .settle n units) :
      TurnMoves sid answers r [] (r.leave before after t.entry.runId)
  | cancelSharedTurn (r : Runtime) (runId : String) (h : runId ∈ r.active) :
      TurnMoves sid answers r [] { r with cancelled := runId :: r.cancelled }
  | reconcileInterrupted (r : Runtime) (name : ℕ) (env : ℕ → Env) (h : r.reconciling = none)
      (requests : List Call) (r' : Runtime)
      (hr : r.resume sid name env r.journal.memory.table.rows = (requests, r')) :
      TurnMoves sid answers r requests r'
  | lookupActive (r : Runtime) (p : Recovery) (n : ℕ) (v : Reservation) (replayed : Bool) (name : ℕ)
      (env : ℕ → Env) (hp : r.reconciling = some p) (ha : p.awaits = .lookup n)
      (h : Received answers n (.ok (.reservation v replayed))) (hactive : p.entry.runId ∈ r.active)
      (requests : List Call) (r' : Runtime)
      (hr : r.resume sid name env p.rest = (requests, r')) :
      TurnMoves sid answers r requests r'
  | lookupSettled (r : Runtime) (p : Recovery) (n : ℕ) (v : Reservation) (replayed written : Bool)
      (name : ℕ) (env : ℕ → Env) (hp : r.reconciling = some p) (ha : p.awaits = .lookup n)
      (h : Received answers n (.ok (.reservation v replayed))) (hactive : p.entry.runId ∉ r.active)
      (hv : v.status = .settled)
      (requests : List Call) (r' : Runtime)
      (hr : (r.release p.entry.runId written).resume sid name env p.rest = (requests, r')) :
      TurnMoves sid answers r requests r'
  | lookupUnaccepted (r : Runtime) (p : Recovery) (n : ℕ) (v : Reservation) (replayed : Bool) (name : ℕ)
      (env : ℕ → Env) (hp : r.reconciling = some p) (ha : p.awaits = .lookup n)
      (h : Received answers n (.ok (.reservation v replayed))) (hactive : p.entry.runId ∉ r.active)
      (hv : v.status = .reserved) (hacc : v.accepted = false)
      (requests : List Call) (r' : Runtime)
      (hr : r.resume sid name env p.rest = (requests, r')) :
      TurnMoves sid answers r requests r'
  | lookupAccepted (r : Runtime) (p : Recovery) (n : ℕ) (v : Reservation) (replayed : Bool) (name : ℕ)
      (env : ℕ → Env) (hp : r.reconciling = some p) (ha : p.awaits = .lookup n)
      (h : Received answers n (.ok (.reservation v replayed))) (hactive : p.entry.runId ∉ r.active)
      (hv : v.status = .reserved) (hacc : v.accepted = true) :
      TurnMoves sid answers r
        [postSettle sid name env (p.entry.settleRequest (r.journal.settleUnits p.entry))]
        { r.log (.settle p.entry.runId (r.journal.settleUnits p.entry)) with
          reconciling := some { p with awaits := .settle name (r.journal.settleUnits p.entry) } }
  | recovered (r : Runtime) (p : Recovery) (n units : ℕ) (written : Bool) (name : ℕ) (env : ℕ → Env)
      (hp : r.reconciling = some p) (ha : p.awaits = .settle n units)
      (h : Received answers n (.ok .done))
      (requests : List Call) (r' : Runtime)
      (hr : (r.release p.entry.runId written).resume sid name env p.rest = (requests, r')) :
      TurnMoves sid answers r requests r'
  | recoverAgain (r : Runtime) (p : Recovery) (n units name : ℕ) (env : ℕ → Env)
      (hp : r.reconciling = some p) (ha : p.awaits = .settle n units)
      (h : Received answers n (.error .usagePending)) :
      TurnMoves sid answers r [postSettle sid name env (p.entry.settleRequest units)]
        { r.log (.settle p.entry.runId units) with
          reconciling := some { p with awaits := .settle name units } }
  | recoveryFails (r : Runtime) (p : Recovery) (name : ℕ) (env : ℕ → Env) (hp : r.reconciling = some p)
      (requests : List Call) (r' : Runtime)
      (hr : r.resume sid name env p.rest = (requests, r')) :
      TurnMoves sid answers r requests r'
  | restart (r : Runtime) :
      TurnMoves sid answers r []
        { r with journal := r.journal.reopen, active := [], cancelled := [], turns := [], reconciling := none }

def sharedTurns (sid : String) : Protocol Store Call Outcome Runtime :=
  quotaProtocol (fun _ => True) .empty (TurnMoves sid)

end WorkAgent.Harness
