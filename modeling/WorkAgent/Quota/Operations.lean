import WorkAgent.Quota.SharedRun

namespace WorkAgent.Quota

open Library

structure Budget where
  sid : String
  modelID : String
  period : String
  limitUnits : Int64

def validateBudget (budget : Budget) : Except QuotaError (Period × Units) := do
  validateSID budget.sid
  if isBlank budget.modelID then
    throw (.text "quota model ID is required")
  match Period.parse budget.period with
  | none => throw (.text "quota period is invalid")
  | some period =>
    match Units.check budget.limitUnits with
    | none => throw (.text "quota limit cannot be negative")
    | some limit => return (period, limit)

namespace Store

variable (s : Store)

def setBudget (budget : Budget) : Except QuotaError Store := do
  let (period, limit) ← validateBudget budget
  return { s with
    budgets := s.budgets.upsert ⟨budget.sid, budget.modelID, period, limit⟩
      (fun b => { b with period := period, limitUnits := limit }) }

def ensureBudget (budget : Budget) : Except QuotaError Store := do
  let (period, limit) ← validateBudget budget
  return { s with budgets := s.budgets.insertOrIgnore ⟨budget.sid, budget.modelID, period, limit⟩ }

inductive AdjustMode
  | temporary
  | permanent
  | restore

def AdjustMode.parse (mode : String) : Option AdjustMode :=
  if mode = "temporary" then some .temporary
  else if mode = "permanent" then some .permanent
  else if mode = "restore" then some .restore
  else none

def adjustBudget (env : Env) (sid modelID mode : String) (limit : Int64) (time : Time) :
    Except QuotaError Store :=
  match Units.check limit, AdjustMode.parse mode with
  | some limit, some mode =>
    let time := if time.IsZero then env.now 0 else time
    match s.budgets.find? (sid, modelID) with
    | none => .error .budgetNotConfigured
    | some b =>
      let key := Quota.periodKey b.period time
      match mode with
      | .temporary => .ok { s with
          overrides := s.overrides.upsert ⟨sid, modelID, b.period, key, limit⟩
            (fun o => { o with period := b.period, periodKey := key, limitUnits := limit }) }
      | .permanent => .ok { s with
          budgets := s.budgets.update (fun b => b.sid = sid ∧ b.modelID = modelID)
            (fun b => { b with limitUnits := limit })
          overrides := s.overrides.delete (fun o => o.sid = sid ∧ o.modelID = modelID) }
      | .restore => .ok { s with
          overrides := s.overrides.delete (fun o => o.sid = sid ∧ o.modelID = modelID) }
  | _, _ => .error (.text "invalid quota adjustment")

def syncDollarBilling (budgets : List DollarBudget) : Store :=
  { s with
    dollarBudgets := budgets.foldl
      (fun t b => t.upsert b (fun x => { b with sid := x.sid, pool := x.pool })) s.dollarBudgets }

def useGatewayAccounting : Store := { s with gatewayAccounting := true }

def usage (env : Env) (sid modelID : String) (time : Time) : Except QuotaError Usage := do
  let time := if time.IsZero then env.now 0 else time
  let (period, limit) ← s.budgetFor sid modelID time
  if s.gatewayAccounting = true ∧ modelID ≠ speechTranscriptionModelID then
    match env.authorizer with
    | none => throw (.text "gateway accounting requires the model catalog")
    | some a => do
      let scopes ← a.accountingScopes sid
      match scopes.find? (fun scope => scope.id = modelID) with
      | some scope => s.gatewayUsageFor sid scope period time limit
      | none => throw .modelUnauthorized
  else s.usageFor sid modelID period (Quota.periodKey period time) limit

def counted (sid : String) (first last : ℤ) : List GatewayUsageRow :=
  s.gatewayUsage.rows.filter (fun g => s.chargedSID g = sid ∧
    (g.failed = false ∨ 0 < g.totalTokens.toInt) ∧ first ≤ g.occurredAt ∧ g.occurredAt ≤ last)

structure GatewayModelUsage where
  model : String
  totalTokens : Int64
  requests : ℕ

structure GatewayUsage where
  dailyPeriodKey : String
  weeklyPeriodKey : String
  dailyTokens : Int64
  weeklyTokens : Int64
  models : List GatewayModelUsage

def modelUsage (rows : List GatewayUsageRow) : Except QuotaError (List GatewayModelUsage) :=
  let models := ((rows.map GatewayUsageRow.model).insertionSort (· ≤ ·)).destutter (· ≠ ·)
  models.mapM (fun model => do
    let ofModel := rows.filter (fun g => g.model = model)
    let sum ← selectSum "group daily gateway usage" (tokens ofModel)
    return ⟨model, sum, ofModel.length⟩)

/-- The day of `time`, which `time.Parse` reads back from the period key only within its years. -/
def dayStart (time : Time) : Time :=
  if 0 ≤ time.date.year ∧ time.date.year ≤ 9999 then gatewayPeriodStart .daily time else .zero

def gatewayUsageOf (env : Env) (sid : String) (time : Time) : Except QuotaError GatewayUsage := do
  validateSID sid
  let time := if time.IsZero then env.now 0 else time
  let today := s.counted sid (dayStart time).unix time.unix
  let week := s.counted sid (isoWeekStart time).unix time.unix
  let dailyTokens ← selectSum "sum daily gateway usage" (tokens today)
  let weeklyTokens ← selectSum "sum weekly gateway usage" (tokens week)
  let models ← modelUsage today
  return { dailyPeriodKey := Quota.periodKey .daily time, weeklyPeriodKey := Quota.periodKey .weekly time,
           dailyTokens := dailyTokens, weeklyTokens := weeklyTokens, models := models }

end Store

inductive Op
  | setBudget (budget : Budget)
  | ensureBudget (budget : Budget)
  | adjustBudget (sid modelID mode : String) (limit : Int64) (time : Time)
  | syncDollarBilling (budgets : List DollarBudget)
  | useGatewayAccounting
  | usage (sid modelID : String) (time : Time)
  | gatewayUsage (sid : String) (time : Time)
  | reserve (request : ReserveRequest)
  | reserveForSID (sid : String) (request : ReserveRequest)
  | reserveSpeech (sid runID : String) (estimatedSeconds : Int64)
  | reserveSharedRun (request : SharedRunQuotaRequest)
  | reserveRuntime (sid payerSID : String) (request : ReserveRequest)
  | lookupRuntimeRun (sid runID : String)
  | settle (request : SettleRequest)
  | settleForSID (sid : String) (request : SettleRequest)
  | settleSpeech (runID : String) (actualSeconds : Int64)
  | settleRuntime (sid payerSID : String) (request : SettleRequest)
  | releaseSharedRun (sid runID : String)
  | pendingSharedRuns
  | recoverSharedRunAuthorization (identity : SharedRunIdentity)
  | reconcileSettlements
  | recordGatewayUsage (record : GatewayUsageRecord)
  | markGatewayDrained (started : Time)

def Env.still (time : Time) : Env where
  now _ := time
  authorizer := some { authorized := fun _ _ => .ok true, listAuthorized := none }

/-- One call of an operation, under a name of its own, with what each of its parts meets. -/
structure Call where
  name : ℕ
  env : ℕ → Env
  op : Op

inductive Answer
  | done
  | usage (usage : Usage)
  | gatewayUsage (usage : Store.GatewayUsage)
  | reservation (r : Reservation) (replayed : Bool)
  | pending (runs : List PendingQuotaRun)

abbrev Outcome := Except QuotaError Answer

abbrev Script := Prog Store Outcome

def write (body : Store → Except QuotaError Store) : Script :=
  .transaction (fun s => (body s).map (fun t => (.done, t)))

def query (f : Store → Except QuotaError Answer) : Script :=
  .transaction (fun s => (f s).map (fun a => (a, s)))

def reservationAnswer (v : (Reservation × Bool) × Store) : Answer × Store := (.reservation v.1.1 v.1.2, v.2)

def reserveAuthorized (env : Env) (request : ReserveRequest) (authorization : Option RunAuthorization) :
    Script :=
  match validateReserve request, env.authorizer with
  | .error e, _ => .fail e
  | .ok (), none => .fail (.text "quota model authorization port is required")
  | .ok (), some a => .transaction (fun s =>
      (s.reserve a (request.dated env) authorization).map reservationAnswer)

def reserveRuntime (env : Env) (sid payerSID : String) (r : ReserveRequest) : Script :=
  match validateSID sid with
  | .error e => .fail e
  | .ok () =>
    (Prog.transaction (fun s => s.claimRuntime env sid payerSID r)).andThen (fun
      | some value => .ret (.ok (.reservation value true))
      | none => reserveAuthorized env { r with sid := sid } (some ⟨sid, .personal, r.engine⟩))

/-- A settlement for the payer `sid`, or for the runtime of `runtimeSID`, where they are given. -/
def settleAs (env : Env) (sid runtimeSID : String) (request : SettleRequest) : Script :=
  if isBlank request.runID then .fail (.text "quota run ID is required")
  else
    match Units.check request.actualUnits with
    | none => .fail (.text "actual quota usage cannot be negative")
    | some actual =>
      (Prog.transaction (fun s => s.settle env sid runtimeSID request.runID actual)).andThen
        (fun result => .ret (result.map (fun _ => .done)))

def settleRuntime (env : Env) (sid : String) (request : SettleRequest) : Script :=
  match validateSID sid with
  | .error e => .fail e
  | .ok () => settleAs env "" sid request

def addFailure (failures : Outcome) : Outcome → Outcome
  | .ok _ => failures
  | .error e =>
    if e = .usagePending then failures
    else
      match failures with
      | .ok _ => .error e
      | .error first => .error first

def reconcile (env : ℕ → Env) : List Store.PendingSettlement → Outcome → Script
  | [], failures => .ret failures
  | p :: rest, failures =>
    (settleRuntime (env rest.length) p.owner ⟨p.runID, p.units.val⟩).bind
      (fun result => reconcile env rest (addFailure failures result))

def Call.prog (c : Call) : Script :=
  let env := c.env 0
  match c.op with
  | .setBudget budget => write (fun s => s.setBudget budget)
  | .ensureBudget budget => write (fun s => s.ensureBudget budget)
  | .adjustBudget sid modelID mode limit time =>
    write (fun s => s.adjustBudget env sid modelID mode limit time)
  | .syncDollarBilling budgets => write (fun s => .ok (s.syncDollarBilling budgets))
  | .useGatewayAccounting => write (fun s => .ok s.useGatewayAccounting)
  | .usage sid modelID time => query (fun s => (s.usage env sid modelID time).map .usage)
  | .gatewayUsage sid time => query (fun s => (s.gatewayUsageOf env sid time).map .gatewayUsage)
  | .reserve request => reserveAuthorized env request none
  | .reserveForSID sid request =>
    match validateSID sid with
    | .error e => .fail e
    | .ok () =>
      if request.sid ≠ sid then .fail (.text "quota reservation SID mismatch")
      else reserveAuthorized env request none
  | .reserveSpeech sid runID estimatedSeconds =>
    reserveAuthorized env ⟨runID, sid, speechTranscriptionModelID, estimatedSeconds, .zero, ""⟩ none
  | .reserveSharedRun r =>
    match validateSID r.ownerSID with
    | .error e => .fail e
    | .ok () =>
      reserveAuthorized env ⟨r.runID, r.payerSID, r.modelID, r.estimatedUnits, .zero, r.engine⟩
        (some ⟨r.ownerSID, .shared, r.engine⟩)
  | .reserveRuntime sid payerSID request => reserveRuntime env sid payerSID request
  | .lookupRuntimeRun sid runID =>
    query (fun s => (s.lookupRuntimeRun sid runID).map (fun r => .reservation r true))
  | .settle request => settleAs env "" "" request
  | .settleForSID sid request =>
    match validateSID sid with
    | .error e => .fail e
    | .ok () => settleAs env sid "" request
  | .settleSpeech runID actualSeconds => settleAs env "" "" ⟨runID, actualSeconds⟩
  | .settleRuntime sid _ request => settleRuntime env sid request
  | .releaseSharedRun sid runID => write (fun s => s.cancelUnacceptedSharedRun env sid runID)
  | .pendingSharedRuns => query (fun s => .ok (.pending s.pendingSharedRuns))
  | .recoverSharedRunAuthorization identity =>
    match validateSID identity.ownerSID with
    | .error e => .fail e
    | .ok () => write (fun s => s.recoverSharedRunAuthorization env identity)
  | .reconcileSettlements =>
    (Prog.read Store.pendingSettlements).bind (fun pending => reconcile c.env pending (.ok .done))
  | .recordGatewayUsage record => write (fun s => s.recordGatewayUsage env record)
  | .markGatewayDrained started => write (fun s => .ok (s.markGatewayDrained started))

def Call.again (c : Call) (env : ℕ → Env) : Call := { c with env := env }

/-- Any number of callers on one quota store. A restart loses the running calls, not the store. -/
def system : System Store Call Outcome where
  init := .empty
  prog := Call.prog
  allowed started _ call := call.name ∉ started.map Call.name
  reopen := Eq

def storeAfter (calls : List Call) : Store := calls.foldl (fun s i => (i.prog.run s).2) .empty

theorem reachable_calls (calls : List Call) (h : (calls.map Call.name).Nodup) :
    ∃ returned, system.Reachable ⟨storeAfter calls, [], calls.reverse, returned⟩ := by
  induction calls using List.reverseRecOn with
  | nil => exact ⟨[], .refl⟩
  | append_singleton calls i ih =>
    rw [List.map_append, List.nodup_append] at h
    obtain ⟨returned, hreach⟩ := ih h.1
    have hfresh : system.allowed calls.reverse returned i := by
      change i.name ∉ calls.reverse.map Call.name
      rw [List.map_reverse, List.mem_reverse]
      intro hmem
      exact h.2.2 _ hmem i.name (by simp) rfl
    refine ⟨(i, (i.prog.run (storeAfter calls)).1) :: returned, hreach.run ?_⟩
    have hcall := System.Run.call (s := storeAfter calls) hfresh
    rw [List.reverse_append]
    unfold storeAfter at hcall ⊢
    rw [List.foldl_append]
    exact hcall

theorem last_call (calls : List Call) (i : Call) (h : (calls.map Call.name).Nodup)
    (hi : i.name ∉ calls.map Call.name) (hp : i.prog.Single) :
    ∃ c d, system.Reachable c ∧ c.store = storeAfter calls ∧ system.Step c d ∧
      d.store = (i.prog.run (storeAfter calls)).2 ∧
      d.returned = (i, (i.prog.run (storeAfter calls)).1) :: c.returned := by
  obtain ⟨returned, hreach⟩ := reachable_calls calls h
  have hfresh : system.allowed calls.reverse returned i := by
    change i.name ∉ calls.reverse.map Call.name
    rwa [List.map_reverse, List.mem_reverse]
  obtain ⟨c, hrun, hstore, hret, hstep⟩ := System.Run.single (S := system) (s := storeAfter calls) hfresh hp
  exact ⟨c, _, hreach.run hrun, hstore, hstep, rfl, by rw [hret]; rfl⟩

end WorkAgent.Quota
