import WorkAgent.Teams.TeamDispatches

namespace WorkAgent.Teams

open Library Harness Act Act.Reads

structure Kept (s t : TeamStore) : Prop where
  batch : t.batch = true
  file : t.file = s.file
  disk : t.disk = s.disk
  reconciled : t.quotaReconciledTaskIds = s.quotaReconciledTaskIds
  drawn : s.drawn ≤ t.drawn

/-- What the single steps of a call change: the rows, and the draws go up. -/
structure Edited (s t : TeamStore) : Prop where
  batch : t.batch = s.batch
  file : t.file = s.file
  disk : t.disk = s.disk
  reconciled : t.quotaReconciledTaskIds = s.quotaReconciledTaskIds
  drawn : s.drawn ≤ t.drawn

/-- What any call leaves alone; inside a transaction it writes nothing either. -/
structure Ordinary (s t : TeamStore) : Prop where
  reconciled : t.quotaReconciledTaskIds = s.quotaReconciledTaskIds
  kept : s.batch = true → Kept s t

class Silent {α : Type} (x : StoreAct α) : Prop where
  kept : ∀ s, s.batch = true → Kept s (x s).2

section Reading

instance (condition : Prop) [Decidable condition] (error : String) : Act.Reads (refuse condition error) := by
  unfold refuse
  infer_instance

instance (condition : Prop) [Decidable condition] (body : StoreAct Unit) [Act.Reads body] : Act.Reads (whenever condition body) := by
  unfold whenever
  infer_instance

instance (host : Host) {α : Type} (path : String) (value : Option α) : Act.Reads (parsed host path value) := by
  unfold parsed
  infer_instance

instance (id : ℕ) : Act.Reads (requiredTeam id) := by
  unfold requiredTeam
  infer_instance

instance (id : ℕ) : Act.Reads (requiredTask id) := by
  unfold requiredTask
  infer_instance

instance (team : Team) (id : ℕ) : Act.Reads (requiredMember team id) := by
  unfold requiredMember
  infer_instance

instance (id : ℕ) : Act.Reads (theRun id) := by
  unfold theRun
  infer_instance

instance (id : ℕ) : Act.Reads (theDispatch id) := by
  unfold theDispatch
  infer_instance

instance (team : Team) : Act.Reads (theLead team) := by
  unfold theLead
  infer_instance

instance (teamId : ℕ) (ids : List ℕ) (taskId : Option ℕ) : Act.Reads (validateDependencies teamId ids taskId) := by
  have hvisit (s : TeamStore) : Act.Reads (match visitAll s.tasks teamId taskId ids with
      | .error error => Act.throw error
      | .ok () => pure () : StoreAct Unit) := by
    split <;> infer_instance
  unfold validateDependencies
  infer_instance

instance (teamId : ℕ) (task : TeamTask) (caller : ℕ) : Act.Reads (checkCaller teamId task caller) := by
  unfold checkCaller
  infer_instance

instance (teamId version : ℕ) (task : TeamTask) (input : TaskMutation) (caller : Option ℕ) :
    Act.Reads (checkUpdate teamId version task input caller) := by
  unfold checkUpdate
  infer_instance

instance (taskId : Option ℕ) : Act.Reads (openTask taskId) := by
  unfold openTask
  infer_instance

instance (ids : List ℕ) : Act.Reads (dependencyFailed ids) := by
  induction ids with
  | nil => exact inferInstanceAs (Act.Reads (pure false))
  | cons =>
    unfold dependencyFailed
    infer_instance

instance (items : List TeamDispatch) : Act.Reads (goesOn items) := by
  induction items with
  | nil => exact inferInstanceAs (Act.Reads (pure false))
  | cons =>
    unfold goesOn
    split
    · infer_instance
    · split <;> infer_instance

end Reading

section Instances

variable {α : Type} {x : StoreAct α} {s t : TeamStore} {R : TeamStore → TeamStore → Prop}

theorem Kept.refl (h : s.batch = true) : Kept s s := ⟨h, rfl, rfl, rfl, Nat.le_refl _⟩

theorem Edited.plain (hbatch : t.batch = s.batch := by rfl) (hfile : t.file = s.file := by rfl) (hdisk : t.disk = s.disk := by rfl)
    (hreconciled : t.quotaReconciledTaskIds = s.quotaReconciledTaskIds := by rfl) (hdrawn : t.drawn = s.drawn := by rfl) : Edited s t :=
  ⟨hbatch, hfile, hdisk, hreconciled, hdrawn.ge⟩

instance : IsPreorder TeamStore Edited where
  refl _ := ⟨rfl, rfl, rfl, rfl, Nat.le_refl _⟩
  trans _ _ _ h h' :=
    ⟨h'.batch.trans h.batch, h'.file.trans h.file, h'.disk.trans h.disk, h'.reconciled.trans h.reconciled, h.drawn.trans h'.drawn⟩

instance : IsPreorder TeamStore Ordinary where
  refl _ := ⟨rfl, .refl⟩
  trans s t u h h' := by
    refine ⟨h'.reconciled.trans h.reconciled, fun hb => ?_⟩
    have hst := h.kept hb
    have htu := h'.kept hst.batch
    exact ⟨htu.batch, htu.file.trans hst.file, htu.disk.trans hst.disk, htu.reconciled.trans hst.reconciled, hst.drawn.trans htu.drawn⟩

theorem Edited.ordinary (h : Edited s t) : Ordinary s t :=
  ⟨h.reconciled, fun hb => { h with batch := h.batch.trans hb }⟩

instance (priority := low) [Act.Follows Edited x] : Act.Follows Ordinary x := .mono fun _ _ => Edited.ordinary

instance [hx : Act.Follows Ordinary x] : Silent x := ⟨fun s => (hx.within s).kept⟩

instance [IsPreorder TeamStore R] (condition : Prop) [Decidable condition] (body : StoreAct Unit) [Act.Follows R body] :
    Act.Follows R (whenever condition body) := by
  unfold whenever
  infer_instance

instance : Act.Follows Edited randomUUID := ⟨fun _ => ⟨rfl, rfl, rfl, rfl, Nat.le_succ _⟩⟩

instance (teamId : ℕ) (type : EventType) (subjectId : ℕ) : Act.Follows Edited (event teamId type subjectId) := ⟨fun _ => .plain⟩

instance (team : Team) : Act.Follows Edited (setTeam team) := ⟨fun _ => .plain⟩

instance (task : TeamTask) : Act.Follows Edited (setTask task) := ⟨fun _ => .plain⟩

instance (run : TeamRun) : Act.Follows Edited (setRun run) := ⟨fun _ => .plain⟩

instance (dispatch : TeamDispatch) : Act.Follows Edited (setDispatch dispatch) := ⟨fun _ => .plain⟩

instance (runId : ℕ) (reason : String) : Act.Follows Edited (pauseAtLimit runId reason) := ⟨fun _ => .plain⟩

instance (taskId : ℕ) : Act.Follows Edited (cancelDispatches taskId) := ⟨fun _ => .plain⟩

instance (taskId : ℕ) (input : String) : Act.Follows Edited (setQueuedInput taskId input) := ⟨fun _ => .plain⟩

instance (runId : ℕ) : Act.Follows Edited (resetDepths runId) := ⟨fun _ => .plain⟩

instance (message : TeamMailboxMessage) : Act.Follows Edited (setMessage message) := ⟨fun _ => .plain⟩

instance (operation : Operation) : Act.Follows Edited (setOperation operation) := ⟨fun _ => .plain⟩

instance (ids : List ℕ) (now : ℤ) : Act.Follows Edited (readMessages ids now) := ⟨fun _ => .plain⟩

instance (host : Host) (teamId : ℕ) : Act.Follows Edited (Act.modify fun s : TeamStore => { s with
    teams := s.teams.delete fun team => team.id = teamId
    runs := s.runs.delete fun run => run.teamId = teamId
    dispatches := s.dispatches.delete fun item => item.teamId = teamId
    operations := s.operations.delete fun operation => (operationPrefix host teamId).toList.isPrefixOf operation.id.toList
    tasks := s.tasks.delete fun task => task.teamId = teamId
    messages := s.messages.delete fun message => message.teamId = teamId
    events := s.events.filter fun event => event.teamId ≠ teamId ∨ event.type = .teamRemoved } : StoreAct Unit) :=
  ⟨fun _ => .plain⟩

theorem save_toDocument (s : TeamStore) : (save s).2.toDocument = s.toDocument := by
  unfold save
  split
  · rfl
  · split <;> rfl

instance : Act.Follows Ordinary save := by
  refine ⟨fun s => ⟨congrArg Document.quotaReconciledTaskIds (save_toDocument s), fun h => ?_⟩⟩
  unfold save
  rw [if_pos h]
  exact .refl h

instance {perform : StoreAct α} [hp : Act.Follows Ordinary perform] : Act.Follows Ordinary (transaction perform) := by
  refine ⟨fun s => ?_⟩
  cases hb : s.batch with
  | true =>
    unfold transaction
    rw [if_pos hb]
    exact hp.within s
  | false =>
    refine ⟨?_, fun h => ?_⟩
    · cases hrun : transaction perform s with
      | mk =>
        unfold transaction at hrun
        rw [if_neg (by simp [hb])] at hrun
        cases hbody : perform { s with batch := true } with
        | mk r' u =>
          have hu : u.quotaReconciledTaskIds = s.quotaReconciledTaskIds := (Act.Follows.eq hbody : Ordinary { s with batch := true } u).reconciled
          rw [hbody] at hrun
          cases r' with
          | error =>
            cases hrun
            exact hu
          | ok =>
            cases hsave : save { u with batch := false } with
            | mk saved v =>
              have hv : v.quotaReconciledTaskIds = u.quotaReconciledTaskIds := (Act.Follows.eq hsave : Ordinary { u with batch := false } v).reconciled
              simp only [hsave] at hrun
              cases saved <;> cases hrun <;> exact hv.trans hu
    · rw [hb] at h
      cases h

end Instances

section Operations

set_option synthInstance.maxSize 4000

variable (host : Host)

instance (id sessionId : ℕ) (role : Role) (status : MemberStatus) (input : MemberInput) :
    Act.Follows Ordinary (parseMember host id sessionId role status input) := by
  unfold parseMember
  infer_instance

instance (id version : ℕ) (mutation : TeamMutation) : Act.Follows Ordinary (update host id version mutation) := by
  unfold update
  infer_instance

instance (teamId : ℕ) (input : MemberInput) : Act.Follows Ordinary (addMember host teamId input) := by
  unfold addMember
  infer_instance

instance (run : TeamRun) (memberId : ℕ) (parentId : Option ℕ) : Act.Follows Edited (registerEdge run memberId parentId) := by
  unfold registerEdge
  infer_instance

instance (run : TeamRun) (memberId : ℕ) (input : String) (parentId taskId : Option ℕ) (messageIds : List ℕ) :
    Act.Follows Edited (enqueue run memberId input parentId taskId messageIds) := by
  unfold enqueue
  infer_instance

instance (teamId : ℕ) (input : String) : Act.Follows Edited (ensureRun teamId input) := by
  have hrun (s : TeamStore) : Act.Follows Edited (match s.activeRun teamId with
      | some active => pure active
      | none => do
        let id ← randomUUID
        setRun ⟨id, teamId, input, .running, 1, 0, 0, none, none⟩
        event teamId .runUpdated id
        return ⟨id, teamId, input, .running, 1, 0, 0, none, none⟩ : StoreAct TeamRun) := by
    split <;> infer_instance
  unfold ensureRun
  infer_instance

instance (teamId memberId : ℕ) (failed : Bool) : Act.Follows Edited (idleMember teamId memberId failed) := by
  unfold idleMember
  infer_instance

instance (teamId : ℕ) (input : TaskInput) (parentId : Option ℕ) : Act.Follows Ordinary (queueTask host teamId input parentId) := by
  unfold queueTask
  infer_instance

instance (id : ℕ) : Act.Follows Ordinary (beginTask id) := by
  unfold beginTask
  infer_instance

instance (id : ℕ) (outcome : Outcome) : Act.Follows Ordinary (finishTask host id outcome) := by
  unfold finishTask
  infer_instance

instance (teamId id : ℕ) : Act.Follows Ordinary (cancelTask teamId id) := by
  unfold cancelTask
  infer_instance

instance (teamId taskId version : ℕ) (input : TaskMutation) (caller : Option ℕ) :
    Act.Follows Ordinary (updateTask host teamId taskId version input caller) := by
  unfold updateTask
  infer_instance

instance (run : TeamRun) (messageId : ℕ) (text : String) (parentId : Option ℕ) (memberId : ℕ) :
    Act.Follows Ordinary (deliver run messageId text parentId memberId) := by
  have hdeliver (s : TeamStore) : Act.Follows Ordinary (match s.pendingFor run.id memberId with
      | some pending => do
        let depth ← registerEdge run memberId parentId
        setDispatch { pending with
          depth := max pending.depth depth
          messageIds := pending.messageIds ++ [messageId]
          input := pending.input ++ "\n\n" ++ text }
      | none => enqueue run memberId text parentId none [messageId] : StoreAct Unit) := by
    split <;> infer_instance
  unfold deliver
  infer_instance

instance (teamId : ℕ) (input : MessageInput) (parentId : Option ℕ) : Act.Follows Ordinary (sendMessage host teamId input parentId) := by
  unfold sendMessage
  infer_instance

instance (teamId : ℕ) (input : String) (memberId : Option ℕ) : Act.Follows Ordinary (startRun teamId input memberId) := by
  unfold startRun
  infer_instance

instance (teamId runId : ℕ) (item : TeamDispatch) : Act.Follows Ordinary (cancelItem teamId runId item) := by
  unfold cancelItem
  infer_instance

instance (teamId runId : ℕ) (ids : List ℕ) : Act.Follows Ordinary (cancelItems teamId runId ids) := by
  unfold cancelItems
  infer_instance

instance (teamId runId : ℕ) (action : RunAction) : Act.Follows Ordinary (controlRun teamId runId action) := by
  unfold controlRun
  infer_instance

instance (teamId parentId : ℕ) (input : MemberInput) : Act.Follows Ordinary (recruit host teamId parentId input) := by
  unfold recruit
  infer_instance

instance (id : ℕ) : Act.Follows Ordinary (beginDispatch id) := by
  unfold beginDispatch
  infer_instance

instance (item : TeamDispatch) (run : TeamRun) (outcome : Outcome) : Act.Follows Ordinary (reportTurn host item run outcome) := by
  unfold reportTurn
  infer_instance

instance (id : ℕ) (outcome : Outcome) : Act.Follows Ordinary (finishDispatch host id outcome) := by
  unfold finishDispatch
  infer_instance

instance {α : Type} (image : α → Option String) (id input : String) (perform : StoreAct α) [Act.Follows Ordinary perform] :
    Act.Follows Ordinary (operation image id input perform) := by
  have hfirst (s : TeamStore) : Act.Follows Ordinary (match s.operations.find? id with
      | some previous => do
        refuse (previous.input ≠ input) "operation_id_conflict"
        return .inr previous.result
      | none => transaction do
        let result ← perform
        let text ← required (image result) "SyntaxError"
        setOperation ⟨id, input, text⟩
        return .inl result : StoreAct (α ⊕ String)) := by
    split <;> infer_instance
  unfold operation
  infer_instance

end Operations

section Rollback

variable {α : Type} {perform : StoreAct α} {s t : TeamStore} {result : α} {error : String}

theorem transaction_of_batch (h : s.batch = true) : transaction perform s = perform s := if_pos h

theorem save_batch (s : TeamStore) : (save s).2.batch = s.batch := by
  unfold save
  split
  · rfl
  · split <;> rfl

theorem save_drawn (s : TeamStore) : (save s).2.drawn = s.drawn := by
  unfold save
  split
  · rfl
  · split <;> rfl

theorem save_error (h : save s = (.error error, t)) : t.file = s.file := by
  unfold save at h
  split at h
  · cases h
  · split at h
    · cases h
      rfl
    · cases h

theorem save_ok (hb : s.batch = false) (h : save s = (.ok (), t)) : t = { s with file := s.toDocument, disk := s.disk.tail } := by
  unfold save at h
  rw [if_neg (by simp [hb])] at h
  split at h
  · cases h
  · cases h
    rfl

theorem transaction_eq [hp : Silent perform] (hb : s.batch = false) :
    (∃ result u t, perform { s with batch := true } = (.ok result, u) ∧ transaction perform s = (.ok result, t) ∧
      t = { u with batch := false, file := u.toDocument, disk := s.disk.tail }) ∨
    (∃ error t, transaction perform s = (.error error, t) ∧ t.toDocument = s.toDocument ∧ t.file = s.file ∧ t.batch = false ∧
      s.drawn ≤ t.drawn) := by
  have hkept := hp.kept { s with batch := true } rfl
  unfold transaction
  rw [if_neg (by simp [hb])]
  cases hrun : perform { s with batch := true } with
  | mk outcome u =>
    rw [hrun] at hkept
    have hrestored (v : TeamStore) (hfile : v.file = s.file) (hreconciled : v.quotaReconciledTaskIds = s.quotaReconciledTaskIds)
        (hdrawn : s.drawn ≤ v.drawn) : (transaction.restored s v).toDocument = s.toDocument ∧ (transaction.restored s v).file = s.file ∧
          (transaction.restored s v).batch = false ∧ s.drawn ≤ (transaction.restored s v).drawn := by
      refine ⟨?_, hfile, rfl, hdrawn⟩
      unfold transaction.restored
      rw [hreconciled]
    cases outcome with
    | error error => exact .inr ⟨error, _, rfl, hrestored u hkept.file hkept.reconciled hkept.drawn⟩
    | ok result =>
      cases hsave : save { u with batch := false } with
      | mk saved v =>
        cases saved with
        | ok =>
          left
          refine ⟨result, u, v, rfl, ?_, ?_⟩
          · simp only [hsave]
          · rw [save_ok rfl hsave, hkept.disk]
        | error error =>
          right
          have hdocument : v.toDocument = u.toDocument := by
            have hkeep := save_toDocument { u with batch := false }
            rw [hsave] at hkeep
            exact hkeep
          have hfile : v.file = s.file := (save_error hsave).trans hkept.file
          have hreconciled : v.quotaReconciledTaskIds = s.quotaReconciledTaskIds :=
            (congrArg Document.quotaReconciledTaskIds hdocument).trans hkept.reconciled
          have hdrawn : v.drawn = u.drawn := by
            have hkeep := save_drawn { u with batch := false }
            rw [hsave] at hkeep
            exact hkeep
          refine ⟨error, _, ?_, hrestored v hfile hreconciled (hdrawn ▸ hkept.drawn)⟩
          simp only [hsave]

theorem transaction_error [Silent perform] (hb : s.batch = false) (h : transaction perform s = (.error error, t)) :
    t.toDocument = s.toDocument ∧ t.file = s.file ∧ t.batch = false ∧ s.drawn ≤ t.drawn := by
  obtain hcommitted | hundone : (_ ∨ _) := @transaction_eq _ perform s _ hb
  · obtain ⟨_, u, v, -, hrun, -⟩ := hcommitted
    cases h.symm.trans hrun
  · obtain ⟨_, v, hrun, hsame⟩ := hundone
    cases h.symm.trans hrun
    exact hsame

theorem transaction_ok [Silent perform] (hb : s.batch = false) (h : transaction perform s = (.ok result, t)) :
    ∃ u, perform { s with batch := true } = (.ok result, u) ∧ t = { u with batch := false, file := u.toDocument, disk := s.disk.tail } := by
  obtain hcommitted | hundone : (_ ∨ _) := @transaction_eq _ perform s _ hb
  · obtain ⟨_, u, v, hbody, hrun, ht⟩ := hcommitted
    cases h.symm.trans hrun
    exact ⟨u, hbody, ht⟩
  · obtain ⟨_, v, hrun, -⟩ := hundone
    cases h.symm.trans hrun

end Rollback

section Atomicity

variable (host : Host)

/-- What may run inside a call: the calls on the store, in sequence, each depending on the results before it, with errors caught or not. -/
inductive Nested : {α : Type} → StoreAct α → Prop
  | pure {α : Type} (a : α) : Nested (Pure.pure a : StoreAct α)
  | throw {α : Type} (e : String) : Nested (Act.throw e : StoreAct α)
  | read : Nested (Act.read : StoreAct TeamStore)
  | bind {α β : Type} (x : StoreAct α) (f : α → StoreAct β) (hx : Nested x) (hf : ∀ a, Nested (f a)) : Nested (x >>= f)
  | attempt {α : Type} (x : StoreAct α) (handler : String → StoreAct α) (hx : Nested x) (hh : ∀ e, Nested (handler e)) :
      Nested (Act.attempt x handler)
  | update (id version : ℕ) (mutation : TeamMutation) : Nested (update host id version mutation)
  | addMember (teamId : ℕ) (input : MemberInput) : Nested (addMember host teamId input)
  | queueTask (teamId : ℕ) (input : TaskInput) (parentId : Option ℕ) : Nested (queueTask host teamId input parentId)
  | updateTask (teamId taskId version : ℕ) (input : TaskMutation) (caller : Option ℕ) :
      Nested (updateTask host teamId taskId version input caller)
  | cancelTask (teamId id : ℕ) : Nested (cancelTask teamId id)
  | sendMessage (teamId : ℕ) (input : MessageInput) (parentId : Option ℕ) : Nested (sendMessage host teamId input parentId)
  | startRun (teamId : ℕ) (input : String) (memberId : Option ℕ) : Nested (startRun teamId input memberId)
  | controlRun (teamId runId : ℕ) (action : RunAction) : Nested (controlRun teamId runId action)
  | recruit (teamId parentId : ℕ) (input : MemberInput) : Nested (recruit host teamId parentId input)
  | beginDispatch (id : ℕ) : Nested (beginDispatch id)
  | finishDispatch (id : ℕ) (outcome : Outcome) : Nested (finishDispatch host id outcome)
  | operation {α : Type} (image : α → Option String) (id input : String) (perform : StoreAct α) (h : Nested perform) :
      Nested (operation image id input perform)

theorem Nested.ordinary {α : Type} {x : StoreAct α} (h : Nested host x) : Act.Follows Ordinary x := by
  induction h with
  | bind | attempt | operation => infer_instance
  | _ => infer_instance

variable {host} {s t : TeamStore} {error : String} {α : Type}

set_option synthInstance.maxSize 4000

def plainHost : Host := ⟨fun _ => ⟨"00000000-0000-4000-8000-000000000041", rfl⟩, fun text => text, fun path => path⟩

end Atomicity

end WorkAgent.Teams
