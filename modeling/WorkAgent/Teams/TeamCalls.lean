import WorkAgent.Teams.Saves

namespace WorkAgent.Teams

open Library Act.Reads Late

set_option synthInstance.maxSize 4000

variable {host : Host} {s t : TeamStore} {α : Type}

/-- The calls of the orchestrator and of the team API; `pauseRun` is the turn of `pauseBlockedRuns` for one run. -/
inductive Call
  | create (name workspaceId : String) (lead : MemberInput)
  | update (id version : ℕ) (mutation : TeamMutation)
  | addMember (teamId : ℕ) (input : MemberInput)
  | updateMember (teamId memberId : ℕ) (input : MemberMutation)
  | removeMember (teamId memberId : ℕ)
  | delete (teamId : ℕ)
  | queueTask (teamId : ℕ) (input : TaskInput) (parentId : Option ℕ)
  | updateTask (teamId taskId version : ℕ) (input : TaskMutation) (caller : Option ℕ)
  | cancelTask (teamId id : ℕ)
  | sendMessage (teamId : ℕ) (input : MessageInput) (parentId : Option ℕ)
  | startRun (teamId : ℕ) (input : String) (memberId : Option ℕ)
  | controlRun (teamId runId : ℕ) (action : RunAction)
  | recruit (teamId parentId : ℕ) (input : MemberInput)
  | pauseRun (id : ℕ)
  | beginDispatch (id : ℕ)
  | submittedDispatch (id : ℕ) (turnId : String) (now : ℤ)
  | deferDispatch (id : ℕ) (now : ℤ)
  | finishDispatch (id : ℕ) (outcome : Outcome)
  | acknowledgeInterruptedExecution (id : ℕ)

def pauseRun (id : ℕ) : StoreAct Unit := do
  let s ← Act.read
  Act.forEach pauseBlockedRun (s.runs.find? id).toList

def Call.act (host : Host) : Call → StoreAct Unit
  | .create name workspaceId lead => Teams.create host name workspaceId lead >>= fun _ => pure ()
  | .update id version mutation => Teams.update host id version mutation >>= fun _ => pure ()
  | .addMember teamId input => Teams.addMember host teamId input >>= fun _ => pure ()
  | .updateMember teamId memberId input => Teams.updateMember host teamId memberId input >>= fun _ => pure ()
  | .removeMember teamId memberId => Teams.removeMember teamId memberId >>= fun _ => pure ()
  | .delete teamId => Teams.delete host teamId
  | .queueTask teamId input parentId => Teams.queueTask host teamId input parentId >>= fun _ => pure ()
  | .updateTask teamId taskId version input caller => Teams.updateTask host teamId taskId version input caller >>= fun _ => pure ()
  | .cancelTask teamId id => Teams.cancelTask teamId id
  | .sendMessage teamId input parentId => Teams.sendMessage host teamId input parentId >>= fun _ => pure ()
  | .startRun teamId input memberId => Teams.startRun teamId input memberId >>= fun _ => pure ()
  | .controlRun teamId runId action => Teams.controlRun teamId runId action >>= fun _ => pure ()
  | .recruit teamId parentId input => Teams.recruit host teamId parentId input >>= fun _ => pure ()
  | .pauseRun id => Teams.pauseRun id
  | .beginDispatch id => Teams.beginDispatch id
  | .submittedDispatch id turnId now => Teams.submittedDispatch id turnId now
  | .deferDispatch id now => Teams.deferDispatch id now
  | .finishDispatch id outcome => Teams.finishDispatch host id outcome
  | .acknowledgeInterruptedExecution id => Teams.acknowledgeInterruptedExecution id

def Call.kinds : Call → Kind → Prop
  | .removeMember _ _ => fun kind => kind = .plain ∨ kind = .removes
  | .updateTask _ _ _ input _ => fun kind => kind = .plain ∨ kind = .closes ∧ input.succeeds ≠ none
  | .cancelTask _ _ => fun kind => kind = .plain ∨ kind = .closes
  | .controlRun _ _ _ => Cancelling
  | .beginDispatch _ => Beginning
  | .deferDispatch _ _ => fun kind => kind = .plain ∨ kind = .defers
  | .finishDispatch _ _ => Finishing
  | _ => fun kind => kind = .plain

def Call.early : Call → Kind → Prop
  | .removeMember teamId memberId => (Call.removeMember teamId memberId).kinds
  | .updateTask teamId taskId version input caller => (Call.updateTask teamId taskId version input caller).kinds
  | .cancelTask teamId id => (Call.cancelTask teamId id).kinds
  | .deferDispatch id now => (Call.deferDispatch id now).kinds
  | _ => fun kind => kind = .plain

variable {c : Call}

theorem Call.early_late {kind : Kind} (h : c.early kind) : kind ≠ .ends ∧ kind ≠ .begins := by
  cases c <;> cases kind <;> simp_all [Call.early, Call.kinds]

theorem Call.kinds_plain (c : Call) : c.kinds .plain := by
  cases c <;> simp [Call.kinds, Cancelling, Beginning, Finishing]

variable {r : Except String Unit}

theorem discard_any {x : StoreAct α} (h : (x >>= fun _ => pure ()) s = (r, t)) : ∃ r', x s = (r', t) := by
  rcases Act.bind_any h with ⟨e, hx, -⟩ | ⟨a, u, hx, hend⟩
  · exact ⟨_, hx⟩
  · cases hend
    exact ⟨_, hx⟩

theorem discard_ok {x : StoreAct α} (h : (x >>= fun _ => pure ()) s = (.ok (), t)) : ∃ a, x s = (.ok a, t) := by
  obtain ⟨a, u, hx, hend⟩ := Act.bind_ok.mp h
  cases hend
  exact ⟨a, hx⟩

theorem discard_error {x : StoreAct α} {e : String} (h : (x >>= fun _ => pure ()) s = (.error e, t)) : x s = (.error e, t) := by
  rcases Act.bind_error.mp h with hx | ⟨a, u, -, hend⟩
  · exact hx
  · cases hend

variable {id : ℕ}

theorem pauseRun_moves {base : ℕ} (h : pauseRun id s = (r, t)) : Moves base (· = .plain) s.board t.board := by
  unfold pauseRun at h
  rw [read_bind] at h
  cases hfind : s.runs.find? id with
  | none =>
    rw [forEach_of_none hfind] at h
    cases h
    exact .none
  | some =>
    obtain ⟨hrun, -⟩ := Table.find?_eq_some.mp hfind
    rw [hfind] at h
    rcases Act.bind_any h with ⟨_, hone, -⟩ | ⟨_, u, hone, hend⟩
    · exact pauseBlockedRun_moves hrun hone
    · cases hend
      exact pauseBlockedRun_moves hrun hone

instance (id : ℕ) : Late (pauseRun id) := by
  constructor
  intro s hb
  unfold pauseRun
  rw [read_bind]
  cases hfind : s.runs.find? id with
  | none => exact ⟨hb, .inl rfl⟩
  | some run =>
    cases hrun : Act.forEach pauseBlockedRun (some run).toList s with
    | mk =>
      rcases Act.bind_any hrun with ⟨_, hone, -⟩ | ⟨_, u, hone, hend⟩
      · exact eq hb hone
      · cases hend
        exact eq hb hone

theorem Call.moves (hs : Sound s.board) (h : c.act host s = (.ok (), t)) : Moves s.drawn c.kinds s.board t.board := by
  cases c with
  | create =>
    obtain ⟨_, h⟩ := discard_ok h
    exact create_moves hs h
  | update =>
    obtain ⟨_, h⟩ := discard_ok h
    exact update_moves hs h
  | addMember =>
    obtain ⟨_, h⟩ := discard_ok h
    exact (addMember_moves hs h).1
  | updateMember =>
    obtain ⟨_, h⟩ := discard_ok h
    exact updateMember_moves hs h
  | removeMember =>
    obtain ⟨_, h⟩ := discard_ok h
    exact removeMember_moves hs h
  | delete => exact delete_moves h
  | queueTask =>
    obtain ⟨_, h⟩ := discard_ok h
    exact queueTask_moves hs h
  | updateTask =>
    obtain ⟨_, h⟩ := discard_ok h
    exact updateTask_moves hs h
  | cancelTask => exact (cancelTask_moves hs h).mono fun _ => .inr
  | sendMessage =>
    obtain ⟨_, h⟩ := discard_ok h
    exact (sendMessage_moves hs h).1
  | startRun =>
    obtain ⟨_, h⟩ := discard_ok h
    exact startRun_moves hs h
  | controlRun =>
    obtain ⟨_, h⟩ := discard_ok h
    exact controlRun_moves hs h
  | recruit =>
    obtain ⟨_, h⟩ := discard_ok h
    exact recruit_moves hs h
  | pauseRun => exact pauseRun_moves h
  | beginDispatch => exact (beginDispatch_ok hs h).1
  | submittedDispatch => exact submittedDispatch_moves h
  | deferDispatch => exact (deferDispatch_moves hs h).1
  | finishDispatch => exact (finishDispatch_ok hs h).1
  | acknowledgeInterruptedExecution id =>
    change Teams.acknowledgeInterruptedExecution id s = (.ok (), t) at h
    rw [Calm.board_eq h]
    exact .none

def Effect (kinds early : Kind → Prop) (s t : TeamStore) : Prop :=
  t.batch = false ∧ (t.file = t.toDocument ∧ Moves s.drawn kinds s.board t.board ∨ t.file = s.file ∧ Moves s.drawn early s.board t.board)

variable {kinds : Kind → Prop}

theorem Effect.of_late (h : t.batch = false ∧ (t.file = s.file ∨ t.file = t.toDocument))
    (hmoves : Moves s.drawn kinds s.board t.board) : Effect kinds kinds s t := by
  obtain ⟨hbatch, hfile | hfile⟩ := h
  · exact ⟨hbatch, .inr ⟨hfile, hmoves⟩⟩
  · exact ⟨hbatch, .inl ⟨hfile, hmoves⟩⟩

theorem Effect.of_plain (hplain : kinds .plain) (h : t.batch = false ∧ (t.file = s.file ∨ t.file = t.toDocument))
    (hmoves : Moves s.drawn (· = .plain) s.board t.board) : Effect kinds (· = .plain) s t := by
  obtain ⟨hbatch, hfile | hfile⟩ := h
  · exact ⟨hbatch, .inr ⟨hfile, hmoves⟩⟩
  · exact ⟨hbatch, .inl ⟨hfile, hmoves.mono fun _ h => h ▸ hplain⟩⟩

theorem Effect.of_transaction (hplain : kinds .plain) {x : StoreAct α} [Silent x] (hb : s.batch = false)
    {r : Except String α} (h : transaction x s = (r, t)) (hmoves : ∀ a, transaction x s = (.ok a, t) → Moves s.drawn kinds s.board t.board) :
    Effect kinds (· = .plain) s t := by
  cases r with
  | ok a =>
    obtain ⟨_, _, -, -, -, -, -, hsaved⟩ := transaction_body h
    obtain ⟨hbatch, hfile⟩ := hsaved hb
    exact ⟨hbatch, .inl ⟨hfile, hmoves a h⟩⟩
  | error =>
    obtain ⟨-, hfile, hbatch, -⟩ := transaction_error hb h
    exact .of_plain hplain ⟨hbatch, .inl hfile⟩ (transaction_undone hb h rfl)

theorem beginDispatch_error (hb : s.batch = false) {e : String} (h : beginDispatch id s = (.error e, t)) :
    (t.batch = false ∧ (t.file = s.file ∨ t.file = t.toDocument)) ∧ Moves s.drawn (· = .plain) s.board t.board := by
  have hsame : (s.batch = false ∧ (s.file = s.file ∨ s.file = s.toDocument)) ∧ Moves s.drawn (· = .plain) s.board s.board := ⟨⟨hb, .inl rfl⟩, .none⟩
  unfold beginDispatch at h
  rcases bind_eq h with ⟨_, -, rfl⟩ | ⟨_, _, h⟩
  · exact hsame
  rcases bind_eq h with ⟨_, -, rfl⟩ | ⟨_, hrun, h⟩
  · exact hsame
  rcases bind_eq h with ⟨_, -, rfl⟩ | ⟨_, hready, h⟩
  · exact hsame
  rcases bind_eq h with ⟨_, -, rfl⟩ | ⟨_, -, h⟩
  · exact hsame
  rcases bind_eq h with ⟨_, -, rfl⟩ | ⟨_, -, h⟩
  · exact hsame
  rw [read_bind] at h
  rcases bind_eq h with ⟨_, -, rfl⟩ | ⟨_, -, h⟩
  · exact hsame
  split at h
  · obtain ⟨-, hrun, -⟩ := theRun_ok hrun
    obtain ⟨-, hready⟩ := refuse_ok hready
    simp only [ne_eq, not_or, not_not] at hready
    refine ⟨eq hb h, ?_⟩
    rw [setRun_bind] at h
    rw [Calm.board_eq h]
    exact .one rfl (.setRun hrun rfl rfl (by simp [hready.2, RunStatus.Finished]) (by simp [RunStatus.Finished]))
  · exact ⟨⟨(transaction_error hb h).2.2.1, .inl (transaction_error hb h).2.1⟩, transaction_undone hb h rfl⟩

theorem beginDispatch_effect (hs : Sound s.board) (hb : s.batch = false) (h : beginDispatch id s = (r, t)) :
    Effect Beginning (· = .plain) s t := by
  cases r with
  | ok =>
    obtain ⟨hmoves, hsaved, -⟩ := beginDispatch_ok hs h
    obtain ⟨hbatch, hfile⟩ := hsaved hb
    exact ⟨hbatch, .inl ⟨hfile, hmoves⟩⟩
  | error =>
    obtain ⟨hlate, hmoves⟩ := beginDispatch_error hb h
    exact .of_plain (.inl rfl) hlate hmoves

theorem Call.effect (hs : Sound s.board) (hb : s.batch = false) (h : c.act host s = (r, t)) :
    Effect c.kinds c.early s t := by
  cases c with
  | create =>
    obtain ⟨_, h⟩ := discard_any h
    exact .of_plain rfl (eq hb h) (create_moves hs h)
  | update =>
    obtain ⟨_, h⟩ := discard_any h
    exact .of_plain rfl (eq hb h) (update_moves hs h)
  | addMember =>
    obtain ⟨_, h⟩ := discard_any h
    exact .of_plain rfl (eq hb h) (addMember_moves hs h).1
  | updateMember =>
    obtain ⟨_, h⟩ := discard_any h
    exact .of_plain rfl (eq hb h) (updateMember_moves hs h)
  | removeMember =>
    obtain ⟨_, h⟩ := discard_any h
    exact .of_late (eq hb h) (removeMember_moves hs h)
  | delete teamId =>
    change Teams.delete host teamId s = (r, t) at h
    exact .of_plain rfl (eq hb h) (delete_moves h)
  | queueTask =>
    obtain ⟨_, h⟩ := discard_any h
    exact .of_transaction rfl hb h fun _ h => queueTask_moves hs h
  | updateTask =>
    obtain ⟨_, h⟩ := discard_any h
    exact .of_late (eq hb h) (updateTask_moves hs h)
  | cancelTask teamId id =>
    change Teams.cancelTask teamId id s = (r, t) at h
    exact .of_late (eq hb h) ((cancelTask_moves hs h).mono fun _ => .inr)
  | sendMessage =>
    obtain ⟨_, h⟩ := discard_any h
    exact .of_transaction rfl hb h fun _ h => (sendMessage_moves hs h).1
  | startRun =>
    obtain ⟨_, h⟩ := discard_any h
    exact .of_plain rfl (eq hb h) (startRun_moves hs h)
  | controlRun =>
    obtain ⟨_, h⟩ := discard_any h
    exact .of_transaction (.inl rfl) hb h fun _ h => controlRun_moves hs h
  | recruit =>
    obtain ⟨_, h⟩ := discard_any h
    exact .of_transaction rfl hb h fun _ h => recruit_moves hs h
  | pauseRun id =>
    change Teams.pauseRun id s = (r, t) at h
    exact .of_plain rfl (eq hb h) (pauseRun_moves h)
  | beginDispatch => exact beginDispatch_effect hs hb h
  | submittedDispatch id turnId now =>
    change Teams.submittedDispatch id turnId now s = (r, t) at h
    exact .of_plain rfl (eq hb h) (submittedDispatch_moves h)
  | deferDispatch id now =>
    change Teams.deferDispatch id now s = (r, t) at h
    exact .of_late (eq hb h) (deferDispatch_moves hs h).1
  | finishDispatch => exact .of_transaction (.inl rfl) hb h fun _ h => (finishDispatch_ok hs h).1
  | acknowledgeInterruptedExecution id =>
    change Teams.acknowledgeInterruptedExecution id s = (r, t) at h
    refine .of_plain rfl (eq hb h) ?_
    rw [Calm.board_eq h]
    exact .none

theorem operation_effect (hs : Sound s.board) (hb : s.batch = false) (hnested : Nested host (c.act host)) {image : Unit → Option String} {id input : String}
    {r : Except String (Unit ⊕ String)} (h : operation image id input (c.act host) s = (r, t)) : Effect c.kinds (· = .plain) s t := by
  have := hnested.ordinary
  have hsame : Effect c.kinds (· = .plain) s s := .of_plain c.kinds_plain ⟨hb, .inl rfl⟩ .none
  unfold operation at h
  rcases bind_eq h with ⟨_, -, rfl⟩ | ⟨_, -, h⟩
  · exact hsame
  rw [read_bind] at h
  cases hfind : s.operations.find? id with
  | some =>
    rw [hfind] at h
    rcases bind_eq h with ⟨_, -, rfl⟩ | ⟨_, -, h⟩
    · exact hsame
    · cases h
      exact hsame
  | none =>
    rw [hfind] at h
    refine .of_transaction c.kinds_plain hb h ?_
    intro a h
    obtain ⟨u, v, hboard, -, hbody, hdocument, hdrawn, -⟩ := transaction_body h
    rw [board_eq hdocument hdrawn, ← hboard, show s.drawn = u.drawn from (congrArg Board.drawn hboard).symm]
    rw [← hboard] at hs
    obtain ⟨_, w, hact, hbody⟩ := Act.bind_ok.mp hbody
    rw [Calm.board_eq hbody]
    exact Call.moves hs hact

end WorkAgent.Teams
