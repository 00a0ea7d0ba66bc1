import WorkAgent.Teams.TeamDispatches

namespace WorkAgent.Teams

open Library Table

/-- The part of a store that its calls keep consistent; `closing` is the run whose dispatches are being cancelled. -/
structure Board where
  teams : Table Team.id
  tasks : Table TeamTask.id
  runs : Table TeamRun.id
  dispatches : Table TeamDispatch.id
  drawn : ℕ
  closing : Option ℕ

def Document.board (d : Document) (drawn : ℕ) : Board := ⟨d.teams, d.tasks, d.runs, d.dispatches, drawn, none⟩

def TeamStore.board (s : TeamStore) : Board := s.toDocument.board s.drawn

def Seats (teams : Table Team.id) (teamId memberId : ℕ) (status : MemberStatus) : Prop :=
  ∃ team ∈ teams, team.id = teamId ∧ ∃ member ∈ team.members, member.id = memberId ∧ member.status = status

def HasMember (teams : Table Team.id) (teamId memberId : ℕ) : Prop := ∃ status, Seats teams teamId memberId status

def Team.Formed (team : Team) : Prop := (team.members.map TeamMember.id).Nodup ∧ ∃ member ∈ team.members, member.role = .lead

def Depends (tasks : Table TeamTask.id) (id dependency : ℕ) : Prop := ∃ task ∈ tasks, task.id = id ∧ dependency ∈ task.dependsOnIds

def Suits : DispatchStatus → TaskStatus → Prop
  | .queued, status => status = .queued
  | .running, status => status = .running ∨ status = .succeeded ∨ status = .failed
  | _, status => status.Terminal

structure Books (b : Board) : Prop where
  taskFresh : ∀ task ∈ b.tasks, task.id < b.drawn
  runFresh : ∀ run ∈ b.runs, run.id < b.drawn
  dispatchFresh : ∀ item ∈ b.dispatches, item.id < b.drawn
  apart : ∀ task ∈ b.tasks, ∀ item ∈ b.dispatches, item.id ≠ task.id
  oneRun : ∀ run ∈ b.runs, ∀ run' ∈ b.runs, run.teamId = run'.teamId → ¬ run.status.Finished → ¬ run'.status.Finished → run = run'
  closes : ∀ id, b.closing = some id → ∃ run ∈ b.runs, run.id = id ∧ run.status.Finished ∧
    ∀ run' ∈ b.runs, run'.teamId = run.teamId → run'.status.Finished
  inRun : ∀ item ∈ b.dispatches, ∃ run ∈ b.runs, run.id = item.runId ∧ run.teamId = item.teamId ∧
    (item.status.Pending → ¬ run.status.Finished ∨ b.closing = some run.id)
  forTask : ∀ item ∈ b.dispatches, ∀ id, item.taskId = some id → ∃ task ∈ b.tasks, task.id = id ∧ task.teamId = item.teamId ∧
    task.memberId = item.memberId ∧ Suits item.status task.status
  oneDispatch : ∀ item ∈ b.dispatches, ∀ item' ∈ b.dispatches, ∀ id, item.taskId = some id → item'.taskId = some id → item = item'
  held : ∀ task ∈ b.tasks, ∃ item ∈ b.dispatches, item.taskId = some task.id
  unsubmitted : ∀ item ∈ b.dispatches, item.status = .queued → item.submittedAt = none
  inside : ∀ task ∈ b.tasks, ∀ id ∈ task.dependsOnIds, ∃ task' ∈ b.tasks, task'.id = id ∧ task'.teamId = task.teamId
  acyclic : ∀ id, ¬ Relation.TransGen (Depends b.tasks) id id

structure Sound (b : Board) : Prop extends Books b where
  teamFresh : ∀ team ∈ b.teams, team.id < b.drawn
  memberFresh : ∀ teamId memberId status, Seats b.teams teamId memberId status → memberId < b.drawn
  seat : ∀ teamId teamId' memberId status status', Seats b.teams teamId memberId status → Seats b.teams teamId' memberId status' →
    teamId = teamId' ∧ status = status'
  formed : ∀ team ∈ b.teams, team.Formed
  byMember : ∀ item ∈ b.dispatches, item.status.Pending → HasMember b.teams item.teamId item.memberId
  busy : ∀ item ∈ b.dispatches, item.status = .running →
    Seats b.teams item.teamId item.memberId .running ∨ b.closing = some item.runId
  turning : ∀ teamId memberId, Seats b.teams teamId memberId .running →
    ∃ item ∈ b.dispatches, item.teamId = teamId ∧ item.memberId = memberId ∧ item.status = .running
  oneTurn : ∀ item ∈ b.dispatches, ∀ item' ∈ b.dispatches, item.memberId = item'.memberId → item.status = .running →
    item'.status = .running → item = item'
  four : ∀ id, (b.dispatches.count fun item => item.runId = id ∧ item.status = .running) ≤ 4

theorem Sound.empty (n : ℕ) : Sound (Document.empty.board n) where
  teamFresh := forall_mem_empty
  memberFresh _ _ _ h := by
    obtain ⟨_, h, -⟩ := h
    exact absurd h (not_mem_empty _)
  taskFresh := forall_mem_empty
  runFresh := forall_mem_empty
  dispatchFresh := forall_mem_empty
  apart := forall_mem_empty
  seat _ _ _ _ _ h := by
    obtain ⟨_, h, -⟩ := h
    exact absurd h (not_mem_empty _)
  formed := forall_mem_empty
  oneRun := forall_mem_empty
  closes _ h := by cases h
  inRun := forall_mem_empty
  byMember := forall_mem_empty
  forTask := forall_mem_empty
  oneDispatch := forall_mem_empty
  held := forall_mem_empty
  busy := forall_mem_empty
  turning _ _ h := by
    obtain ⟨_, h, -⟩ := h
    exact absurd h (not_mem_empty _)
  oneTurn := forall_mem_empty
  four _ := Nat.zero_le _
  unsubmitted := forall_mem_empty
  inside := forall_mem_empty
  acyclic id h := by
    obtain ⟨_, ⟨_, hmem, -⟩, -⟩ := Relation.TransGen.head'_iff.mp h
    exact absurd hmem (not_mem_empty _)

section Moves

inductive Kind
  | plain
  | removes
  | closes
  | ends
  | begins
  | defers
  deriving DecidableEq

def TaskStep (kind : Kind) (task task' : TeamTask) : Prop :=
  task'.id = task.id ∧ task'.teamId = task.teamId ∧ task'.memberId = task.memberId ∧
    (task'.status = task.status ∧ task'.error = task.error ∨
      kind = .closes ∧ ¬ task.status.Terminal ∧ task'.status.Terminal ∨
      kind = .begins ∧ task.status = .queued ∧ task'.status = .running ∨ kind = .defers ∧ task'.status = .queued)

def TurnStep (kind : Kind) (item item' : TeamDispatch) : Prop :=
  item'.id = item.id ∧ item'.teamId = item.teamId ∧ item'.runId = item.runId ∧ item'.memberId = item.memberId ∧
    item'.taskId = item.taskId ∧ (item'.status = .queued → item'.submittedAt = none) ∧
    (item'.status = item.status ∧ (item.submittedAt ≠ none → item'.submittedAt ≠ none) ∨
      kind = .closes ∧ item.status.Pending ∧ ¬ item'.status.Pending ∧ item'.status ≠ .interrupted ∨
      kind = .begins ∧ item.status = .queued ∧ item'.status = .running ∨
      kind = .defers ∧ item.status = .running ∧ item.submittedAt = none ∧ item'.status = .queued)

def Unused (b : Board) (teamId memberId : ℕ) : Prop :=
  (∀ item ∈ b.dispatches, item.memberId = memberId → ¬ item.status.Pending) ∧
    ∀ task ∈ b.tasks, task.teamId = teamId → task.memberId = memberId → ¬ task.status.Pending

structure Staffed (kind : Kind) (b : Board) (teams : Table Team.id) (drawn teamId memberId : ℕ) : Prop where
  later : b.drawn ≤ drawn
  teamFresh : ∀ team ∈ teams, (∃ team' ∈ b.teams, team'.id = team.id) ∨ team.id < drawn
  kept : ∀ team ∈ b.teams, ∃ team' ∈ teams, team'.id = team.id
  formed : ∀ team ∈ teams, team.Formed
  joined : ∀ teamId' memberId' status, Seats teams teamId' memberId' status → Seats b.teams teamId' memberId' status ∨
    status = .idle ∧ teamId' = teamId ∧ memberId' = memberId ∧ b.drawn ≤ memberId ∧ memberId < drawn
  stayed : ∀ teamId memberId status, Seats b.teams teamId memberId status → Seats teams teamId memberId status ∨
    kind = .removes ∧ Unused b teamId memberId

structure Restatused (teams teams' : Table Team.id) (teamId memberId : ℕ) (status : MemberStatus) : Prop where
  ids : ∀ id, (∃ team ∈ teams', team.id = id) ↔ ∃ team ∈ teams, team.id = id
  formed : (∀ team ∈ teams, team.Formed) → ∀ team ∈ teams', team.Formed
  self : ∀ status', Seats teams' teamId memberId status' ↔ status' = status ∧ HasMember teams teamId memberId
  others : ∀ teamId' memberId' status', teamId' ≠ teamId ∨ memberId' ≠ memberId →
    (Seats teams' teamId' memberId' status' ↔ Seats teams teamId' memberId' status')

def TaskTurn (kind : Kind) (tasks tasks' : Table TeamTask.id) (item item' : TeamDispatch) : Prop :=
  (tasks' = tasks ∧ ∀ task ∈ tasks, item.taskId = some task.id → Suits item'.status task.status) ∨
    ∃ task ∈ tasks, ∃ task', item.taskId = some task.id ∧ TaskStep kind task task' ∧ task'.dependsOnIds = task.dependsOnIds ∧
      Suits item'.status task'.status ∧ tasks' = tasks.set task'

inductive Move (base : ℕ) : Kind → Board → Board → Prop
  | draw (b : Board) : Move base .plain b { b with drawn := b.drawn + 1 }
  | staff {kind : Kind} {b : Board} {teams : Table Team.id} {drawn teamId memberId : ℕ} (hkind : kind = .plain ∨ kind = .removes)
      (h : Staffed kind b teams drawn teamId memberId) : Move base kind b { b with teams := teams, drawn := drawn }
  | deleteTeam {b : Board} (id : ℕ) (hclosing : b.closing = none) :
      Move base .plain b { b with
        teams := b.teams.delete fun team => team.id = id
        tasks := b.tasks.delete fun task => task.teamId = id
        runs := b.runs.delete fun run => run.teamId = id
        dispatches := b.dispatches.delete fun item => item.teamId = id }
  | openRun {b : Board} {run : TeamRun} (hid : run.id = b.drawn) (hopen : ¬ run.status.Finished)
      (hnone : ∀ run' ∈ b.runs, run'.teamId = run.teamId → run'.status.Finished) (hclosing : b.closing = none) :
      Move base .plain b { b with runs := b.runs.set run, drawn := b.drawn + 1 }
  | setRun {b : Board} {run run' : TeamRun} (hrun : run ∈ b.runs) (hid : run'.id = run.id) (hteam : run'.teamId = run.teamId)
      (hbefore : ¬ run.status.Finished) (hafter : ¬ run'.status.Finished) : Move base .plain b { b with runs := b.runs.set run' }
  | completeRun {b : Board} {run run' : TeamRun} (hrun : run ∈ b.runs) (hid : run'.id = run.id) (hteam : run'.teamId = run.teamId)
      (hbefore : ¬ run.status.Finished) (hitems : ∀ item ∈ b.dispatches, item.runId = run.id → ¬ item.status.Pending) :
      Move base .ends b { b with runs := b.runs.set run' }
  | cancelRun {b : Board} {run run' : TeamRun} (hrun : run ∈ b.runs) (hid : run'.id = run.id) (hteam : run'.teamId = run.teamId)
      (hbefore : ¬ run.status.Finished) (hafter : run'.status.Finished) (hclosing : b.closing = none) :
      Move base .ends b { b with runs := b.runs.set run', closing := some run.id }
  | closed {b : Board} (hitems : ∀ item ∈ b.dispatches, b.closing = some item.runId → ¬ item.status.Pending) :
      Move base .plain b { b with closing := none }
  | editDispatch {b : Board} {item item' : TeamDispatch} (hitem : item ∈ b.dispatches) (h : TurnStep .plain item item')
      (hstatus : item'.status = item.status) : Move base .plain b { b with dispatches := b.dispatches.set item' }
  | enqueue {b : Board} {item : TeamDispatch} (hid : item.id = b.drawn) (hqueued : item.status = .queued)
      (hsubmitted : item.submittedAt = none) (hrun : ∃ run ∈ b.runs, run.id = item.runId ∧ run.teamId = item.teamId ∧ ¬ run.status.Finished)
      (hmember : HasMember b.teams item.teamId item.memberId) (htask : item.taskId = none) :
      Move base .plain b { b with dispatches := b.dispatches.set item, drawn := b.drawn + 1 }
  | enqueueTask {b : Board} {item : TeamDispatch} {task : TeamTask} (hid : item.id = b.drawn) (hqueued : item.status = .queued)
      (hsubmitted : item.submittedAt = none) (hrun : ∃ run ∈ b.runs, run.id = item.runId ∧ run.teamId = item.teamId ∧ ¬ run.status.Finished)
      (hmember : HasMember b.teams item.teamId item.memberId) (htask : item.taskId = some task.id) (hteam : task.teamId = item.teamId)
      (hassigned : task.memberId = item.memberId) (hstatus : task.status = .queued) (hbase : base ≤ task.id)
      (hold : task.id < b.drawn) (hnew : ∀ task' ∈ b.tasks, task'.id ≠ task.id) (hapart : ∀ item' ∈ b.dispatches, item'.id ≠ task.id)
      (hinside : ∀ id ∈ task.dependsOnIds, ∃ task' ∈ b.tasks, task'.id = id ∧ task'.teamId = task.teamId) :
      Move base .plain b { b with tasks := b.tasks.set task, dispatches := b.dispatches.set item, drawn := b.drawn + 1 }
  | editTask {kind : Kind} {b : Board} {task task' : TeamTask} (htask : task ∈ b.tasks) (hkind : kind = .plain ∨ kind = .closes)
      (h : TaskStep kind task task')
      (hstatus : task'.status = task.status ∨ task.status = .running ∧ (task'.status = .succeeded ∨ task'.status = .failed))
      (hdepends : task'.dependsOnIds = task.dependsOnIds ∨ ∀ id ∈ task'.dependsOnIds,
        (∃ task'' ∈ b.tasks, task''.id = id ∧ task''.teamId = task.teamId) ∧ ¬ Relation.ReflTransGen (Depends b.tasks) id task.id) :
      Move base kind b { b with tasks := b.tasks.set task' }
  | turn {kind : Kind} {b : Board} {item item' : TeamDispatch} {status : MemberStatus} {tasks : Table TeamTask.id} {teams : Table Team.id}
      (hitem : item ∈ b.dispatches) (h : TurnStep kind item item') (hmoves : item'.status ≠ item.status)
      (hstatus : status = .running ↔ item'.status = .running) (hended : item'.status ≠ .running → item.status = .running)
      (hfree : item'.status = .running → b.closing = none ∧ ¬ Seats b.teams item.teamId item.memberId .running ∧
        (b.dispatches.count fun row => row.runId = item.runId ∧ row.status = .running) < 4)
      (htasks : TaskTurn kind b.tasks tasks item item') (hteams : Restatused b.teams teams item.teamId item.memberId status) :
      Move base kind b { b with tasks := tasks, teams := teams, dispatches := b.dispatches.set item' }
  | drop {b : Board} {item item' : TeamDispatch} {tasks : Table TeamTask.id} (hitem : item ∈ b.dispatches)
      (h : TurnStep .closes item item') (hqueued : item.status = .queued) (hdropped : ¬ item'.status.Pending)
      (htasks : TaskTurn .closes b.tasks tasks item item') :
      Move base .closes b { b with tasks := tasks, dispatches := b.dispatches.set item' }
  | idle {b : Board} {item : TeamDispatch} {teams : Table Team.id} (hitem : item ∈ b.dispatches) (hclosing : b.closing = some item.runId)
      (hteams : Restatused b.teams teams item.teamId item.memberId .idle) : Move base .plain b { b with teams := teams }

variable {base : ℕ} {kind : Kind} {b c : Board}

theorem TaskStep.refl (task : TeamTask) : TaskStep kind task task := ⟨rfl, rfl, rfl, .inl ⟨rfl, rfl⟩⟩

theorem Move.drawn (h : Move base kind b c) : b.drawn ≤ c.drawn := by
  cases h with
  | staff _ h => exact h.later
  | draw | openRun | enqueue | enqueueTask => exact Nat.le_succ _
  | _ => exact Nat.le_refl _

theorem TaskTurn.origin {tasks tasks' : Table TeamTask.id} {item item' : TeamDispatch} (h : TaskTurn kind tasks tasks' item item')
    {task' : TeamTask} (hmem : task' ∈ tasks') : ∃ task ∈ tasks, TaskStep kind task task' := by
  rcases h with ⟨rfl, -⟩ | ⟨task, htask, _, -, hstep, -, -, rfl⟩
  · exact ⟨task', hmem, .refl task'⟩
  · rcases mem_set.mp hmem with rfl | ⟨hold, -⟩
    · exact ⟨task, htask, hstep⟩
    · exact ⟨task', hold, .refl task'⟩

theorem Move.task (h : Move base kind b c) {task' : TeamTask} (hmem : task' ∈ c.tasks) :
    (∃ task ∈ b.tasks, TaskStep kind task task') ∨ base ≤ task'.id ∧ task'.status = .queued := by
  have hkept (h : task' ∈ b.tasks) : (∃ task ∈ b.tasks, TaskStep kind task task') ∨ base ≤ task'.id ∧ task'.status = .queued :=
    .inl ⟨task', h, .refl task'⟩
  cases h with
  | deleteTeam => exact hkept (mem_delete.mp hmem).1
  | enqueueTask _ _ _ _ _ _ _ _ hstatus hbase =>
    rcases mem_set.mp hmem with rfl | ⟨hold, -⟩
    · exact .inr ⟨hbase, hstatus⟩
    · exact hkept hold
  | @editTask _ _ task _ htask _ hstep =>
    rcases mem_set.mp hmem with rfl | ⟨hold, -⟩
    · exact .inl ⟨task, htask, hstep⟩
    · exact hkept hold
  | turn _ _ _ _ _ _ htasks | drop _ _ _ _ htasks => exact .inl (htasks.origin hmem)
  | _ => exact hkept hmem

theorem Move.run (h : Move base kind b c) {run' : TeamRun} (hmem : run' ∈ c.runs) :
    (∃ run ∈ b.runs, run.id = run'.id ∧ run.teamId = run'.teamId ∧
      (run' = run ∨ ¬ run.status.Finished ∧ (run'.status.Finished → kind = .ends))) ∨
      run'.id = b.drawn ∧ ¬ run'.status.Finished := by
  have hkept (h : run' ∈ b.runs) : (∃ run ∈ b.runs, run.id = run'.id ∧ run.teamId = run'.teamId ∧
      (run' = run ∨ ¬ run.status.Finished ∧ (run'.status.Finished → kind = .ends))) ∨
      run'.id = b.drawn ∧ ¬ run'.status.Finished := .inl ⟨run', h, rfl, rfl, .inl rfl⟩
  cases h with
  | deleteTeam => exact hkept (mem_delete.mp hmem).1
  | openRun hid hopen =>
    rcases mem_set.mp hmem with rfl | ⟨hold, -⟩
    · exact .inr ⟨hid, hopen⟩
    · exact hkept hold
  | @setRun _ run _ hrun hid hteam hbefore hafter =>
    rcases mem_set.mp hmem with rfl | ⟨hold, -⟩
    · exact .inl ⟨run, hrun, hid.symm, hteam.symm, .inr ⟨hbefore, fun h => absurd h hafter⟩⟩
    · exact hkept hold
  | @completeRun _ run _ hrun hid hteam hbefore | @cancelRun _ run _ hrun hid hteam hbefore =>
    rcases mem_set.mp hmem with rfl | ⟨hold, -⟩
    · exact .inl ⟨run, hrun, hid.symm, hteam.symm, .inr ⟨hbefore, fun _ => rfl⟩⟩
    · exact hkept hold
  | _ => exact hkept hmem

theorem Move.item (h : Move base kind b c) {item' : TeamDispatch} (hmem : item' ∈ c.dispatches) (hs : Sound b) :
    (∃ item ∈ b.dispatches, TurnStep kind item item') ∨ item'.id = b.drawn ∧ item'.status = .queued := by
  have hkept (h : item' ∈ b.dispatches) : (∃ item ∈ b.dispatches, TurnStep kind item item') ∨
      item'.id = b.drawn ∧ item'.status = .queued :=
    .inl ⟨item', h, rfl, rfl, rfl, rfl, rfl, hs.unsubmitted item' h, .inl ⟨rfl, fun h => h⟩⟩
  cases h with
  | deleteTeam => exact hkept (mem_delete.mp hmem).1
  | @editDispatch _ item _ hitem hstep | @turn _ _ item _ _ _ _ hitem hstep | @drop _ item _ _ hitem hstep =>
    rcases mem_set.mp hmem with rfl | ⟨hold, -⟩
    · exact .inl ⟨item, hitem, hstep⟩
    · exact hkept hold
  | enqueue hid hqueued | enqueueTask hid hqueued =>
    rcases mem_set.mp hmem with rfl | ⟨hold, -⟩
    · exact .inr ⟨hid, hqueued⟩
    · exact hkept hold
  | _ => exact hkept hmem

end Moves

end WorkAgent.Teams
