import WorkAgent.Teams.Lifecycle

namespace WorkAgent.Teams

open Library Act Act.Reads Table
open TaskStatus (Terminal)

set_option synthInstance.maxSize 4000

variable {s t : TeamStore} {base : ℕ} {α β : Type}

section Pieces

theorem suits_queued {status : DispatchStatus} (h : Suits status .queued) : status = .queued := by
  cases status <;> simp_all [Suits, Terminal]

theorem suits_running {status : DispatchStatus} (h : Suits status .running) : status = .running := by
  cases status <;> simp_all [Suits, Terminal]

theorem suits_terminal {status : DispatchStatus} (h : ¬ status.Pending) (task : TaskStatus) : Suits status task ↔ task.Terminal := by
  cases status <;> simp_all [Suits, DispatchStatus.Pending]

theorem theRun_of {run : TeamRun} {id : ℕ} (h : run ∈ s.runs) (hid : run.id = id) : theRun id s = (.ok run, s) := by
  subst hid
  change (required (s.runs.find? run.id) "TypeError" : StoreAct TeamRun) s = _
  rw [find?_of_mem h]
  rfl

theorem theDispatch_of {item : TeamDispatch} (h : item ∈ s.dispatches) : theDispatch item.id s = (.ok item, s) := by
  change (required (s.dispatches.find? item.id) "TypeError" : StoreAct TeamDispatch) s = _
  rw [find?_of_mem h]
  rfl

theorem requiredTask_of {task : TeamTask} (h : task ∈ s.tasks) : requiredTask task.id s = (.ok task, s) := by
  change (required (s.tasks.find? task.id) "team_task_not_found" : StoreAct TeamTask) s = _
  rw [find?_of_mem h]
  rfl

theorem requiredTeam_of {team : Team} (h : team ∈ s.teams) : requiredTeam team.id s = (.ok team, s) := by
  change (required (s.teams.find? team.id) "team_not_found" : StoreAct Team) s = _
  rw [find?_of_mem h]
  rfl

theorem forEach_of_none {f : α → StoreAct Unit} {o : Option α} (h : o = none) : forEach f o.toList s = (.ok (), s) := by
  subst h
  rfl

theorem forEach_of_some {f : α → StoreAct Unit} {o : Option α} {a : α} {r : Except String Unit} (ho : o = some a) (h : f a s = (r, t)) :
    forEach f o.toList s = (r, t) := by
  subst ho
  change (f a >>= fun _ => forEach f []) s = _
  cases r with
  | ok => exact (bind_of_ok h).trans rfl
  | error => exact bind_of_error h

theorem idles {teamId memberId : ℕ} (h : HasMember s.teams teamId memberId) (failed : Bool) :
    ∃ teams, Restatused s.teams teams teamId memberId (if failed then .error else .idle) ∧
      idleMember teamId memberId failed s = (.ok (), { s with teams := teams }) := by
  obtain ⟨_, team, hteam, rfl, -⟩ := h
  have hfound := requiredTeam_of hteam
  have hrun := bind_of_ok (f := fun team : Team => setTeam { team with
    members := team.members.map fun member =>
      if member.id = memberId then { member with status := if failed then .error else .idle } else member }) hfound
  obtain ⟨-, hteams⟩ := idleMember_ok hrun
  exact ⟨_, hteams, hrun⟩

theorem whenever_pos {condition : Prop} [Decidable condition] {body : StoreAct Unit} (h : condition) : whenever condition body = body := if_pos h

theorem whenever_neg {condition : Prop} [Decidable condition] {body : StoreAct Unit} (h : ¬ condition) : whenever condition body = pure () := if_neg h

theorem cancelDispatches_bind {g : Unit → StoreAct β} {taskId : ℕ} : (cancelDispatches taskId >>= g) s = g () { s with
    dispatches := s.dispatches.update (fun item => item.taskId = some taskId ∧ item.status.Pending) fun item =>
      { item with status := .cancelled } } := rfl

theorem pure_bind' {a : α} {f : α → StoreAct β} : (pure a >>= f : StoreAct β) s = f a s := rfl

theorem TaskTurn.closing {b : Board} {item item' : TeamDispatch} (hended : ¬ item'.status.Pending)
    {task task' : TeamTask} (htask : task ∈ b.tasks) (hkey : item.taskId = some task.id) (hsame : task'.id = task.id ∧ task'.teamId = task.teamId ∧
      task'.memberId = task.memberId ∧ task'.dependsOnIds = task.dependsOnIds) (hopen : ¬ task.status.Terminal) (hclosed : task'.status.Terminal) :
    TaskTurn .closes b.tasks (b.tasks.set task') item item' := by
  obtain ⟨hid, hteam, hmember, hdepends⟩ := hsame
  exact .inr ⟨task, htask, task', hkey, ⟨hid, hteam, hmember, .inr (.inl ⟨rfl, hopen, hclosed⟩)⟩, hdepends, (suits_terminal hended _).mpr hclosed, rfl⟩

end Pieces

section Tasks

theorem cancelTask_moves (hs : Sound s.board) {teamId id : ℕ} {r : Except String Unit} (h : cancelTask teamId id s = (r, t)) :
    Moves base (· = .closes) s.board t.board := by
  unfold cancelTask at h
  refine Act.Reads.bind_moves h fun task hfound h => ?_
  refine Act.Reads.bind_moves h fun _ hteam h => ?_
  refine Act.Reads.bind_moves h fun _ hpending h => ?_
  obtain ⟨-, htask, rfl⟩ := requiredTask_ok hfound
  obtain ⟨-, hteam⟩ := refuse_ok hteam
  obtain ⟨-, hpending⟩ := refuse_ok hpending
  rw [not_not] at hteam hpending
  subst hteam
  rw [setTask_bind, cancelDispatches_bind] at h
  obtain ⟨item, hitem, hkey, hitemTeam, hitemMember, hsuits, hone⟩ := hs.dispatchOf htask
  have hopen : ¬ task.status.Terminal := by
    rcases hpending with hqueued | hrunning
    · simp [hqueued, Terminal]
    · simp [hrunning, Terminal]
  have hitemPending : item.status.Pending := by
    rcases hpending with hqueued | hrunning
    · rw [hqueued] at hsuits
      exact .inl (suits_queued hsuits)
    · rw [hrunning] at hsuits
      exact .inr (suits_running hsuits)
  have hupdate : (s.dispatches.update (fun row => row.taskId = some task.id ∧ row.status.Pending) fun row => { row with status := .cancelled }) =
      s.dispatches.set { item with status := .cancelled } :=
    update_eq_set hitem ⟨hkey, hitemPending⟩ fun row hrow hp => hone row hrow hp.1
  have hended : ¬ DispatchStatus.cancelled.Pending := by simp [DispatchStatus.Pending]
  have hstep : TurnStep .closes item { item with status := .cancelled } :=
    ⟨rfl, rfl, rfl, rfl, rfl, by simp, .inr (.inl ⟨rfl, hitemPending, hended, by simp⟩)⟩
  have hturn : TaskTurn .closes s.board.tasks (s.board.tasks.set { task with status := .cancelled }) item { item with status := .cancelled } :=
    TaskTurn.closing hended htask hkey ⟨rfl, rfl, rfl, rfl⟩ hopen (.inr (.inr rfl))
  by_cases hrunning : task.status = .running
  · rw [whenever_pos hrunning] at h
    have hitemRunning : item.status = .running := by
      rw [hrunning] at hsuits
      exact suits_running hsuits
    obtain ⟨teams, hteams, hidle⟩ := idles (s := { s with
      tasks := s.tasks.set { task with status := .cancelled }
      dispatches := s.dispatches.update (fun row => row.taskId = some task.id ∧ row.status.Pending) fun row =>
        { row with status := .cancelled } }) (hs.byMember item hitem hitemPending) false
    rw [hitemTeam, hitemMember] at hidle
    rw [bind_of_ok hidle] at h
    rw [Calm.board_eq h]
    refine .one rfl ?_
    change Move base .closes s.board { s.board with tasks := _, teams := _, dispatches := s.dispatches.update _ _ }
    rw [hupdate]
    exact .turn hitem hstep (by simp [hitemRunning]) (by simp) (fun _ => hitemRunning) (by simp) hturn hteams
  · rw [whenever_neg hrunning, pure_bind'] at h
    have hqueued : task.status = .queued := hpending.resolve_right hrunning
    rw [Calm.board_eq h]
    refine .one rfl ?_
    change Move base .closes s.board { s.board with tasks := _, dispatches := s.dispatches.update _ _ }
    rw [hupdate]
    rw [hqueued] at hsuits
    exact .drop hitem hstep (suits_queued hsuits) hended hturn

end Tasks

section Turns

theorem submittedDispatch_moves {id : ℕ} {turnId : String} {now : ℤ} {r : Except String Unit}
    (hcall : submittedDispatch id turnId now s = (r, t)) : Moves base (· = .plain) s.board t.board := by
  unfold submittedDispatch at hcall
  rcases bind_eq hcall with ⟨_, -, rfl⟩ | ⟨_, hfound, h⟩
  · exact .none
  obtain ⟨-, hitem, rfl⟩ := theDispatch_ok hfound
  rcases whenever_of h with ⟨hrunning, h⟩ | ⟨-, -, rfl⟩
  · rw [setDispatch_bind] at h
    rw [Calm.board_eq h]
    refine .one rfl (.editDispatch hitem ⟨rfl, rfl, rfl, rfl, rfl, ?_, .inl ⟨rfl, fun _ => by simp⟩⟩ rfl)
    intro hqueued
    cases hrunning.symm.trans hqueued
  · exact .none

theorem deferDispatch_moves (hs : Sound s.board) {id : ℕ} {now : ℤ} {r : Except String Unit} (hcall : deferDispatch id now s = (r, t)) :
    Moves base (fun kind => kind = .plain ∨ kind = .defers) s.board t.board ∧ ∀ task' ∈ t.tasks, task' ∈ s.tasks ∨ task'.status = .queued ∧
      ∃ item ∈ s.dispatches, item.id = id ∧ item.status = .running ∧ item.submittedAt = none ∧ item.taskId = some task'.id := by
  unfold deferDispatch at hcall
  rcases bind_eq hcall with ⟨_, -, rfl⟩ | ⟨item, hfound, h⟩
  · exact ⟨.none, fun _ h => .inl h⟩
  obtain ⟨-, hitem, rfl⟩ := theDispatch_ok hfound
  rcases whenever_of h with ⟨⟨hrunning, hsubmitted⟩, h⟩ | ⟨-, -, rfl⟩
  swap
  · exact ⟨.none, fun _ h => .inl h⟩
  rw [setDispatch_bind] at h
  obtain ⟨run, hrun, hrunId, -, hrunOpen⟩ := hs.inRun item hitem
  have hopen : ¬ run.status.Finished := (hrunOpen (.inr hrunning)).resolve_right (by simp [TeamStore.board, Document.board])
  have hfoundRun := theRun_of (s := { s with
    dispatches := s.dispatches.set { item with status := .queued, notBefore := some (now + 1000) } }) hrun hrunId
  rw [bind_of_ok hfoundRun, setRun_bind] at h
  have hcounted : Moves base (fun kind => kind = .plain ∨ kind = .defers) s.board { s.board with
      runs := s.runs.set { run with dispatchCount := run.dispatchCount - 1 } } :=
    .one (.inl rfl) (.setRun hrun rfl rfl hopen hopen)
  have hmember : HasMember s.teams item.teamId item.memberId := hs.byMember item hitem (.inr hrunning)
  have hstep : TurnStep .defers item { item with status := .queued, notBefore := some (now + 1000) } :=
    ⟨rfl, rfl, rfl, rfl, rfl, fun _ => hsubmitted, .inr (.inr (.inr ⟨rfl, hrunning, hsubmitted, rfl⟩))⟩
  have hturned (tasks : Table TeamTask.id) (htasks : TaskTurn .defers s.tasks tasks item
      { item with status := .queued, notBefore := some (now + 1000) })
      (hrows : ∀ task' ∈ tasks, task' ∈ s.tasks ∨ task'.status = .queued ∧ item.taskId = some task'.id) {g : Unit → StoreAct Unit} [∀ r, Calm (g r)]
      (h : (idleMember item.teamId item.memberId false >>= g) { s with
        tasks := tasks
        runs := s.runs.set { run with dispatchCount := run.dispatchCount - 1 }
        dispatches := s.dispatches.set { item with status := .queued, notBefore := some (now + 1000) } } = (r, t)) :
      Moves base (fun kind => kind = .plain ∨ kind = .defers) s.board t.board ∧ ∀ task' ∈ t.tasks, task' ∈ s.tasks ∨ task'.status = .queued ∧
        ∃ row ∈ s.dispatches, row.id = item.id ∧ row.status = .running ∧ row.submittedAt = none ∧ row.taskId = some task'.id := by
    obtain ⟨_, hteams, hidle⟩ := idles (s := { s with
      tasks := tasks
      runs := s.runs.set { run with dispatchCount := run.dispatchCount - 1 }
      dispatches := s.dispatches.set { item with status := .queued, notBefore := some (now + 1000) } }) hmember false
    rw [bind_of_ok hidle] at h
    have hboard := Calm.board_eq h
    have htasksT : t.tasks = tasks := congrArg Board.tasks hboard
    rw [hboard, htasksT]
    refine ⟨?_, fun task' hmem => (hrows task' hmem).imp_right fun hqueued => ⟨hqueued.1, item, hitem, rfl, hrunning, hsubmitted, hqueued.2⟩⟩
    exact hcounted.next (.inr rfl) (.turn hitem hstep (by simp [hrunning]) (by simp) (fun _ => hrunning) (by simp) htasks hteams)
  cases hkey : item.taskId with
  | none =>
    rw [bind_of_ok (forEach_of_none hkey)] at h
    exact hturned s.tasks (.inl ⟨rfl, by simp [hkey]⟩) (fun _ h => .inl h) h
  | some taskId =>
    obtain ⟨task, htask, rfl, -⟩ := hs.forTask item hitem taskId hkey
    rw [bind_of_ok (forEach_of_some hkey ((bind_of_ok (@requiredTask_of _ task (by exact htask))).trans rfl))] at h
    refine hturned _ (.inr ⟨task, htask, { task with status := .queued }, hkey, ⟨rfl, rfl, rfl, .inr (.inr (.inr ⟨rfl, rfl⟩))⟩, rfl, rfl, rfl⟩) ?_ h
    intro _ hmem
    rcases mem_set.mp hmem with rfl | ⟨hold, -⟩
    · exact .inr ⟨rfl, hkey⟩
    · exact .inl hold

end Turns

end WorkAgent.Teams
