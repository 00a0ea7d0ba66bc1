import WorkAgent.Teams.Endings

namespace WorkAgent.Teams

open Library Act Table

set_option synthInstance.maxSize 4000

variable {host : Host} {s t : TeamStore} {base : ℕ} {outcome : Outcome}

section Finish

def Outcome.taskStatus (outcome : Outcome) : TaskStatus := if outcome.isFailed then .failed else .succeeded

def Outcome.dispatchStatus (outcome : Outcome) : DispatchStatus := if outcome.isFailed then .failed else .succeeded

def Outcome.memberStatus (outcome : Outcome) : MemberStatus := if outcome.isFailed then .error else .idle

theorem Outcome.taskStatus_terminal (outcome : Outcome) : outcome.taskStatus.Terminal := by
  unfold Outcome.taskStatus
  split <;> simp [TaskStatus.Terminal]

theorem Outcome.dispatchStatus_ended (outcome : Outcome) : ¬ outcome.dispatchStatus.Pending ∧ outcome.dispatchStatus ≠ .interrupted := by
  unfold Outcome.dispatchStatus
  split <;> simp [DispatchStatus.Pending]

theorem Outcome.memberStatus_rests (outcome : Outcome) : outcome.memberStatus ≠ .running := by
  unfold Outcome.memberStatus
  split <;> simp

def TeamTask.finished (task : TeamTask) (outcome : Outcome) : TeamTask :=
  { task with status := outcome.taskStatus, sessionId := outcome.sessionId, result := outcome.result, error := outcome.error }

def TeamDispatch.finished (item : TeamDispatch) (outcome : Outcome) : TeamDispatch :=
  { item with status := outcome.dispatchStatus, result := outcome.result, error := outcome.error }

theorem finishTask_ok {task : TeamTask} (htask : task ∈ s.tasks) (hrunning : task.status = .running) {r : Unit}
    (h : finishTask host task.id outcome s = (.ok r, t)) :
    outcome.sessionId ≠ some "" ∧ t.board = { s.board with tasks := s.tasks.set (task.finished outcome), teams := t.teams } ∧
      Restatused s.teams t.teams task.teamId task.memberId outcome.memberStatus := by
  unfold finishTask at h
  rw [bind_of_ok (requiredTask_of htask), whenever_pos (by simp [hrunning])] at h
  obtain ⟨-, h⟩ := refuse_bind h
  obtain ⟨hsession, h⟩ := refuse_bind h
  rw [setTask_bind] at h
  obtain ⟨_, u, hidle, h⟩ := bind_ok.mp h
  obtain ⟨hu, hteams⟩ := idleMember_ok hidle
  have hboard := Calm.board_eq h
  have ht : t.teams = u.teams := congrArg Board.teams hboard
  refine ⟨hsession, ?_, ht ▸ hteams⟩
  rw [hboard, ht, hu]
  rfl

theorem openTask_ok {taskId openId : Option ℕ} (h : openTask taskId s = (.ok openId, t)) :
    s = t ∧ ((openId = none ∧ ∀ id, taskId = some id → ∃ task ∈ s.tasks, task.id = id ∧ task.status ≠ .running) ∨
      ∃ task ∈ s.tasks, taskId = some task.id ∧ openId = some task.id ∧ task.status = .running) := by
  obtain rfl := (Act.Reads.state h).symm
  refine ⟨rfl, ?_⟩
  cases taskId with
  | none =>
    obtain ⟨rfl, -⟩ := pure_ok.mp h
    exact .inl ⟨rfl, by simp⟩
  | some id =>
    obtain ⟨task, _, hfound, h⟩ := bind_ok.mp h
    obtain ⟨rfl, htask, rfl⟩ := requiredTask_ok hfound
    obtain ⟨rfl, -⟩ := pure_ok.mp h
    by_cases hrunning : task.status = .running
    · exact .inr ⟨task, htask, rfl, by simp [hrunning], hrunning⟩
    · refine .inl ⟨by simp [hrunning], ?_⟩
      intro _ hid
      cases hid
      exact ⟨task, htask, rfl, hrunning⟩

structure Settled (s t : TeamStore) : Prop where
  teams : t.teams = s.teams
  tasks : t.tasks = s.tasks
  items : ∀ item ∈ s.dispatches, item.status ≠ .queued → ∃ fanout, { item with fanoutMemberIds := fanout } ∈ t.dispatches

theorem Settled.refl : Settled s s := ⟨rfl, rfl, fun item h _ => ⟨item.fanoutMemberIds, h⟩⟩

def Finishing (kind : Kind) : Prop := kind = .plain ∨ kind = .closes ∨ kind = .ends

theorem reportTurn_ok (hs : Sound s.board) {item : TeamDispatch} {run : TeamRun} (hrun : run ∈ s.runs) (hopen : ¬ run.status.Finished) {r : Unit}
    (h : reportTurn host item run outcome s = (.ok r, t)) : Moves base Finishing s.board t.board ∧ Settled s t := by
  obtain ⟨_, _, hfound, h⟩ := bind_ok.mp h
  obtain ⟨rfl, _, _⟩ := requiredTeam_ok hfound
  obtain ⟨_, _, hlead, h⟩ := bind_ok.mp h
  obtain ⟨rfl, hlead, -⟩ := theLead_ok hlead
  split at h
  · obtain ⟨_, u, hsend, h⟩ := bind_ok.mp h
    obtain ⟨-, rfl⟩ := pure_ok.mp h
    obtain ⟨hmoves, hteams, htasks, hitems⟩ := sendMessage_moves hs hsend
    exact ⟨hmoves.mono fun _ => .inl, hteams, htasks, hitems⟩
  · rw [read_bind] at h
    rcases whenever_of h with ⟨hnone, h⟩ | ⟨-, -, rfl⟩
    · obtain rfl := modify_ok.mp h
      refine ⟨?_, rfl, rfl, fun item h _ => ⟨item.fanoutMemberIds, h⟩⟩
      by_cases hfailed : outcome.isFailed
      · refine .one (.inl rfl) (.setRun hrun rfl rfl hopen ?_)
        simp [hfailed, RunStatus.Finished]
      · refine .one (.inr (.inr rfl)) (.completeRun hrun rfl rfl hopen ?_)
        exact fun row hrow hkey hpending => hnone ⟨row, hrow, hkey, hpending⟩
    · exact ⟨.none, .refl⟩

structure Recorded (host : Host) (outcome : Outcome) (item : TeamDispatch) (s t : TeamStore) : Prop where
  ended : ∃ fanout, { item.finished outcome with fanoutMemberIds := fanout } ∈ t.dispatches
  rests : ¬ Seats t.teams item.teamId item.memberId .running
  closed : ∀ id, item.taskId = some id → ∀ task ∈ t.tasks, task.id = id →
    (∃ before ∈ s.tasks, before.id = id ∧ before.status = .running ∧ task = before.finished outcome) ∨
      task ∈ s.tasks ∧ task.status.Terminal
  session : ∀ id, item.taskId = some id → (∃ task ∈ s.tasks, task.id = id ∧ task.status = .running) → outcome.sessionId ≠ some ""

variable (base) in
theorem turnEnds (hs : Sound s.board) {item : TeamDispatch} (hitem : item ∈ s.dispatches) (hrunning : item.status = .running) {openId : Option ℕ} {r : Unit}
    (hopen : openTask item.taskId { s with dispatches := s.dispatches.set (item.finished outcome) } =
      (.ok openId, { s with dispatches := s.dispatches.set (item.finished outcome) }))
    (h : openId.elim (idleMember item.teamId item.memberId outcome.isFailed) (fun taskId => finishTask host taskId outcome)
      { s with dispatches := s.dispatches.set (item.finished outcome) } = (.ok r, t)) :
    Moves base Finishing s.board t.board ∧ t.runs = s.runs ∧ Recorded host outcome item s t := by
  obtain ⟨hended, hnot⟩ := outcome.dispatchStatus_ended
  have hstep : TurnStep .closes item (item.finished outcome) := by
    refine ⟨rfl, rfl, rfl, rfl, rfl, ?_, .inr (.inl ⟨rfl, .inr hrunning, hended, hnot⟩)⟩
    exact fun hqueued => absurd (.inl hqueued) hended
  have hmoves : (item.finished outcome).status ≠ item.status := by
    rw [hrunning]
    exact fun hsame => hended (.inr hsame)
  have hrests : outcome.memberStatus = .running ↔ (item.finished outcome).status = .running :=
    ⟨fun h => absurd h outcome.memberStatus_rests, fun h => absurd (.inr h) hended⟩
  have hfree : (item.finished outcome).status = .running → s.board.closing = none ∧ ¬ Seats s.board.teams item.teamId item.memberId .running ∧
      (s.board.dispatches.count fun row => row.runId = item.runId ∧ row.status = .running) < 4 := fun h => absurd (.inr h) hended
  have hkept : item.finished outcome ∈ s.dispatches.set (item.finished outcome) := mem_set.mpr (.inl rfl)
  obtain ⟨-, ⟨rfl, hnone⟩ | ⟨task, htask, hkey, rfl, htaskRunning⟩⟩ := openTask_ok hopen
  · obtain ⟨ht, hteams⟩ := idleMember_ok h
    have hclosed (task : TeamTask) (htask : task ∈ s.tasks) (hkey : item.taskId = some task.id) : task.status.Terminal := by
      obtain ⟨other, hother, hid, hnotRunning⟩ := hnone task.id hkey
      obtain rfl := eq_of_key hother htask hid
      obtain ⟨task', htask', hid', -, -, hsuits⟩ := hs.forTask item hitem _ hkey
      obtain rfl := eq_of_key htask' hother hid'
      rw [hrunning] at hsuits
      rcases hsuits with h | h | h
      · exact absurd h hnotRunning
      · exact .inl h
      · exact .inr (.inl h)
    have hturn : TaskTurn .closes s.tasks s.tasks item (item.finished outcome) :=
      .inl ⟨rfl, fun task htask hkey => (suits_terminal hended _).mpr (hclosed task htask hkey)⟩
    rw [ht]
    refine ⟨.one (.inr (.inl rfl)) (.turn hitem hstep hmoves hrests (fun _ => hrunning) hfree hturn hteams), rfl, ⟨_, hkept⟩, ?_, ?_, ?_⟩
    · intro hseat
      exact outcome.memberStatus_rests ((hteams.self _).mp hseat).1.symm
    · exact fun id hkey task htask hid => .inr ⟨htask, hclosed task htask (hkey.trans (congrArg some hid.symm))⟩
    · rintro id hkey ⟨_, htask, hid, hopen⟩
      obtain ⟨_, hother, hid', hnotRunning⟩ := hnone id hkey
      obtain rfl := eq_of_key hother htask (hid'.trans hid.symm)
      exact absurd hopen hnotRunning
  · obtain ⟨hsession, hboard, hteams⟩ := finishTask_ok (s := { s with dispatches := s.dispatches.set (item.finished outcome) }) htask htaskRunning h
    obtain ⟨task', htask', hid', hteam, hmember, -⟩ := hs.forTask item hitem _ hkey
    obtain rfl := eq_of_key htask' htask hid'
    rw [hteam, hmember] at hteams
    have hturn : TaskTurn .closes s.tasks (s.tasks.set (task'.finished outcome)) item (item.finished outcome) :=
      .closing (b := s.board) hended htask hkey ⟨rfl, rfl, rfl, rfl⟩ (by simp [htaskRunning, TaskStatus.Terminal]) outcome.taskStatus_terminal
    have htasks : t.tasks = s.tasks.set (task'.finished outcome) := congrArg Board.tasks hboard
    have hdispatches : t.dispatches = s.dispatches.set (item.finished outcome) := congrArg Board.dispatches hboard
    refine ⟨?_, congrArg Board.runs hboard, ⟨_, hdispatches ▸ hkept⟩, ?_, ?_, ?_⟩
    · rw [hboard]
      exact .one (.inr (.inl rfl)) (.turn hitem hstep hmoves hrests (fun _ => hrunning) hfree hturn hteams)
    · intro hseat
      exact outcome.memberStatus_rests ((hteams.self _).mp hseat).1.symm
    · intro _ hkey' _ hrow hid
      rw [htasks] at hrow
      obtain rfl := Option.some.inj (hkey.symm.trans hkey')
      rcases mem_set.mp hrow with rfl | ⟨-, hne⟩
      · exact .inl ⟨task', htask, rfl, htaskRunning, rfl⟩
      · exact absurd hid hne
    · exact fun _ _ _ => hsession

theorem Recorded.settled {item : TeamDispatch} {u : TeamStore} (h : Recorded host outcome item s t) (h' : Settled t u) :
    Recorded host outcome item s u := by
  refine ⟨?_, h'.teams ▸ h.rests, h'.tasks ▸ h.closed, h.session⟩
  obtain ⟨fanout, hmem⟩ := h.ended
  have hsettled : (item.finished outcome).status ≠ .queued := fun hqueued => outcome.dispatchStatus_ended.1 (.inl hqueued)
  exact h'.items { item.finished outcome with fanoutMemberIds := fanout } hmem hsettled

theorem Settled.calm {u : TeamStore} (h : Settled s t) (hboard : u.board = t.board) : Settled s u := by
  have hdispatches : u.dispatches = t.dispatches := congrArg Board.dispatches hboard
  refine ⟨(congrArg Board.teams hboard).trans h.teams, (congrArg Board.tasks hboard).trans h.tasks, ?_⟩
  rw [hdispatches]
  exact h.items

theorem finishDispatch_ok (hs : Sound s.board) {id : ℕ} {r : Unit} (h : finishDispatch host id outcome s = (.ok r, t)) :
    Moves base Finishing s.board t.board ∧
      ∀ item ∈ s.dispatches, item.id = id → item.status = .running → Recorded host outcome item s t := by
  obtain ⟨u, v, hboard, -, hbody, hdocument, hdrawn, -⟩ := transaction_body h
  have htv := board_eq hdocument hdrawn
  rw [htv, ← hboard]
  rw [← hboard] at hs
  obtain ⟨item, _, hfound, hbody⟩ := bind_ok.mp hbody
  obtain ⟨rfl, hitem, hid⟩ := theDispatch_ok hfound
  have hdispatches : u.dispatches = s.dispatches := congrArg Board.dispatches hboard
  have hsame (row : TeamDispatch) (hrow : row ∈ s.dispatches) (hkey : row.id = id) : row = item :=
    eq_of_key (hdispatches ▸ hrow) hitem (hkey.trans hid.symm)
  rcases whenever_of hbody with ⟨hrunning, hbody⟩ | ⟨hnot, -, rfl⟩
  swap
  · exact ⟨.none, fun row hrow hkey hrunning => absurd (hsame row hrow hkey ▸ hrunning) hnot⟩
  rw [setDispatch_bind] at hbody
  obtain ⟨_, w, hopenId, hbody⟩ := bind_ok.mp hbody
  obtain rfl := (Act.Reads.state hopenId).symm
  obtain ⟨_, x, hturn, hbody⟩ := bind_ok.mp hbody
  obtain ⟨hmoves, _, hrecorded⟩ := turnEnds base hs hitem hrunning hopenId hturn
  obtain ⟨_, _, hrun, hbody⟩ := bind_ok.mp hbody
  obtain ⟨rfl, hrun, -⟩ := theRun_ok hrun
  obtain ⟨_, y, hreport, hbody⟩ := bind_ok.mp hbody
  have hvy := Calm.board_eq hbody
  have hreported : Moves base Finishing x.board y.board ∧ Settled x y := by
    rcases whenever_of hreport with ⟨hopen, hreport⟩ | ⟨-, -, rfl⟩
    · exact reportTurn_ok (hmoves.sound hs) hrun (fun hfinished => hopen (.inl hfinished)) hreport
    · exact ⟨.none, .refl⟩
  rw [hvy]
  refine ⟨hmoves.trans hreported.1, ?_⟩
  intro row hrow hkey _
  obtain rfl := hsame row hrow hkey
  have hkept := hrecorded.settled ((hreported.2.calm hvy).calm htv)
  have htasks : u.tasks = s.tasks := congrArg Board.tasks hboard
  exact ⟨hkept.ended, hkept.rests, htasks ▸ hkept.closed, htasks ▸ hkept.session⟩

end Finish

end WorkAgent.Teams
