import WorkAgent.Teams.TeamCalls

namespace WorkAgent.Teams

open Library List Table

set_option synthInstance.maxSize 4000

variable {s t : TeamStore} {d : Document} {n : ℕ}

def TeamMember.rested (member : TeamMember) : TeamMember := if member.status = .running then { member with status := .idle } else member

theorem TeamMember.rested_same (member : TeamMember) :
    member.rested.id = member.id ∧ member.rested.role = member.role ∧ member.rested.status ≠ .running := by
  unfold TeamMember.rested
  split
  · simp
  · exact ⟨rfl, rfl, ‹_›⟩

def Document.recovered (d : Document) : Document :=
  { d.interrupted with teams := d.teams.update (fun _ => True) fun team => { team with members := team.members.map TeamMember.rested } }

section Rows

theorem recovered_runs : d.recovered.runs =
    d.runs.update (fun run => ∃ item ∈ d.dispatches.rows, item.status = .running ∧ item.runId = run.id) fun run =>
      { run with status := .interrupted, reason := some "runtime_restarted" } := rfl

theorem recovered_tasks : d.recovered.tasks = d.tasks.update (fun task => task.status = .running) fun task =>
    { task with status := .failed, error := some "runtime_restarted" } := rfl

theorem recovered_teams : d.recovered.teams = d.teams.update (fun _ => True) fun team =>
    { team with members := team.members.map TeamMember.rested } := rfl

theorem recovered_run (hs : Sound (d.board n)) {run' : TeamRun} (h : run' ∈ d.recovered.runs) :
    ∃ run ∈ d.runs, run'.id = run.id ∧ run'.teamId = run.teamId ∧ (run' = run ∨ ¬ run.status.Finished ∧ run'.status = .interrupted) := by
  rw [recovered_runs] at h
  obtain ⟨run, hrun, -, ⟨⟨item, hitem, hrunning, hid⟩, rfl⟩ | ⟨-, rfl⟩⟩ := exists_of_mem_update h
  · refine ⟨run, hrun, rfl, rfl, .inr ⟨?_, rfl⟩⟩
    obtain ⟨_, hrow, hkey, -, hopen⟩ := hs.inRun item hitem
    obtain rfl := eq_of_key hrow hrun (hkey.trans hid)
    exact (hopen (.inr hrunning)).resolve_right (by simp [Document.board])
  · exact ⟨run', hrun, rfl, rfl, .inl rfl⟩

theorem run_recovered {run : TeamRun} (h : run ∈ d.runs) : ∃ run' ∈ d.recovered.runs, run'.id = run.id ∧ run'.teamId = run.teamId ∧
    (run' = run ∨ run'.status = .interrupted) := by
  rw [recovered_runs]
  refine ⟨_, mem_update_of_mem h, ?_⟩
  split
  · exact ⟨rfl, rfl, .inr rfl⟩
  · exact ⟨rfl, rfl, .inl rfl⟩

theorem recovered_task {task' : TeamTask} (h : task' ∈ d.recovered.tasks) : ∃ task ∈ d.tasks, task'.id = task.id ∧ task'.teamId = task.teamId ∧
    task'.memberId = task.memberId ∧ task'.dependsOnIds = task.dependsOnIds ∧
      (task' = task ∧ task.status ≠ .running ∨ task.status = .running ∧ task'.status = .failed ∧ task'.error = some "runtime_restarted") := by
  rw [recovered_tasks] at h
  obtain ⟨task, htask, -, ⟨hrunning, rfl⟩ | ⟨hnot, rfl⟩⟩ := exists_of_mem_update h
  · exact ⟨task, htask, rfl, rfl, rfl, rfl, .inr ⟨hrunning, rfl, rfl⟩⟩
  · exact ⟨task', htask, rfl, rfl, rfl, rfl, .inl ⟨rfl, hnot⟩⟩

theorem task_recovered {task : TeamTask} (h : task ∈ d.tasks) : ∃ task' ∈ d.recovered.tasks, task'.id = task.id ∧ task'.teamId = task.teamId ∧
    task'.memberId = task.memberId ∧ task'.dependsOnIds = task.dependsOnIds ∧
      (task' = task ∧ task.status ≠ .running ∨ task.status = .running ∧ task'.status = .failed) := by
  rw [recovered_tasks]
  refine ⟨_, mem_update_of_mem h, ?_⟩
  split
  · exact ⟨rfl, rfl, rfl, rfl, .inr ⟨‹_›, rfl⟩⟩
  · exact ⟨rfl, rfl, rfl, rfl, .inl ⟨rfl, ‹_›⟩⟩

theorem recovered_dispatches (hs : Sound (d.board n)) : d.recovered.dispatches = d.dispatches.update (fun item => item.status = .running) fun item =>
    { item with status := .interrupted, error := some "runtime_restarted" } := by
  suffices hall : ((d.dispatches.update (fun item => item.status = .running) fun item =>
        { item with status := .interrupted, error := some "runtime_restarted" }).update
      (fun item => item.status = .queued ∧ ∃ task ∈ d.recovered.tasks.rows, item.taskId = some task.id ∧ task.status.Terminal) fun item =>
        { item with status := .cancelled }) = d.dispatches.update (fun item => item.status = .running) fun item =>
        { item with status := .interrupted, error := some "runtime_restarted" } from hall
  refine update_eq_self ?_
  rintro item' hitem' ⟨hqueued, _, htask', hkey, hterminal⟩
  obtain ⟨_, hitem, -, ⟨-, rfl⟩ | ⟨-, rfl⟩⟩ := exists_of_mem_update hitem'
  · cases hqueued
  · obtain ⟨task, htask, hid, -, -, hsuits⟩ := hs.forTask item' hitem _ hkey
    rw [hqueued] at hsuits
    obtain ⟨_, hbefore, hid', -, -, -, ⟨rfl, -⟩ | ⟨hrunning, -⟩⟩ := recovered_task htask'
    · obtain rfl := eq_of_key htask hbefore hid
      simp [show task.status = .queued from hsuits, TaskStatus.Terminal] at hterminal
    · obtain rfl := eq_of_key htask hbefore (hid.trans hid')
      cases hrunning.symm.trans hsuits

theorem recovered_item (hs : Sound (d.board n)) {item' : TeamDispatch} (h : item' ∈ d.recovered.dispatches) : ∃ item ∈ d.dispatches,
    item'.id = item.id ∧ item'.teamId = item.teamId ∧ item'.runId = item.runId ∧ item'.memberId = item.memberId ∧ item'.taskId = item.taskId ∧
      item'.submittedAt = item.submittedAt ∧ (item' = item ∧ item.status ≠ .running ∨ item.status = .running ∧ item'.status = .interrupted) := by
  rw [recovered_dispatches hs] at h
  obtain ⟨item, hitem, -, ⟨hrunning, rfl⟩ | ⟨hnot, rfl⟩⟩ := exists_of_mem_update h
  · exact ⟨item, hitem, rfl, rfl, rfl, rfl, rfl, rfl, .inr ⟨hrunning, rfl⟩⟩
  · exact ⟨item', hitem, rfl, rfl, rfl, rfl, rfl, rfl, .inl ⟨rfl, hnot⟩⟩

theorem item_recovered (hs : Sound (d.board n)) {item : TeamDispatch} (h : item ∈ d.dispatches) : ∃ item' ∈ d.recovered.dispatches,
    item'.id = item.id ∧ item'.taskId = item.taskId ∧ item'.status ≠ .running ∧ (item.status ≠ .running → item' = item) := by
  rw [recovered_dispatches hs]
  refine ⟨_, mem_update_of_mem h, ?_⟩
  split
  · rename_i hrunning
    exact ⟨rfl, rfl, by simp, fun hnot => absurd hrunning hnot⟩
  · exact ⟨rfl, rfl, ‹_›, fun _ => rfl⟩

theorem recovered_seats {teamId memberId : ℕ} {status : MemberStatus} (h : Seats d.recovered.teams teamId memberId status) :
    status ≠ .running ∧ ∃ status', Seats d.teams teamId memberId status' ∧ (status' = status ∨ status' = .running ∧ status = .idle) := by
  rw [recovered_teams] at h
  obtain ⟨_, hteam', rfl, _, hmember', rfl, rfl⟩ := h
  obtain ⟨team, hteam, hid, ⟨-, rfl⟩ | ⟨hfalse, -⟩⟩ := exists_of_mem_update hteam'
  swap
  · exact absurd trivial hfalse
  obtain ⟨member, hmember, rfl⟩ := mem_map.mp hmember'
  obtain ⟨hsame, -, hrests⟩ := member.rested_same
  refine ⟨hrests, member.status, ⟨team, hteam, hid, member, hmember, hsame.symm, rfl⟩, ?_⟩
  unfold TeamMember.rested
  by_cases hrunning : member.status = .running
  · exact .inr ⟨hrunning, by rw [if_pos hrunning]⟩
  · exact .inl (by rw [if_neg hrunning])

theorem seats_recovered {teamId memberId : ℕ} (h : HasMember d.teams teamId memberId) : HasMember d.recovered.teams teamId memberId := by
  obtain ⟨_, _, hteam, rfl, member, hmember, rfl, -⟩ := h
  unfold HasMember
  rw [recovered_teams]
  refine ⟨_, _, mem_update_of_pos hteam trivial, rfl, member.rested, mem_map_of_mem hmember, member.rested_same.1, rfl⟩

end Rows

theorem Sound.recovered (hs : Sound (d.board n)) : Sound (d.recovered.board n) where
  teamFresh team' hteam' := by
    change team' ∈ d.recovered.teams at hteam'
    rw [recovered_teams] at hteam'
    obtain ⟨team, hteam, -, ⟨-, rfl⟩ | ⟨-, rfl⟩⟩ := exists_of_mem_update hteam'
    · exact hs.teamFresh team hteam
    · exact hs.teamFresh _ hteam
  memberFresh teamId memberId status h := by
    obtain ⟨-, status', h, -⟩ := recovered_seats h
    exact hs.memberFresh teamId memberId status' h
  taskFresh task' htask' := by
    obtain ⟨task, htask, hid, -⟩ := recovered_task htask'
    rw [hid]
    exact hs.taskFresh task htask
  runFresh run' hrun' := by
    obtain ⟨run, hrun, hid, -⟩ := recovered_run hs hrun'
    rw [hid]
    exact hs.runFresh run hrun
  dispatchFresh item' hitem' := by
    obtain ⟨item, hitem, hid, -⟩ := recovered_item hs hitem'
    rw [hid]
    exact hs.dispatchFresh item hitem
  apart task' htask' item' hitem' := by
    obtain ⟨task, htask, hid, -⟩ := recovered_task htask'
    obtain ⟨item, hitem, hid', -⟩ := recovered_item hs hitem'
    rw [hid, hid']
    exact hs.apart task htask item hitem
  seat teamId teamId' memberId status status' h h' := by
    obtain ⟨hrests, before, h, hbefore⟩ := recovered_seats h
    obtain ⟨hrests', before', h', hbefore'⟩ := recovered_seats h'
    obtain ⟨hteam, rfl⟩ := hs.seat _ _ _ _ _ h h'
    refine ⟨hteam, ?_⟩
    rcases hbefore with rfl | ⟨hrunning, rfl⟩
    · rcases hbefore' with rfl | ⟨hrunning', -⟩
      · rfl
      · exact absurd hrunning' hrests
    · rcases hbefore' with rfl | ⟨-, rfl⟩
      · exact absurd hrunning hrests'
      · rfl
  formed team' hteam' := by
    change team' ∈ d.recovered.teams at hteam'
    rw [recovered_teams] at hteam'
    obtain ⟨team, hteam, -, ⟨-, rfl⟩ | ⟨hfalse, -⟩⟩ := exists_of_mem_update hteam'
    swap
    · exact absurd trivial hfalse
    obtain ⟨hnodup, lead, hlead, hrole⟩ := hs.formed team hteam
    refine ⟨?_, lead.rested, mem_map_of_mem hlead, lead.rested_same.2.1.trans hrole⟩
    have hids : (team.members.map TeamMember.rested).map TeamMember.id = team.members.map TeamMember.id := by
      rw [map_map]
      exact map_congr_left fun member _ => member.rested_same.1
    change ((team.members.map TeamMember.rested).map TeamMember.id).Nodup
    rw [hids]
    exact hnodup
  oneRun run hrun run' hrun' hteam hopen hopen' := by
    obtain ⟨before, hbefore, hid, hteamId, hsame⟩ := recovered_run hs hrun
    obtain ⟨before', hbefore', hid', hteamId', hsame'⟩ := recovered_run hs hrun'
    have hopenBefore : ¬ before.status.Finished := by
      rcases hsame with rfl | ⟨h, -⟩
      · exact hopen
      · exact h
    have hopenBefore' : ¬ before'.status.Finished := by
      rcases hsame' with rfl | ⟨h, -⟩
      · exact hopen'
      · exact h
    have heq := hs.oneRun before hbefore before' hbefore' (hteamId.symm.trans (hteam.trans hteamId')) hopenBefore hopenBefore'
    exact eq_of_key hrun hrun' (hid.trans ((congrArg TeamRun.id heq).trans hid'.symm))
  closes id h := by cases h
  inRun item' hitem' := by
    obtain ⟨item, hitem, -, hteam, hrunId, -, -, -, hstatus⟩ := recovered_item hs hitem'
    obtain ⟨run, hrun, hid, hrunTeam, hopen⟩ := hs.inRun item hitem
    obtain ⟨run', hrun', hid', hteam', hsame⟩ := run_recovered hrun
    refine ⟨run', hrun', hid'.trans (hid.trans hrunId.symm), hteam'.trans (hrunTeam.trans hteam.symm), ?_⟩
    intro hpending
    left
    have hrunOpen : ¬ run.status.Finished := by
      refine (hopen ?_).resolve_right (by simp [Document.board])
      rcases hstatus with ⟨rfl, -⟩ | ⟨hrunning, -⟩
      · exact hpending
      · exact .inr hrunning
    rcases hsame with rfl | hinterrupted
    · exact hrunOpen
    · simp [hinterrupted, RunStatus.Finished]
  byMember item' hitem' hpending := by
    obtain ⟨item, hitem, -, hteam, -, hmember, -, -, hstatus⟩ := recovered_item hs hitem'
    rw [hteam, hmember]
    refine seats_recovered (hs.byMember item hitem ?_)
    rcases hstatus with ⟨rfl, -⟩ | ⟨hrunning, -⟩
    · exact hpending
    · exact .inr hrunning
  forTask item' hitem' id hkey := by
    obtain ⟨item, hitem, -, hteam, -, hmember, htaskId, -, hstatus⟩ := recovered_item hs hitem'
    obtain ⟨task, htask, hid, htaskTeam, htaskMember, hsuits⟩ := hs.forTask item hitem id (htaskId ▸ hkey)
    obtain ⟨task', htask', hid', hteam', hmember', -, hsame⟩ := task_recovered htask
    refine ⟨task', htask', hid'.trans hid, hteam'.trans (htaskTeam.trans hteam.symm), hmember'.trans (htaskMember.trans hmember.symm), ?_⟩
    rcases hstatus with ⟨rfl, hnot⟩ | ⟨hrunning, hinterrupted⟩
    · rcases hsame with ⟨rfl, -⟩ | ⟨htaskRunning, -⟩
      · exact hsuits
      · rw [htaskRunning] at hsuits
        exact absurd (suits_running hsuits) hnot
    · rw [hinterrupted]
      rw [hrunning] at hsuits
      rcases hsame with ⟨rfl, hnot⟩ | ⟨-, hfailed⟩
      · rcases hsuits with h | h | h
        · exact absurd h hnot
        · exact .inl h
        · exact .inr (.inl h)
      · exact .inr (.inl hfailed)
  oneDispatch item hitem item' hitem' id hkey hkey' := by
    obtain ⟨before, hbefore, hid, -, -, -, htaskId, -⟩ := recovered_item hs hitem
    obtain ⟨before', hbefore', hid', -, -, -, htaskId', -⟩ := recovered_item hs hitem'
    have heq := hs.oneDispatch before hbefore before' hbefore' id (htaskId ▸ hkey) (htaskId' ▸ hkey')
    exact eq_of_key hitem hitem' (hid.trans ((congrArg TeamDispatch.id heq).trans hid'.symm))
  held task' htask' := by
    obtain ⟨task, htask, hid, -⟩ := recovered_task htask'
    obtain ⟨item, hitem, hkey⟩ := hs.held task htask
    obtain ⟨item', hitem', -, htaskId, -⟩ := item_recovered hs hitem
    exact ⟨item', hitem', by rw [htaskId, hkey, hid]⟩
  busy item' hitem' hrunning := by
    obtain ⟨item, -, -, -, -, -, -, -, ⟨rfl, hnot⟩ | ⟨-, hinterrupted⟩⟩ := recovered_item hs hitem'
    · exact absurd hrunning hnot
    · cases hinterrupted.symm.trans hrunning
  turning teamId memberId h := absurd rfl (recovered_seats h).1
  oneTurn item' hitem' _ _ _ hrunning _ := by
    obtain ⟨item, -, -, -, -, -, -, -, ⟨rfl, hnot⟩ | ⟨-, hinterrupted⟩⟩ := recovered_item hs hitem'
    · exact absurd hrunning hnot
    · cases hinterrupted.symm.trans hrunning
  four id := by
    have hnone : (d.recovered.dispatches.count fun item => item.runId = id ∧ item.status = .running) = 0 := by
      refine Table.count_eq_zero.mpr ?_
      rintro item' hitem' ⟨-, hrunning⟩
      obtain ⟨item, -, -, -, -, -, -, -, ⟨rfl, hnot⟩ | ⟨-, hinterrupted⟩⟩ := recovered_item hs hitem'
      · exact absurd hrunning hnot
      · cases hinterrupted.symm.trans hrunning
    exact hnone.le.trans (Nat.zero_le _)
  unsubmitted item' hitem' hqueued := by
    obtain ⟨_, hitem, -, -, -, -, -, -, ⟨rfl, -⟩ | ⟨-, hinterrupted⟩⟩ := recovered_item hs hitem'
    · exact hs.unsubmitted item' hitem hqueued
    · cases hinterrupted.symm.trans hqueued
  inside task' htask' id hid := by
    obtain ⟨task, htask, -, hteam, -, hdepends, -⟩ := recovered_task htask'
    obtain ⟨_, hother, hkey, hotherTeam⟩ := hs.inside task htask id (hdepends ▸ hid)
    obtain ⟨other', hother', hid', hteam', -⟩ := task_recovered hother
    exact ⟨other', hother', hid'.trans hkey, hteam'.trans (hotherTeam.trans hteam.symm)⟩
  acyclic id h := by
    refine hs.acyclic id (Relation.TransGen.mono ?_ _ _ h)
    rintro a b ⟨_, htask', rfl, hmem⟩
    obtain ⟨task, htask, hid, -, -, hdepends, -⟩ := recovered_task htask'
    exact ⟨task, htask, hid.symm, hdepends ▸ hmem⟩

section Construct

theorem construct_ok (hs : Sound (s.file.board n)) {r : Unit} (h : construct s.file s = (.ok r, t)) :
    t.toDocument = s.file.recovered ∧ t.file = t.toDocument ∧ t.batch = false ∧ t.drawn = s.drawn := by
  unfold construct at h
  rw [modify_bind, read_bind] at h
  have horphans : (s.file.interrupted.tasks.rows.filter fun task =>
      task.status = .queued ∧ ¬ ∃ item ∈ s.file.interrupted.dispatches.rows, item.taskId = some task.id) = [] := by
    refine filter_eq_nil_iff.mpr ?_
    intro task' htask'
    obtain ⟨task, htask, hid, -⟩ := recovered_task (d := s.file) htask'
    obtain ⟨item, hitem, hkey⟩ := hs.held task htask
    obtain ⟨item', hitem', -, htaskId, -⟩ := item_recovered hs hitem
    have hhas : ∃ item ∈ s.file.interrupted.dispatches.rows, item.taskId = some task'.id := ⟨item', hitem', by rw [htaskId, hkey, hid]⟩
    simp only [decide_eq_true_eq, not_and, not_not]
    exact fun _ => hhas
  simp only at h
  rw [horphans] at h
  change (whenever _ _) _ = _ at h
  rcases whenever_of h with ⟨-, h⟩ | ⟨hidle, -, rfl⟩
  · rw [modify_bind] at h
    have hsaved := save_ok rfl h
    rw [hsaved]
    exact ⟨rfl, rfl, rfl, rfl⟩
  · simp only [ne_eq, not_true_eq_false, false_or, not_or, not_exists, not_and] at hidle
    obtain ⟨htasks, hitems⟩ := hidle
    have hsame : s.file.recovered = s.file.interrupted := by
      have hteams : (s.file.teams.update (fun _ => True) fun team => { team with members := team.members.map TeamMember.rested }) = s.file.teams := by
        apply ext_rows
        rw [rows_update]
        conv_rhs => rw [← map_id s.file.teams.rows]
        apply map_congr_left
        intro team hteam
        have hmembers : team.members.map TeamMember.rested = team.members := by
          conv_rhs => rw [← map_id team.members]
          apply map_congr_left
          intro member hmember
          unfold TeamMember.rested
          rw [if_neg]
          · rfl
          · intro hrunning
            obtain ⟨item, hitem, -, -, hitemRunning⟩ := hs.turning team.id member.id ⟨team, hteam, rfl, member, hmember, rfl, hrunning⟩
            exact hitems item hitem hitemRunning
        simp [hmembers]
      unfold Document.recovered
      rw [hteams]
      rfl
    have hruns : s.file.interrupted.runs = s.file.runs := by
      change s.file.recovered.runs = _
      rw [recovered_runs]
      refine update_eq_self fun run _ => ?_
      rintro ⟨item, hitem, hrunning, -⟩
      exact hitems item hitem hrunning
    have htasksSame : s.file.interrupted.tasks = s.file.tasks := by
      change s.file.recovered.tasks = _
      rw [recovered_tasks]
      exact update_eq_self htasks
    have hdispatches : s.file.interrupted.dispatches = s.file.dispatches :=
      (recovered_dispatches hs).trans (update_eq_self fun item hitem => hitems item hitem)
    have hdocument : s.file.interrupted = s.file := by
      change { s.file with runs := s.file.interrupted.runs, tasks := s.file.interrupted.tasks, dispatches := s.file.interrupted.dispatches } = s.file
      rw [hruns, htasksSame, hdispatches]
    exact ⟨hsame.symm, hdocument.symm, rfl, rfl⟩

end Construct

end WorkAgent.Teams
