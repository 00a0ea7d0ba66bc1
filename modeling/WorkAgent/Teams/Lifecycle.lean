import WorkAgent.Teams.Roster

namespace WorkAgent.Teams

open Library Act Act.Reads

set_option synthInstance.maxSize 4000

variable {host : Host} {s t : TeamStore} {base : ℕ} {α : Type} {e : String}

section Errors

theorem forEach_never {f : α → StoreAct Unit} {l : List α} (h : forEach f l s = (.error e, t))
    (hf : ∀ a s, ∃ t, f a s = (.ok (), t)) : False := by
  induction l generalizing s with
  | nil => cases h
  | cons a _ ih =>
    obtain ⟨u, hu⟩ := hf a s
    rcases bind_error.mp h with h | ⟨_, _, -, h⟩
    · cases h.symm.trans hu
    · exact ih h

theorem ensureRun_error {teamId : ℕ} {input : String} (h : ensureRun teamId input s = (.error e, t)) : t = s := by
  unfold ensureRun at h
  rcases bind_eq h with ⟨_, -, rfl⟩ | ⟨_, -, h⟩
  · rfl
  rw [read_bind] at h
  cases hactive : s.activeRun teamId with
  | some | none =>
    rw [hactive] at h
    cases h

theorem registerEdge_error {run : TeamRun} {memberId : ℕ} {parentId : Option ℕ} (h : registerEdge run memberId parentId s = (.error e, t)) :
    t = s := by
  unfold registerEdge at h
  rw [read_bind] at h
  rcases bind_eq h with ⟨_, -, rfl⟩ | ⟨_, -, h⟩
  · rfl
  rcases bind_eq h with ⟨_, -, rfl⟩ | ⟨_, -, h⟩
  · rfl
  rcases bind_error.mp h with h | ⟨_, _, -, h⟩
  · exact (forEach_never h fun _ _ => ⟨_, rfl⟩).elim
  rcases bind_error.mp h with h | ⟨_, _, -, h⟩
  · unfold whenever at h
    split at h <;> cases h
  · cases h

theorem enqueue_error {run : TeamRun} {memberId : ℕ} {input : String} {parentId taskId : Option ℕ} {messageIds : List ℕ}
    (h : enqueue run memberId input parentId taskId messageIds s = (.error e, t)) : t = s := by
  unfold enqueue at h
  rcases bind_error.mp h with h | ⟨_, _, -, h⟩
  · exact registerEdge_error h
  · cases h

theorem ensureRun_adds {teamId : ℕ} {input : String} {run : TeamRun} (h : ensureRun teamId input s = (.ok run, t)) :
    Adds base run s t ∧ run.teamId = teamId := by
  obtain ⟨hmoves, hteams, htasks, hdispatches, hmem, hteam, hopen⟩ := ensureRun_ok base s.tasks h
  have hboard : { t.board with tasks := s.tasks } = t.board := by
    rw [← htasks]
    rfl
  rw [hboard] at hmoves
  refine ⟨⟨hmoves, hteams, htasks, ⟨run, hmem, rfl, rfl, hopen⟩, ?_⟩, hteam⟩
  intro item hitem _
  rw [hdispatches]
  exact ⟨item.fanoutMemberIds, hitem⟩

end Errors

section Starts

theorem startRun_moves (hs : Sound s.board) {teamId : ℕ} {input : String} {memberId : Option ℕ} {r : Except String TeamRun}
    (h : startRun teamId input memberId s = (r, t)) : Moves base (· = .plain) s.board t.board := by
  unfold startRun at h
  refine Act.Reads.bind_moves h fun _ _ h => ?_
  refine Act.Reads.bind_moves h fun team hfound h => ?_
  refine Act.Reads.bind_moves h fun _ _ h => ?_
  refine Act.Reads.bind_moves h fun member htarget h => ?_
  obtain ⟨-, hteam, rfl⟩ := requiredTeam_ok hfound
  obtain ⟨-, hmember, rfl⟩ := requiredMember_ok htarget
  rcases Act.bind_any h with ⟨_, hensure, -⟩ | ⟨run, u, hensure, h⟩
  · rw [ensureRun_error hensure]
    exact .none
  obtain ⟨hadds, hrunTeam⟩ := ensureRun_adds hensure
  rcases bind_eq h with ⟨_, -, rfl⟩ | ⟨_, -, h⟩
  · exact hadds.moves
  rcases Act.bind_any h with ⟨_, henqueue, -⟩ | ⟨_, v, henqueue, h⟩
  · rw [enqueue_error henqueue]
    exact hadds.moves
  have hmember : HasMember u.teams run.teamId member.id := by
    rw [hadds.teams, hrunTeam]
    exact ⟨member.status, team, hteam, rfl, member, hmember, rfl, rfl⟩
  rw [Calm.board_eq h]
  exact hadds.moves.trans (enqueue_adds (hadds.moves.sound hs).toBooks hadds.continues hmember henqueue).moves

theorem recruit_moves (hs : Sound s.board) {teamId parentId : ℕ} {input : MemberInput} {team : Team}
    (h : recruit host teamId parentId input s = (.ok team, t)) : Moves base (· = .plain) s.board t.board := by
  obtain ⟨u, v, hboard, -, h, hdocument, hdrawn, -⟩ := transaction_body h
  rw [board_eq hdocument hdrawn, ← hboard]
  rw [← hboard] at hs
  rw [read_bind] at h
  obtain ⟨_, _, hparent, h⟩ := bind_ok.mp h
  obtain rfl := (state hparent).symm
  obtain ⟨_, _, hrefuse, h⟩ := bind_ok.mp h
  obtain rfl := (state hrefuse).symm
  obtain ⟨run, _, hrun, h⟩ := bind_ok.mp h
  obtain ⟨rfl, hrun, -⟩ := theRun_ok hrun
  obtain ⟨hrunning, h⟩ := refuse_bind h
  obtain ⟨-, h⟩ := refuse_bind h
  obtain ⟨_, w, hadd, h⟩ := bind_ok.mp h
  rw [setRun_bind] at h
  obtain ⟨hmoves, hruns⟩ := addMember_moves hs hadd
  have hopen : ¬ run.status.Finished := by
    rw [not_not.mp hrunning]
    simp [RunStatus.Finished]
  rw [Calm.board_eq h]
  have hkept : run ∈ w.runs := hruns.symm ▸ hrun
  refine hmoves.next rfl (.setRun (show run ∈ w.board.runs from hkept) rfl rfl hopen ?_)
  split
  · simp [RunStatus.Finished]
  · exact hopen

end Starts

section Tasks

theorem Sound.dispatchOf (hs : Sound s.board) {task : TeamTask} (htask : task ∈ s.tasks) :
    ∃ item ∈ s.dispatches, item.taskId = some task.id ∧ item.teamId = task.teamId ∧ item.memberId = task.memberId ∧
      Suits item.status task.status ∧ ∀ other ∈ s.dispatches, other.taskId = some task.id → other = item := by
  obtain ⟨item, hitem, hkey⟩ := hs.held task htask
  obtain ⟨_, htask', hid, hteam, hmember, hsuits⟩ := hs.forTask item hitem task.id hkey
  obtain rfl := Table.eq_of_key htask' htask hid
  exact ⟨item, hitem, hkey, hteam.symm, hmember.symm, hsuits, fun other hother hsame => hs.oneDispatch other hother item hitem _ hsame hkey⟩

theorem updateTask_moves (hs : Sound s.board) {teamId taskId version : ℕ} {input : TaskMutation} {caller : Option ℕ} {r : Except String TeamTask}
    (h : updateTask host teamId taskId version input caller s = (r, t)) :
    Moves base (fun kind => kind = .plain ∨ kind = .closes ∧ input.succeeds ≠ none) s.board t.board := by
  unfold updateTask at h
  refine Act.Reads.bind_moves h fun task hfound h => ?_
  refine Act.Reads.bind_moves h fun _ hcheck h => ?_
  refine Act.Reads.bind_moves h fun title _ h => ?_
  refine Act.Reads.bind_moves h fun text _ h => ?_
  obtain ⟨-, htask, rfl⟩ := requiredTask_ok hfound
  obtain ⟨hteam, hcheck⟩ := refuse_bind hcheck
  obtain ⟨-, hcheck⟩ := refuse_bind hcheck
  obtain ⟨hcloses, hcheck⟩ := refuse_bind hcheck
  obtain ⟨_, _, hcaller, hcheck⟩ := bind_ok.mp hcheck
  obtain rfl := (state hcaller).symm
  obtain ⟨_, _, hdepends, -⟩ := bind_ok.mp hcheck
  obtain rfl := (state hdepends).symm
  rw [not_and, not_not] at hcloses
  rw [not_not] at hteam
  rw [setTask_bind] at h
  have hedges : input.dependsOnIds.getD task.dependsOnIds = task.dependsOnIds ∨
      ∀ id ∈ input.dependsOnIds.getD task.dependsOnIds, (∃ other ∈ s.tasks, other.id = id ∧ other.teamId = task.teamId) ∧
        ¬ Relation.ReflTransGen (Depends s.tasks) id task.id := by
    cases hids : input.dependsOnIds with
    | none => exact .inl rfl
    | some ids =>
      right
      intro id hid
      have hvalid := forEach_some hids hdepends
      obtain ⟨-, hvisit⟩ := validateDependencies_ok hvalid
      obtain ⟨hinside, hpath⟩ := visitAll_ok ids hvisit id hid
      rw [hteam]
      exact ⟨hinside, hpath task.id rfl⟩
  rcases Act.bind_any h with ⟨_, hset, -⟩ | ⟨_, u, hset, h⟩
  · exact (forEach_never hset fun _ _ => ⟨_, rfl⟩).elim
  rw [Calm.board_eq h]
  -- The edit of the task.
  have hedit : Moves base (fun kind => kind = .plain ∨ kind = .closes ∧ input.succeeds ≠ none) s.board
      { s.board with tasks := s.tasks.set { task with
        version := task.version + 1
        dependsOnIds := input.dependsOnIds.getD task.dependsOnIds
        title := title
        input := text
        status := input.succeeds.elim task.status fun succeeds => if succeeds then .succeeded else .failed
        result := input.result.or task.result } } := by
    cases hsucceeds : input.succeeds with
    | none => exact .one (.inl rfl) (.editTask htask (.inl rfl) ⟨rfl, rfl, rfl, .inl ⟨rfl, rfl⟩⟩ (.inl rfl) hedges)
    | some succeeds =>
      have hrunning : task.status = .running := hcloses (by simp [hsucceeds])
      refine .one (.inr ⟨rfl, by simp⟩) (.editTask htask (.inr rfl) ⟨rfl, rfl, rfl, .inr (.inl ⟨rfl, ?_, ?_⟩)⟩ (.inr ⟨hrunning, ?_⟩) hedges)
      · simp [hrunning, TaskStatus.Terminal]
      · cases succeeds <;> simp [TaskStatus.Terminal]
      · cases succeeds <;> simp
  refine hedit.trans ?_
  have hsound := hedit.sound hs
  -- The edit of the input of its dispatch.
  cases hinput : input.input.filter (· ≠ "") with
  | none =>
    rw [hinput] at hset
    obtain ⟨-, rfl⟩ := pure_ok.mp hset
    exact .none
  | some text' =>
    have hset := forEach_some hinput hset
    obtain rfl := modify_ok.mp hset
    obtain ⟨item, hitem, hkey, -, -, -, hone⟩ := hs.dispatchOf htask
    by_cases hqueued : item.status = .queued
    · have hupdate : (s.dispatches.update (fun row => row.taskId = some task.id ∧ row.status = .queued) fun row => { row with input := text' }) =
          s.dispatches.set { item with input := text' } :=
        Table.update_eq_set hitem ⟨hkey, hqueued⟩ fun row hrow hp => hone row hrow hp.1
      refine .one (.inl rfl) ?_
      change Move base .plain _ { s.board with tasks := _, dispatches := s.dispatches.update _ _ }
      rw [hupdate]
      have hsubmitted : item.status = .queued → item.submittedAt = none := hs.unsubmitted item hitem
      exact .editDispatch hitem ⟨rfl, rfl, rfl, rfl, rfl, hsubmitted, .inl ⟨rfl, fun h => h⟩⟩ rfl
    · have hupdate : (s.dispatches.update (fun row => row.taskId = some task.id ∧ row.status = .queued) fun row => { row with input := text' }) =
          s.dispatches := Table.update_eq_self fun row hrow hp => hqueued (hone row hrow hp.1 ▸ hp.2)
      change Moves base _ _ { s.board with tasks := _, dispatches := s.dispatches.update _ _ }
      rw [hupdate]
      exact .none

end Tasks

end WorkAgent.Teams
