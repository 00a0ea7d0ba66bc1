import WorkAgent.Teams.Outcomes

namespace WorkAgent.Library.Table

variable {ρ κ : Type} {key : ρ → κ} [DecidableEq κ]

theorem rows_set {t : Table key} {r r' : ρ} (h : r ∈ t) (hk : key r' = key r) :
    (t.set r').rows = t.rows.map fun x => if key x = key r then r' else x := by
  have hsome : t.find? (key r') ≠ none := by
    rw [hk, find?_of_mem h]
    simp
  unfold set upsert
  rw [if_neg hsome, rows_update]
  apply List.map_congr_left
  intro x _
  rw [hk]
  split <;> rfl

theorem update_induction {t : Table key} {p : ρ → Prop} [DecidablePred p] {f : ρ → ρ} {hf : ∀ r, key (f r) = key r} {P : Table key → Prop}
    (hstart : P t) (hstep : ∀ u r, P u → r ∈ u → p r → P (u.set (f r))) : P (t.update p f hf) := by
  have hkeys (keys : List κ) (hnodup : keys.Nodup) : P (t.update (fun r => p r ∧ key r ∈ keys) f hf) := by
    induction keys with
    | nil =>
      rw [update_eq_self (by simp)]
      exact hstart
    | cons k keys ih =>
      obtain ⟨hnew, hrest⟩ := List.nodup_cons.mp hnodup
      by_cases hrow : ∃ r ∈ t, key r = k ∧ p r
      · obtain ⟨r, hr, rfl, hp⟩ := hrow
        have hnow : r ∈ t.update (fun r => p r ∧ key r ∈ keys) f hf := mem_update.mpr ⟨r, hr, by rw [if_neg (fun h => hnew h.2)]⟩
        have hsame : t.update (fun x => p x ∧ key x ∈ key r :: keys) f hf = (t.update (fun x => p x ∧ key x ∈ keys) f hf).set (f r) := by
          apply ext_rows
          rw [rows_set hnow (hf r), rows_update, rows_update, List.map_map]
          apply List.map_congr_left
          intro x hx
          by_cases hk : key x = key r
          · obtain rfl := eq_of_key hx hr hk
            simp [hp, hnew]
          · by_cases hin : p x ∧ key x ∈ keys
            · simp [hin, hf, hk]
            · rw [not_and] at hin
              have hout : ¬ (p x ∧ key x ∈ key r :: keys) := by
                rintro ⟨hpx, hmem⟩
                rcases List.mem_cons.mp hmem with h | h
                · exact hk h
                · exact hin hpx h
              have hskip : ¬ (p x ∧ key x ∈ keys) := fun h => hin h.1 h.2
              simp only [Function.comp, if_neg hout, if_neg hskip, if_neg hk]
        rw [hsame]
        exact hstep _ r (ih hrest) hnow hp
      · have hsame : t.update (fun x => p x ∧ key x ∈ k :: keys) f hf = t.update (fun x => p x ∧ key x ∈ keys) f hf := by
          apply ext_rows
          rw [rows_update, rows_update]
          apply List.map_congr_left
          intro x hx
          have hiff : (p x ∧ key x ∈ k :: keys) ↔ (p x ∧ key x ∈ keys) := by
            constructor
            · rintro ⟨hpx, hmem⟩
              rcases List.mem_cons.mp hmem with h | h
              · exact absurd ⟨x, hx, h, hpx⟩ hrow
              · exact ⟨hpx, h⟩
            · exact fun h => ⟨h.1, List.mem_cons_of_mem _ h.2⟩
          simp only [hiff]
        rw [hsame]
        exact ih hrest
  have hall : t.update p f hf = t.update (fun r => p r ∧ key r ∈ t.rows.map key) f hf := by
    apply ext_rows
    rw [rows_update, rows_update]
    apply List.map_congr_left
    intro x hx
    have hmem : key x ∈ t.rows.map key := List.mem_map_of_mem hx
    simp only [hmem, and_true]
  rw [hall]
  exact hkeys _ t.nodup

end WorkAgent.Library.Table

namespace WorkAgent.Teams

open Library Act

set_option synthInstance.maxSize 4000

variable {s t : TeamStore} {base : ℕ}

section Cancel

theorem cancelled_ended : ¬ DispatchStatus.cancelled.Pending := by simp [DispatchStatus.Pending]

theorem TaskStatus.terminal_of_not_pending {status : TaskStatus} (h : ¬ status.Pending) : status.Terminal := by
  cases status <;> simp_all [TaskStatus.Pending, TaskStatus.Terminal]

theorem cancelTask_alone {teamId : ℕ} {task : TeamTask} (htask : task ∈ s.tasks)
    (hnone : ∀ row ∈ s.dispatches, row.taskId = some task.id → ¬ row.status.Pending) {r : Unit} (h : cancelTask teamId task.id s = (.ok r, t)) :
    t.board = { s.board with tasks := s.tasks.set { task with status := .cancelled }, teams := t.teams } ∧
      (task.status = .running ∧ Restatused s.teams t.teams teamId task.memberId .idle ∨ task.status ≠ .running ∧ t.teams = s.teams) := by
  unfold cancelTask at h
  rw [bind_of_ok (requiredTask_of htask)] at h
  obtain ⟨-, h⟩ := refuse_bind h
  obtain ⟨-, h⟩ := refuse_bind h
  rw [setTask_bind, cancelDispatches_bind] at h
  have hupdate : (s.dispatches.update (fun row => row.taskId = some task.id ∧ row.status.Pending) fun row => { row with status := .cancelled }) =
      s.dispatches := Table.update_eq_self fun row hrow hp => hnone row hrow hp.1 hp.2
  obtain ⟨_, u, hidle, h⟩ := bind_ok.mp h
  have hboard := Calm.board_eq h
  have hteamsT : t.teams = u.teams := congrArg Board.teams hboard
  rw [hteamsT, hboard]
  rcases whenever_of hidle with ⟨hrunning, hidle⟩ | ⟨hrunning, -, rfl⟩
  · obtain ⟨hu, hteams⟩ := idleMember_ok hidle
    refine ⟨?_, .inl ⟨hrunning, hteams⟩⟩
    rw [hu]
    simp [TeamStore.board, Document.board, hupdate]
  · refine ⟨?_, .inr ⟨hrunning, rfl⟩⟩
    simp [TeamStore.board, Document.board, hupdate]

def Cancelling (kind : Kind) : Prop := kind = .plain ∨ kind = .closes ∨ kind = .ends

variable (base) in
theorem cancelItem_moves {teamId runId : ℕ} {item : TeamDispatch} (hs : Sound { s.board with closing := some runId }) (hitem : item ∈ s.dispatches)
    (hrunId : item.runId = runId) (hteam : item.teamId = teamId) (hpending : item.status.Pending) {r : Unit}
    (h : cancelItem teamId runId item s = (.ok r, t)) :
    Moves base Cancelling { s.board with closing := some runId } { t.board with closing := some runId } ∧
      t.dispatches = s.dispatches.set { item with status := .cancelled } ∧ t.runs = s.runs := by
  unfold cancelItem at h
  rw [whenever_pos ⟨hrunId, hpending⟩, setDispatch_bind] at h
  obtain ⟨_, u, htasks, h⟩ := bind_ok.mp h
  obtain ⟨ht, hteams⟩ := idleMember_ok h
  subst hteam hrunId
  have hstep : TurnStep .closes item { item with status := .cancelled } :=
    ⟨rfl, rfl, rfl, rfl, rfl, by simp, .inr (.inl ⟨rfl, hpending, cancelled_ended, by simp⟩)⟩
  -- What has become of the task before the member is idled, once or a second time.
  have hu : ∃ tasks teams, u.board = { s.board with
      tasks := tasks, teams := teams, dispatches := s.dispatches.set { item with status := .cancelled } } ∧
      TaskTurn .closes s.tasks tasks item { item with status := .cancelled } ∧
      (item.status = .running ∧ Restatused s.teams teams item.teamId item.memberId .idle ∨ teams = s.teams) := by
    rcases Option.eq_none_or_eq_some item.taskId with hkey | ⟨taskId, hkey⟩
    · rw [forEach_of_none hkey] at htasks
      cases htasks
      exact ⟨s.tasks, s.teams, rfl, .inl ⟨rfl, by simp [hkey]⟩, .inr rfl⟩
    · obtain ⟨task, htask, rfl, _, htaskMember, hsuits⟩ := hs.forTask item hitem taskId hkey
      have htask' := forEach_some hkey htasks
      obtain ⟨task', w, hfound, hcancel⟩ := bind_ok.mp htask'
      obtain ⟨rfl, hmem, hid⟩ := requiredTask_ok hfound
      obtain rfl := Table.eq_of_key hmem htask hid
      rcases whenever_of hcancel with ⟨hopen, hcancel⟩ | ⟨hclosed, -, rfl⟩
      · have hnone : ∀ row ∈ s.dispatches.set { item with status := .cancelled }, row.taskId = some task'.id → ¬ row.status.Pending := by
          intro row hrow hsame
          rcases Table.mem_set.mp hrow with rfl | ⟨hold, hne⟩
          · exact cancelled_ended
          · exact absurd (congrArg TeamDispatch.id (hs.oneDispatch row hold item hitem _ hsame hkey)) hne
        obtain ⟨hboard, hteams'⟩ := @cancelTask_alone { s with dispatches := s.dispatches.set { item with status := .cancelled } } _ _ task'
          htask hnone _ hcancel
        refine ⟨_, _, hboard, ?_, ?_⟩
        · refine .closing (b := s.board) cancelled_ended htask hkey ⟨rfl, rfl, rfl, rfl⟩ ?_ (.inr (.inr rfl))
          rcases hopen with hqueued | hrunning
          · simp [hqueued, TaskStatus.Terminal]
          · simp [hrunning, TaskStatus.Terminal]
        · rcases hteams' with ⟨hrunning, hteams'⟩ | ⟨-, hteams'⟩
          · rw [hrunning] at hsuits
            rw [htaskMember] at hteams'
            exact .inl ⟨suits_running hsuits, hteams'⟩
          · exact .inr hteams'
      · refine ⟨s.tasks, s.teams, rfl, .inl ⟨rfl, ?_⟩, .inr rfl⟩
        intro _ hother hsame
        obtain rfl := Table.eq_of_key hother htask (Option.some.inj (hsame.symm.trans hkey))
        refine (suits_terminal cancelled_ended _).mpr ?_
        exact TaskStatus.terminal_of_not_pending hclosed
  obtain ⟨tasks, teams, hboard, hturn, hmember⟩ := hu
  have huDispatches : u.dispatches = s.dispatches.set { item with status := .cancelled } := congrArg Board.dispatches hboard
  have huTeams : u.teams = teams := congrArg Board.teams hboard
  have huTasks : u.tasks = tasks := congrArg Board.tasks hboard
  have huRuns : u.runs = s.runs := congrArg Board.runs hboard
  have huDrawn : u.drawn = s.drawn := congrArg Board.drawn hboard
  have htBoard : { t.board with closing := some item.runId } = ({ s.board with
      tasks := tasks
      teams := t.teams
      dispatches := s.dispatches.set { item with status := .cancelled }
      closing := some item.runId } : Board) := by
    rw [ht]
    simp [TeamStore.board, Document.board, huDispatches, huTasks, huRuns, huDrawn]
  rw [huTeams] at hteams
  refine ⟨?_, ?_, ?_⟩
  · rw [htBoard]
    have hkept : ({ item with status := .cancelled } : TeamDispatch) ∈ s.dispatches.set { item with status := .cancelled } :=
      Table.mem_set.mpr (.inl rfl)
    rcases hmember with ⟨hrunning, hidled⟩ | rfl
    · -- The member has been idled with the task: the second time changes nothing.
      have hturned := @Moves.one base Cancelling _ { s.board with closing := some item.runId } _ (.inr (.inl rfl)) (.turn
        hitem hstep (by simp [hrunning]) (by simp) (fun _ => hrunning) (by simp) hturn hidled)
      exact hturned.next (.inl rfl) (.idle hkept rfl hteams)
    · rcases hpending with hqueued | hrunning
      · have hdropped := @Moves.one base Cancelling _ { s.board with closing := some item.runId } _ (.inr (.inl rfl)) (.drop
          hitem hstep hqueued cancelled_ended hturn)
        exact hdropped.next (.inl rfl) (.idle hkept rfl hteams)
      · exact .one (.inr (.inl rfl)) (.turn hitem hstep (by simp [hrunning]) (by simp) (fun _ => hrunning) (by simp) hturn hteams)
  · rw [ht]
    exact huDispatches
  · rw [ht]
    exact huRuns

variable (base) in
theorem cancelItems_moves {teamId runId : ℕ} (ids : List ℕ) (hs : Sound { s.board with closing := some runId })
    (hteam : ∀ run ∈ s.runs, run.id = runId → run.teamId = teamId)
    (hleft : ∀ item ∈ s.dispatches, item.runId = runId → item.status.Pending → item.id ∈ ids) {r : Unit}
    (h : cancelItems teamId runId ids s = (.ok r, t)) :
    Moves base Cancelling { s.board with closing := some runId } { t.board with closing := some runId } ∧
      ∀ item ∈ t.dispatches, item.runId = runId → ¬ item.status.Pending := by
  induction ids generalizing s with
  | nil =>
    obtain ⟨-, rfl⟩ := pure_ok.mp h
    exact ⟨.none, fun item hitem hkey hpending => by cases hleft item hitem hkey hpending⟩
  | cons id _ ih =>
    obtain ⟨_, u, hone, hothers⟩ := bind_ok.mp h
    change forEach (cancelItem teamId runId) (s.dispatches.find? id).toList s = (.ok (), u) at hone
    cases hfind : s.dispatches.find? id with
    | none =>
      rw [forEach_of_none hfind] at hone
      cases hone
      refine ih hs hteam ?_ hothers
      intro item hitem hkey hpending
      rcases List.mem_cons.mp (hleft item hitem hkey hpending) with hsame | hmem
      · exact absurd hsame (Table.find?_eq_none.mp hfind item hitem)
      · exact hmem
    | some item =>
      obtain ⟨hitem, rfl⟩ := Table.find?_eq_some.mp hfind
      have hcancel := forEach_some hfind hone
      by_cases hactive : item.runId = runId ∧ item.status.Pending
      · obtain ⟨hkey, hpending⟩ := hactive
        have hitemTeam : item.teamId = teamId := by
          obtain ⟨run, hrun, hid, hrunTeam, -⟩ := hs.inRun item hitem
          exact hrunTeam.symm.trans (hteam run hrun (hid.trans hkey))
        obtain ⟨hmoves, hdispatches, hruns⟩ := cancelItem_moves base hs hitem hkey hitemTeam hpending hcancel
        have hrest := ih (s := u) (hmoves.sound hs) (hruns ▸ hteam) ?_ hothers
        · exact ⟨hmoves.trans hrest.1, hrest.2⟩
        · intro row hrow hkey' hpending'
          rw [hdispatches] at hrow
          rcases Table.mem_set.mp hrow with rfl | ⟨hold, hne⟩
          · exact absurd hpending' cancelled_ended
          · exact (List.mem_cons.mp (hleft row hold hkey' hpending')).resolve_left hne
      · unfold cancelItem at hcancel
        rw [whenever_neg hactive] at hcancel
        obtain ⟨-, rfl⟩ := pure_ok.mp hcancel
        refine ih hs hteam ?_ hothers
        intro row hrow hkey hpending
        refine (List.mem_cons.mp (hleft row hrow hkey hpending)).resolve_left ?_
        intro hsame
        obtain rfl := Table.eq_of_key hrow hitem hsame
        exact hactive ⟨hkey, hpending⟩

end Cancel

section Control

variable (base) in
theorem resetDepths_moves (hs : Unsubmitted s) {runId : ℕ} {r : Unit} (h : resetDepths runId s = (.ok r, t)) :
    Moves base (· = .plain) s.board t.board ∧ t.runs = s.runs ∧ t.teams = s.teams := by
  obtain rfl := modify_ok.mp h
  refine ⟨?_, rfl, rfl⟩
  have hall : Moves base (· = .plain) s.board { s.board with
      dispatches := s.dispatches.update (fun item => item.runId = runId ∧ item.status = .queued) fun item =>
        { item with depth := 0, parentId := none } } ∧
      ∀ row ∈ s.dispatches.update (fun item => item.runId = runId ∧ item.status = .queued) fun item =>
        { item with depth := 0, parentId := none }, row.status = .queued → row.submittedAt = none := by
    refine Table.update_induction (P := fun table => Moves base (· = .plain) s.board { s.board with dispatches := table } ∧
      ∀ row ∈ table, row.status = .queued → row.submittedAt = none) ⟨.none, hs⟩ ?_
    rintro table row ⟨hmoves, hsubmitted⟩ hrow -
    refine ⟨hmoves.next rfl (.editDispatch hrow ⟨rfl, rfl, rfl, rfl, rfl, hsubmitted row hrow, .inl ⟨rfl, fun h => h⟩⟩ rfl), ?_⟩
    intro row' hrow' hqueued
    rcases Table.mem_set.mp hrow' with rfl | ⟨hold, -⟩
    · exact hsubmitted row hrow hqueued
    · exact hsubmitted row' hold hqueued
  exact hall.1

def TeamRun.controlled (run : TeamRun) (action : RunAction) : TeamRun :=
  { run with
    status := action.status
    reason := none
    segment := if action = .resume then run.segment + 1 else run.segment
    dispatchCount := if action = .resume then 0 else run.dispatchCount
    recruitedCount := if action = .resume then 0 else run.recruitedCount }

theorem controlRun_moves (hs : Sound s.board) {teamId runId : ℕ} {action : RunAction} {result : TeamRun}
    (h : controlRun teamId runId action s = (.ok result, t)) : Moves base Cancelling s.board t.board := by
  obtain ⟨u, v, hboard, -, hbody, hdocument, hdrawn, -⟩ := transaction_body h
  rw [board_eq hdocument hdrawn, ← hboard]
  rw [← hboard] at hs
  rw [read_bind] at hbody
  obtain ⟨run, _, hfound, hbody⟩ := bind_ok.mp hbody
  obtain ⟨hfind, rfl⟩ := required_ok.mp hfound
  obtain ⟨hrun, hid⟩ := Table.find?_eq_some.mp hfind
  obtain ⟨hteam, hbody⟩ := refuse_bind hbody
  obtain ⟨hopen, hbody⟩ := refuse_bind hbody
  rw [not_not] at hteam
  rw [setRun_bind] at hbody
  obtain ⟨_, w, hcancel, hbody⟩ := bind_ok.mp hbody
  obtain ⟨_, x, hresume, hbody⟩ := bind_ok.mp hbody
  rw [Calm.board_eq hbody]
  cases action with
  | pause =>
    rw [whenever_neg (by simp)] at hcancel hresume
    obtain ⟨-, rfl⟩ := pure_ok.mp hcancel
    obtain ⟨-, rfl⟩ := pure_ok.mp hresume
    exact .one (.inl rfl) (.setRun hrun rfl rfl hopen (by simp [RunAction.status, RunStatus.Finished]))
  | cancel =>
    rw [whenever_neg (by simp)] at hresume
    rw [whenever_pos rfl] at hcancel
    obtain ⟨-, rfl⟩ := pure_ok.mp hresume
    subst hid
    have hclosing : Moves base Cancelling u.board { u.board with
        runs := u.runs.set (run.controlled .cancel)
        closing := some run.id } := .one (.inr (.inr rfl)) (.cancelRun hrun rfl rfl hopen (.inr rfl) rfl)
    have hsameTeam : ∀ row ∈ u.runs.set (run.controlled .cancel), row.id = run.id → row.teamId = teamId := by
      intro _ hrow hkey
      rcases Table.mem_set.mp hrow with rfl | ⟨-, hne⟩
      · exact hteam
      · exact absurd hkey hne
    have hall : ∀ item ∈ u.dispatches, item.runId = run.id → item.status.Pending → item.id ∈ u.dispatches.rows.map TeamDispatch.id :=
      fun item hitem _ _ => List.mem_map_of_mem hitem
    obtain ⟨hmoves, hnone⟩ := cancelItems_moves base _ (by exact hclosing.sound hs) (by exact hsameTeam) (by exact hall) hcancel
    exact (hclosing.trans hmoves).next (.inl rfl) (.closed fun item hitem hkey => hnone item hitem (Option.some.inj hkey).symm)
  | resume =>
    rw [whenever_neg (by simp)] at hcancel
    rw [whenever_pos rfl] at hresume
    obtain ⟨-, rfl⟩ := pure_ok.mp hcancel
    obtain ⟨_, y, hreset, hresume⟩ := bind_ok.mp hresume
    have hreopened : Moves base (· = .plain) u.board { u.board with runs := u.runs.set (run.controlled .resume) } :=
      .one rfl (.setRun hrun rfl rfl hopen (by simp [TeamRun.controlled, RunAction.status, RunStatus.Finished]))
    obtain ⟨hmoves, hruns, _⟩ := resetDepths_moves base (by exact (hreopened.sound hs).unsubmitted) hreset
    have hbefore := hreopened.trans hmoves
    rcases whenever_of hresume with ⟨-, hresume⟩ | ⟨-, -, rfl⟩
    swap
    · exact hbefore.mono fun _ => .inl
    obtain ⟨team, _, hfoundTeam, hresume⟩ := bind_ok.mp hresume
    obtain ⟨rfl, hteamMem, hteamId⟩ := requiredTeam_ok hfoundTeam
    obtain ⟨lead, _, hlead, hresume⟩ := bind_ok.mp hresume
    obtain ⟨rfl, hlead, -⟩ := theLead_ok hlead
    have hcontinues : Continues y (run.controlled .resume) :=
      ⟨_, hruns ▸ Table.mem_set.mpr (.inl rfl), rfl, rfl, by simp [TeamRun.controlled, RunAction.status, RunStatus.Finished]⟩
    have hmember : HasMember y.teams run.teamId lead.id :=
      ⟨lead.status, team, hteamMem, hteamId.trans hteam.symm, lead, hlead, rfl, rfl⟩
    have hadds : Adds base (run.controlled .resume) y x := enqueue_adds (hbefore.sound hs).toBooks hcontinues hmember hresume
    exact (hbefore.trans hadds.moves).mono fun _ => .inl

theorem pauseBlockedRun_moves {run : TeamRun} (hrun : run ∈ s.runs) {r : Except String Unit} (h : pauseBlockedRun run s = (r, t)) :
    Moves base (· = .plain) s.board t.board := by
  unfold pauseBlockedRun at h
  rcases whenever_of h with ⟨hrunning, h⟩ | ⟨-, -, rfl⟩
  swap
  · exact .none
  rw [read_bind] at h
  rcases whenever_of h with ⟨-, h⟩ | ⟨-, -, rfl⟩
  swap
  · exact .none
  rcases Act.Reads.bind_eq h with ⟨_, -, rfl⟩ | ⟨_, -, h⟩
  · exact .none
  rcases whenever_of h with ⟨-, h⟩ | ⟨-, -, rfl⟩
  swap
  · exact .none
  rw [setRun_bind] at h
  rw [Calm.board_eq h]
  exact .one rfl (.setRun hrun rfl rfl (by simp [hrunning, RunStatus.Finished]) (by simp [RunStatus.Finished]))

end Control

end WorkAgent.Teams
