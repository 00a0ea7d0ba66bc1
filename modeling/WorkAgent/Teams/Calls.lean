import WorkAgent.Teams.Refinement

namespace WorkAgent.Teams

open Library Act List Table
open Board (dispatches drawn runs)

set_option synthInstance.maxSize 4000

variable {host : Host} {s t : TeamStore} {base : ℕ}

section Committed

theorem validateDependencies_ok {teamId : ℕ} {ids : List ℕ} {taskId : Option ℕ} {r : Unit}
    (h : validateDependencies teamId ids taskId s = (.ok r, t)) : s = t ∧ visitAll s.tasks teamId taskId ids = .ok () := by
  obtain ⟨-, h⟩ := refuse_bind h
  rw [read_bind] at h
  cases hvisit : visitAll s.tasks teamId taskId ids with
  | error =>
    rw [hvisit] at h
    cases h
  | ok =>
    rw [hvisit] at h
    obtain ⟨-, rfl⟩ := pure_ok.mp h
    exact ⟨rfl, rfl⟩

theorem queueTask_moves (hs : Sound s.board) {teamId : ℕ} {input : TaskInput} {parentId : Option ℕ} {task : TeamTask}
    (h : queueTask host teamId input parentId s = (.ok task, t)) : Moves s.drawn (· = .plain) s.board t.board := by
  obtain ⟨u, v, hboard, -, hbody, hdocument, hdrawn, -⟩ := transaction_body h
  rw [board_eq hdocument hdrawn]
  rw [← hboard] at hs ⊢
  have hbase : s.drawn = u.drawn := (congrArg drawn hboard).symm
  rw [hbase]
  clear h hboard hdocument hdrawn hbase
  obtain ⟨team, _, hteam, h⟩ := bind_ok.mp hbody
  obtain ⟨rfl, hteam, hteamId⟩ := requiredTeam_ok hteam
  obtain ⟨member, _, hmember, h⟩ := bind_ok.mp h
  obtain ⟨rfl, hmember, hmemberId⟩ := requiredMember_ok hmember
  obtain ⟨_, _, hvalid, h⟩ := bind_ok.mp h
  obtain ⟨rfl, hchecked⟩ := validateDependencies_ok hvalid
  obtain ⟨id, _, hdraw, h⟩ := bind_ok.mp h
  cases hdraw
  obtain ⟨title, _, htitle, h⟩ := bind_ok.mp h
  obtain ⟨-, rfl⟩ := required_ok.mp htitle
  obtain ⟨text, _, htext, h⟩ := bind_ok.mp h
  obtain ⟨-, rfl⟩ := required_ok.mp htext
  obtain ⟨_, _, hset, h⟩ := bind_ok.mp h
  obtain rfl := modify_ok.mp hset
  obtain ⟨run, w, hrun, h⟩ := bind_ok.mp h
  obtain ⟨_, x, henqueue, h⟩ := bind_ok.mp h
  obtain ⟨_, y, hevent, h⟩ := bind_ok.mp h
  obtain ⟨_, z, hsave, h⟩ := bind_ok.mp h
  obtain ⟨rfl, rfl⟩ := pure_ok.mp h
  rw [Calm.board_eq hsave, Calm.board_eq hevent]
  have hfresh : ∀ row ∈ u.tasks, row.id < u.drawn := hs.taskFresh
  obtain ⟨hmoves, hteams, htasks, hdispatches, hmem, hrunTeam, hopen⟩ := ensureRun_ok u.drawn u.tasks hrun
  obtain ⟨depth, v, hedge, hboard⟩ := enqueue_ok henqueue
  have hsubmitted : Unsubmitted w := by
    unfold Unsubmitted
    rw [hdispatches]
    exact hs.unsubmitted
  obtain ⟨hmoves', hteams', htasks', _, hturns, hcontinues⟩ :=
    registerEdge_ok u.drawn u.tasks hsubmitted ⟨run, hmem, rfl, rfl, hopen⟩ hedge
  have hdraw : Moves u.drawn (· = .plain) u.board { u.board with drawn := u.drawn + 1 } := .one rfl (.draw u.board)
  have hbefore : Moves u.drawn (· = .plain) u.board { v.board with tasks := u.tasks } := (hdraw.trans hmoves).trans hmoves'
  have hlater : u.drawn < v.drawn := (Nat.lt_succ_self _).trans_le (hmoves.drawn.trans hmoves'.drawn)
  rw [show x.board = { ({ v.board with tasks := u.tasks } : Board) with
    tasks := u.tasks.set ⟨u.drawn, teamId, input.memberId, 1, input.dependsOnIds, title, text, .queued, none, none, none⟩
    dispatches := v.dispatches.set ⟨v.drawn, run.teamId, run.id, input.memberId, some u.drawn, [], text, parentId, depth, [], .queued, none,
      none, none, none, none⟩
    drawn := v.drawn + 1 } by rw [hboard]; simp [TeamStore.board, Document.board, htasks', htasks]]
  refine hbefore.next rfl (.enqueueTask rfl rfl rfl hcontinues ?_ rfl hrunTeam.symm rfl rfl (Nat.le_refl _) hlater ?_ ?_ ?_)
  · change HasMember v.teams run.teamId input.memberId
    rw [hteams', hteams, hrunTeam, ← hteamId, ← hmemberId]
    exact ⟨member.status, team, hteam, rfl, member, hmember, rfl, rfl⟩
  · exact fun row hrow => (hfresh row hrow).ne
  · intro row hrow
    obtain ⟨_, hold⟩ := hturns.2 row hrow
    rw [hdispatches] at hold
    exact (hs.dispatchFresh _ hold).ne
  · intro id hid
    exact (visitAll_ok _ hchecked id hid).1

theorem forEach_some {α : Type} {f : α → StoreAct Unit} {o : Option α} {a : α} {r : Unit} (ho : o = some a)
    (h : forEach f o.toList s = (.ok r, t)) : f a s = (.ok (), t) := by
  subst ho
  obtain ⟨_, u, hx, h⟩ := bind_ok.mp h
  obtain ⟨-, rfl⟩ := pure_ok.mp h
  exact hx

theorem sendMessage_moves (hs : Sound s.board) {teamId : ℕ} {input : MessageInput} {parentId : Option ℕ} {message : TeamMailboxMessage}
    (h : sendMessage host teamId input parentId s = (.ok message, t)) : Moves base (· = .plain) s.board t.board ∧
      t.teams = s.teams ∧ t.tasks = s.tasks ∧
      ∀ item ∈ s.dispatches, item.status ≠ .queued → ∃ fanout, { item with fanoutMemberIds := fanout } ∈ t.dispatches := by
  obtain ⟨u, v, hboard, -, hbody, hdocument, hdrawn, -⟩ := transaction_body h
  have htv := board_eq hdocument hdrawn
  rw [htv, show t.teams = v.teams from congrArg Board.teams htv, show t.tasks = v.tasks from congrArg Board.tasks htv,
    show t.dispatches = v.dispatches from congrArg dispatches htv, ← show u.teams = s.teams from congrArg Board.teams hboard,
    ← show u.tasks = s.tasks from congrArg Board.tasks hboard, ← show u.dispatches = s.dispatches from congrArg dispatches hboard]
  rw [← hboard] at hs ⊢
  clear h hboard hdocument hdrawn htv
  obtain ⟨team, _, hteam, h⟩ := bind_ok.mp hbody
  obtain ⟨rfl, hteam, hteamId⟩ := requiredTeam_ok hteam
  obtain ⟨_, _, hsender, h⟩ := bind_ok.mp h
  obtain rfl := (Act.Reads.state hsender).symm
  obtain ⟨_, _, hreceiver, h⟩ := bind_ok.mp h
  obtain rfl := (Act.Reads.state hreceiver).symm
  obtain ⟨id, _, hdraw, h⟩ := bind_ok.mp h
  cases hdraw
  obtain ⟨_, _, hparsed, h⟩ := bind_ok.mp h
  obtain ⟨-, rfl⟩ := required_ok.mp hparsed
  obtain ⟨_, w, hset, h⟩ := bind_ok.mp h
  obtain ⟨run, x, hrun, h⟩ := bind_ok.mp h
  obtain ⟨_, y, hdeliver, h⟩ := bind_ok.mp h
  obtain ⟨_, z, hevent, h⟩ := bind_ok.mp h
  obtain ⟨_, z', hsave, h⟩ := bind_ok.mp h
  obtain ⟨-, rfl⟩ := pure_ok.mp h
  have hzy := (Calm.board_eq hsave).trans (Calm.board_eq hevent)
  rw [hzy, show z'.teams = y.teams from congrArg Board.teams hzy, show z'.tasks = y.tasks from congrArg Board.tasks hzy,
    show z'.dispatches = y.dispatches from congrArg dispatches hzy]
  have hw : w.board = { u.board with drawn := u.drawn + 1 } := Calm.board_eq hset
  have hdraw : Moves base (· = .plain) u.board w.board := by
    rw [hw]
    exact .one rfl (.draw u.board)
  obtain ⟨_, hteams, htasks, hdispatches, hmem, hrunTeam, hopen⟩ := ensureRun_ok base w.tasks hrun
  have hbefore : Moves base (· = .plain) u.board x.board := by
    refine hdraw.trans ?_
    obtain ⟨hmoves', -, htasks', -⟩ := ensureRun_ok base x.tasks hrun
    rw [show w.board = { w.board with tasks := x.tasks } by rw [htasks']; rfl]
    exact hmoves'
  have hsound : Sound x.board := hbefore.sound hs
  have hteamsEq : x.teams = u.teams := hteams.trans (congrArg Board.teams hw)
  have htargets : ∀ memberId ∈ input.toMemberId.elim
      ((team.members.filter fun member => some member.id ≠ input.fromMemberId).map TeamMember.id) fun id => [id],
      HasMember u.teams run.teamId memberId := by
    intro memberId hmemberId
    rw [hrunTeam, ← hteamId]
    cases hto : input.toMemberId with
    | none =>
      rw [hto] at hmemberId
      obtain ⟨member, hmember, rfl⟩ := mem_map.mp hmemberId
      exact ⟨member.status, team, hteam, rfl, member, (mem_filter.mp hmember).1, rfl, rfl⟩
    | some =>
      rw [hto] at hmemberId
      obtain rfl := mem_singleton.mp hmemberId
      have hone := forEach_some hto hreceiver
      obtain ⟨member, _, hfound, -⟩ := bind_ok.mp hone
      obtain ⟨-, hmember, rfl⟩ := requiredMember_ok hfound
      exact ⟨member.status, team, hteam, rfl, member, hmember, rfl, rfl⟩
  have hadds : Adds base run x y := by
    refine forEach_ok (fun memberId hmemberId v v' hadds hone => ?_) ⟨.none, rfl, rfl, ⟨run, hmem, rfl, rfl, hopen⟩, fun item h _ => ⟨item.fanoutMemberIds, h⟩⟩ hdeliver
    refine hadds.trans (deliver_adds (hadds.moves.sound hsound).toBooks hadds.continues ?_ hone)
    rw [hadds.teams, hteamsEq]
    exact htargets memberId hmemberId
  refine ⟨hbefore.trans hadds.moves, hadds.teams.trans hteamsEq, (hadds.tasks.trans htasks).trans (congrArg Board.tasks hw), ?_⟩
  intro item hitem hsettled
  refine hadds.settled item ?_ hsettled
  rw [hdispatches, show w.dispatches = u.dispatches from congrArg dispatches hw]
  exact hitem

end Committed

section Roster

variable {teams : Table Team.id} {team : Team} {memberId : ℕ} {status : MemberStatus} {f : TeamMember → TeamMember}

theorem restatused_map (hteam : team ∈ teams) (hf : ∀ member ∈ team.members, (f member).id = member.id ∧ (f member).role = member.role ∧
      (f member).status = if member.id = memberId then status else member.status) :
    Restatused teams (teams.set { team with members := team.members.map f }) team.id memberId status := by
  have hrow {row : Team} (hrow : row ∈ teams.set { team with members := team.members.map f }) :
      row = { team with members := team.members.map f } ∨ row ∈ teams ∧ row.id ≠ team.id := Table.mem_set.mp hrow
  have hself : { team with members := team.members.map f } ∈ teams.set { team with members := team.members.map f } :=
    Table.mem_set.mpr (.inl rfl)
  refine ⟨?_, ?_, ?_, ?_⟩
  · intro _
    constructor
    · rintro ⟨row, hmem, rfl⟩
      rcases hrow hmem with rfl | ⟨hold, -⟩
      · exact ⟨team, hteam, rfl⟩
      · exact ⟨row, hold, rfl⟩
    · rintro ⟨row, hmem, rfl⟩
      by_cases hid : row.id = team.id
      · exact ⟨_, hself, hid.symm⟩
      · exact ⟨row, Table.mem_set.mpr (.inr ⟨hmem, hid⟩), rfl⟩
  · intro hformed row hmem
    rcases hrow hmem with rfl | ⟨hold, -⟩
    · obtain ⟨hnodup, lead, hlead, hrole⟩ := hformed team hteam
      constructor
      · have hids : (team.members.map f).map TeamMember.id = team.members.map TeamMember.id := by
          rw [map_map]
          exact map_congr_left fun member hmember => (hf member hmember).1
        rw [hids]
        exact hnodup
      · exact ⟨f lead, mem_map_of_mem hlead, (hf lead hlead).2.1.trans hrole⟩
    · exact hformed row hold
  · intro status'
    constructor
    · rintro ⟨row, hmem, hid, member', hmember', hkey, rfl⟩
      rcases hrow hmem with rfl | ⟨-, hne⟩
      · obtain ⟨member, hmember, rfl⟩ := mem_map.mp hmember'
        obtain ⟨hfid, -, hstatus⟩ := hf member hmember
        rw [hfid] at hkey
        rw [if_pos hkey] at hstatus
        exact ⟨hstatus, member.status, team, hteam, rfl, member, hmember, hkey, rfl⟩
      · exact absurd hid hne
    · rintro ⟨rfl, status₀, row, hmem, hid, member, hmember, hkey, -⟩
      obtain rfl := eq_of_key hmem hteam hid
      obtain ⟨hfid, -, hstatus⟩ := hf member hmember
      rw [if_pos hkey] at hstatus
      exact ⟨_, hself, rfl, f member, mem_map_of_mem hmember, hfid.trans hkey, hstatus⟩
  · intro _ _ _ hother
    constructor
    · rintro ⟨row, hmem, hid, member', hmember', hkey, hstatus'⟩
      rcases hrow hmem with rfl | ⟨hold, -⟩
      · obtain ⟨member, hmember, rfl⟩ := mem_map.mp hmember'
        obtain ⟨hfid, -, hstatus⟩ := hf member hmember
        rw [hfid] at hkey
        have hne : member.id ≠ memberId := by
          rintro hsame
          rcases hother with h | h
          · exact h hid.symm
          · exact h (hkey.symm.trans hsame)
        rw [if_neg hne] at hstatus
        exact ⟨team, hteam, hid, member, hmember, hkey, hstatus.symm.trans hstatus'⟩
      · exact ⟨row, hold, hid, member', hmember', hkey, hstatus'⟩
    · rintro ⟨row, hmem, hid, member, hmember, hkey, hstatus'⟩
      by_cases hsame : row.id = team.id
      · obtain rfl := eq_of_key hmem hteam hsame
        obtain ⟨hfid, -, hstatus⟩ := hf member hmember
        have hne : member.id ≠ memberId := by
          rintro hsame
          rcases hother with h | h
          · exact h hid.symm
          · exact h (hkey.symm.trans hsame)
        rw [if_neg hne] at hstatus
        exact ⟨_, hself, hid, f member, mem_map_of_mem hmember, hfid.trans hkey, hstatus.trans hstatus'⟩
      · exact ⟨row, Table.mem_set.mpr (.inr ⟨hmem, hsame⟩), hid, member, hmember, hkey, hstatus'⟩

theorem idleMember_ok {teamId : ℕ} {failed : Bool} {r : Unit} (h : idleMember teamId memberId failed s = (.ok r, t)) :
    t = { s with teams := t.teams } ∧ Restatused s.teams t.teams teamId memberId (if failed then .error else .idle) := by
  obtain ⟨_, _, hfound, h⟩ := bind_ok.mp h
  obtain ⟨rfl, hteam, hid⟩ := requiredTeam_ok hfound
  obtain rfl := modify_ok.mp h
  subst hid
  refine ⟨rfl, restatused_map hteam ?_⟩
  intro member _
  by_cases hid : member.id = memberId
  · simp [hid]
  · simp [hid]

end Roster

section Turns

theorem whenever_of {condition : Prop} [Decidable condition] {body : StoreAct Unit} {r : Except String Unit}
    (h : whenever condition body s = (r, t)) : condition ∧ body s = (r, t) ∨ ¬ condition ∧ r = .ok () ∧ t = s := by
  unfold whenever at h
  split at h
  · exact .inl ⟨‹_›, h⟩
  · obtain ⟨rfl, rfl⟩ := Prod.mk.inj h
    exact .inr ⟨‹_›, rfl, rfl⟩

def Ready (tasks : Table TeamTask.id) (id : ℕ) : Prop :=
  ∃ task ∈ tasks, task.id = id ∧ ∀ dependency ∈ task.dependsOnIds, ∃ other ∈ tasks, other.id = dependency ∧ other.status = .succeeded

theorem beginTask_ok (hformed : ∀ team ∈ s.teams, team.Formed) {id : ℕ} {r : Unit} (h : beginTask id s = (.ok r, t)) :
    Ready s.tasks id ∧ ∃ task ∈ s.tasks, task.id = id ∧ task.status = .queued ∧
      t.board = { s.board with tasks := s.tasks.set { task with status := .running }, teams := t.teams } ∧
      Restatused s.teams t.teams task.teamId task.memberId .running := by
  obtain ⟨task, _, hfoundTask, h⟩ := bind_ok.mp h
  obtain ⟨rfl, htask, hid⟩ := requiredTask_ok hfoundTask
  obtain ⟨hqueued, h⟩ := refuse_bind h
  obtain ⟨team, _, hfoundTeam, h⟩ := bind_ok.mp h
  obtain ⟨rfl, hteam, hteamId⟩ := requiredTeam_ok hfoundTeam
  obtain ⟨member, _, hfoundMember, h⟩ := bind_ok.mp h
  obtain ⟨rfl, hmember, hmemberId⟩ := requiredMember_ok hfoundMember
  rw [read_bind] at h
  obtain ⟨hblocked, h⟩ := refuse_bind h
  obtain ⟨-, h⟩ := refuse_bind h
  obtain ⟨_, u, hsetTask, h⟩ := bind_ok.mp h
  obtain rfl := modify_ok.mp hsetTask
  obtain ⟨_, v, hsetTeam, h⟩ := bind_ok.mp h
  obtain ⟨_, w, hevent, hsave⟩ := bind_ok.mp h
  have hboard : t.board = v.board := (Calm.board_eq hsave).trans (Calm.board_eq hevent)
  obtain rfl := modify_ok.mp hsetTeam
  have hteams : t.teams = _ := congrArg Board.teams hboard
  refine ⟨⟨task, htask, hid, ?_⟩, task, htask, hid, not_not.mp hqueued, ?_, ?_⟩
  · intro dependency hd
    by_contra hnone
    refine hblocked ⟨dependency, hd, fun hsucceeded => hnone ?_⟩
    obtain ⟨other, hfind, hstatus⟩ := Option.map_eq_some_iff.mp hsucceeded
    obtain ⟨hmem, hkey⟩ := find?_eq_some.mp hfind
    exact ⟨other, hmem, hkey, hstatus⟩
  · rw [hteams, hboard]
    rfl
  · rw [hteams, ← hteamId, ← hmemberId]
    refine restatused_map hteam fun value hvalue => ?_
    by_cases hsame : value.id = member.id
    · have hvalueEq : value = member := inj_on_of_nodup_map (hformed team hteam).1 hvalue hmember hsame
      rw [hvalueEq]
      simp
    · simp [hsame]

def Beginning (kind : Kind) : Prop := kind = .plain ∨ kind = .begins

theorem begins_moves {item : TeamDispatch} {run : TeamRun} {tasks : Table TeamTask.id} {teams : Table Team.id}
    (hitem : item ∈ s.dispatches) (hqueued : item.status = .queued) (hrun : run ∈ s.runs) (hrunning : run.status = .running)
    (hfree : ¬ Seats s.teams item.teamId item.memberId .running)
    (hroom : (s.dispatches.count fun row => row.runId = item.runId ∧ row.status = .running) < 4)
    (htasks : TaskTurn .begins s.tasks tasks item { item with status := .running, notBefore := none })
    (hteams : Restatused s.teams teams item.teamId item.memberId .running) :
    Moves base Beginning s.board { s.board with
      tasks := tasks
      teams := teams
      runs := s.runs.set { run with dispatchCount := run.dispatchCount + 1 }
      dispatches := s.dispatches.set { item with status := .running, notBefore := none } } := by
  have hopen : ¬ run.status.Finished := by simp [hrunning, RunStatus.Finished]
  have hcounted : Move base .plain s.board { s.board with runs := s.runs.set { run with dispatchCount := run.dispatchCount + 1 } } :=
    .setRun hrun rfl rfl hopen hopen
  refine (Moves.one (.inl rfl) hcounted).next (.inr rfl) ?_
  refine Move.turn hitem ⟨rfl, rfl, rfl, rfl, rfl, ?_, .inr (.inr (.inl ⟨rfl, hqueued, rfl⟩))⟩ ?_ (by simp) (by simp) ?_ htasks hteams
  · intro h
    cases h
  · simp [hqueued]
  · exact fun _ => ⟨rfl, hfree, hroom⟩

theorem beginDispatch_ok (hs : Sound s.board) {id : ℕ} {r : Unit} (h : beginDispatch id s = (.ok r, t)) :
    Moves base Beginning s.board t.board ∧ (s.batch = false → t.batch = false ∧ t.file = t.toDocument) ∧
      (∀ item ∈ t.dispatches, item ∈ s.dispatches ∨ item.id = id) ∧
      ∃ item ∈ s.dispatches, item.id = id ∧ item.status = .queued ∧ item.depth ≤ 8 ∧
        (∃ run ∈ s.runs, run.id = item.runId ∧ run.status = .running) ∧ (∀ taskId, item.taskId = some taskId → Ready s.tasks taskId) ∧
        ∀ task ∈ t.tasks, task ∈ s.tasks ∨ item.taskId = some task.id := by
  obtain ⟨item, _, hfoundItem, h⟩ := bind_ok.mp h
  obtain ⟨rfl, hitem, hid⟩ := theDispatch_ok hfoundItem
  obtain ⟨run, _, hfoundRun, h⟩ := bind_ok.mp h
  obtain ⟨rfl, hrun, hrunId⟩ := theRun_ok hfoundRun
  obtain ⟨hready, h⟩ := refuse_bind h
  obtain ⟨team, _, hfoundTeam, h⟩ := bind_ok.mp h
  obtain ⟨rfl, hteam, hteamId⟩ := requiredTeam_ok hfoundTeam
  obtain ⟨member, _, hfoundMember, h⟩ := bind_ok.mp h
  obtain ⟨rfl, hmember, hmemberId⟩ := requiredMember_ok hfoundMember
  rw [read_bind] at h
  obtain ⟨hbusy, h⟩ := refuse_bind h
  simp only [ne_eq, not_or, not_not] at hready
  obtain ⟨hqueued, hrunning⟩ := hready
  rw [not_or, not_le] at hbusy
  obtain ⟨hidle, hroom⟩ := hbusy
  have hfree : ¬ Seats s.teams item.teamId item.memberId .running := by
    intro hseat
    rw [← hteamId, ← hmemberId] at hseat
    exact hidle (hs.seat _ _ _ _ _ ⟨team, hteam, rfl, member, hmember, rfl, rfl⟩ hseat).2
  split at h
  · obtain ⟨_, _, _, h⟩ := bind_ok.mp h
    obtain ⟨_, _, _, h⟩ := bind_ok.mp h
    obtain ⟨_, _, _, h⟩ := bind_ok.mp h
    cases h
  · rename_i hlimit
    rw [not_or, not_le, not_lt] at hlimit
    obtain ⟨u, v, hboard, _, hbody, hdocument, hdrawn, hsaved⟩ := transaction_body h
    have hsu : Sound u.board := hboard ▸ hs
    have hteams : u.teams = s.teams := congrArg Board.teams hboard
    have htasksEq : u.tasks = s.tasks := congrArg Board.tasks hboard
    have hruns : u.runs = s.runs := congrArg runs hboard
    have hdispatches : u.dispatches = s.dispatches := congrArg dispatches hboard
    obtain ⟨_, w, hturn, hrest⟩ := bind_ok.mp hbody
    obtain ⟨_, x, hsetRun, hrest⟩ := bind_ok.mp hrest
    obtain ⟨_, y, hsetItem, hrest⟩ := bind_ok.mp hrest
    obtain ⟨_, z, hevent, hsave⟩ := bind_ok.mp hrest
    have hboardV : v.board = y.board := (Calm.board_eq hsave).trans (Calm.board_eq hevent)
    obtain rfl := modify_ok.mp hsetRun
    obtain rfl := modify_ok.mp hsetItem
    -- What the turn does to the task and to the member.
    have hw : ∃ tasks teams, w.board = { u.board with tasks := tasks, teams := teams } ∧
        TaskTurn .begins u.tasks tasks item { item with status := .running, notBefore := none } ∧
        Restatused u.teams teams item.teamId item.memberId .running ∧ ∀ taskId, item.taskId = some taskId → Ready u.tasks taskId := by
      cases htask : item.taskId with
      | none =>
        rw [htask] at hturn
        have hsetTeam : setTeam _ u = _ := hturn
        obtain rfl := modify_ok.mp hsetTeam
        refine ⟨u.tasks, _, rfl, .inl ⟨rfl, ?_⟩, ?_, by simp⟩
        · simp [htask]
        · change Restatused u.teams (u.teams.set _) item.teamId item.memberId .running
          rw [← hteamId, ← hmemberId]
          refine restatused_map (hteams ▸ hteam) fun row _ => ?_
          by_cases hsame : row.id = member.id <;> simp [hsame]
      | some taskId =>
        rw [htask] at hturn
        obtain ⟨hready, task, hmem, hkey, hwaits, hboardW, hteams⟩ := beginTask_ok hsu.formed hturn
        have hitemU : item ∈ u.dispatches := by rwa [hdispatches]
        obtain ⟨_, hmem', hkey', hteamTask, hmemberTask, -⟩ := hsu.forTask item hitemU taskId htask
        obtain rfl := eq_of_key hmem hmem' (hkey.trans hkey'.symm)
        rw [hteamTask, hmemberTask] at hteams
        refine ⟨_, _, hboardW, .inr ⟨task, hmem, { task with status := .running }, htask.trans (congrArg some hkey.symm), ?_, rfl, .inl rfl, rfl⟩,
          hteams, ?_⟩
        · exact ⟨rfl, rfl, rfl, .inr (.inr (.inl ⟨rfl, hwaits, rfl⟩))⟩
        · intro _ hsame
          cases hsame
          exact hready
    obtain ⟨tasks, teams, hboardW, htasks, hteamsW, hreadyTask⟩ := hw
    have hboardT : t.board = { u.board with
        tasks := tasks
        teams := teams
        runs := u.runs.set { run with dispatchCount := run.dispatchCount + 1 }
        dispatches := u.dispatches.set { item with status := .running, notBefore := none } } := by
      have hrunsW : w.runs = u.runs := congrArg runs hboardW
      have hdispatchesW : w.dispatches = u.dispatches := congrArg dispatches hboardW
      have htasksW : w.tasks = tasks := congrArg Board.tasks hboardW
      have hteamsW' : w.teams = teams := congrArg Board.teams hboardW
      have hdrawnW : w.drawn = u.drawn := congrArg drawn hboardW
      rw [board_eq hdocument hdrawn, hboardV]
      simp [TeamStore.board, Document.board, hrunsW, hdispatchesW, htasksW, hteamsW', hdrawnW]
    refine ⟨?_, hsaved, ?_, item, hitem, hid, hqueued, hlimit.2, ⟨run, hrun, hrunId, hrunning⟩, ?_, ?_⟩
    · rw [hboardT, ← hboard]
      exact begins_moves (hdispatches ▸ hitem) hqueued (hruns ▸ hrun) hrunning (hteams ▸ hfree) (hdispatches ▸ hroom) htasks hteamsW
    · intro _ hrow
      have hdispatchesT : t.dispatches = u.dispatches.set { item with status := .running, notBefore := none } :=
        congrArg dispatches hboardT
      rw [hdispatchesT] at hrow
      rcases Table.mem_set.mp hrow with rfl | ⟨hold, -⟩
      · exact .inr hid
      · exact .inl (hdispatches ▸ hold)
    · exact htasksEq ▸ hreadyTask
    · intro _ htask
      have htasksT : t.tasks = tasks := congrArg Board.tasks hboardT
      rw [htasksT] at htask
      rcases htasks with ⟨rfl, -⟩ | ⟨_, -, _, hkey, ⟨hsame, -⟩, -, -, rfl⟩
      · exact .inl (htasksEq ▸ htask)
      · rcases Table.mem_set.mp htask with rfl | ⟨hold, -⟩
        · exact .inr (hkey.trans (congrArg some hsame.symm))
        · exact .inl (htasksEq ▸ hold)

end Turns

end WorkAgent.Teams
