import WorkAgent.Teams.Stalls

namespace WorkAgent.Teams

open Library Table

set_option synthInstance.maxSize 4000

variable {s t : TeamStore} {base : ℕ} {kind : Kind} {allowed : Kind → Prop} {b c : Board} {acknowledged : List ℕ}

section Recoverable

def TeamTask.Restarted (task : TeamTask) : Prop := task.status = .failed ∧ task.error = some "runtime_restarted"

instance (task : TeamTask) : Decidable task.Restarted := inferInstanceAs (Decidable (_ ∧ _))

def Uninterrupted (dispatches : Table TeamDispatch.id) (task : TeamTask) : Prop :=
  ∀ item ∈ dispatches, item.taskId = some task.id → item.status ≠ .interrupted

structure Recoverable (acknowledged : List ℕ) (b : Board) : Prop where
  items : ∀ item ∈ b.dispatches, item.status = .interrupted → item.id ∉ acknowledged → HasMember b.teams item.teamId item.memberId
  tasks : ∀ task ∈ b.tasks, task.Restarted → task.id ∉ acknowledged → Uninterrupted b.dispatches task → HasMember b.teams task.teamId task.memberId

theorem Recoverable.mono {acknowledged' : List ℕ} (h : Recoverable acknowledged b) (hsub : ∀ id ∈ acknowledged, id ∈ acknowledged') :
    Recoverable acknowledged' b where
  items item hitem hstatus hnot := h.items item hitem hstatus fun hmem => hnot (hsub _ hmem)
  tasks task htask hrestarted hnot := h.tasks task htask hrestarted fun hmem => hnot (hsub _ hmem)

theorem Move.member (h : Move base kind b c) (hno : kind ≠ .removes) {teamId memberId : ℕ} (hmember : HasMember b.teams teamId memberId) :
    HasMember c.teams teamId memberId ∨ (∀ item ∈ c.dispatches, item.teamId ≠ teamId) ∧ ∀ task ∈ c.tasks, task.teamId ≠ teamId := by
  cases h with
  | staff _ h =>
    obtain ⟨status, hseat⟩ := hmember
    rcases h.stayed _ _ _ hseat with hseat' | ⟨hremoves, -⟩
    · exact .inl ⟨status, hseat'⟩
    · exact absurd hremoves hno
  | deleteTeam id =>
    by_cases hsame : teamId = id
    · subst hsame
      exact .inr ⟨fun item hitem => (mem_delete.mp hitem).2, fun task htask => (mem_delete.mp htask).2⟩
    · obtain ⟨status, team, hteam, hid, hseat⟩ := hmember
      exact .inl ⟨status, team, mem_delete.mpr ⟨hteam, fun h => hsame (hid.symm.trans h)⟩, hid, hseat⟩
  | turn _ _ _ _ _ _ _ hteams | idle _ _ hteams => exact .inl ((hteams.has _ _).mpr hmember)
  | _ => exact .inl hmember

theorem TurnStep.interrupted {item item' : TeamDispatch} (h : TurnStep kind item item') (hstatus : item'.status = .interrupted) :
    item.status = .interrupted := by
  obtain ⟨-, -, -, -, -, -, ⟨hsame, -⟩ | ⟨-, -, -, hnot⟩ | ⟨-, -, hrunning⟩ | ⟨-, -, -, hqueued⟩⟩ := h
  · exact hsame.symm.trans hstatus
  · exact absurd hstatus hnot
  · cases hrunning.symm.trans hstatus
  · cases hqueued.symm.trans hstatus

theorem TurnStep.not_interrupted {item item' : TeamDispatch} (h : TurnStep kind item item') (hmoves : item'.status ≠ item.status) :
    item.status ≠ .interrupted := by
  intro hstatus
  obtain ⟨-, -, -, -, -, -, ⟨hsame, -⟩ | ⟨-, hpending, -⟩ | ⟨-, hqueued, -⟩ | ⟨-, hrunning, -⟩⟩ := h
  · exact hmoves hsame
  · rw [hstatus] at hpending
    simp [DispatchStatus.Pending] at hpending
  · cases hqueued.symm.trans hstatus
  · cases hrunning.symm.trans hstatus

theorem Move.interrupted (h : Move base kind b c) (hs : Sound b) {item : TeamDispatch} (hitem : item ∈ b.dispatches)
    (hstatus : item.status = .interrupted) :
    (∃ item' ∈ c.dispatches, item'.taskId = item.taskId ∧ item'.status = .interrupted) ∨ ∀ task ∈ c.tasks, task.teamId ≠ item.teamId := by
  have hother {next : TeamDispatch} (hne : item.id ≠ next.id) :
      (∃ item' ∈ b.dispatches.set next, item'.taskId = item.taskId ∧ item'.status = .interrupted) ∨ ∀ task ∈ c.tasks, task.teamId ≠ item.teamId :=
    .inl ⟨item, mem_set.mpr (.inr ⟨hitem, hne⟩), rfl, hstatus⟩
  have hold := hs.dispatchFresh item hitem
  cases h with
  | deleteTeam id =>
    by_cases hsame : item.teamId = id
    · subst hsame
      exact .inr fun task htask => (mem_delete.mp htask).2
    · exact .inl ⟨item, mem_delete.mpr ⟨hitem, hsame⟩, rfl, hstatus⟩
  | @editDispatch _ _ next hbefore hstep hsame =>
    by_cases hid : item.id = next.id
    · obtain rfl := eq_of_key hitem hbefore (hid.trans hstep.1)
      exact .inl ⟨next, mem_set.mpr (.inl rfl), hstep.2.2.2.2.1, hsame.trans hstatus⟩
    · exact hother hid
  | enqueue | enqueueTask =>
    refine hother ?_
    omega
  | @turn _ _ _ _ _ _ _ hbefore hstep hmoves =>
    refine hother fun hid => ?_
    obtain rfl := eq_of_key hitem hbefore (hid.trans hstep.1)
    exact hstep.not_interrupted hmoves hstatus
  | @drop _ _ _ _ hbefore hstep hqueued =>
    refine hother fun hid => ?_
    obtain rfl := eq_of_key hitem hbefore (hid.trans hstep.1)
    cases hqueued.symm.trans hstatus
  | _ => exact .inl ⟨item, hitem, rfl, hstatus⟩

theorem Move.recoverable (h : Move base kind b c) (hs : Sound b) (hno : kind ≠ .removes) (hr : Recoverable acknowledged b) :
    Recoverable acknowledged c where
  items := by
    intro item' hitem' hstatus hnot
    rcases h.item hitem' hs with ⟨item, hitem, hstep⟩ | ⟨-, hqueued⟩
    · have hinterrupted := hstep.interrupted hstatus
      obtain ⟨hid, hteam, -, hmember, -⟩ := hstep
      rw [hid] at hnot
      have hkept := hr.items item hitem hinterrupted hnot
      rw [← hteam, ← hmember] at hkept
      exact (h.member hno hkept).resolve_right fun hgone => hgone.1 item' hitem' rfl
    · cases hqueued.symm.trans hstatus
  tasks := by
    intro task' htask' hrestarted hnot hfree
    obtain ⟨hfailed, herror⟩ := hrestarted
    rcases h.task htask' with ⟨task, htask, hid, hteam, hmember, hstep⟩ | ⟨-, hqueued⟩
    swap
    · cases hqueued.symm.trans hfailed
    have hkept : HasMember b.teams task.teamId task.memberId := by
      rcases hstep with ⟨hsame, hsameError⟩ | ⟨-, hopen, -⟩ | ⟨-, -, hrunning⟩ | ⟨-, hqueued⟩
      · refine hr.tasks task htask ⟨hsame.symm.trans hfailed, hsameError.symm.trans herror⟩ (hid ▸ hnot) ?_
        intro item hitem hkey hstatus
        rcases h.interrupted hs hitem hstatus with ⟨item', hitem', hkey', hstatus'⟩ | hgone
        · exact hfree item' hitem' (hkey'.trans (hkey.trans (congrArg some hid.symm))) hstatus'
        · obtain ⟨row, hrow, hrowId, hrowTeam, -⟩ := hs.forTask item hitem _ hkey
          obtain rfl := eq_of_key hrow htask hrowId
          exact hgone task' htask' (hteam.trans hrowTeam)
      · -- A task that was open has a dispatch that was pending.
        obtain ⟨item, hitem, hkey⟩ := hs.held task htask
        obtain ⟨_, hrow, hrowId, hrowTeam, hrowMember, hsuits⟩ := hs.forTask item hitem _ hkey
        obtain rfl := eq_of_key hrow htask hrowId
        rw [hrowTeam, hrowMember]
        refine hs.byMember item hitem ?_
        by_contra hended
        exact hopen ((suits_terminal hended _).mp hsuits)
      · cases hrunning.symm.trans hfailed
      · cases hqueued.symm.trans hfailed
    rw [← hteam, ← hmember] at hkept
    exact (h.member hno hkept).resolve_right fun hgone => hgone.2 task' htask' rfl

theorem Moves.recoverable (h : Moves base allowed b c) (hs : Sound b) (hno : ∀ kind, allowed kind → kind ≠ .removes) (hr : Recoverable acknowledged b) :
    Recoverable acknowledged c := by
  induction h with
  | none => exact hr
  | next h hkind hmove ih => exact hmove.recoverable (h.sound hs) (hno _ hkind) ih

def Awaited (acknowledged : List ℕ) (b : Board) (teamId memberId : ℕ) : Prop :=
  (∃ item ∈ b.dispatches, item.status = .interrupted ∧ item.id ∉ acknowledged ∧ item.teamId = teamId ∧ item.memberId = memberId) ∨
    ∃ task ∈ b.tasks, task.Restarted ∧ task.id ∉ acknowledged ∧ Uninterrupted b.dispatches task ∧ task.teamId = teamId ∧ task.memberId = memberId

def Removable (b : Board) (teamId memberId : ℕ) : Prop :=
  ∃ team ∈ b.teams, team.id = teamId ∧ (∃ member ∈ team.members, member.id = memberId ∧ member.role ≠ .lead ∧ member.status ≠ .running) ∧
    Unused b teamId memberId

theorem removeMember_recoverable (hr : Recoverable acknowledged s.board) {teamId memberId : ℕ} {r : Except String Team}
    (h : removeMember teamId memberId s = (r, t)) (hnot : Removable s.board teamId memberId → ¬ Awaited acknowledged s.board teamId memberId) :
    Recoverable acknowledged t.board := by
  unfold removeMember at h
  rcases Act.Reads.bind_eq h with ⟨_, -, rfl⟩ | ⟨team, hfound, h⟩
  · exact hr
  rcases Act.Reads.bind_eq h with ⟨_, -, rfl⟩ | ⟨current, hcurrent, h⟩
  · exact hr
  rcases Act.Reads.bind_eq h with ⟨_, -, rfl⟩ | ⟨_, hlead, h⟩
  · exact hr
  rw [read_bind] at h
  rcases Act.Reads.bind_eq h with ⟨_, -, rfl⟩ | ⟨_, hbusy, h⟩
  · exact hr
  rw [setTeam_bind] at h
  obtain ⟨-, hteam, rfl⟩ := requiredTeam_ok hfound
  obtain ⟨-, hmember, rfl⟩ := requiredMember_ok hcurrent
  obtain ⟨-, hlead⟩ := refuse_ok hlead
  obtain ⟨-, hbusy⟩ := refuse_ok hbusy
  rw [not_or, not_or] at hbusy
  obtain ⟨hrests, hpending, hopen⟩ := hbusy
  have hunused : Unused s.board team.id current.id :=
    ⟨fun item hitem hkey hstatus => hpending ⟨item, hitem, hkey, hstatus⟩,
      fun task htask hkey hassigned hstatus => hopen ⟨task, htask, hkey, hassigned, hstatus⟩⟩
  have hclear := hnot ⟨team, hteam, rfl, ⟨current, hmember, rfl, hlead, hrests⟩, hunused⟩
  rw [Calm.board_eq h]
  have hkept {teamId memberId : ℕ} (hne : ¬ (teamId = team.id ∧ memberId = current.id)) (hmember : HasMember s.teams teamId memberId) :
      HasMember (s.teams.set { team with
        version := team.version + 1
        members := team.members.filter fun member => member.id ≠ current.id }) teamId memberId := by
    obtain ⟨status, row, hrow, hid, member, hmem, hkey, hstatus⟩ := hmember
    by_cases hsame : row.id = team.id
    · obtain rfl := eq_of_key hrow hteam hsame
      refine ⟨status, _, mem_set.mpr (.inl rfl), hid, member, List.mem_filter.mpr ⟨hmem, ?_⟩, hkey, hstatus⟩
      simp only [ne_eq, decide_eq_true_eq]
      exact fun h => hne ⟨hid.symm, hkey.symm.trans h⟩
    · exact ⟨status, row, mem_set.mpr (.inr ⟨hrow, hsame⟩), hid, member, hmem, hkey, hstatus⟩
  constructor
  · intro item hitem hstatus hfresh
    refine hkept (fun hsame => hclear ?_) (hr.items item hitem hstatus hfresh)
    exact .inl ⟨item, hitem, hstatus, hfresh, hsame⟩
  · intro task htask hrestarted hfresh hfree
    refine hkept (fun hsame => hclear ?_) (hr.tasks task htask hrestarted hfresh hfree)
    exact .inr ⟨task, htask, hrestarted, hfresh, hfree, hsame⟩

end Recoverable

end WorkAgent.Teams
