import WorkAgent.Teams.Board

namespace WorkAgent.Teams

open Library Table Relation Nat
open Relation.TransGen (head'_iff mono tail'_iff trans_left)

variable {base : ℕ} {kind : Kind} {b c : Board}

section Rows

variable {item item' : TeamDispatch}

theorem TurnStep.pending (h : TurnStep kind item item') (hpending : item'.status.Pending) :
    item.status.Pending := by
  obtain ⟨-, -, -, -, -, -, ⟨hsame, -⟩ | ⟨-, hbefore, -⟩ | ⟨-, hqueued, -⟩ | ⟨-, hrunning, -⟩⟩ := h
  · rwa [hsame] at hpending
  · exact hbefore
  · exact .inl hqueued
  · exact .inr hrunning

variable {dispatches : Table TeamDispatch.id}

theorem replaced {row : TeamDispatch} (hitem : item ∈ dispatches) (hid : item'.id = item.id)
    (h : row ∈ dispatches.set item') : row = item' ∨ row ∈ dispatches ∧ row ≠ item := by
  rcases mem_set.mp h with rfl | ⟨hold, hne⟩
  · exact .inl rfl
  · refine .inr ⟨hold, ?_⟩
    rintro rfl
    exact hne hid.symm

theorem stays {row : TeamDispatch} (hitem : item ∈ dispatches) (hid : item'.id = item.id)
    (h : row ∈ dispatches) (hne : row ≠ item) : row ∈ dispatches.set item' := by
  refine mem_set.mpr (.inr ⟨h, ?_⟩)
  intro hkey
  exact hne (eq_of_key h hitem (hkey.trans hid))

theorem replacement : item' ∈ dispatches.set item' :=
  mem_set.mpr (.inl rfl)

def SameGraph (tasks tasks' : Table TeamTask.id) : Prop :=
  (∀ task' ∈ tasks', ∃ task ∈ tasks, task.id = task'.id ∧ task.teamId = task'.teamId ∧ task.dependsOnIds = task'.dependsOnIds) ∧
    ∀ task ∈ tasks, ∃ task' ∈ tasks', task'.id = task.id ∧ task'.teamId = task.teamId

variable {tasks : Table TeamTask.id}

theorem SameGraph.set {task task' : TeamTask} (htask : task ∈ tasks) (hid : task'.id = task.id)
    (hteam : task'.teamId = task.teamId) (hdepends : task'.dependsOnIds = task.dependsOnIds) : SameGraph tasks (tasks.set task') := by
  constructor
  · intro row hrow
    rcases mem_set.mp hrow with rfl | ⟨hold, -⟩
    · exact ⟨task, htask, hid.symm, hteam.symm, hdepends.symm⟩
    · exact ⟨row, hold, rfl, rfl, rfl⟩
  · intro row hrow
    by_cases hkey : row.id = task'.id
    · obtain rfl := eq_of_key hrow htask (hkey.trans hid)
      exact ⟨task', mem_set.mpr (.inl rfl), hid, hteam⟩
    · exact ⟨row, mem_set.mpr (.inr ⟨hrow, hkey⟩), rfl, rfl⟩

theorem TaskTurn.sameGraph {tasks' : Table TeamTask.id} (h : TaskTurn kind tasks tasks' item item') :
    SameGraph tasks tasks' := by
  rcases h with ⟨rfl, -⟩ | ⟨task, htask, _, -, ⟨hid, hteam, -⟩, hdepends, -, rfl⟩
  · exact ⟨fun task h => ⟨task, h, rfl, rfl, rfl⟩, fun task h => ⟨task, h, rfl, rfl⟩⟩
  · exact .set htask hid hteam hdepends

theorem SameGraph.inside {tasks' : Table TeamTask.id} (h : SameGraph tasks tasks')
    (hinside : ∀ task ∈ tasks, ∀ id ∈ task.dependsOnIds, ∃ task' ∈ tasks, task'.id = id ∧ task'.teamId = task.teamId) :
    ∀ task ∈ tasks', ∀ id ∈ task.dependsOnIds, ∃ task' ∈ tasks', task'.id = id ∧ task'.teamId = task.teamId := by
  intro task' htask' id hid
  obtain ⟨task, htask, -, hteam, hdepends⟩ := h.1 task' htask'
  obtain ⟨other, hother, rfl, hsame⟩ := hinside task htask id (hdepends ▸ hid)
  obtain ⟨other', hother', hkey, hteam'⟩ := h.2 other hother
  exact ⟨other', hother', hkey, hteam'.trans (hsame.trans hteam)⟩

theorem SameGraph.acyclic {tasks tasks' : Table TeamTask.id} (h : SameGraph tasks tasks')
    (hacyclic : ∀ id, ¬ TransGen (Depends tasks) id id) (id : ℕ) : ¬ TransGen (Depends tasks') id id := by
  intro hcycle
  apply hacyclic id
  refine mono ?_ _ _ hcycle
  rintro x y ⟨task', htask', rfl, hmem⟩
  obtain ⟨task, htask, hkey, -, hdepends⟩ := h.1 task' htask'
  exact ⟨task, htask, hkey, hdepends ▸ hmem⟩

end Rows

section Draws

theorem Sound.later (hs : Sound b) {n : ℕ} (h : b.drawn ≤ n) : Sound { b with drawn := n } :=
  { hs with
    taskFresh := fun task htask => (hs.taskFresh task htask).trans_le h
    runFresh := fun run hrun => (hs.runFresh run hrun).trans_le h
    dispatchFresh := fun item hitem => (hs.dispatchFresh item hitem).trans_le h
    teamFresh := fun team hteam => (hs.teamFresh team hteam).trans_le h
    memberFresh := fun teamId memberId status hseat => (hs.memberFresh teamId memberId status hseat).trans_le h }

theorem Sound.staff (hs : Sound b) {teams : Table Team.id} {drawn teamId memberId : ℕ} (h : Staffed kind b teams drawn teamId memberId) :
    Sound { b with teams := teams, drawn := drawn } :=
  { hs.later h.later with
    teamFresh := by
      intro team hteam
      rcases h.teamFresh team hteam with ⟨team', hteam', _⟩ | hnew
      · have := hs.teamFresh team' hteam'
        have := h.later
        change team.id < drawn
        omega
      · exact hnew
    memberFresh := by
      intro teamId' memberId' status hseat
      rcases h.joined teamId' memberId' status hseat with hold | ⟨-, -, rfl, -, hnew⟩
      · exact (hs.memberFresh _ _ _ hold).trans_le h.later
      · exact hnew
    seat := by
      intro t t' memberId' s s' hseat hseat'
      rcases h.joined t memberId' s hseat with hold | ⟨rfl, rfl, rfl, _, -⟩
      · rcases h.joined t' memberId' s' hseat' with hold' | ⟨-, -, rfl, _, -⟩
        · exact hs.seat _ _ _ _ _ hold hold'
        · have := hs.memberFresh _ _ _ hold
          omega
      · rcases h.joined t' memberId' s' hseat' with hold' | ⟨rfl, rfl, -, -, -⟩
        · have := hs.memberFresh _ _ _ hold'
          omega
        · exact ⟨rfl, rfl⟩
    formed := h.formed
    byMember := by
      intro item hitem hpending
      obtain ⟨status, hseat⟩ := hs.byMember item hitem hpending
      rcases h.stayed _ _ _ hseat with hstays | ⟨-, hunused, -⟩
      · exact ⟨status, hstays⟩
      · exact absurd hpending (hunused item hitem rfl)
    busy := by
      intro item hitem hrunning
      rcases hs.busy item hitem hrunning with hseat | hclosing
      · rcases h.stayed _ _ _ hseat with hstays | ⟨-, hunused, -⟩
        · exact .inl hstays
        · exact absurd (.inr hrunning) (hunused item hitem rfl)
      · exact .inr hclosing
    turning := by
      intro teamId' memberId' hseat
      rcases h.joined teamId' memberId' _ hseat with hold | ⟨hidle, -⟩
      · exact hs.turning _ _ hold
      · cases hidle }

theorem seats_delete {teams : Table Team.id} {id teamId memberId : ℕ} {status : MemberStatus} :
    Seats (teams.delete fun team => team.id = id) teamId memberId status ↔ teamId ≠ id ∧ Seats teams teamId memberId status := by
  constructor
  · rintro ⟨team, hteam, rfl, hmember⟩
    obtain ⟨hold, hne⟩ := mem_delete.mp hteam
    exact ⟨hne, team, hold, rfl, hmember⟩
  · rintro ⟨hne, team, hteam, rfl, hmember⟩
    exact ⟨team, mem_delete.mpr ⟨hteam, hne⟩, rfl, hmember⟩

theorem Sound.deleteTeam (hs : Sound b) (id : ℕ) (hclosing : b.closing = none) :
    Sound { b with
      teams := b.teams.delete fun team => team.id = id
      tasks := b.tasks.delete fun task => task.teamId = id
      runs := b.runs.delete fun run => run.teamId = id
      dispatches := b.dispatches.delete fun item => item.teamId = id } where
  teamFresh team hteam := hs.teamFresh team (mem_delete.mp hteam).1
  memberFresh teamId memberId status hseat := hs.memberFresh teamId memberId status (seats_delete.mp hseat).2
  taskFresh task htask := hs.taskFresh task (mem_delete.mp htask).1
  runFresh run hrun := hs.runFresh run (mem_delete.mp hrun).1
  dispatchFresh item hitem := hs.dispatchFresh item (mem_delete.mp hitem).1
  apart task htask item hitem := hs.apart task (mem_delete.mp htask).1 item (mem_delete.mp hitem).1
  seat t t' memberId s s' hseat hseat' := hs.seat t t' memberId s s' (seats_delete.mp hseat).2 (seats_delete.mp hseat').2
  formed team hteam := hs.formed team (mem_delete.mp hteam).1
  oneRun run hrun run' hrun' := hs.oneRun run (mem_delete.mp hrun).1 run' (mem_delete.mp hrun').1
  closes id' h := by
    rw [show b.closing = some id' from h] at hclosing
    cases hclosing
  inRun item hitem := by
    obtain ⟨hold, hne⟩ := mem_delete.mp hitem
    obtain ⟨run, hrun, hid, hteam, hopen⟩ := hs.inRun item hold
    exact ⟨run, mem_delete.mpr ⟨hrun, by rwa [hteam]⟩, hid, hteam, hopen⟩
  byMember item hitem hpending := by
    obtain ⟨hold, hne⟩ := mem_delete.mp hitem
    obtain ⟨status, hseat⟩ := hs.byMember item hold hpending
    exact ⟨status, seats_delete.mpr ⟨hne, hseat⟩⟩
  forTask item hitem id' hid := by
    obtain ⟨hold, hne⟩ := mem_delete.mp hitem
    obtain ⟨task, htask, hkey, hteam, hrest⟩ := hs.forTask item hold id' hid
    exact ⟨task, mem_delete.mpr ⟨htask, by rwa [hteam]⟩, hkey, hteam, hrest⟩
  oneDispatch item hitem item' hitem' := hs.oneDispatch item (mem_delete.mp hitem).1 item' (mem_delete.mp hitem').1
  held task htask := by
    obtain ⟨hold, hne⟩ := mem_delete.mp htask
    obtain ⟨item, hitem, hid⟩ := hs.held task hold
    obtain ⟨task', htask', hkey, hteam, -⟩ := hs.forTask item hitem _ hid
    obtain rfl := eq_of_key htask' hold hkey
    exact ⟨item, mem_delete.mpr ⟨hitem, by rwa [← hteam]⟩, hid⟩
  busy item hitem hrunning := by
    obtain ⟨hold, hne⟩ := mem_delete.mp hitem
    rcases hs.busy item hold hrunning with hseat | h
    · exact .inl (seats_delete.mpr ⟨hne, hseat⟩)
    · exact .inr h
  turning teamId memberId hseat := by
    obtain ⟨hne, hold⟩ := seats_delete.mp hseat
    obtain ⟨item, hitem, rfl, hmember, hrunning⟩ := hs.turning teamId memberId hold
    exact ⟨item, mem_delete.mpr ⟨hitem, hne⟩, rfl, hmember, hrunning⟩
  oneTurn item hitem item' hitem' := hs.oneTurn item (mem_delete.mp hitem).1 item' (mem_delete.mp hitem').1
  four id' := (count_delete_le _ _).trans (hs.four id')
  unsubmitted item hitem := hs.unsubmitted item (mem_delete.mp hitem).1
  inside task htask id' hmem := by
    obtain ⟨hold, _⟩ := mem_delete.mp htask
    obtain ⟨task', htask', hkey, hteam⟩ := hs.inside task hold id' hmem
    exact ⟨task', mem_delete.mpr ⟨htask', by rwa [hteam]⟩, hkey, hteam⟩
  acyclic id' hcycle := by
    apply hs.acyclic id'
    refine mono ?_ _ _ hcycle
    rintro x y ⟨task, htask, hkey, hmem⟩
    exact ⟨task, (mem_delete.mp htask).1, hkey, hmem⟩

end Draws

section Runs

variable {run : TeamRun}

theorem Sound.openRun (hs : Sound b) (hid : run.id = b.drawn)
    (hnone : ∀ run' ∈ b.runs, run'.teamId = run.teamId → run'.status.Finished) (hclosing : b.closing = none) :
    Sound { b with runs := b.runs.set run, drawn := b.drawn + 1 } :=
  { hs.later (le_succ _) with
    runFresh := by
      intro run' hrun'
      rcases mem_set.mp hrun' with rfl | ⟨hold, -⟩
      · exact hid ▸ lt_succ_self _
      · exact (hs.runFresh run' hold).trans (lt_succ_self _)
    oneRun := by
      intro r hr r' hr' hteam hopen hopen'
      rcases mem_set.mp hr with rfl | ⟨hold, -⟩
      · rcases mem_set.mp hr' with rfl | ⟨hold', -⟩
        · rfl
        · exact absurd (hnone r' hold' hteam.symm) hopen'
      · rcases mem_set.mp hr' with rfl | ⟨hold', -⟩
        · exact absurd (hnone r hold hteam) hopen
        · exact hs.oneRun r hold r' hold' hteam hopen hopen'
    closes := by
      intro id h
      rw [show b.closing = some id from h] at hclosing
      cases hclosing
    inRun := by
      intro item hitem
      obtain ⟨r, hr, hkey, hrest⟩ := hs.inRun item hitem
      have := hs.runFresh r hr
      exact ⟨r, mem_set.mpr (.inr ⟨hr, by omega⟩), hkey, hrest⟩ }

section

variable {run' : TeamRun} (hs : Sound b) (hrun : run ∈ b.runs) (hid : run'.id = run.id) (hteam : run'.teamId = run.teamId)
  (hbefore : ¬ run.status.Finished)
include hs hrun hid hteam hbefore

theorem Sound.replaceRun (hafter : ∀ item ∈ b.dispatches, item.runId = run.id → item.status.Pending → ¬ run'.status.Finished) :
    Sound { b with runs := b.runs.set run' } :=
  { hs with
    runFresh := forall_mem_set (hid ▸ hs.runFresh run hrun) hs.runFresh
    oneRun := by
      have hother : ∀ r ∈ b.runs, r.id ≠ run'.id → r.teamId = run'.teamId → r.status.Finished := by
        intro r hr hne hsame
        by_contra hopen
        obtain rfl := hs.oneRun r hr run hrun (hsame.trans hteam) hopen hbefore
        exact hne hid.symm
      intro r hr r' hr' hsame hopen hopen'
      rcases mem_set.mp hr with rfl | ⟨hold, hne⟩
      · rcases mem_set.mp hr' with rfl | ⟨hold', hne'⟩
        · rfl
        · exact absurd (hother r' hold' hne' hsame.symm) hopen'
      · rcases mem_set.mp hr' with rfl | ⟨hold', -⟩
        · exact absurd (hother r hold hne hsame) hopen
        · exact hs.oneRun r hold r' hold' hsame hopen hopen'
    closes := by
      intro id h
      obtain ⟨r, hr, hkey, hfinished, hall⟩ := hs.closes id h
      have hne : r.id ≠ run'.id := by
        intro hsame
        obtain rfl := eq_of_key hr hrun (hsame.trans hid)
        exact hbefore hfinished
      refine ⟨r, mem_set.mpr (.inr ⟨hr, hne⟩), hkey, hfinished, ?_⟩
      intro r' hr' hsame
      rcases mem_set.mp hr' with rfl | ⟨hold, -⟩
      · exact absurd (hall run hrun (hteam.symm.trans hsame)) hbefore
      · exact hall r' hold hsame
    inRun := by
      intro item hitem
      obtain ⟨r, hr, hkey, hsame, hopen⟩ := hs.inRun item hitem
      by_cases hne : r.id = run'.id
      · obtain rfl := eq_of_key hr hrun (hne.trans hid)
        exact ⟨run', mem_set.mpr (.inl rfl), hid.trans hkey, hteam.trans hsame, fun hpending => .inl (hafter item hitem hkey.symm hpending)⟩
      · exact ⟨r, mem_set.mpr (.inr ⟨hr, hne⟩), hkey, hsame, hopen⟩ }

theorem Sound.cancelRun (hafter : run'.status.Finished) (hclosing : b.closing = none) :
    Sound { b with runs := b.runs.set run', closing := some run.id } :=
  { hs with
    runFresh := forall_mem_set (hid ▸ hs.runFresh run hrun) hs.runFresh
    oneRun := by
      intro r hr r' hr' hsame hopen hopen'
      rcases mem_set.mp hr with rfl | ⟨hold, -⟩
      · exact absurd hafter hopen
      · rcases mem_set.mp hr' with rfl | ⟨hold', -⟩
        · exact absurd hafter hopen'
        · exact hs.oneRun r hold r' hold' hsame hopen hopen'
    closes := by
      intro _ h
      refine ⟨run', mem_set.mpr (.inl rfl), hid.trans (Option.some.inj h), hafter, ?_⟩
      intro r hr hsame
      rcases mem_set.mp hr with rfl | ⟨hold, hne⟩
      · exact hafter
      · by_contra hopen
        obtain rfl := hs.oneRun r hold run hrun (hsame.trans hteam) hopen hbefore
        exact hne hid.symm
    inRun := by
      intro item hitem
      obtain ⟨r, hr, hkey, hsame, hopen⟩ := hs.inRun item hitem
      by_cases hne : r.id = run'.id
      · obtain rfl := eq_of_key hr hrun (hne.trans hid)
        exact ⟨run', mem_set.mpr (.inl rfl), hid.trans hkey, hteam.trans hsame, fun _ => .inr (congrArg some hid.symm)⟩
      · refine ⟨r, mem_set.mpr (.inr ⟨hr, hne⟩), hkey, hsame, fun hpending => ?_⟩
        rcases hopen hpending with h | h
        · exact .inl h
        · rw [hclosing] at h
          cases h
    busy := by
      intro item hitem hrunning
      rcases hs.busy item hitem hrunning with h | h
      · exact .inl h
      · rw [hclosing] at h
        cases h }

end

theorem Sound.closed (hs : Sound b) (hitems : ∀ item ∈ b.dispatches, b.closing = some item.runId → ¬ item.status.Pending) :
    Sound { b with closing := none } :=
  { hs with
    closes := by
      intro _ h
      cases h
    inRun := by
      intro item hitem
      obtain ⟨run, hrun, hkey, hteam, hopen⟩ := hs.inRun item hitem
      refine ⟨run, hrun, hkey, hteam, fun hpending => ?_⟩
      rcases hopen hpending with h | h
      · exact .inl h
      · exact absurd hpending (hitems item hitem (hkey ▸ h))
    busy := by
      intro item hitem hrunning
      rcases hs.busy item hitem hrunning with h | h
      · exact .inl h
      · exact absurd (.inr hrunning) (hitems item hitem h) }

end Runs

section Dispatches

variable {item item' : TeamDispatch}

theorem Books.turned (hs : Books b) {tasks : Table TeamTask.id} (teams : Table Team.id) (hitem : item ∈ b.dispatches)
    (h : TurnStep kind item item') (htasks : TaskTurn kind b.tasks tasks item item') :
    Books { b with tasks := tasks, teams := teams, dispatches := b.dispatches.set item' } := by
  have hpends := h.pending
  obtain ⟨hid, hteam, hrunId, hmember, htask, hsubmitted, -⟩ := h
  exact { hs with
    taskFresh := by
      intro task' htask'
      obtain ⟨task, hold, hkey, -⟩ := htasks.origin htask'
      exact hkey ▸ hs.taskFresh task hold
    dispatchFresh := forall_mem_set (hid ▸ hs.dispatchFresh item hitem) hs.dispatchFresh
    apart := by
      intro task' htask' row hrow
      obtain ⟨task, hold, hkey, -⟩ := htasks.origin htask'
      rcases replaced hitem hid hrow with rfl | ⟨hrow, -⟩
      · rw [hid, hkey]
        exact hs.apart task hold item hitem
      · rw [hkey]
        exact hs.apart task hold row hrow
    inRun := by
      intro row hrow
      rcases replaced hitem hid hrow with rfl | ⟨hold, -⟩
      · obtain ⟨run, hrun, hkey, hsame, hopen⟩ := hs.inRun item hitem
        exact ⟨run, hrun, hkey.trans hrunId.symm, hsame.trans hteam.symm, fun hpending => hopen (hpends hpending)⟩
      · exact hs.inRun row hold
    forTask := by
      intro row hrow id hrowTask
      rcases replaced hitem hid hrow with rfl | ⟨hold, hne⟩
      · rw [htask] at hrowTask
        obtain ⟨task, hmem, rfl, hsame, hassigned, -⟩ := hs.forTask item hitem id hrowTask
        rcases htasks with ⟨rfl, hsuits⟩ | ⟨task₀, hmem₀, task', htask₀, ⟨hid', hteam', hmember', -⟩, -, hsuits, rfl⟩
        · exact ⟨task, hmem, rfl, hsame.trans hteam.symm, hassigned.trans hmember.symm, hsuits task hmem hrowTask⟩
        · obtain rfl := eq_of_key hmem hmem₀ (Option.some.inj (hrowTask.symm.trans htask₀))
          exact ⟨task', mem_set.mpr (.inl rfl), hid', hteam'.trans (hsame.trans hteam.symm),
            hmember'.trans (hassigned.trans hmember.symm), hsuits⟩
      · obtain ⟨task, hmem, hkey, hrest⟩ := hs.forTask row hold id hrowTask
        rcases htasks with ⟨rfl, -⟩ | ⟨task₀, _, task', htask₀, ⟨hid', -⟩, -, -, rfl⟩
        · exact ⟨task, hmem, hkey, hrest⟩
        · refine ⟨task, mem_set.mpr (.inr ⟨hmem, ?_⟩), hkey, hrest⟩
          intro hsame
          have hsame : row.taskId = some task₀.id := by rw [hrowTask, ← hkey, hsame, hid']
          exact hne (hs.oneDispatch row hold item hitem _ hsame htask₀)
    oneDispatch := by
      intro row hrow row' hrow' id hrowTask hrowTask'
      rcases replaced hitem hid hrow with rfl | ⟨hold, hne⟩
      · rcases replaced hitem hid hrow' with rfl | ⟨hold', hne'⟩
        · rfl
        · exact absurd (hs.oneDispatch row' hold' item hitem id hrowTask' (htask ▸ hrowTask)) hne'
      · rcases replaced hitem hid hrow' with rfl | ⟨hold', -⟩
        · exact absurd (hs.oneDispatch row hold item hitem id hrowTask (htask ▸ hrowTask')) hne
        · exact hs.oneDispatch row hold row' hold' id hrowTask hrowTask'
    held := by
      intro _ htask'
      obtain ⟨task, hmem, hkey, -⟩ := htasks.origin htask'
      obtain ⟨row, hrow, hrowTask⟩ := hs.held task hmem
      rw [← hkey] at hrowTask
      by_cases hne : row = item
      · subst hne
        exact ⟨item', replacement, htask.trans hrowTask⟩
      · exact ⟨row, stays hitem hid hrow hne, hrowTask⟩
    unsubmitted := forall_mem_set (fun hqueued => hsubmitted hqueued) hs.unsubmitted
    inside := htasks.sameGraph.inside hs.inside
    acyclic := htasks.sameGraph.acyclic hs.acyclic }

theorem TaskTurn.none (hs : Books b) (hitem : item ∈ b.dispatches)
    (hstatus : item'.status = item.status) : TaskTurn kind b.tasks b.tasks item item' := by
  refine .inl ⟨rfl, ?_⟩
  intro _ htask hid
  obtain ⟨_, htask', hkey, -, -, _⟩ := hs.forTask item hitem _ hid
  obtain rfl := eq_of_key htask' htask hkey
  rwa [hstatus]

theorem Sound.editDispatch (hs : Sound b) (hitem : item ∈ b.dispatches) (h : TurnStep kind item item')
    (hstatus : item'.status = item.status) : Sound { b with dispatches := b.dispatches.set item' } := by
  have hbooks := hs.toBooks.turned b.teams hitem h (.none hs.toBooks hitem hstatus)
  obtain ⟨hid, hteam, hrunId, hmember, -⟩ := h
  exact { hbooks, hs with
    byMember := by
      intro row hrow hpending
      rcases replaced hitem hid hrow with rfl | ⟨hold, -⟩
      · rw [hteam, hmember]
        exact hs.byMember item hitem (hstatus ▸ hpending)
      · exact hs.byMember row hold hpending
    busy := by
      intro row hrow hrunning
      rcases replaced hitem hid hrow with rfl | ⟨hold, -⟩
      · rw [hteam, hmember, hrunId]
        exact hs.busy item hitem (hstatus ▸ hrunning)
      · exact hs.busy row hold hrunning
    turning := by
      intro teamId memberId hseat
      obtain ⟨row, hrow, hrowTeam, hrowMember, hrunning⟩ := hs.turning teamId memberId hseat
      by_cases hne : row = item
      · subst hne
        exact ⟨item', replacement, hteam.trans hrowTeam, hmember.trans hrowMember, hstatus.trans hrunning⟩
      · exact ⟨row, stays hitem hid hrow hne, hrowTeam, hrowMember, hrunning⟩
    oneTurn := by
      intro row hrow row' hrow' hsame hrunning hrunning'
      rcases replaced hitem hid hrow with rfl | ⟨hold, hne⟩
      · rcases replaced hitem hid hrow' with rfl | ⟨hold', hne'⟩
        · rfl
        · exact absurd (hs.oneTurn row' hold' item hitem (hsame.symm.trans hmember) hrunning' (hstatus ▸ hrunning)) hne'
      · rcases replaced hitem hid hrow' with rfl | ⟨hold', -⟩
        · exact absurd (hs.oneTurn row hold item hitem (hsame.trans hmember) hrunning (hstatus ▸ hrunning')) hne
        · exact hs.oneTurn row hold row' hold' hsame hrunning hrunning'
    four := by
      intro id
      have hcount := count_set (p := fun row => row.runId = id ∧ row.status = .running) hitem hid
      have := hs.four id
      simp only [hrunId, hstatus] at hcount
      have hfour : ((b.dispatches.set item').count fun row => row.runId = id ∧ row.status = .running) ≤ 4 := by omega
      exact hfour }

theorem Sound.enqueue (hs : Sound b) {tasks : Table TeamTask.id} (hid : item.id = b.drawn) (hqueued : item.status = .queued)
    (hmember : HasMember b.teams item.teamId item.memberId)
    (hbooks : Books { b with tasks := tasks, dispatches := b.dispatches.set item, drawn := b.drawn + 1 }) :
    Sound { b with tasks := tasks, dispatches := b.dispatches.set item, drawn := b.drawn + 1 } := by
  have hnew : ∀ row ∈ b.dispatches, row.id ≠ item.id := fun row hrow => hid ▸ (hs.dispatchFresh row hrow).ne
  have hmem {row : TeamDispatch} (hrow : row ∈ b.dispatches.set item) : row = item ∨ row ∈ b.dispatches := by
    rcases mem_set.mp hrow with rfl | ⟨hold, -⟩
    · exact .inl rfl
    · exact .inr hold
  have hidle : item.status ≠ .running := by simp [hqueued]
  exact { hbooks, hs.later (le_succ _) with
    byMember := forall_mem_set (fun _ => hmember) hs.byMember
    busy := forall_mem_set (fun hrunning => absurd hrunning hidle) hs.busy
    turning := by
      intro teamId memberId hseat
      obtain ⟨row, hrow, hrest⟩ := hs.turning teamId memberId hseat
      exact ⟨row, mem_set.mpr (.inr ⟨hrow, hnew row hrow⟩), hrest⟩
    oneTurn := by
      intro row hrow row' hrow' hsame hrunning hrunning'
      rcases hmem hrow with rfl | hold
      · exact absurd hrunning hidle
      · rcases hmem hrow' with rfl | hold'
        · exact absurd hrunning' hidle
        · exact hs.oneTurn row hold row' hold' hsame hrunning hrunning'
    four := by
      intro id
      have hcount := count_set_le (t := b.dispatches) (r := item) (p := fun row => row.runId = id ∧ row.status = .running)
      have := hs.four id
      simp only [hidle, and_false, if_false, Nat.add_zero] at hcount
      exact hcount.trans this }

theorem new_item {row : TeamDispatch} (h : row ∈ b.dispatches.set item) : row = item ∨ row ∈ b.dispatches := by
  rcases mem_set.mp h with rfl | ⟨hold, -⟩
  · exact .inl rfl
  · exact .inr hold

theorem Books.enqueue (hs : Books b) (hid : item.id = b.drawn) (hsubmitted : item.submittedAt = none)
    (hrun : ∃ run ∈ b.runs, run.id = item.runId ∧ run.teamId = item.teamId ∧ ¬ run.status.Finished) (htask : item.taskId = none) :
    Books { b with dispatches := b.dispatches.set item, drawn := b.drawn + 1 } :=
  { hs with
    taskFresh := fun task htask => (hs.taskFresh task htask).trans (lt_succ_self _)
    runFresh := fun run hrun => (hs.runFresh run hrun).trans (lt_succ_self _)
    dispatchFresh := by
      intro row hrow
      rcases new_item hrow with rfl | hold
      · exact hid ▸ lt_succ_self _
      · exact (hs.dispatchFresh row hold).trans (lt_succ_self _)
    apart := by
      intro task hmem row hrow
      rcases new_item hrow with rfl | hold
      · rw [hid]
        exact (hs.taskFresh task hmem).ne'
      · exact hs.apart task hmem row hold
    inRun := by
      intro row hrow
      rcases new_item hrow with rfl | hold
      · obtain ⟨run, hmem, hkey, hteam, hopen⟩ := hrun
        exact ⟨run, hmem, hkey, hteam, fun _ => .inl hopen⟩
      · exact hs.inRun row hold
    forTask := by
      intro row hrow id hrowTask
      rcases new_item hrow with rfl | hold
      · rw [htask] at hrowTask
        cases hrowTask
      · exact hs.forTask row hold id hrowTask
    oneDispatch := by
      intro row hrow row' hrow' id hrowTask hrowTask'
      rcases new_item hrow with rfl | hold
      · rw [htask] at hrowTask
        cases hrowTask
      · rcases new_item hrow' with rfl | hold'
        · rw [htask] at hrowTask'
          cases hrowTask'
        · exact hs.oneDispatch row hold row' hold' id hrowTask hrowTask'
    held := by
      intro task hmem
      obtain ⟨row, hrow, hrowTask⟩ := hs.held task hmem
      exact ⟨row, mem_set.mpr (.inr ⟨hrow, hid ▸ (hs.dispatchFresh row hrow).ne⟩), hrowTask⟩
    unsubmitted := by
      intro row hrow hqueued
      rcases new_item hrow with rfl | hold
      · exact hsubmitted
      · exact hs.unsubmitted row hold hqueued }

theorem acyclic_new {tasks : Table TeamTask.id} {task : TeamTask} (hnew : ∀ task' ∈ tasks, task'.id ≠ task.id)
    (hinside : ∀ row ∈ tasks, ∀ id ∈ row.dependsOnIds, ∃ task' ∈ tasks, task'.id = id)
    (hdepends : ∀ id ∈ task.dependsOnIds, ∃ task' ∈ tasks, task'.id = id)
    (hacyclic : ∀ id, ¬ TransGen (Depends tasks) id id) (id : ℕ) : ¬ TransGen (Depends (tasks.set task)) id id := by
  -- No edge leads to the new task, so a cycle has only old edges.
  have htarget : ∀ x y, Depends (tasks.set task) x y → y ≠ task.id := by
    rintro x y ⟨row, hrow, -, hmem⟩ rfl
    rcases mem_set.mp hrow with rfl | ⟨hold, -⟩
    · obtain ⟨task', hmem', hkey⟩ := hdepends _ hmem
      exact hnew task' hmem' hkey
    · obtain ⟨task', hmem', hkey⟩ := hinside row hold _ hmem
      exact hnew task' hmem' hkey
  have hold : ∀ x y, x ≠ task.id → Depends (tasks.set task) x y → Depends tasks x y := by
    rintro x y hne ⟨row, hrow, hkey, hmem⟩
    rcases mem_set.mp hrow with rfl | ⟨hold, -⟩
    · exact absurd hkey.symm hne
    · exact ⟨row, hold, hkey, hmem⟩
  have hpath : ∀ x y, TransGen (Depends (tasks.set task)) x y → x ≠ task.id → TransGen (Depends tasks) x y := by
    intro x y h
    induction h using Relation.TransGen.head_induction_on with
    | single h => exact fun hne => .single (hold _ _ hne h)
    | head h _ ih => exact fun hne => .head (hold _ _ hne h) (ih (htarget _ _ h))
  intro hcycle
  have hne : id ≠ task.id := by
    obtain ⟨_, -, hlast⟩ := tail'_iff.mp hcycle
    exact htarget _ _ hlast
  exact hacyclic id (hpath id id hcycle hne)

theorem Books.enqueueTask (hs : Books b) {task : TeamTask} (hid : item.id = b.drawn) (hqueued : item.status = .queued)
    (hsubmitted : item.submittedAt = none) (hrun : ∃ run ∈ b.runs, run.id = item.runId ∧ run.teamId = item.teamId ∧ ¬ run.status.Finished)
    (htask : item.taskId = some task.id) (hteam : task.teamId = item.teamId)
    (hassigned : task.memberId = item.memberId) (hstatus : task.status = .queued)
    (hold : task.id < b.drawn) (hnew : ∀ task' ∈ b.tasks, task'.id ≠ task.id) (hapart : ∀ item' ∈ b.dispatches, item'.id ≠ task.id)
    (hinside : ∀ id ∈ task.dependsOnIds, ∃ task' ∈ b.tasks, task'.id = id ∧ task'.teamId = task.teamId) :
    Books { b with tasks := b.tasks.set task, dispatches := b.dispatches.set item, drawn := b.drawn + 1 } := by
  have hmem {row : TeamTask} (h : row ∈ b.tasks.set task) : row = task ∨ row ∈ b.tasks := by
    rcases mem_set.mp h with rfl | ⟨hold, -⟩
    · exact .inl rfl
    · exact .inr hold
  have hkept {row : TeamTask} (h : row ∈ b.tasks) : row ∈ b.tasks.set task := mem_set.mpr (.inr ⟨h, hnew row h⟩)
  have hfree : ∀ row ∈ b.dispatches, row.taskId ≠ some task.id := by
    intro row hrow hrowTask
    obtain ⟨task', hmem', hkey, -⟩ := hs.forTask row hrow _ hrowTask
    exact hnew task' hmem' hkey
  exact { hs with
    taskFresh := by
      intro row hrow
      rcases hmem hrow with rfl | hrow
      · exact hold.trans (lt_succ_self _)
      · exact (hs.taskFresh row hrow).trans (lt_succ_self _)
    runFresh := fun run hrun => (hs.runFresh run hrun).trans (lt_succ_self _)
    dispatchFresh := by
      intro row hrow
      rcases new_item hrow with rfl | hrow
      · exact hid ▸ lt_succ_self _
      · exact (hs.dispatchFresh row hrow).trans (lt_succ_self _)
    apart := by
      intro row hrow row' hrow'
      rcases new_item hrow' with rfl | hitem
      · rw [hid]
        rcases hmem hrow with rfl | hrow
        · exact hold.ne'
        · exact (hs.taskFresh row hrow).ne'
      · rcases hmem hrow with rfl | htaskRow
        · exact hapart row' hitem
        · exact hs.apart row htaskRow row' hitem
    inRun := by
      intro row hrow
      rcases new_item hrow with rfl | hrow
      · obtain ⟨run, hmem, hkey, hteam, hopen⟩ := hrun
        exact ⟨run, hmem, hkey, hteam, fun _ => .inl hopen⟩
      · exact hs.inRun row hrow
    forTask := by
      intro row hrow id hrowTask
      rcases new_item hrow with rfl | hrow
      · refine ⟨task, mem_set.mpr (.inl rfl), Option.some.inj (htask.symm.trans hrowTask), hteam, hassigned, ?_⟩
        rw [hqueued]
        exact hstatus
      · obtain ⟨task', hmem', hrest⟩ := hs.forTask row hrow id hrowTask
        exact ⟨task', hkept hmem', hrest⟩
    oneDispatch := by
      intro row hrow row' hrow' id hrowTask hrowTask'
      rcases new_item hrow with rfl | hitem
      · rcases new_item hrow' with rfl | hitem'
        · rfl
        · exact absurd (hrowTask'.trans (hrowTask.symm.trans htask)) (hfree row' hitem')
      · rcases new_item hrow' with rfl | hitem'
        · exact absurd (hrowTask.trans (hrowTask'.symm.trans htask)) (hfree row hitem)
        · exact hs.oneDispatch row hitem row' hitem' id hrowTask hrowTask'
    held := by
      intro row hrow
      rcases hmem hrow with rfl | hrow
      · exact ⟨item, replacement, htask⟩
      · obtain ⟨item', hitem', hrowTask⟩ := hs.held row hrow
        exact ⟨item', mem_set.mpr (.inr ⟨hitem', hid ▸ (hs.dispatchFresh item' hitem').ne⟩), hrowTask⟩
    unsubmitted := forall_mem_set (fun _ => hsubmitted) hs.unsubmitted
    inside := by
      intro row hrow id hdepends
      rcases hmem hrow with rfl | hrow
      · obtain ⟨task', hmem', hrest⟩ := hinside id hdepends
        exact ⟨task', hkept hmem', hrest⟩
      · obtain ⟨task', hmem', hrest⟩ := hs.inside row hrow id hdepends
        exact ⟨task', hkept hmem', hrest⟩
    acyclic := by
      apply acyclic_new hnew
      · intro row hrow id hdepends
        obtain ⟨task', hmem', hkey, -⟩ := hs.inside row hrow id hdepends
        exact ⟨task', hmem', hkey⟩
      · intro id hdepends
        obtain ⟨task', hmem', hkey, -⟩ := hinside id hdepends
        exact ⟨task', hmem', hkey⟩
      · exact hs.acyclic }

end Dispatches

section Tasks

theorem acyclic_edited {tasks : Table TeamTask.id} {task task' : TeamTask} (hid : task'.id = task.id)
    (hfree : ∀ id ∈ task'.dependsOnIds, ¬ ReflTransGen (Depends tasks) id task.id)
    (hacyclic : ∀ id, ¬ TransGen (Depends tasks) id id) (id : ℕ) : ¬ TransGen (Depends (tasks.set task')) id id := by
  have hold : ∀ x y, x ≠ task.id → Depends (tasks.set task') x y → Depends tasks x y := by
    rintro x y hne ⟨row, hrow, hkey, hmem⟩
    rcases mem_set.mp hrow with rfl | ⟨hold, -⟩
    · exact absurd (hkey.symm.trans hid) hne
    · exact ⟨row, hold, hkey, hmem⟩
  have hstart : ∀ y, Depends (tasks.set task') task.id y → y ∈ task'.dependsOnIds := by
    rintro y ⟨_, hrow, hkey, hmem⟩
    rcases mem_set.mp hrow with rfl | ⟨-, hne⟩
    · exact hmem
    · exact absurd (hkey.trans hid.symm) hne
  -- A path either keeps to old edges or passes through the task.
  have hpath : ∀ x y, ReflTransGen (Depends (tasks.set task')) x y →
      ReflTransGen (Depends tasks) x y ∨ ReflTransGen (Depends tasks) x task.id := by
    intro x y h
    induction h using Relation.ReflTransGen.head_induction_on with
    | refl => exact .inl .refl
    | @head x z h _ ih =>
      by_cases hne : x = task.id
      · subst hne
        exact .inr .refl
      · rcases ih with ih | ih
        · exact .inl (.head (hold x z hne h) ih)
        · exact .inr (.head (hold x z hne h) ih)
  have hself : ¬ TransGen (Depends (tasks.set task')) task.id task.id := by
    intro hcycle
    obtain ⟨z, hfirst, hrest⟩ := head'_iff.mp hcycle
    rcases hpath z task.id hrest with h | h
    · exact hfree z (hstart z hfirst) h
    · exact hfree z (hstart z hfirst) h
  -- A cycle that does not pass through the task has old edges only.
  have havoids : ∀ x y, TransGen (Depends (tasks.set task')) x y → TransGen (Depends tasks) x y ∨
      ReflTransGen (Depends (tasks.set task')) x task.id ∧ TransGen (Depends (tasks.set task')) task.id y := by
    intro x y h
    induction h using Relation.TransGen.head_induction_on with
    | @single x h =>
      by_cases hne : x = task.id
      · subst hne
        exact .inr ⟨.refl, .single h⟩
      · exact .inl (.single (hold x y hne h))
    | @head x z h hrest ih =>
      by_cases hne : x = task.id
      · subst hne
        exact .inr ⟨.refl, .head h hrest⟩
      · rcases ih with ih | ⟨hto, hback⟩
        · exact .inl (.head (hold x z hne h) ih)
        · exact .inr ⟨.head h hto, hback⟩
  intro hcycle
  rcases havoids id id hcycle with h | ⟨hto, hback⟩
  · exact hacyclic id h
  · exact hself (trans_left hback hto)

theorem Sound.editTask (hs : Sound b) {task task' : TeamTask} (htask : task ∈ b.tasks) (h : TaskStep kind task task')
    (hstatus : task'.status = task.status ∨ task.status = .running ∧ (task'.status = .succeeded ∨ task'.status = .failed))
    (hdepends : task'.dependsOnIds = task.dependsOnIds ∨ ∀ id ∈ task'.dependsOnIds,
      (∃ task'' ∈ b.tasks, task''.id = id ∧ task''.teamId = task.teamId) ∧ ¬ ReflTransGen (Depends b.tasks) id task.id) :
    Sound { b with tasks := b.tasks.set task' } := by
  obtain ⟨hid, hteam, hmember, -⟩ := h
  have hmem {row : TeamTask} (h : row ∈ b.tasks.set task') : row = task' ∨ row ∈ b.tasks ∧ row ≠ task := by
    rcases mem_set.mp h with rfl | ⟨hold, hne⟩
    · exact .inl rfl
    · refine .inr ⟨hold, ?_⟩
      rintro rfl
      exact hne hid.symm
  have hkept : ∀ row ∈ b.tasks, ∃ row' ∈ b.tasks.set task', row'.id = row.id ∧ row'.teamId = row.teamId := by
    intro row hrow
    by_cases hkey : row.id = task'.id
    · obtain rfl := eq_of_key hrow htask (hkey.trans hid)
      exact ⟨task', mem_set.mpr (.inl rfl), hid, hteam⟩
    · exact ⟨row, mem_set.mpr (.inr ⟨hrow, hkey⟩), rfl, rfl⟩
  exact { hs with
    taskFresh := forall_mem_set (hid ▸ hs.taskFresh task htask) hs.taskFresh
    apart := by
      intro row hrow item hitem
      rcases hmem hrow with rfl | ⟨hold, -⟩
      · rw [hid]
        exact hs.apart task htask item hitem
      · exact hs.apart row hold item hitem
    forTask := by
      intro item hitem id hitemTask
      obtain ⟨row, hrow, hkey, hsame, hassigned, hsuits⟩ := hs.forTask item hitem id hitemTask
      by_cases hrowKey : row.id = task'.id
      · obtain rfl := eq_of_key hrow htask (hrowKey.trans hid)
        refine ⟨task', mem_set.mpr (.inl rfl), hid.trans hkey, hteam.trans hsame, hmember.trans hassigned, ?_⟩
        rcases hstatus with hstatus | ⟨hrunning, hclosed⟩
        · rwa [hstatus]
        · -- Only a running dispatch suits a task that is running.
          rw [hrunning] at hsuits
          cases hitemStatus : item.status with
          | running => exact .inr hclosed
          | _ =>
            rw [hitemStatus] at hsuits
            simp [Suits, TaskStatus.Terminal] at hsuits
      · exact ⟨row, mem_set.mpr (.inr ⟨hrow, hrowKey⟩), hkey, hsame, hassigned, hsuits⟩
    held := by
      intro row hrow
      rcases hmem hrow with rfl | ⟨hold, -⟩
      · rw [hid]
        exact hs.held task htask
      · exact hs.held row hold
    inside := by
      intro row hrow id hdep
      have hdep' : ∃ row' ∈ b.tasks, row'.id = id ∧ row'.teamId = row.teamId := by
        rcases hmem hrow with rfl | ⟨hold, -⟩
        · rcases hdepends with hsame | hchecked
          · rw [hteam]
            exact hs.inside task htask id (hsame ▸ hdep)
          · rw [hteam]
            exact (hchecked id hdep).1
        · exact hs.inside row hold id hdep
      obtain ⟨row', hrow', rfl, hsame⟩ := hdep'
      obtain ⟨row'', hrow'', hkey, hteam'⟩ := hkept row' hrow'
      exact ⟨row'', hrow'', hkey, hteam'.trans hsame⟩
    acyclic := by
      rcases hdepends with hsame | hchecked
      · exact (SameGraph.set htask hid hteam hsame).acyclic hs.acyclic
      · exact acyclic_edited hid (fun id hmem => (hchecked id hmem).2) hs.acyclic }

end Tasks

section Turns

variable {teams teams' : Table Team.id} {teamId memberId : ℕ} {status : MemberStatus}

theorem Restatused.has (h : Restatused teams teams' teamId memberId status) (t m : ℕ) : HasMember teams' t m ↔ HasMember teams t m := by
  by_cases hsame : t = teamId ∧ m = memberId
  · obtain ⟨rfl, rfl⟩ := hsame
    constructor
    · rintro ⟨s, hs⟩
      exact ((h.self s).mp hs).2
    · intro hm
      exact ⟨status, (h.self status).mpr ⟨rfl, hm⟩⟩
  · have hother : t ≠ teamId ∨ m ≠ memberId := by
      by_cases ht : t = teamId
      · exact .inr fun hm => hsame ⟨ht, hm⟩
      · exact .inl ht
    constructor
    · rintro ⟨s, hs⟩
      exact ⟨s, (h.others t m s hother).mp hs⟩
    · rintro ⟨s, hs⟩
      exact ⟨s, (h.others t m s hother).mpr hs⟩

theorem Sound.restatused (hs : Sound b) (h : Restatused b.teams teams' teamId memberId status) :
    (∀ team ∈ teams', team.id < b.drawn) ∧ (∀ t m s, Seats teams' t m s → m < b.drawn) ∧
      (∀ t t' m s s', Seats teams' t m s → Seats teams' t' m s' → t = t' ∧ s = s') ∧ ∀ team ∈ teams', team.Formed := by
  have hhad : ∀ t m s, Seats teams' t m s → HasMember b.teams t m := fun t m s hseat => (h.has t m).mp ⟨s, hseat⟩
  refine ⟨?_, ?_, ?_, h.formed hs.formed⟩
  · intro team hteam
    obtain ⟨team', hteam', hkey⟩ := (h.ids team.id).mp ⟨team, hteam, rfl⟩
    exact hkey ▸ hs.teamFresh team' hteam'
  · intro t m s hseat
    obtain ⟨s', hseat'⟩ := hhad t m s hseat
    exact hs.memberFresh t m s' hseat'
  · intro t t' m s s' hseat hseat'
    obtain ⟨_, h₀⟩ := hhad t m s hseat
    obtain ⟨_, h₁⟩ := hhad t' m s' hseat'
    obtain ⟨rfl, -⟩ := hs.seat _ _ _ _ _ h₀ h₁
    refine ⟨rfl, ?_⟩
    by_cases hother : t ≠ teamId ∨ m ≠ memberId
    · exact (hs.seat _ _ _ _ _ ((h.others t m s hother).mp hseat) ((h.others t m s' hother).mp hseat')).2
    · rw [not_or, not_not, not_not] at hother
      obtain ⟨rfl, rfl⟩ := hother
      exact ((h.self s).mp hseat).1.trans ((h.self s').mp hseat').1.symm

variable {item : TeamDispatch}

section

variable (hs : Sound b) (hitem : item ∈ b.dispatches)
include hs hitem

theorem Sound.apartFrom {row : TeamDispatch} (hrow : row ∈ b.dispatches) (hrunning : item.status = .running)
    (hrowRunning : row.status = .running) (hne : row ≠ item) : row.teamId ≠ item.teamId ∨ row.memberId ≠ item.memberId := by
  refine .inr fun hsame => hne ?_
  exact hs.oneTurn row hrow item hitem hsame hrowRunning hrunning

theorem Sound.turn {item' : TeamDispatch} {tasks : Table TeamTask.id} (h : TurnStep kind item item') (hmoves : item'.status ≠ item.status)
    (hstatus : status = .running ↔ item'.status = .running) (hended : item'.status ≠ .running → item.status = .running)
    (hfree : item'.status = .running → b.closing = none ∧ ¬ Seats b.teams item.teamId item.memberId .running ∧ (b.dispatches.count fun row => row.runId = item.runId ∧ row.status = .running) < 4)
    (htasks : TaskTurn kind b.tasks tasks item item') (hteams : Restatused b.teams teams item.teamId item.memberId status) :
    Sound { b with tasks := tasks, teams := teams, dispatches := b.dispatches.set item' } := by
  have hbooks := hs.toBooks.turned teams hitem h htasks
  have hpends := h.pending
  obtain ⟨hid, hteam, hrunId, hmember, -⟩ := h
  obtain ⟨hteamFresh, hmemberFresh, hseat, hformed⟩ := hs.restatused hteams
  -- Another dispatch that runs is not one of the same member.
  have hothers : ∀ row ∈ b.dispatches, row ≠ item → row.status = .running →
      row.teamId ≠ item.teamId ∨ row.memberId ≠ item.memberId := by
    intro row hrow hne hrunning
    by_cases hbegins : item'.status = .running
    · by_contra hsame
      rw [not_or, not_not, not_not] at hsame
      obtain ⟨hclosing, hidle, -⟩ := hfree hbegins
      rcases hs.busy row hrow hrunning with hbusy | hbusy
      · rw [hsame.1, hsame.2] at hbusy
        exact hidle hbusy
      · rw [hclosing] at hbusy
        cases hbusy
    · exact hs.apartFrom hitem hrow (hended hbegins) hrunning hne
  exact { hbooks with
    teamFresh := hteamFresh
    memberFresh := hmemberFresh
    seat := hseat
    formed := hformed
    byMember := by
      intro row hrow hpending
      rcases replaced hitem hid hrow with rfl | ⟨hold, -⟩
      · rw [hteam, hmember]
        exact (hteams.has _ _).mpr (hs.byMember item hitem (hpends hpending))
      · exact (hteams.has _ _).mpr (hs.byMember row hold hpending)
    busy := by
      intro row hrow hrunning
      rcases replaced hitem hid hrow with rfl | ⟨hold, hne⟩
      · rw [hteam, hmember]
        refine .inl ((hteams.self _).mpr ⟨(hstatus.mpr hrunning).symm, hs.byMember item hitem (hpends (.inr hrunning))⟩)
      · rcases hs.busy row hold hrunning with hbusy | hbusy
        · exact .inl ((hteams.others _ _ _ (hothers row hold hne hrunning)).mpr hbusy)
        · exact .inr hbusy
    turning := by
      intro t m hseatRunning
      by_cases hother : t ≠ item.teamId ∨ m ≠ item.memberId
      · obtain ⟨row, hrow, rfl, rfl, hrunning⟩ := hs.turning t m ((hteams.others t m _ hother).mp hseatRunning)
        refine ⟨row, stays hitem hid hrow ?_, rfl, rfl, hrunning⟩
        rintro rfl
        simp at hother
      · rw [not_or, not_not, not_not] at hother
        obtain ⟨rfl, rfl⟩ := hother
        exact ⟨item', replacement, hteam, hmember, hstatus.mp ((hteams.self _).mp hseatRunning).1.symm⟩
    oneTurn := by
      have hdiffers : ∀ row ∈ b.dispatches, row ≠ item → row.status = .running → item'.status = .running →
          row.memberId ≠ item.memberId := by
        intro row hrow hne hrunning hbegins hsame
        obtain ⟨s, hs₀⟩ := hs.byMember item hitem (hpends (.inr hbegins))
        obtain ⟨_, hs₁⟩ := hs.byMember row hrow (.inr hrunning)
        rw [hsame] at hs₁
        rcases hothers row hrow hne hrunning with h | h
        · exact h (hs.seat _ _ _ _ _ hs₁ hs₀).1
        · exact h hsame
      intro row hrow row' hrow' hsame hrunning hrunning'
      rcases replaced hitem hid hrow with rfl | ⟨hold, hne⟩
      · rcases replaced hitem hid hrow' with rfl | ⟨hold', hne'⟩
        · rfl
        · exact absurd (hsame.symm.trans hmember) (hdiffers row' hold' hne' hrunning' hrunning)
      · rcases replaced hitem hid hrow' with rfl | ⟨hold', -⟩
        · exact absurd (hsame.trans hmember) (hdiffers row hold hne hrunning hrunning')
        · exact hs.oneTurn row hold row' hold' hsame hrunning hrunning'
    four := by
      intro id
      have hcount := count_set (p := fun row => row.runId = id ∧ row.status = .running) hitem hid
      have hbefore := hs.four id
      have hfour : ((b.dispatches.set item').count fun row => row.runId = id ∧ row.status = .running) ≤ 4 := by
        by_cases hbegins : item'.status = .running
        · obtain ⟨-, -, _⟩ := hfree hbegins
          by_cases hsame : item'.runId = id
          · rw [hrunId] at hsame
            subst hsame
            split at hcount <;> split at hcount <;> omega
          · simp only [hsame, false_and, if_false] at hcount
            omega
        · simp only [hbegins, and_false, if_false] at hcount
          omega
      exact hfour }

theorem Sound.drop {item' : TeamDispatch} {tasks : Table TeamTask.id} (h : TurnStep kind item item') (hqueued : item.status = .queued)
    (hdropped : ¬ item'.status.Pending) (htasks : TaskTurn kind b.tasks tasks item item') :
    Sound { b with tasks := tasks, dispatches := b.dispatches.set item' } := by
  have hbooks := hs.toBooks.turned b.teams hitem h htasks
  obtain ⟨hid, _, _, _, -⟩ := h
  have hstops : item'.status ≠ .running := fun hrunning => hdropped (.inr hrunning)
  exact { hbooks, hs with
    byMember := forall_mem_set (fun hpending => absurd hpending hdropped) hs.byMember
    busy := forall_mem_set (fun hrunning => absurd hrunning hstops) hs.busy
    turning := by
      intro t m hseat
      obtain ⟨row, hrow, hrowTeam, hrowMember, hrunning⟩ := hs.turning t m hseat
      refine ⟨row, stays hitem hid hrow ?_, hrowTeam, hrowMember, hrunning⟩
      rintro rfl
      simp [hqueued] at hrunning
    oneTurn := by
      intro row hrow row' hrow' hsame hrunning hrunning'
      rcases replaced hitem hid hrow with rfl | ⟨hold, -⟩
      · exact absurd hrunning hstops
      · rcases replaced hitem hid hrow' with rfl | ⟨hold', -⟩
        · exact absurd hrunning' hstops
        · exact hs.oneTurn row hold row' hold' hsame hrunning hrunning'
    four := by
      intro id
      have hcount := count_set (p := fun row => row.runId = id ∧ row.status = .running) hitem hid
      have hbefore := hs.four id
      have hfour : ((b.dispatches.set item').count fun row => row.runId = id ∧ row.status = .running) ≤ 4 := by
        simp only [hstops, and_false, if_false] at hcount
        omega
      exact hfour }

theorem Sound.idle (hclosing : b.closing = some item.runId) (hteams : Restatused b.teams teams item.teamId item.memberId .idle) :
    Sound { b with teams := teams } := by
  obtain ⟨hteamFresh, hmemberFresh, hseat, hformed⟩ := hs.restatused hteams
  exact { hs with
    teamFresh := hteamFresh
    memberFresh := hmemberFresh
    seat := hseat
    formed := hformed
    byMember := fun row hrow hpending => (hteams.has _ _).mpr (hs.byMember row hrow hpending)
    busy := by
      intro row hrow hrunning
      by_cases hother : row.teamId ≠ item.teamId ∨ row.memberId ≠ item.memberId
      · rcases hs.busy row hrow hrunning with hbusy | hbusy
        · exact .inl ((hteams.others _ _ _ hother).mpr hbusy)
        · exact .inr hbusy
      · -- Every run of the team is finished, so what still runs there belongs to the run that is closed.
        rw [not_or, not_not, not_not] at hother
        obtain ⟨run, hrun, hkey, hteam, hopen⟩ := hs.inRun row hrow
        obtain ⟨_, hmem, hclosingKey, -, hall⟩ := hs.closes item.runId hclosing
        obtain ⟨_, hrun', hkey', hteam', -⟩ := hs.inRun item hitem
        obtain rfl := eq_of_key hmem hrun' (hclosingKey.trans hkey'.symm)
        have hfinished : run.status.Finished := hall run hrun (hteam.trans (hother.1.trans hteam'.symm))
        rcases hopen (.inr hrunning) with h | h
        · exact absurd hfinished h
        · exact .inr (hkey ▸ h)
    turning := by
      intro t m hseatRunning
      by_cases hother : t ≠ item.teamId ∨ m ≠ item.memberId
      · exact hs.turning t m ((hteams.others t m _ hother).mp hseatRunning)
      · rw [not_or, not_not, not_not] at hother
        obtain ⟨rfl, rfl⟩ := hother
        cases ((hteams.self _).mp hseatRunning).1 }

end

end Turns

theorem Move.sound (h : Move base kind b c) (hs : Sound b) : Sound c := by
  cases h with
  | draw => exact hs.later (le_succ _)
  | staff _ h => exact hs.staff h
  | deleteTeam id hclosing => exact hs.deleteTeam id hclosing
  | openRun hid _ hnone hclosing => exact hs.openRun hid hnone hclosing
  | setRun hrun hid hteam hbefore hafter => exact hs.replaceRun hrun hid hteam hbefore fun _ _ _ _ => hafter
  | completeRun hrun hid hteam hbefore hitems =>
    exact hs.replaceRun hrun hid hteam hbefore fun item hitem hrunId hpending => absurd hpending (hitems item hitem hrunId)
  | cancelRun hrun hid hteam hbefore hafter hclosing => exact hs.cancelRun hrun hid hteam hbefore hafter hclosing
  | closed hitems => exact hs.closed hitems
  | editDispatch hitem h hstatus => exact hs.editDispatch hitem h hstatus
  | enqueue hid hqueued hsubmitted hrun hmember htask =>
    exact hs.enqueue hid hqueued hmember (hs.toBooks.enqueue hid hsubmitted hrun htask)
  | enqueueTask hid hqueued hsubmitted hrun hmember htask hteam hassigned hstatus _ hold hnew hapart hinside =>
    exact hs.enqueue hid hqueued hmember
      (hs.toBooks.enqueueTask hid hqueued hsubmitted hrun htask hteam hassigned hstatus hold hnew hapart hinside)
  | editTask htask _ h hstatus hdepends => exact hs.editTask htask h hstatus hdepends
  | turn hitem h hmoves hstatus hended hfree htasks hteams => exact hs.turn hitem h hmoves hstatus hended hfree htasks hteams
  | drop hitem h hqueued hdropped htasks => exact hs.drop hitem h hqueued hdropped htasks
  | idle hitem hclosing hteams => exact hs.idle hitem hclosing hteams

end WorkAgent.Teams
