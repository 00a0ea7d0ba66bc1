import WorkAgent.Teams.Acknowledgements

namespace WorkAgent.Teams

open Library List

set_option synthInstance.maxSize 4000

variable {host : Host} {s t u : TeamStore} {acknowledged : List ℕ} {n : ℕ}

section Listing

/-- The dispatch was interrupted, or the task was running when a process ended and has no dispatch that was. -/
def Interrupted (d : Document) (id : ℕ) : Prop :=
  (∃ item ∈ d.dispatches, item.id = id ∧ item.status = .interrupted) ∨
    ∃ task ∈ d.tasks, task.id = id ∧ task.Restarted ∧ Uninterrupted d.dispatches task

def Listed (s : TeamStore) (id : ℕ) : Prop := ∃ ids, interruptedExecutions s = (.ok ids, s) ∧ id ∈ ids

theorem checkMember_ok {teamId memberId : ℕ} (h : HasMember s.teams teamId memberId) :
    (do
      let team ← requiredTeam teamId
      let _ ← requiredMember team memberId : StoreAct Unit) s = (.ok (), s) := by
  obtain ⟨_, _, hteam, rfl, _, hmember, rfl, -⟩ := h
  obtain ⟨_, u, hrow⟩ := requiredMember_succeeds (s := s) hmember
  obtain ⟨rfl, -⟩ := requiredMember_ok hrow
  rw [Act.bind_of_ok (requiredTeam_of hteam), Act.bind_of_ok hrow]
  rfl

theorem forEach_passes {α : Type} {g : α → StoreAct Unit} {l : List α} (h : ∀ y ∈ l, g y s = (.ok (), s)) : Act.forEach g l s = (.ok (), s) := by
  induction l with
  | nil => rfl
  | cons y _ ih => exact (Act.bind_of_ok (h y mem_cons_self)).trans (ih fun z hz => h z (mem_cons_of_mem _ hz))

theorem interruptedExecutions_ok (hs : Sound s.board) (hr : Recoverable s.quotaReconciledTaskIds s.board) :
    ∃ ids, interruptedExecutions s = (.ok ids, s) ∧ ids.Nodup ∧ ∀ id, id ∈ ids ↔ Interrupted s.toDocument id ∧ id ∉ s.quotaReconciledTaskIds := by
  let tasks := s.tasks.rows.filter fun task =>
    task.status = .failed ∧ task.error = some "runtime_restarted" ∧ task.id ∉ s.quotaReconciledTaskIds ∧
      ¬ ∃ item ∈ s.dispatches.rows, item.taskId = some task.id ∧ item.status = .interrupted
  let items := s.dispatches.rows.filter fun item => item.status = .interrupted ∧ item.id ∉ s.quotaReconciledTaskIds
  have htasks (task : TeamTask) : task ∈ tasks ↔
      task ∈ s.tasks ∧ task.Restarted ∧ task.id ∉ s.quotaReconciledTaskIds ∧ Uninterrupted s.dispatches task := by
    simp only [tasks, mem_filter, decide_eq_true_eq, TeamTask.Restarted, and_assoc]
    refine and_congr_right fun _ => and_congr_right fun _ => and_congr_right fun _ => and_congr_right fun _ => ?_
    constructor
    · exact fun hnone item hitem hkey hstatus => hnone ⟨item, hitem, hkey, hstatus⟩
    · rintro hall ⟨item, hitem, hkey, hstatus⟩
      exact hall item hitem hkey hstatus
  have hitems (item : TeamDispatch) : item ∈ items ↔ item ∈ s.dispatches ∧ item.status = .interrupted ∧ item.id ∉ s.quotaReconciledTaskIds := by
    simp only [items, mem_filter, decide_eq_true_eq]
    exact Iff.rfl
  refine ⟨tasks.map TeamTask.id ++ items.map TeamDispatch.id, ?_, ?_, ?_⟩
  · have hfirst : Act.forEach (fun task : TeamTask => do
        let team ← requiredTeam task.teamId
        let _ ← requiredMember team task.memberId) tasks s = (.ok (), s) := by
      refine forEach_passes fun task htask => checkMember_ok ?_
      obtain ⟨hmem, hrestarted, hnot, hfree⟩ := (htasks task).mp htask
      exact hr.tasks task hmem hrestarted hnot hfree
    have hsecond : Act.forEach (fun item : TeamDispatch => do
        let team ← requiredTeam item.teamId
        let _ ← requiredMember team item.memberId) items s = (.ok (), s) := by
      refine forEach_passes fun item hitem => checkMember_ok ?_
      obtain ⟨hmem, hstatus, hnot⟩ := (hitems item).mp hitem
      exact hr.items item hmem hstatus hnot
    unfold interruptedExecutions
    rw [read_bind]
    exact (Act.bind_of_ok hfirst).trans ((Act.bind_of_ok hsecond).trans rfl)
  · have htaskIds : (tasks.map TeamTask.id).Nodup := (filter_sublist.map _).nodup s.tasks.nodup
    have hitemIds : (items.map TeamDispatch.id).Nodup := (filter_sublist.map _).nodup s.dispatches.nodup
    refine htaskIds.append hitemIds ?_
    intro id htask hitem
    obtain ⟨task, htaskMem, rfl⟩ := mem_map.mp htask
    obtain ⟨item, hitemMem, hsame⟩ := mem_map.mp hitem
    exact hs.apart task ((htasks task).mp htaskMem).1 item ((hitems item).mp hitemMem).1 hsame
  · intro _
    rw [mem_append, mem_map, mem_map]
    constructor
    · rintro (⟨task, htask, rfl⟩ | ⟨item, hitem, rfl⟩)
      · obtain ⟨hmem, hrestarted, hnot, hfree⟩ := (htasks task).mp htask
        exact ⟨.inr ⟨task, hmem, rfl, hrestarted, hfree⟩, hnot⟩
      · obtain ⟨hmem, hstatus, hnot⟩ := (hitems item).mp hitem
        exact ⟨.inl ⟨item, hmem, rfl, hstatus⟩, hnot⟩
    · rintro ⟨⟨item, hmem, rfl, hstatus⟩ | ⟨task, hmem, rfl, hrestarted, hfree⟩, hnot⟩
      · exact .inr ⟨item, (hitems item).mpr ⟨hmem, hstatus, hnot⟩, rfl⟩
      · exact .inl ⟨task, (htasks task).mpr ⟨hmem, hrestarted, hnot, hfree⟩, rfl⟩

end Listing

section Steps

theorem recovered_recoverable {d : Document} (hs : Sound (d.board n)) (hr : Recoverable acknowledged (d.board n)) :
    Recoverable acknowledged (d.recovered.board n) where
  items := by
    intro item' hitem' hstatus hnot
    obtain ⟨item, hitem, hid, hteam, -, hmember, -, -, hwas⟩ := recovered_item hs hitem'
    have hkept : HasMember d.teams item.teamId item.memberId := by
      rcases hwas with ⟨rfl, -⟩ | ⟨hrunning, -⟩
      · exact hr.items item' hitem hstatus hnot
      · exact hs.byMember item hitem (.inr hrunning)
    rw [hteam, hmember]
    exact seats_recovered hkept
  tasks := by
    intro task' htask' hrestarted hnot hfree
    obtain ⟨task, htask, _, hteam, hmember, -, hwas⟩ := recovered_task htask'
    have hkept : HasMember d.teams task.teamId task.memberId := by
      rcases hwas with ⟨rfl, -⟩ | ⟨hrunning, -⟩
      · refine hr.tasks task' htask hrestarted hnot fun item hitem hkey hstatus => ?_
        obtain ⟨item', hitem', -, _, -, hsame⟩ := item_recovered hs hitem
        obtain rfl := hsame (by simp [hstatus])
        exact hfree item' hitem' hkey hstatus
      · obtain ⟨item, hitem, hkey⟩ := hs.held task htask
        obtain ⟨_, hrow, hrowId, hrowTeam, hrowMember, hsuits⟩ := hs.forTask item hitem _ hkey
        obtain rfl := Table.eq_of_key hrow htask hrowId
        rw [hrowTeam, hrowMember]
        rw [hrunning] at hsuits
        exact hs.byMember item hitem (.inr (suits_running hsuits))
    rw [hteam, hmember]
    exact seats_recovered hkept

def Acknowledgeable (s : TeamStore) (id : ℕ) : Prop :=
  (∃ item ∈ s.dispatches, item.id = id ∧ item.status = .interrupted) ∨ ∃ task ∈ s.tasks, task.id = id ∧ task.Restarted

theorem acknowledge_cases (hb : s.batch = false) {id : ℕ} {r : Except String Unit} (h : acknowledgeInterruptedExecution id s = (r, t)) :
    ¬ Acknowledgeable s id ∧ t = s ∨
      Acknowledgeable s id ∧ (∀ other, other ∈ t.quotaReconciledTaskIds ↔ other ∈ s.quotaReconciledTaskIds ∨ other = id) ∧
        (s.disk.head? ≠ some false → t.file = t.toDocument) := by
  have hwrites {r : Except String Unit} (h : (acknowledge id >>= fun _ => save) s = (r, t)) :
      (∀ other, other ∈ t.quotaReconciledTaskIds ↔ other ∈ s.quotaReconciledTaskIds ∨ other = id) ∧ (s.disk.head? ≠ some false → t.file = t.toDocument) := by
    change save { s with quotaReconciledTaskIds := _ } = _ at h
    have hdocument := save_toDocument { s with quotaReconciledTaskIds :=
      if id ∈ s.quotaReconciledTaskIds then s.quotaReconciledTaskIds else s.quotaReconciledTaskIds ++ [id] }
    constructor
    · intro _
      rw [h] at hdocument
      rw [show t.quotaReconciledTaskIds = _ from congrArg Document.quotaReconciledTaskIds hdocument]
      simp only
      split
      · rename_i hmem
        refine ⟨.inl, ?_⟩
        rintro (hold | rfl)
        · exact hold
        · exact hmem
      · simp
    · intro hdisk
      cases r with
      | ok => rw [save_ok (by exact hb) h]
      | error => exact absurd (save_refused h) hdisk
  unfold acknowledgeInterruptedExecution at h
  rw [read_bind] at h
  by_cases hitem : (s.dispatches.find? id).map TeamDispatch.status = some .interrupted
  · rw [if_pos hitem] at h
    obtain ⟨item, hfind, hstatus⟩ := Option.map_eq_some_iff.mp hitem
    obtain ⟨hmem, hid⟩ := Table.find?_eq_some.mp hfind
    exact .inr ⟨.inl ⟨item, hmem, hid, hstatus⟩, hwrites h⟩
  · rw [if_neg hitem] at h
    have hno : ¬ ∃ item ∈ s.dispatches, item.id = id ∧ item.status = .interrupted := by
      rintro ⟨_, hmem, rfl, hstatus⟩
      rw [Table.find?_of_mem hmem, Option.map_some, hstatus] at hitem
      exact hitem rfl
    by_cases htask : ∃ task ∈ s.tasks, task.id = id ∧ task.Restarted
    · have hsome := htask
      obtain ⟨task, hmem, rfl, hrestarted⟩ := hsome
      rw [Act.bind_of_ok (requiredTask_of hmem)] at h
      have hpasses : Succeeds (refuse (task.status ≠ .failed ∨ task.error ≠ some "runtime_restarted") "team_task_not_interrupted") s :=
        .refuse (by simpa [TeamTask.Restarted] using hrestarted)
      obtain ⟨_, _, hpass⟩ := hpasses
      obtain ⟨rfl, -⟩ := refuse_ok hpass
      rw [Act.bind_of_ok hpass] at h
      exact .inr ⟨.inr htask, hwrites h⟩
    · refine .inl ⟨fun h => h.elim hno htask, ?_⟩
      rcases Act.Reads.bind_eq h with ⟨_, -, rfl⟩ | ⟨task, hfound, h⟩
      · rfl
      obtain ⟨-, hmem, hid⟩ := requiredTask_ok hfound
      rcases Act.Reads.bind_eq h with ⟨_, -, rfl⟩ | ⟨_, hpass, h⟩
      · rfl
      obtain ⟨-, hrestarted⟩ := refuse_ok hpass
      exact absurd ⟨task, hmem, hid, by simpa [TeamTask.Restarted] using hrestarted⟩ htask

variable {c : Call} {early : Kind → Prop} {a : Action}

theorem Step.unacknowledged (ha : a.Calls c early) (h : Step host s a t)
    (hno : ∀ id, a ≠ .call (.acknowledgeInterruptedExecution id)) : t.quotaReconciledTaskIds = s.quotaReconciledTaskIds := by
  cases ha with
  | call =>
    cases h with
    | call _ h =>
      have := @Call.aloof host c fun id hsame => hno id (congrArg Action.call hsame)
      exact Aloof.eq h
  | operation =>
    cases h with
    | operation _ hnested _ _ _ h =>
      have := hnested.ordinary
      exact Aloof.eq h

structure Recovered (s : TeamStore) : Prop where
  memory : Recoverable s.quotaReconciledTaskIds s.board
  saved : Recoverable s.file.quotaReconciledTaskIds (s.file.board s.drawn)

theorem Recovered.start : Recovered .start where
  memory := ⟨Table.forall_mem_empty, Table.forall_mem_empty⟩
  saved := ⟨Table.forall_mem_empty, Table.forall_mem_empty⟩

theorem Recoverable.drawn {m : ℕ} {d : Document} (h : Recoverable acknowledged (d.board n)) : Recoverable acknowledged (d.board m) :=
  ⟨h.items, h.tasks⟩

/-- No member is removed of whom something is to be recovered, and the file can be written when something is acknowledged. -/
def Careful (s : TeamStore) (a : Action) (_ : TeamStore) : Prop :=
  (∀ (teamId memberId : ℕ) (early : Kind → Prop), a.Calls (.removeMember teamId memberId) early → Removable s.board teamId memberId →
    ¬ Awaited s.quotaReconciledTaskIds s.board teamId memberId) ∧
  ∀ id, a = .call (.acknowledgeInterruptedExecution id) → Acknowledgeable s id → s.disk.head? ≠ some false

theorem Call.removes_kinds (h : ∀ teamId memberId, c ≠ .removeMember teamId memberId) {kind : Kind} (hkind : c.kinds kind) :
    kind ≠ .removes := by
  rintro rfl
  cases c <;> simp_all [Call.kinds, Cancelling, Beginning, Finishing]

theorem Action.Calls.removes_early (ha : a.Calls c early)
    (h : ∀ teamId memberId, c ≠ .removeMember teamId memberId) {kind : Kind} (hkind : early kind) : kind ≠ .removes := by
  rintro rfl
  cases ha with
  | call => cases c <;> simp_all [Call.early, Call.kinds]
  | operation => cases hkind

theorem Step.recoverable (hs : Steady s) (ha : a.Calls c early) (h : Step host s a t)
    (hcareful : Careful s a t) (hr : Recoverable s.quotaReconciledTaskIds s.board) : Recoverable s.quotaReconciledTaskIds t.board := by
  by_cases hremoves : ∃ teamId memberId, c = .removeMember teamId memberId
  · obtain ⟨teamId, memberId, rfl⟩ := hremoves
    have hclear := hcareful.1 teamId memberId early ha
    rcases h.acted hs ha with hboard | ⟨u, w, r, hu, hact, hw, -⟩
    · exact hboard ▸ ⟨hr.items, hr.tasks⟩
    · obtain ⟨_, hact⟩ := discard_any hact
      rw [hw]
      refine removeMember_recoverable (hu ▸ hr) hact ?_
      rwa [hu]
  · have hno : ∀ teamId memberId, c ≠ .removeMember teamId memberId := fun teamId memberId hsame => hremoves ⟨teamId, memberId, hsame⟩
    obtain ⟨-, ⟨-, hmoves⟩ | ⟨-, hmoves⟩⟩ := h.effect hs ha
    · exact hmoves.recoverable hs.memory (fun _ => Call.removes_kinds hno) hr
    · exact hmoves.recoverable hs.memory (fun _ => ha.removes_early hno) hr

theorem Step.acknowledges {id : ℕ} (h : Step host s (.call (.acknowledgeInterruptedExecution id)) t) :
    ∃ r, acknowledgeInterruptedExecution id s = (r, t) := by
  cases h with
  | @call _ r _ h => exact ⟨r, h⟩

theorem Step.acknowledged_sub (hs : Steady s) (ha : a.Calls c early) (h : Step host s a t) :
    ∀ id ∈ s.quotaReconciledTaskIds, id ∈ t.quotaReconciledTaskIds := by
  by_cases hack : ∃ id, a = .call (.acknowledgeInterruptedExecution id)
  · obtain ⟨id, rfl⟩ := hack
    obtain ⟨r, hact⟩ := h.acknowledges
    rcases acknowledge_cases hs.batch hact with ⟨-, rfl⟩ | ⟨-, hids, -⟩
    · exact fun _ hmem => hmem
    · exact fun other hmem => (hids other).mpr (.inl hmem)
  · rw [h.unacknowledged ha fun id hsame => hack ⟨id, hsame⟩]
    exact fun _ hmem => hmem

theorem History.recovered (h : History host Careful s t) (hs : Steady s) (hr : Recovered s) : Recovered t := by
  refine h.keeps hs hr ?_ ?_ ?_
  · intro s t c a _ hs hr ha hstep hcareful
    have hmemory := (hstep.recoverable hs ha hcareful hr.memory).mono (hstep.acknowledged_sub hs ha)
    obtain ⟨-, ⟨hfile, -⟩ | ⟨hfile, -⟩⟩ := hstep.effect hs ha
    · exact ⟨hmemory, by rw [hfile]; exact hmemory⟩
    · exact ⟨hmemory, by rw [hfile]; exact hr.saved.drawn⟩
  · intro s t hs hr h
    obtain ⟨hdocument, hfile, -⟩ := construct_ok hs.saved h
    have hmemory : Recoverable t.quotaReconciledTaskIds t.board := by
      unfold TeamStore.board
      rw [hdocument]
      exact (recovered_recoverable hs.saved hr.saved).drawn
    exact ⟨hmemory, by rw [hfile]; exact hmemory⟩
  · exact fun s writes hr => ⟨hr.memory, hr.saved⟩

end Steps

section Recovery

structure Acknowledged (id : ℕ) (s : TeamStore) : Prop where
  memory : id ∈ s.quotaReconciledTaskIds
  saved : id ∈ s.file.quotaReconciledTaskIds

theorem Acknowledged.later {id : ℕ} (h : History host Careful s t) (hs : Steady s) (hack : Acknowledged id s) : Acknowledged id t := by
  refine h.keeps hs hack ?_ ?_ ?_
  · intro s t c a _ hs hack ha hstep _
    have hmemory := hstep.acknowledged_sub hs ha id hack.memory
    obtain ⟨-, ⟨hfile, -⟩ | ⟨hfile, -⟩⟩ := hstep.effect hs ha
    · exact ⟨hmemory, by rw [hfile]; exact hmemory⟩
    · exact ⟨hmemory, by rw [hfile]; exact hack.saved⟩
  · intro s t hs hack h
    obtain ⟨hdocument, hfile, -⟩ := construct_ok hs.saved h
    have hmemory : id ∈ t.quotaReconciledTaskIds := by
      rw [hdocument]
      exact hack.saved
    exact ⟨hmemory, by rw [hfile]; exact hmemory⟩
  · exact fun s writes hack => ⟨hack.memory, hack.saved⟩

def Without (id : ℕ) (s : TeamStore) (a : Action) (t : TeamStore) : Prop := Careful s a t ∧ a ≠ .call (.acknowledgeInterruptedExecution id)

theorem History.mono {meets meets' : TeamStore → Action → TeamStore → Prop} (h : History host meets s t) (hsub : ∀ s a t, meets s a t → meets' s a t) :
    History host meets' s t := by
  induction h with
  | none => exact .none
  | next _ hstep hmeets ih => exact ih.next hstep (hsub _ _ _ hmeets)

structure Unnamed (id : ℕ) (s : TeamStore) : Prop where
  memory : id ∉ s.quotaReconciledTaskIds
  saved : id ∉ s.file.quotaReconciledTaskIds

theorem Unnamed.later {id : ℕ} (h : History host (Without id) s t) (hs : Steady s) (hnot : Unnamed id s) : Unnamed id t := by
  refine h.keeps hs hnot ?_ ?_ ?_
  · intro s t c a _ hs hnot ha hstep hwithout
    have hmemory : id ∉ t.quotaReconciledTaskIds := by
      by_cases hack : ∃ other, a = .call (.acknowledgeInterruptedExecution other)
      · obtain ⟨other, rfl⟩ := hack
        obtain ⟨r, hact⟩ := hstep.acknowledges
        rcases acknowledge_cases hs.batch hact with ⟨-, rfl⟩ | ⟨-, hids, -⟩
        · exact hnot.memory
        · rw [hids, not_or]
          exact ⟨hnot.memory, fun hsame => hwithout.2 (by rw [hsame])⟩
      · rw [hstep.unacknowledged ha fun other hsame => hack ⟨other, hsame⟩]
        exact hnot.memory
    obtain ⟨-, ⟨hfile, -⟩ | ⟨hfile, -⟩⟩ := hstep.effect hs ha
    · exact ⟨hmemory, by rw [hfile]; exact hmemory⟩
    · exact ⟨hmemory, by rw [hfile]; exact hnot.saved⟩
  · intro s t hs hnot h
    obtain ⟨hdocument, hfile, -⟩ := construct_ok hs.saved h
    have hmemory : id ∉ t.quotaReconciledTaskIds := by
      rw [hdocument]
      exact hnot.saved
    exact ⟨hmemory, by rw [hfile]; exact hmemory⟩
  · exact fun s writes hnot => ⟨hnot.memory, hnot.saved⟩

/-- Along careful runs recovery always gets its list: each interrupted work once until it is acknowledged, and never again. -/
theorem interrupted_recoverable :
    (∀ s, History host Careful .start s → ∃ ids, interruptedExecutions s = (.ok ids, s) ∧ ids.Nodup ∧ ∀ id ∈ ids, Interrupted s.toDocument id) ∧
    (∀ s id, History host (Without id) .start s → Interrupted s.toDocument id → Listed s id) ∧
    ∀ s t u id, History host Careful .start s → Acknowledgeable s id → Step host s (.call (.acknowledgeInterruptedExecution id)) t → Careful s (.call (.acknowledgeInterruptedExecution id)) t →
      History host Careful t u → ¬ Listed u id := by
  refine ⟨?_, ?_, ?_⟩
  · intro s h
    obtain ⟨ids, hrun, hnodup, hids⟩ := interruptedExecutions_ok (h.steady .start).memory (h.recovered .start .start).memory
    exact ⟨ids, hrun, hnodup, fun id hid => ((hids id).mp hid).1⟩
  · intro s id h hinterrupted
    have hcareful : History host Careful .start s := h.mono fun _ _ _ hwithout => hwithout.1
    obtain ⟨ids, hrun, -, hids⟩ := interruptedExecutions_ok (hcareful.steady .start).memory (hcareful.recovered .start .start).memory
    have hunnamed := Unnamed.later h .start ⟨not_mem_nil, not_mem_nil⟩
    exact ⟨ids, hrun, (hids id).mpr ⟨hinterrupted, hunnamed.memory⟩⟩
  · rintro s t u id hbefore hacknowledgeable hstep hcareful hafter ⟨_, hrun, hmem⟩
    have hs := hbefore.steady .start
    have ht : Steady t := hstep.steady hs
    obtain ⟨r, hact⟩ := hstep.acknowledges
    have hack : Acknowledged id t := by
      rcases acknowledge_cases hs.batch hact with ⟨hnot, -⟩ | ⟨-, hids, hsaved⟩
      · exact absurd hacknowledgeable hnot
      · have hmemory : id ∈ t.quotaReconciledTaskIds := (hids id).mpr (.inr rfl)
        refine ⟨hmemory, ?_⟩
        rw [hsaved (hcareful.2 id rfl hacknowledgeable)]
        exact hmemory
    have hlater := Acknowledged.later hafter ht hack
    have hcarefulU : History host Careful .start u := (hbefore.next hstep hcareful).trans hafter
    obtain ⟨_, hrun', -, hids⟩ := interruptedExecutions_ok (hcarefulU.steady .start).memory (hcarefulU.recovered .start .start).memory
    obtain rfl := Except.ok.inj (congrArg Prod.fst (hrun.symm.trans hrun'))
    exact ((hids id).mp hmem).2 hlater.memory

def memberRemoved : TeamStore := replay plainHost [.removeMember 0 3] (construct memberTurn.file memberTurn).2

set_option maxRecDepth 100000 in
/-- The member of an interrupted dispatch is removed, and recovery gets no list any more. -/
theorem removal_blocks_recovery : ∃ s, Reachable plainHost s ∧ Interrupted s.toDocument 6 ∧ 6 ∉ s.quotaReconciledTaskIds ∧
    ∀ ids t, interruptedExecutions s ≠ (.ok ids, t) := by
  have hstarts : (construct memberTurn.file memberTurn).1.toBool = true := by decide
  have hinterrupted : ∃ item ∈ memberRemoved.dispatches.rows, item.id = 6 ∧ item.status = .interrupted := by decide
  have hids : memberRemoved.quotaReconciledTaskIds = [] := by decide
  have hblocked : (interruptedExecutions memberRemoved).1.toBool = false := by decide
  have hrestarted : Reachable plainHost (construct memberTurn.file memberTurn).2 := by
    cases hstart : construct memberTurn.file memberTurn with
    | mk r =>
      rw [hstart] at hstarts
      cases r with
      | error => cases hstarts
      | ok => exact memberTurn_reachable.next (.restart hstart) trivial
  refine ⟨memberRemoved, History.trans hrestarted (replay_later _), .inl hinterrupted, by simp [hids], fun ids t hok => ?_⟩
  rw [hok] at hblocked
  cases hblocked

end Recovery

end WorkAgent.Teams
