import WorkAgent.Teams.RunLifecycle

namespace WorkAgent.Teams

open Library Act.Reads TaskStatus Board Table

set_option synthInstance.maxSize 4000

variable {host : Host} {s t : TeamStore} {base : ℕ} {allowed : Kind → Prop} {b c : Board} {e : String}

section Rows

theorem Moves.closed_after (h : Moves base allowed b c) (hno : ∀ kind, allowed kind → kind ≠ .defers) {id : ℕ} {status : TaskStatus}
    (hterminal : status.Terminal) (hold : id < base) (hb : ∀ task ∈ b.tasks, task.id = id → task.status = status) :
    ∀ task ∈ c.tasks, task.id = id → task.status = status := by
  induction h with
  | none => exact hb
  | next _ hkind hmove ih =>
    intro _ htask hid
    rcases hmove.task htask with ⟨before, hbefore, hsame, -, -, hstatus⟩ | ⟨_, -⟩
    · have hbeforeStatus := ih before hbefore (hsame.symm.trans hid)
      rcases hstatus with ⟨hstatus, -⟩ | ⟨-, hopen, -⟩ | ⟨-, hqueued, -⟩ | ⟨hdefers, -⟩
      · exact hstatus.trans hbeforeStatus
      · exact absurd (hbeforeStatus ▸ hterminal) hopen
      · rw [← hbeforeStatus, hqueued] at hterminal
        simp [Terminal] at hterminal
      · exact absurd hdefers (hno _ hkind)
    · omega

theorem Moves.closed_before (h : Moves base allowed b c) (hno : ∀ kind, allowed kind → kind ≠ .closes) {task' : TeamTask}
    (hmem : task' ∈ c.tasks) (hterminal : task'.status.Terminal) : ∃ task ∈ b.tasks, task.id = task'.id ∧ task.status = task'.status := by
  induction h generalizing task' with
  | none => exact ⟨task', hmem, rfl, rfl⟩
  | next _ hkind hmove ih =>
    rcases hmove.task hmem with ⟨_, hbefore, hsame, -, -, hstatus⟩ | ⟨-, hqueued⟩
    · rcases hstatus with ⟨hstatus, -⟩ | ⟨hcloses, -⟩ | ⟨-, -, hrunning⟩ | ⟨-, hqueued⟩
      · obtain ⟨task, htask, hid, hsameStatus⟩ := ih hbefore (hstatus ▸ hterminal)
        exact ⟨task, htask, hid.trans hsame.symm, hsameStatus.trans hstatus.symm⟩
      · exact absurd hcloses (hno _ hkind)
      · simp [hrunning, Terminal] at hterminal
      · simp [hqueued, Terminal] at hterminal
    · simp [hqueued, Terminal] at hterminal

theorem Moves.open_before (h : Moves base allowed b c) (hno : ∀ kind, allowed kind → kind ≠ .begins) {task' : TeamTask}
    (hmem : task' ∈ c.tasks) (hrunning : task'.status = .running) : ∃ task ∈ b.tasks, task.id = task'.id ∧ task.status = .running := by
  induction h generalizing task' with
  | none => exact ⟨task', hmem, rfl, hrunning⟩
  | next _ hkind hmove ih =>
    rcases hmove.task hmem with ⟨_, hbefore, hsame, -, -, hstatus⟩ | ⟨-, hqueued⟩
    · rcases hstatus with ⟨hstatus, -⟩ | ⟨-, -, hterminal⟩ | ⟨hbegins, -⟩ | ⟨-, hqueued⟩
      · obtain ⟨task, htask, hid, hsameStatus⟩ := ih hbefore (hstatus.symm.trans hrunning)
        exact ⟨task, htask, hid.trans hsame.symm, hsameStatus⟩
      · simp [hrunning, Terminal] at hterminal
      · exact absurd hbegins (hno _ hkind)
      · cases hqueued.symm.trans hrunning
    · cases hqueued.symm.trans hrunning

end Rows

section Writes

theorem save_refused (h : save s = (.error e, t)) : s.disk.head? = some false := by
  unfold save at h
  split at h
  · cases h
  · split at h
    · assumption
    · cases h

variable {teamId : ℕ}

theorem event_save_refused {subjectId : ℕ} {type : EventType}
    (h : (event teamId type subjectId >>= fun _ => save) s = (.error e, t)) : s.disk.head? = some false := by
  rcases Act.bind_error.mp h with h | ⟨_, u, hevent, h⟩
  · cases h
  · obtain rfl := Act.modify_ok.mp hevent
    have hrefused := save_refused h
    exact hrefused

theorem cancelTask_error (hs : Sound s.board) (hdisk : s.disk.head? ≠ some false) {id : ℕ} (h : cancelTask teamId id s = (.error e, t)) :
    t = s := by
  unfold cancelTask at h
  rcases bind_eq h with ⟨_, -, rfl⟩ | ⟨task, hfound, h⟩
  · rfl
  rcases bind_eq h with ⟨_, -, rfl⟩ | ⟨_, hteam, h⟩
  · rfl
  rcases bind_eq h with ⟨_, -, rfl⟩ | ⟨_, -, h⟩
  · rfl
  obtain ⟨-, htask, rfl⟩ := requiredTask_ok hfound
  obtain ⟨-, hteam⟩ := refuse_ok hteam
  rw [not_not] at hteam
  subst hteam
  rw [setTask_bind, cancelDispatches_bind] at h
  obtain ⟨item, hitem, _, hitemTeam, hitemMember, hsuits, -⟩ := hs.dispatchOf htask
  by_cases hrunning : task.status = .running
  · rw [whenever_pos hrunning] at h
    have hitemRunning : item.status = .running := by
      rw [hrunning] at hsuits
      exact suits_running hsuits
    obtain ⟨_, -, hidle⟩ := idles (s := { s with
      tasks := s.tasks.set { task with status := .cancelled }
      dispatches := s.dispatches.update (fun row => row.taskId = some task.id ∧ row.status.Pending) fun row =>
        { row with status := .cancelled } }) (hs.byMember item hitem (.inr hitemRunning)) false
    rw [hitemTeam, hitemMember] at hidle
    rw [Act.bind_of_ok hidle] at h
    exact absurd (event_save_refused h) hdisk
  · rw [whenever_neg hrunning, pure_bind'] at h
    exact absurd (event_save_refused h) hdisk

theorem updateTask_error (hdisk : s.disk.head? ≠ some false) {taskId version : ℕ} {input : TaskMutation} {caller : Option ℕ}
    (h : updateTask host teamId taskId version input caller s = (.error e, t)) : t = s := by
  unfold updateTask at h
  rcases bind_eq h with ⟨_, -, rfl⟩ | ⟨_, -, h⟩
  · rfl
  rcases bind_eq h with ⟨_, -, rfl⟩ | ⟨_, -, h⟩
  · rfl
  rcases bind_eq h with ⟨_, -, rfl⟩ | ⟨_, -, h⟩
  · rfl
  rcases bind_eq h with ⟨_, -, rfl⟩ | ⟨text, -, h⟩
  · rfl
  rw [setTask_bind] at h
  rcases Act.bind_error.mp h with h | ⟨_, u, hset, h⟩
  · exact (forEach_never h fun _ _ => ⟨_, rfl⟩).elim
  have hkept : u.disk = s.disk := by
    refine Act.forEach_keeps (I := fun u => u.disk = s.disk) ?_ rfl hset
    intro _ _ v r w hv hw
    obtain ⟨-, rfl⟩ := Prod.mk.inj hw
    exact hv
  rcases Act.bind_error.mp h with h | ⟨_, v, hevent, h⟩
  · cases h
  obtain rfl := Act.modify_ok.mp hevent
  rcases Act.bind_error.mp h with h | ⟨_, w, -, h⟩
  · have hrefused := save_refused h
    rw [← hkept] at hdisk
    exact absurd hrefused hdisk
  · cases h

end Writes

section Finality

def Reopens (s : TeamStore) (id : ℕ) : Prop :=
  ∃ item ∈ s.dispatches, item.id = id ∧ item.status = .running ∧ item.submittedAt = none ∧
    ∃ task ∈ s.tasks, item.taskId = some task.id ∧ task.status.Terminal

/-- The action does not take back a dispatch of a closed task, and the file can be written when it closes a task outside of a transaction. -/
def Regular (s : TeamStore) (a : Action) (_ : TeamStore) : Prop :=
  (∀ (id : ℕ) (now : ℤ) (early : Kind → Prop), a.Calls (.deferDispatch id now) early → ¬ Reopens s id) ∧
    ∀ (c : Call) (early : Kind → Prop), a.Calls c early → early .closes → s.disk.head? ≠ some false

variable {early : Kind → Prop} {a : Action}

theorem Step.closing_saved (hs : Steady s) {c : Call} (ha : a.Calls c early) (hcloses : early .closes)
    (hdisk : s.disk.head? ≠ some false) (h : Step host s a t) : t.file = t.toDocument ∨ t = s := by
  cases ha with
  | operation => cases hcloses
  | call =>
    cases h with
    | @call _ r _ h =>
      cases c with
      | cancelTask teamId id =>
        change Teams.cancelTask teamId id s = (r, t) at h
        cases r with
        | ok => exact .inl (Saving.saved s () t hs.batch h)
        | error => exact .inr (cancelTask_error hs.memory hdisk h)
      | updateTask =>
        cases r with
        | ok =>
          obtain ⟨a, h⟩ := discard_ok h
          exact .inl (Saving.saved s a t hs.batch h)
        | error => exact .inr (updateTask_error hdisk (discard_error h))
      | removeMember | deferDispatch => rcases hcloses with h | h <;> cases h
      | _ => cases hcloses

theorem Step.closed_after (hs : Steady s) {c : Call} (ha : a.Calls c early) (hregular : Regular s a t)
    (h : Step host s a t) {id : ℕ} {status : TaskStatus} (hterminal : status.Terminal) (hold : id < s.drawn)
    (hbefore : ∀ task ∈ s.tasks, task.id = id → task.status = status) : ∀ task ∈ t.tasks, task.id = id → task.status = status := by
  by_cases hdefers : ∃ id now, c = .deferDispatch id now
  · obtain ⟨id', now, rfl⟩ := hdefers
    have hnot := hregular.1 id' now early ha
    rcases h.acted hs ha with hboard | ⟨u, w, r, hu, hact, hw, -⟩
    · have htasks : t.tasks = s.tasks := congrArg tasks hboard
      rw [htasks]
      exact hbefore
    · have htasks : t.tasks = w.tasks := congrArg tasks hw
      have htasksU : u.tasks = s.tasks := congrArg tasks hu
      have hdispatches : u.dispatches = s.dispatches := congrArg dispatches hu
      have hsound : Sound u.board := hu ▸ hs.memory
      intro task htask hid
      rw [htasks] at htask
      rcases (@deferDispatch_moves u w 0 hsound _ _ _ hact).2 task htask with hmem | ⟨-, item, hitem, hitemId, hrunning, hsubmitted, hkey⟩
      · exact hbefore task (htasksU ▸ hmem) hid
      · obtain ⟨row, hrow, hrowId, -⟩ := hsound.forTask item hitem _ hkey
        have hrowStatus := hbefore row (htasksU ▸ hrow) (hrowId.trans hid)
        exact absurd ⟨item, hdispatches ▸ hitem, hitemId, hrunning, hsubmitted, row, htasksU ▸ hrow, hkey.trans (congrArg some hrowId.symm),
          hrowStatus ▸ hterminal⟩ hnot
  · have hno : ∀ kind, c.kinds kind → kind ≠ .defers := by
      intro kind hkind hsame
      subst hsame
      cases c <;> simp_all [Call.kinds, Cancelling, Beginning, Finishing]
    have hnoEarly : ∀ kind, early kind → kind ≠ .defers := by
      intro _ hkind hsame
      subst hsame
      cases ha with
      | call => cases c <;> simp_all [Call.early, Call.kinds]
      | operation => cases hkind
    obtain ⟨-, ⟨-, hmoves⟩ | ⟨-, hmoves⟩⟩ := h.effect hs ha
    · exact hmoves.closed_after hno hterminal hold hbefore
    · exact hmoves.closed_after hnoEarly hterminal hold hbefore

def SavedTasks (s : TeamStore) : Prop :=
  ∀ task ∈ s.tasks, task.status.Terminal → ∀ row ∈ s.file.tasks, row.id = task.id → row.status = task.status

theorem savedTasks_of_saved (h : t.file = t.toDocument) : SavedTasks t := by
  intro _ htask _ _ hrow hid
  rw [h] at hrow
  rw [eq_of_key hrow htask hid]

theorem Step.savedTasks (hs : Steady s) {c : Call} (ha : a.Calls c early) (hregular : Regular s a t)
    (h : Step host s a t) (hsaved : SavedTasks s) : SavedTasks t := by
  obtain ⟨-, ⟨hfile, -⟩ | ⟨hfile, hmoves⟩⟩ := h.effect hs ha
  · exact savedTasks_of_saved hfile
  · by_cases hcloses : early .closes
    · rcases h.closing_saved hs ha hcloses (hregular.2 c early ha hcloses) with hfile' | rfl
      · exact savedTasks_of_saved hfile'
      · exact hsaved
    · intro _ htask hterminal row hrow hid
      rw [hfile] at hrow
      obtain ⟨before, hbefore, hsame, hstatus⟩ := hmoves.closed_before (fun kind hkind hsame => hcloses (hsame ▸ hkind)) htask hterminal
      exact (hsaved before hbefore (hstatus ▸ hterminal) row hrow (hid.trans hsame.symm)).trans hstatus

structure ClosedTask (id : ℕ) (status : TaskStatus) (s : TeamStore) : Prop where
  old : id < s.drawn
  memory : ∀ task ∈ s.tasks, task.id = id → task.status = status
  saved : ∀ task ∈ s.file.tasks, task.id = id → task.status = status

theorem ClosedTask.later {id : ℕ} {status : TaskStatus} (hterminal : status.Terminal) (h : History host Regular s t) (hs : Steady s)
    (hclosed : ClosedTask id status s) : ClosedTask id status t := by
  refine h.keeps hs hclosed ?_ ?_ ?_
  · intro s t c a _ hs hclosed ha hstep hregular
    have hmemory := hstep.closed_after hs ha hregular hterminal hclosed.old hclosed.memory
    obtain ⟨-, ⟨hfile, hmoves⟩ | ⟨hfile, hmoves⟩⟩ := hstep.effect hs ha
    · refine ⟨hclosed.old.trans_le hmoves.drawn, hmemory, ?_⟩
      rw [hfile]
      exact hmemory
    · exact ⟨hclosed.old.trans_le hmoves.drawn, hmemory, hfile ▸ hclosed.saved⟩
  · intro s t hs hclosed h
    obtain ⟨hdocument, hfile, -, hdrawn⟩ := construct_ok hs.saved h
    have hmemory : ∀ task ∈ s.file.recovered.tasks, task.id = id → task.status = status := by
      intro _ htask' hid
      obtain ⟨task, htask, hsame, -, -, -, ⟨rfl, -⟩ | ⟨hrunning, -⟩⟩ := recovered_task htask'
      · exact hclosed.saved _ htask hid
      · rw [← hclosed.saved task htask (hsame.symm.trans hid), hrunning] at hterminal
        simp [Terminal] at hterminal
    refine ⟨hdrawn ▸ hclosed.old, ?_, ?_⟩
    · rw [hdocument]
      exact hmemory
    · rw [hfile, hdocument]
      exact hmemory
  · exact fun s writes hclosed => ⟨hclosed.old, hclosed.memory, hclosed.saved⟩

theorem Step.begins_task (hs : Steady s) (h : Step host s a t) {task : TeamTask} (htask : task ∈ t.tasks)
    (hrunning : task.status = .running) (hnone : ∀ before ∈ s.tasks, before.id = task.id → before.status ≠ .running) : Ready s.tasks task.id := by
  have hcalled (c : Call) (early : Kind → Prop) (ha : a.Calls c early) : Ready s.tasks task.id := by
    rcases h.acted hs ha with hboard | ⟨u, w, r, hu, hact, hw, hr⟩
    · have hsame : t.tasks = s.tasks := congrArg tasks hboard
      exact absurd hrunning (hnone task (hsame ▸ htask) rfl)
    have hsameW : t.tasks = w.tasks := congrArg tasks hw
    by_cases hkinds : ∀ kind, c.kinds kind → kind ≠ .begins
    · obtain ⟨-, ⟨-, hmoves⟩ | ⟨-, hmoves⟩⟩ := h.effect hs ha
      · obtain ⟨before, hbefore, hsame, hbeforeRunning⟩ := hmoves.open_before hkinds htask hrunning
        exact absurd hbeforeRunning (hnone before hbefore hsame)
      · obtain ⟨before, hbefore, hsame, hbeforeRunning⟩ := hmoves.open_before (fun _ h => (ha.late h).2) htask hrunning
        exact absurd hbeforeRunning (hnone before hbefore hsame)
    · obtain ⟨_, rfl⟩ := Call.begins_kinds hkinds
      have hmem : task ∈ w.tasks := hsameW ▸ htask
      cases r with
      | error =>
        obtain rfl : u = s := hr.resolve_right (by simp)
        obtain ⟨before, hbefore, hsame, hbeforeRunning⟩ := (beginDispatch_error hs.batch hact).2.open_before
          (fun kind h => (plain_late kind h).2) hmem hrunning
        exact absurd hbeforeRunning (hnone before hbefore hsame)
      | ok =>
        have hsound : Sound u.board := hu ▸ hs.memory
        have htasks : u.tasks = s.tasks := congrArg tasks hu
        obtain ⟨-, -, -, _, -, -, -, -, -, hready, hrows⟩ := @beginDispatch_ok u w 0 hsound _ _ hact
        rcases hrows task hmem with hold | hkey
        · exact absurd hrunning (hnone task (htasks ▸ hold) rfl)
        · exact htasks ▸ hready task.id hkey
  cases h with
  | call c => exact hcalled c _ (.call c)
  | operation c _ image operationId input => exact hcalled c _ (.operation c image operationId input)
  | restart h =>
    obtain ⟨hdocument, -⟩ := construct_ok hs.saved h
    rw [hdocument] at htask
    obtain ⟨_, -, -, -, -, -, ⟨rfl, hnot⟩ | ⟨-, hfailed, -⟩⟩ := recovered_task htask
    · exact absurd hrunning hnot
    · cases hfailed.symm.trans hrunning
  | disk => exact absurd hrunning (hnone task htask rfl)

theorem History.savedTasks (h : History host Regular s t) (hs : Steady s) (hsaved : SavedTasks s) : SavedTasks t := by
  refine h.keeps hs hsaved ?_ ?_ ?_
  · exact fun s t c a early hs hsaved ha hstep hregular => hstep.savedTasks hs ha hregular hsaved
  · exact fun s t hs _ h => savedTasks_of_saved (construct_ok hs.saved h).2.1
  · exact fun s writes hsaved => hsaved

/-- The dependencies are acyclic, stay inside the team and have succeeded when a task is begun; along regular runs a closed task stays closed. -/
theorem tasks_final :
    (∀ s, Reachable host s →
      (∀ id, ¬ Relation.TransGen (Depends s.tasks) id id) ∧
      (∀ task ∈ s.tasks, ∀ id ∈ task.dependsOnIds, ∃ other ∈ s.tasks, other.id = id ∧ other.teamId = task.teamId) ∧
      ∀ (a : Action) (t : TeamStore), Step host s a t → ∀ task ∈ t.tasks, task.status = .running →
        (∀ before ∈ s.tasks, before.id = task.id → before.status ≠ .running) → Ready s.tasks task.id) ∧
    ∀ s t, History host Regular .start s → History host Regular s t → ∀ task ∈ s.tasks, task.status.Terminal →
      ∀ task' ∈ t.tasks, task'.id = task.id → task'.status = task.status := by
  constructor
  · intro s h
    have hs := h.steady
    exact ⟨hs.memory.acyclic, hs.memory.inside, fun a t hstep task htask hrunning hnone => hstep.begins_task hs htask hrunning hnone⟩
  · intro s t hbefore hafter task htask hterminal
    have hs := hbefore.steady .start
    have hsaved := hbefore.savedTasks .start Table.forall_mem_empty
    have hclosed : ClosedTask task.id task.status s :=
      ⟨hs.memory.taskFresh task htask, fun row hrow hid => by rw [Table.eq_of_key hrow htask hid], hsaved task htask hterminal⟩
    exact (hclosed.later hterminal hafter hs).memory

def closedByLead : List Call :=
  [.create "t" "w" ⟨"l", .harness, none, "p"⟩, .queueTask 0 ⟨1, "a", "b", []⟩ none, .beginDispatch 5,
    .updateTask 0 3 1 ⟨none, none, none, some true, none⟩ (some 1)]

set_option maxRecDepth 100000 in
/-- The member turns out to be busy, and the task that has succeeded waits again. -/
theorem closed_task_reopened : ∃ s t, Reachable plainHost s ∧ Later plainHost s t ∧ (∃ task ∈ s.tasks, task.id = 3 ∧ task.status = .succeeded) ∧
    ∃ task ∈ t.tasks, task.id = 3 ∧ task.status = .queued := by
  refine ⟨replay plainHost closedByLead .start, replay plainHost [.deferDispatch 5 0] (replay plainHost closedByLead .start), replay_later _,
    replay_later _, ?_, ?_⟩
  · have hclosed : ∃ task ∈ (replay plainHost closedByLead .start).tasks.rows, task.id = 3 ∧ task.status = .succeeded := by decide
    exact hclosed
  · have hreopened : ∃ task ∈ (replay plainHost [.deferDispatch 5 0] (replay plainHost closedByLead .start)).tasks.rows,
        task.id = 3 ∧ task.status = .queued := by decide
    exact hreopened

end Finality

end WorkAgent.Teams
