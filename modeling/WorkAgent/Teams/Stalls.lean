import WorkAgent.Teams.Executions

namespace WorkAgent.Teams

open Library Act List

set_option synthInstance.maxSize 4000

variable {host : Host} {s t u : TeamStore}

section Blocked

def TaskStatus.Broken (status : TaskStatus) : Prop := status = .failed ∨ status = .cancelled

instance (status : TaskStatus) : Decidable status.Broken := inferInstanceAs (Decidable (_ ∨ _))

def Barred (tasks : Table TeamTask.id) (task : TeamTask) : Prop := ∃ other ∈ tasks.rows, other.id ∈ task.dependsOnIds ∧ other.status.Broken

instance (tasks : Table TeamTask.id) (task : TeamTask) : Decidable (Barred tasks task) := by
  unfold Barred
  infer_instance

def Waits (s : TeamStore) (item : TeamDispatch) : Prop :=
  item.status ≠ .running ∧ ∃ task ∈ s.tasks.rows, item.taskId = some task.id ∧ Barred s.tasks task

instance (s : TeamStore) (item : TeamDispatch) : Decidable (Waits s item) := by
  unfold Waits
  infer_instance

def TeamStore.outstanding (s : TeamStore) (run : TeamRun) : List TeamDispatch :=
  s.dispatches.rows.filter fun item => item.runId = run.id ∧ item.status.Pending

def Stuck (s : TeamStore) (run : TeamRun) : Prop := run.status = .running ∧ s.outstanding run ≠ [] ∧ ∀ item ∈ s.outstanding run, Waits s item

instance (s : TeamStore) (run : TeamRun) : Decidable (Stuck s run) := by
  unfold Stuck
  infer_instance

def TeamRun.blocked (run : TeamRun) : TeamRun := { run with status := .paused, reason := some "dependency_failed" }

theorem dependencyFailed_eq {ids : List ℕ} (hids : ∀ id ∈ ids, ∃ task ∈ s.tasks, task.id = id) :
    ∃ failed, dependencyFailed ids s = (.ok failed, s) ∧ (failed = true ↔ ∃ other ∈ s.tasks, other.id ∈ ids ∧ other.status.Broken) := by
  induction ids with
  | nil => exact ⟨false, rfl, by simp⟩
  | cons id _ ih =>
    obtain ⟨task, htask, rfl⟩ := hids id mem_cons_self
    unfold dependencyFailed
    rw [bind_of_ok (requiredTask_of htask)]
    by_cases hbroken : task.status.Broken
    · refine ⟨true, congrFun (if_pos hbroken) s, ?_⟩
      simp only [true_iff]
      exact ⟨task, htask, mem_cons_self, hbroken⟩
    · obtain ⟨failed, hrun, hfailed⟩ := ih fun id hid => hids id (mem_cons_of_mem _ hid)
      refine ⟨failed, (congrFun (if_neg hbroken) s).trans hrun, hfailed.trans ⟨?_, ?_⟩⟩
      · rintro ⟨other, hother, hid, hstatus⟩
        exact ⟨other, hother, mem_cons_of_mem _ hid, hstatus⟩
      · rintro ⟨other, hother, hid, hstatus⟩
        rcases mem_cons.mp hid with hsame | hrest
        · obtain rfl := Table.eq_of_key hother htask hsame
          exact absurd hstatus hbroken
        · exact ⟨other, hother, hrest, hstatus⟩

theorem goesOn_eq (hs : Sound s.board) {items : List TeamDispatch} (hitems : ∀ item ∈ items, item ∈ s.dispatches) :
    ∃ free, goesOn items s = (.ok free, s) ∧ (free = false ↔ ∀ item ∈ items, Waits s item) := by
  induction items with
  | nil => exact ⟨false, rfl, by simp⟩
  | cons item items ih =>
    have hitem := hitems item mem_cons_self
    have hfree (h : ¬ Waits s item) : true = false ↔ ∀ row ∈ item :: items, Waits s row :=
      iff_of_false (by simp) fun hall => h (hall item mem_cons_self)
    unfold goesOn
    by_cases hrunning : item.status = .running
    · exact ⟨true, congrFun (if_pos hrunning) s, hfree fun hwaits => hwaits.1 hrunning⟩
    rw [if_neg hrunning]
    rcases Option.eq_none_or_eq_some item.taskId with hnone | ⟨_, hkey⟩
    · rw [hnone]
      refine ⟨true, rfl, hfree ?_⟩
      rintro ⟨-, task, -, hkey, -⟩
      cases hnone.symm.trans hkey
    rw [hkey]
    obtain ⟨task, htask, rfl, -⟩ := hs.forTask item hitem _ hkey
    have hdependencies : ∀ id ∈ task.dependsOnIds, ∃ other ∈ s.tasks, other.id = id := by
      intro id hid
      obtain ⟨other, hother, hsame, -⟩ := hs.inside task htask id hid
      exact ⟨other, hother, hsame⟩
    obtain ⟨failed, hrun, hfailed⟩ := dependencyFailed_eq hdependencies
    have hwaits : Waits s item ↔ failed = true := by
      rw [hfailed]
      constructor
      · rintro ⟨-, row, hrow, hrowKey, hbarred⟩
        obtain rfl := Table.eq_of_key hrow htask (Option.some.inj (hrowKey.symm.trans hkey))
        exact hbarred
      · exact fun hbarred => ⟨hrunning, task, htask, hkey, hbarred⟩
    simp only
    rw [bind_of_ok (requiredTask_of htask), bind_of_ok hrun]
    cases failed with
    | false => exact ⟨true, rfl, hfree (by simp [hwaits])⟩
    | true =>
      obtain ⟨free, hrest, hiff⟩ := ih fun row hrow => hitems row (mem_cons_of_mem _ hrow)
      refine ⟨free, hrest, hiff.trans ?_⟩
      simp [hwaits]

end Blocked

section OneRun

def blockRun (run : TeamRun) : StoreAct Unit := do
  setRun run.blocked
  event run.teamId .runUpdated run.id
  save

variable {run : TeamRun}

theorem pauseBlockedRun_eq {free : Bool} (hrunning : run.status = .running) (hsome : s.outstanding run ≠ [])
    (hgoes : goesOn (s.outstanding run) s = (.ok free, s)) : pauseBlockedRun run s = whenever (free = false) (blockRun run) s := by
  unfold pauseBlockedRun
  rw [whenever_pos hrunning, read_bind]
  have hsome' : (s.dispatches.rows.filter fun item => item.runId = run.id ∧ item.status.Pending) ≠ [] := hsome
  rw [whenever_pos hsome']
  exact bind_of_ok hgoes

theorem goesOn_outstanding (hs : Sound s.board) (run : TeamRun) :
    ∃ free, goesOn (s.outstanding run) s = (.ok free, s) ∧ (free = false ↔ ∀ item ∈ s.outstanding run, Waits s item) :=
  goesOn_eq hs fun _ hitem => (mem_filter.mp hitem).1

theorem pauseBlockedRun_stuck (hs : Sound s.board) (hb : s.batch = false) (hstuck : Stuck s run) :
    ∃ r t, pauseBlockedRun run s = (r, t) ∧ t.runs = s.runs.set run.blocked ∧ (r = .ok () ↔ s.disk.head? ≠ some false) ∧
      t.disk = s.disk.tail := by
  obtain ⟨hrunning, hsome, hall⟩ := hstuck
  obtain ⟨_, hgoes, hfree⟩ := goesOn_outstanding hs run
  obtain rfl := hfree.mpr hall
  rw [pauseBlockedRun_eq hrunning hsome hgoes, whenever_pos rfl]
  unfold blockRun
  rw [setRun_bind, event, modify_bind]
  unfold save
  rw [if_neg (by simp [hb])]
  by_cases hdisk : s.disk.head? = some false
  · rw [if_pos hdisk]
    exact ⟨_, _, rfl, rfl, by simp [hdisk], rfl⟩
  · rw [if_neg hdisk]
    exact ⟨_, _, rfl, rfl, by simp [hdisk], rfl⟩

theorem pauseBlockedRun_free (hs : Sound s.board) (hfree : ¬ Stuck s run) : pauseBlockedRun run s = (.ok (), s) := by
  by_cases hrunning : run.status = .running
  swap
  · unfold pauseBlockedRun
    rw [whenever_neg hrunning]
    rfl
  by_cases hsome : s.outstanding run ≠ []
  · obtain ⟨_, hgoes, hiff⟩ := goesOn_outstanding hs run
    rw [pauseBlockedRun_eq hrunning hsome hgoes, whenever_neg fun h => hfree ⟨hrunning, hsome, hiff.mp h⟩]
    rfl
  · have hsome' : ¬ (s.dispatches.rows.filter fun item => item.runId = run.id ∧ item.status.Pending) ≠ [] := hsome
    unfold pauseBlockedRun
    rw [whenever_pos hrunning, read_bind, whenever_neg hsome']
    rfl

end OneRun

section Loop

structure Passed (ids : List ℕ) (s t : TeamStore) : Prop where
  tasks : t.tasks = s.tasks
  dispatches : t.dispatches = s.dispatches
  runs : ∀ run, run.id ∉ ids → (run ∈ t.runs ↔ run ∈ s.runs)

variable {run : TeamRun} {r : Except String Unit}

theorem pauseRun_of (hrun : run ∈ s.runs) (h : pauseBlockedRun run s = (r, t)) :
    pauseRun run.id s = (r, t) := by
  unfold pauseRun
  rw [read_bind]
  exact forEach_of_some (Table.find?_of_mem hrun) h

theorem Passed.refl (ids : List ℕ) : Passed ids s s := ⟨rfl, rfl, fun _ _ => .rfl⟩

theorem pauseBlockedRun_passed (h : pauseBlockedRun run s = (r, t)) : Passed [run.id] s t := by
  unfold pauseBlockedRun at h
  rcases whenever_of h with ⟨-, h⟩ | ⟨-, -, rfl⟩
  swap
  · exact .refl _
  rw [read_bind] at h
  rcases whenever_of h with ⟨-, h⟩ | ⟨-, -, rfl⟩
  swap
  · exact .refl _
  rcases Act.Reads.bind_eq h with ⟨_, -, rfl⟩ | ⟨_, -, h⟩
  · exact .refl _
  rcases whenever_of h with ⟨-, h⟩ | ⟨-, -, rfl⟩
  swap
  · exact .refl _
  rw [setRun_bind] at h
  have hboard := Calm.board_eq h
  refine ⟨congrArg Board.tasks hboard, congrArg Board.dispatches hboard, fun row hrow => ?_⟩
  rw [show t.runs = s.runs.set _ from congrArg Board.runs hboard, Table.mem_set]
  have hother : row.id ≠ run.id := by simpa using hrow
  constructor
  · rintro (rfl | ⟨hmem, -⟩)
    · exact absurd rfl hother
    · exact hmem
  · exact fun hmem => .inr ⟨hmem, hother⟩

theorem pauseRun_passed {id : ℕ} (h : pauseRun id s = (r, t)) : Passed [id] s t := by
  unfold pauseRun at h
  rw [read_bind] at h
  cases hfind : s.runs.find? id with
  | none =>
    rw [forEach_of_none hfind] at h
    cases h
    exact .refl _
  | some run =>
    obtain ⟨-, rfl⟩ := Table.find?_eq_some.mp hfind
    cases hrun : pauseBlockedRun run s with
    | mk =>
      rw [forEach_of_some hfind hrun] at h
      cases h
      exact pauseBlockedRun_passed hrun

theorem Stuck.passed {ids : List ℕ} (h : Passed ids s t) (run : TeamRun) : Stuck t run ↔ Stuck s run := by
  unfold Stuck Waits Barred TeamStore.outstanding
  rw [h.tasks, h.dispatches]

def Unhindered (s : TeamStore) (before : List TeamRun) : Prop :=
  ∀ i < (before.filter fun run => Stuck s run).length, s.disk[i]? ≠ some false

theorem TeamRun.blocked_ne {row : TeamRun} (h : row.status = .running) : row ≠ run.blocked := by
  rintro rfl
  cases h

theorem loop_blocks (hs : Sound s.board) (hb : s.batch = false) {before after : List TeamRun}
    (hmem : ∀ row ∈ before ++ run :: after, row ∈ s.runs) (hnodup : ((before ++ run :: after).map TeamRun.id).Nodup) (hstuck : Stuck s run) (h : forEach pauseRun ((before ++ run :: after).map TeamRun.id) s = (r, t)) :
    run.blocked ∈ t.runs ↔ Unhindered s before := by
  induction before generalizing s with
  | nil =>
    refine iff_of_true ?_ fun i hi => absurd hi (Nat.not_lt_zero i)
    obtain ⟨r', u, hturn, hruns, -⟩ := pauseBlockedRun_stuck hs hb hstuck
    have hself : run.blocked ∈ u.runs := hruns ▸ Table.mem_set.mpr (.inl rfl)
    have hfirst := pauseRun_of (hmem run (mem_append_right _ mem_cons_self)) hturn
    rcases Act.bind_any h with ⟨e, hx, -⟩ | ⟨_, v, hx, hrest⟩
    · cases hfirst.symm.trans hx
      exact hself
    · cases hfirst.symm.trans hx
      refine forEach_keeps (I := fun v => run.blocked ∈ v.runs) ?_ hself hrest
      intro _ hid v r w hv hturn
      refine ((pauseRun_passed hturn).runs run.blocked ?_).mpr hv
      simp only [mem_singleton]
      rintro rfl
      exact (nodup_cons.mp hnodup).1 hid
  | cons first before ih =>
    have hfirst : first ∈ s.runs := hmem first mem_cons_self
    obtain ⟨hfresh, hnodup'⟩ := nodup_cons.mp hnodup
    have hne : run.id ≠ first.id := by
      rintro hsame
      exact hfresh (hsame ▸ mem_map_of_mem (mem_append_right _ mem_cons_self))
    by_cases hstuckFirst : Stuck s first
    swap
    · have hturn := pauseRun_of hfirst (pauseBlockedRun_free hs hstuckFirst)
      have hrest : forEach pauseRun ((before ++ run :: after).map TeamRun.id) s = (r, t) := (bind_of_ok hturn).symm.trans h
      rw [ih hs hb (fun row hrow => hmem row (mem_cons_of_mem _ hrow)) hnodup' hstuck hrest]
      unfold Unhindered
      rw [filter_cons_of_neg (by simpa using hstuckFirst)]
    obtain ⟨r', u, hturn, -, hok, hdisk⟩ := pauseBlockedRun_stuck hs hb hstuckFirst
    have hpassed := pauseBlockedRun_passed hturn
    have hpause := pauseRun_of hfirst hturn
    have hcount : Unhindered s (first :: before) ↔ s.disk.head? ≠ some false ∧ Unhindered u before := by
      have hsame : (before.filter fun row => Stuck u row) = before.filter fun row => Stuck s row :=
        filter_congr fun row _ => decide_eq_decide.mpr (Stuck.passed hpassed row)
      unfold Unhindered
      rw [filter_cons_of_pos (by simpa using hstuckFirst), hsame, hdisk, length_cons, head?_eq_getElem?]
      simp only [getElem?_tail]
      exact Nat.forall_lt_succ_left
    rw [hcount]
    cases r' with
    | error e =>
      have hhead : s.disk.head? = some false := by
        by_contra hhead
        cases hok.mpr hhead
      have ht : forEach pauseRun ((first :: before ++ run :: after).map TeamRun.id) s = (.error e, u) := bind_of_error hpause
      cases ht.symm.trans h
      refine iff_of_false (fun hblocked => ?_) fun hboth => hboth.1 hhead
      have hkept : run ∈ t.runs := (hpassed.runs run (by simpa using hne)).mpr (hmem run (mem_append_right _ mem_cons_self))
      exact TeamRun.blocked_ne hstuck.1 (Table.eq_of_key hkept hblocked rfl)
    | ok =>
      have hrest : forEach pauseRun ((before ++ run :: after).map TeamRun.id) u = (r, t) := (bind_of_ok hpause).symm.trans h
      have hu : Sound u.board := (@pauseBlockedRun_moves s u 0 _ hfirst _ hturn).sound hs
      have hub : u.batch = false := (Late.eq hb hturn).1
      have hmemU : ∀ row ∈ before ++ run :: after, row ∈ u.runs := by
        intro row hrow
        refine (hpassed.runs row ?_).mpr (hmem row (mem_cons_of_mem _ hrow))
        simp only [mem_singleton]
        rintro hsame
        exact hfresh (hsame ▸ mem_map_of_mem hrow)
      rw [ih hu hub hmemU hnodup' ((Stuck.passed hpassed run).mpr hstuck) hrest]
      exact ⟨fun hrest => ⟨hok.mp rfl, hrest⟩, fun hboth => hboth.2⟩

theorem loop_keeps (hs : Sound s.board) (hb : s.batch = false) (hrun : run ∈ s.runs) (hfree : ¬ Stuck s run) (ids : List ℕ) :
    run ∈ (forEach pauseRun ids s).2.runs := by
  have hkept : Sound (forEach pauseRun ids s).2.board ∧ (forEach pauseRun ids s).2.batch = false ∧
      run ∈ (forEach pauseRun ids s).2.runs ∧ ¬ Stuck (forEach pauseRun ids s).2 run := by
    refine forEach_keeps (I := fun u => Sound u.board ∧ u.batch = false ∧ run ∈ u.runs ∧ ¬ Stuck u run) ?_ ⟨hs, hb, hrun, hfree⟩ rfl
    rintro id - u r v ⟨hu, hub, hmem, hnot⟩ hturn
    have hmoves : Moves 0 (· = .plain) u.board v.board := pauseRun_moves hturn
    refine ⟨hmoves.sound hu, (Late.eq hub hturn).1, ?_, (Stuck.passed (pauseRun_passed hturn) run).not.mpr hnot⟩
    by_cases hsame : run.id = id
    · subst hsame
      cases (pauseRun_of hmem (pauseBlockedRun_free hu hnot)).symm.trans hturn
      exact hmem
    · exact ((pauseRun_passed hturn).runs run (by simpa using hsame)).mpr hmem
  exact hkept.2.2.1

end Loop

section Stalls

def TeamStore.runsBefore (s : TeamStore) (run : TeamRun) : List TeamRun := s.runs.rows.takeWhile fun row => row.id ≠ run.id

theorem pauseBlockedRuns_eq : pauseBlockedRuns s = forEach pauseRun (s.runs.rows.map TeamRun.id) s := rfl

theorem runs_split {run : TeamRun} (hrun : run ∈ s.runs) : ∃ after, s.runs.rows = s.runsBefore run ++ run :: after := by
  obtain ⟨before, after, hsplit⟩ := append_of_mem (Table.mem_rows.mpr hrun)
  have hnodup : ((before ++ run :: after).map TeamRun.id).Nodup := hsplit ▸ s.runs.nodup
  refine ⟨after, ?_⟩
  have hbefore : s.runsBefore run = before := by
    unfold TeamStore.runsBefore
    rw [hsplit, takeWhile_append_of_pos, takeWhile_cons_of_neg (by simp), append_nil]
    intro row hrow
    simp only [decide_eq_true_eq]
    intro hsame
    rw [map_append, nodup_append] at hnodup
    exact hnodup.2.2 row.id (mem_map_of_mem hrow) run.id (by simp) hsame
  rw [hbefore, hsplit]

theorem pauseBlockedRuns_blocks (hs : Steady s) {run : TeamRun} (hrun : run ∈ s.runs) (hrunning : run.status = .running) :
    run.blocked ∈ (pauseBlockedRuns s).2.runs ↔ Stuck s run ∧ Unhindered s (s.runsBefore run) := by
  by_cases hstuck : Stuck s run
  · obtain ⟨after, hsplit⟩ := runs_split hrun
    have hmem : ∀ row ∈ s.runsBefore run ++ run :: after, row ∈ s.runs := by
      intro _ hrow
      rw [← hsplit] at hrow
      exact hrow
    have hblocks := loop_blocks hs.memory hs.batch hmem (hsplit ▸ s.runs.nodup) hstuck rfl
    rw [pauseBlockedRuns_eq, hsplit, hblocks]
    exact ⟨fun h => ⟨hstuck, h⟩, fun h => h.2⟩
  · refine iff_of_false (fun hblocked => ?_) fun h => hstuck h.1
    have hkept := loop_keeps hs.memory hs.batch hrun hstuck (s.runs.rows.map TeamRun.id)
    exact TeamRun.blocked_ne hrunning (Table.eq_of_key hkept hblocked rfl)

/-- No task of the run can start any more: each waits, however indirectly, for one that has failed or has been cancelled. -/
structure Stalled (s : TeamStore) (run : TeamRun) : Prop where
  running : run.status = .running
  idle : ∀ item ∈ s.dispatches, item.runId = run.id → item.status ≠ .running
  queued : ∃ item ∈ s.dispatches, item.runId = run.id ∧ item.status = .queued
  never : ∀ item ∈ s.dispatches, item.runId = run.id → item.status = .queued → ∃ id, item.taskId = some id ∧
    ∃ other ∈ s.tasks, other.status.Broken ∧ Relation.TransGen (Depends s.tasks) id other.id

/-- A stalled run is paused if every dispatch of it waits for a direct dependency, and the file can be written for the runs before. -/
theorem stalled_runs_paused (h : Reachable host s) {run : TeamRun} (hrun : run ∈ s.runs) (hstalled : Stalled s run) :
    run.blocked ∈ (pauseBlockedRuns s).2.runs ↔
      (∀ item ∈ s.dispatches, item.runId = run.id → item.status = .queued → ∃ task ∈ s.tasks, item.taskId = some task.id ∧ Barred s.tasks task) ∧
        Unhindered s (s.runsBefore run) := by
  rw [pauseBlockedRuns_blocks h.steady hrun hstalled.running]
  refine and_congr_left fun _ => ?_
  constructor
  · rintro ⟨-, -, hall⟩ item hitem hsame hqueued
    have hmem : item ∈ s.outstanding run := mem_filter.mpr ⟨hitem, by simp [hsame, hqueued, DispatchStatus.Pending]⟩
    exact (hall item hmem).2
  · intro hall
    obtain ⟨item, hitem, hsame, hqueued⟩ := hstalled.queued
    have hmem : item ∈ s.outstanding run := mem_filter.mpr ⟨hitem, by simp [hsame, hqueued, DispatchStatus.Pending]⟩
    refine ⟨hstalled.running, ne_nil_of_mem hmem, fun row hrow => ?_⟩
    obtain ⟨hrowMem, hpending⟩ := mem_filter.mp hrow
    simp only [decide_eq_true_eq] at hpending
    have hidle := hstalled.idle row hrowMem hpending.1
    exact ⟨hidle, hall row hrowMem hpending.1 (hpending.2.resolve_right hidle)⟩

def failedChain (deep : List Call) : TeamStore :=
  replay plainHost ([.create "t" "w" ⟨"l", .harness, none, "p"⟩, .queueTask 0 ⟨1, "a", "a", []⟩ none, .queueTask 0 ⟨1, "b", "b", [3]⟩ none] ++ deep ++
    [.beginDispatch 5, .finishDispatch 5 (.failed "e")]) .start

theorem failedChain_reachable (deep : List Call) : Reachable plainHost (failedChain deep) := replay_later _

def chainRun : TeamRun := ⟨4, 0, "a", .running, 1, 1, 0, none, none⟩

set_option maxRecDepth 100000 in
theorem failedChain_stalled : chainRun ∈ (failedChain []).runs ∧ Stalled (failedChain []) chainRun := by
  have hrun : chainRun ∈ (failedChain []).runs.rows := by decide
  have hidle : ∀ item ∈ (failedChain []).dispatches.rows, item.runId = 4 → item.status ≠ .running := by decide
  have hqueued : ∃ item ∈ (failedChain []).dispatches.rows, item.runId = 4 ∧ item.status = .queued := by decide
  have hkeys : ∀ item ∈ (failedChain []).dispatches.rows, item.status = .queued → item.taskId = some 6 := by decide
  have hdepends : ∃ task ∈ (failedChain []).tasks.rows, task.id = 6 ∧ 3 ∈ task.dependsOnIds := by decide
  have hbroken : ∃ other ∈ (failedChain []).tasks.rows, other.id = 3 ∧ other.status.Broken := by decide
  obtain ⟨other, hother, hid, hbroken⟩ := hbroken
  refine ⟨hrun, rfl, hidle, hqueued, fun item hitem _ hstatus => ⟨6, hkeys item hitem hstatus, other, hother, hbroken, ?_⟩⟩
  rw [hid]
  exact .single hdepends

set_option maxRecDepth 100000 in
theorem stalled_runs_paused_chain : chainRun.blocked ∈ (pauseBlockedRuns (failedChain [])).2.runs := by
  have hbarred : ∀ item ∈ (failedChain []).dispatches.rows, item.status = .queued →
      ∃ task ∈ (failedChain []).tasks.rows, item.taskId = some task.id ∧ Barred (failedChain []).tasks task := by decide
  have hdisk : (failedChain []).disk = [] := by decide
  refine (stalled_runs_paused (failedChain_reachable []) failedChain_stalled.1 failedChain_stalled.2).mpr ⟨fun item hitem _ => hbarred item hitem, ?_⟩
  intro i _
  rw [hdisk]
  simp

def deepTask : List Call := [.queueTask 0 ⟨1, "c", "c", [6]⟩ none]

set_option maxRecDepth 100000 in
/-- The third task waits for the second, which is queued, and the run is not paused. -/
theorem indirect_stall_missed : ∃ s run, Reachable plainHost s ∧ run ∈ s.runs ∧ Stalled s run ∧ run.blocked ∉ (pauseBlockedRuns s).2.runs := by
  have hrun : chainRun ∈ (failedChain deepTask).runs.rows := by decide
  have hidle : ∀ item ∈ (failedChain deepTask).dispatches.rows, item.runId = 4 → item.status ≠ .running := by decide
  have hqueued : ∃ item ∈ (failedChain deepTask).dispatches.rows, item.runId = 4 ∧ item.status = .queued := by decide
  have hkeys : ∀ item ∈ (failedChain deepTask).dispatches.rows, item.status = .queued → item.taskId = some 6 ∨ item.taskId = some 8 := by decide
  have hsecond : ∃ task ∈ (failedChain deepTask).tasks.rows, task.id = 6 ∧ 3 ∈ task.dependsOnIds := by decide
  have hthird : ∃ task ∈ (failedChain deepTask).tasks.rows, task.id = 8 ∧ 6 ∈ task.dependsOnIds := by decide
  have hbroken : ∃ other ∈ (failedChain deepTask).tasks.rows, other.id = 3 ∧ other.status.Broken := by decide
  have hmissed : chainRun.blocked ∉ (pauseBlockedRuns (failedChain deepTask)).2.runs.rows := by decide
  obtain ⟨other, hother, hid, hbroken⟩ := hbroken
  refine ⟨failedChain deepTask, chainRun, failedChain_reachable _, hrun, ⟨rfl, hidle, hqueued, fun item hitem _ hstatus => ?_⟩, hmissed⟩
  rcases hkeys item hitem hstatus with hkey | hkey
  · refine ⟨6, hkey, other, hother, hbroken, ?_⟩
    rw [hid]
    exact .single hsecond
  · refine ⟨8, hkey, other, hother, hbroken, ?_⟩
    rw [hid]
    exact .head hthird (.single hsecond)

end Stalls

end WorkAgent.Teams
