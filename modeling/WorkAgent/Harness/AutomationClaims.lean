import WorkAgent.Harness.AutomationRuns

namespace WorkAgent.Harness.Automation

open Library List Table AutomationStore
open AutomationDocument (claimDue runnable)

variable {calendar : Calendar} {now : Instant} {w t : World} {e : Event} {es : List Event}
  {document : AutomationDocument} {definitions : List AutomationDefinition} {d : AutomationDefinition} {changed : Bool}

def Computable (calendar : Calendar) (now : Instant) (definitions : List AutomationDefinition) : Prop :=
  ∀ d ∈ definitions, (d.due now).isSome → d.schedule.isOnce = false →
    ∃ next, nextScheduleTime calendar d.schedule now = .ok next

/-- `claimRunnable` returns, every due definition has its run, every runnable run is returned, and
the file has what memory has. -/
structure Fair (calendar : Calendar) (now : Instant) (store : AutomationStore) : Prop where
  returns : ∃ runs, (store.claimRunnable calendar now).1 = .ok runs ∧ ∀ run, run ∈ runs ↔
    run ∈ (store.claimRunnable calendar now).2.memory.runs ∧
      (run.status = .pending ∨ (run.status = .waiting ∧ ∃ time ∈ run.notBefore, time ≤ now))
  creates : ∀ d ∈ store.memory.definitions, ∀ scheduledFor, d.due now = some scheduledFor →
    ∃ run ∈ (store.claimRunnable calendar now).2.memory.runs, run.automationId = d.id ∧ run.trigger = .scheduled ∧
      run.scheduledFor = scheduledFor ∧ (run ∈ store.memory.runs ∨ run = d.occurrence scheduledFor now)
  agrees : (store.claimRunnable calendar now).2.memory = (store.claimRunnable calendar now).2.file

theorem claimed_isOk (scheduledFor : Instant) : (∃ next, d.claimed calendar scheduledFor now = .ok next) ↔
    (d.schedule.isOnce = false → ∃ next, nextScheduleTime calendar d.schedule now = .ok next) := by
  unfold AutomationDefinition.claimed
  by_cases honce : d.schedule.isOnce
  · simp only [honce, if_true]
    exact ⟨fun _ h => absurd h (by simp), fun _ => ⟨_, rfl⟩⟩
  · simp only [honce]
    cases nextScheduleTime calendar d.schedule now with
    | error =>
      constructor
      · rintro ⟨next, h⟩
        cases h
      · intro h
        obtain ⟨next, h⟩ := h (by simp)
        cases h
    | ok next => exact ⟨fun _ _ => ⟨next, rfl⟩, fun _ => ⟨_, rfl⟩⟩

theorem claimDue_ok_iff (document : AutomationDocument) (changed : Bool) : (∃ c, (document.claimDue calendar now definitions changed).1 = .ok c) ↔
    Computable calendar now definitions := by
  induction definitions generalizing document changed with
  | nil => exact ⟨fun _ _ h => absurd h not_mem_nil, fun _ => ⟨changed, rfl⟩⟩
  | cons d _ ih =>
    unfold claimDue
    cases hdue : d.due now with
    | none =>
      dsimp only
      rw [ih]
      constructor
      · intro h x hx hsome
        rcases mem_cons.mp hx with rfl | hx
        · simp [hdue] at hsome
        · exact h x hx hsome
      · exact fun h x hx => h x (mem_cons_of_mem _ hx)
    | some scheduledFor =>
      dsimp only
      have hclaimed : _ ↔ (d.schedule.isOnce = false → ∃ next, nextScheduleTime calendar d.schedule now = .ok next) :=
        claimed_isOk scheduledFor
      cases hnext : d.claimed calendar scheduledFor now with
      | error =>
        rw [hnext] at hclaimed
        constructor
        · rintro ⟨c, h⟩
          cases h
        · intro h
          obtain ⟨next, hn⟩ := hclaimed.mpr (h d mem_cons_self (by simp [hdue]))
          cases hn
      | ok next =>
        dsimp only
        rw [ih]
        constructor
        · intro h x hx hsome honce
          rcases mem_cons.mp hx with rfl | hx
          · exact hclaimed.mp ⟨next, hnext⟩ honce
          · exact h x hx hsome honce
        · exact fun h x hx => h x (mem_cons_of_mem _ hx)

theorem claimDue_changed {c : Bool} (h : (document.claimDue calendar now definitions changed).1 = .ok c) :
    (c = true ↔ changed = true ∨ ∃ d ∈ definitions, (d.due now).isSome) ∧
      (c = false → (document.claimDue calendar now definitions changed).2 = document) := by
  induction definitions generalizing document changed with
  | nil =>
    cases h
    exact ⟨by simp, fun _ => rfl⟩
  | cons d _ ih =>
    unfold claimDue at h ⊢
    cases hdue : d.due now with
    | none =>
      simp only [hdue] at h ⊢
      obtain ⟨hiff, hsame⟩ := ih h
      exact ⟨by simp [hiff, hdue], hsame⟩
    | some scheduledFor =>
      simp only [hdue] at h ⊢
      cases hnext : d.claimed calendar scheduledFor now with
      | error =>
        simp only [hnext] at h
        cases h
      | ok =>
        simp only [hnext] at h ⊢
        obtain ⟨hiff, -⟩ := ih h
        have htrue : c = true := hiff.mpr (.inl rfl)
        exact ⟨by simp [htrue, hdue], fun hfalse => by simp [htrue] at hfalse⟩

variable {run : AutomationRun}

theorem claimDue_mono (h : run ∈ document.runs) :
    run ∈ (document.claimDue calendar now definitions changed).2.runs := by
  induction definitions generalizing document changed with
  | nil => exact h
  | cons _ _ ih =>
    unfold claimDue
    split
    · exact ih h
    · dsimp only
      split
      · exact mem_insertOrIgnore.mpr (.inl h)
      · exact ih (mem_insertOrIgnore.mpr (.inl h))

theorem exists_inserted (document : AutomationDocument) (run : AutomationRun) : ∃ r ∈ document.runs.insertOrIgnore run, r.id = run.id := by
  by_cases hnone : document.runs.find? run.id = none
  · exact ⟨run, mem_insertOrIgnore.mpr (.inr ⟨rfl, hnone⟩), rfl⟩
  · obtain ⟨r, hr⟩ := Option.ne_none_iff_exists'.mp hnone
    obtain ⟨hmem, hid⟩ := find?_eq_some.mp hr
    exact ⟨r, mem_insertOrIgnore.mpr (.inl hmem), hid⟩

variable {scheduledFor : Instant}

theorem claimDue_enters (document : AutomationDocument) (changed : Bool) (hcomputable : Computable calendar now definitions) (hd : d ∈ definitions)
    (hdue : d.due now = some scheduledFor) :
    ∃ run ∈ (document.claimDue calendar now definitions changed).2.runs, run.id = scheduledRunId d.id scheduledFor := by
  induction definitions generalizing document changed with
  | nil => exact absurd hd not_mem_nil
  | cons x definitions ih =>
    have hrest : Computable calendar now definitions := fun y hy => hcomputable y (mem_cons_of_mem _ hy)
    unfold claimDue
    cases hx : x.due now with
    | none =>
      rcases mem_cons.mp hd with rfl | hd
      · rw [hx] at hdue
        cases hdue
      · exact ih _ _ hrest hd
    | some at' =>
      dsimp only
      obtain ⟨_, hnext⟩ := (claimed_isOk at').mpr (hcomputable x mem_cons_self (by simp [hx]))
      rw [hnext]
      dsimp only
      rcases mem_cons.mp hd with rfl | hd
      · obtain rfl : at' = scheduledFor := Option.some.inj (hx.symm.trans hdue)
        obtain ⟨run, hrun, hid⟩ := exists_inserted document (d.occurrence at' now)
        exact ⟨run, claimDue_mono hrun, hid⟩
      · exact ih _ _ hrest hd

theorem mem_runnable : run ∈ document.runnable now ↔ run ∈ document.runs ∧
    (run.status = .pending ∨ (run.status = .waiting ∧ ∃ time ∈ run.notBefore, time ≤ now)) := by
  unfold runnable
  rw [mem_mergeSort, mem_filter, mem_rows]
  simp only [decide_eq_true_eq, Option.any_eq_true, Option.mem_def]

theorem claimRunnable_returns {store : AutomationStore} (h : Computable calendar now store.memory.definitions.rows) :
    ∃ c, (store.memory.claimDue calendar now store.memory.definitions.rows false).1 = .ok c ∧
      (store.claimRunnable calendar now).1 =
        .ok ((store.memory.claimDue calendar now store.memory.definitions.rows false).2.runnable now) ∧
      (store.claimRunnable calendar now).2.memory =
        (store.memory.claimDue calendar now store.memory.definitions.rows false).2 ∧
      (store.claimRunnable calendar now).2.file =
        if c ∧ ¬ store.batch then (store.claimRunnable calendar now).2.memory else store.file := by
  obtain ⟨c, hc⟩ := (claimDue_ok_iff _ false).mpr h
  refine ⟨c, hc, ?_⟩
  unfold claimRunnable
  generalize store.memory.claimDue calendar now store.memory.definitions.rows false = result at hc ⊢
  obtain ⟨_, _⟩ := result
  dsimp only at hc
  subst hc
  cases c with
  | false => exact ⟨rfl, rfl, rfl⟩
  | true =>
    unfold save
    cases hbatch : store.batch <;> simp [withMemory, hbatch]

theorem AutomationDocument.Sound.named_scheduled {drawn : List UUID} (h : document.Sound drawn)
    (hrun : run ∈ document.runs) {uuid : UUID}
    (hid : run.id = scheduledRunId (definitionId uuid) scheduledFor) :
    run.trigger = .scheduled ∧ run.automationId = definitionId uuid ∧ run.scheduledFor = scheduledFor := by
  rcases h.named run hrun with ⟨htrigger, hname⟩ | ⟨-, _, -, hname⟩
  · obtain ⟨x, hx, howner⟩ := h.housed run hrun
    obtain ⟨owner, -, hxid⟩ := h.definitions x hx
    have howned : run.automationId = definitionId owner := howner.symm.trans hxid
    rw [howned] at hname
    obtain ⟨rfl, rfl⟩ := scheduledRunId_inj (hid.symm.trans hname)
    exact ⟨htrigger, howned, rfl⟩
  · exact absurd (hid.symm.trans hname) scheduledRunId_ne_manual

theorem creates_of_computable (hw : w.Sound) (h : Computable calendar now w.store.memory.definitions.rows)
    (hd : d ∈ w.store.memory.definitions) (hdue : d.due now = some scheduledFor) :
    ∃ run ∈ (w.store.memory.claimDue calendar now w.store.memory.definitions.rows false).2.runs,
      run.automationId = d.id ∧ run.trigger = .scheduled ∧ run.scheduledFor = scheduledFor ∧
        (run ∈ w.store.memory.runs ∨ run = d.occurrence scheduledFor now) := by
  obtain ⟨run, hrun, hid⟩ := claimDue_enters w.store.memory false h hd hdue
  have hclaims := (Claims.refl now w.store.memory).claimDue calendar w.store.memory.definitions.rows (fun _ h => h) false
  obtain ⟨uuid, -, huuid⟩ := hw.memory.definitions d hd
  refine ⟨run, hrun, ?_⟩
  rcases hclaims.origin run hrun with hold | ⟨-, d', hd', instant, rfl⟩
  · obtain ⟨htrigger, hautomation, hinstant⟩ := hw.memory.named_scheduled hold (huuid ▸ hid)
    exact ⟨hautomation.trans huuid.symm, htrigger, hinstant, .inl hold⟩
  · obtain ⟨uuid', -, huuid'⟩ := hw.memory.definitions d' hd'
    have hsame : scheduledRunId (definitionId uuid') instant = scheduledRunId (definitionId uuid) scheduledFor := by
      rw [← huuid, ← huuid']
      exact hid
    obtain ⟨rfl, rfl⟩ := scheduledRunId_inj hsame
    obtain rfl := eq_of_key hd' hd (huuid'.trans huuid.symm)
    exact ⟨rfl, rfl, rfl, .inr rfl⟩

def CarefulStep (calendar : Calendar) (w : World) (e : Event) (t : World) : Prop :=
  Step calendar w e t ∧ ∀ now, e.call = .claimRunnable now → Computable calendar now w.store.memory.definitions.rows

theorem fair_iff (hw : w.Sound) : Fair calendar now w.store ↔ Computable calendar now w.store.memory.definitions.rows ∧
    (w.store.memory = w.store.file ∨ ∃ d ∈ w.store.memory.definitions, (d.due now).isSome) := by
  constructor
  · intro h
    have hcomputable : Computable calendar now w.store.memory.definitions.rows := by
      obtain ⟨_, hruns, -⟩ := h.returns
      rw [← claimDue_ok_iff w.store.memory false]
      unfold claimRunnable at hruns
      generalize w.store.memory.claimDue calendar now w.store.memory.definitions.rows false = result at hruns ⊢
      obtain ⟨answer, _⟩ := result
      cases answer with
      | error => cases hruns
      | ok c => exact ⟨c, rfl⟩
    refine ⟨hcomputable, ?_⟩
    obtain ⟨c, hc, -, hmemory, hfile⟩ := claimRunnable_returns hcomputable
    obtain ⟨hiff, hsame⟩ := claimDue_changed hc
    have hagrees := h.agrees
    cases c with
    | true => exact .inr ((hiff.mp rfl).resolve_left Bool.false_ne_true)
    | false =>
      rw [hfile, hmemory, hsame rfl] at hagrees
      exact .inl hagrees
  · rintro ⟨hcomputable, hbefore⟩
    obtain ⟨c, hc, hruns, hmemory, hfile⟩ := claimRunnable_returns hcomputable
    obtain ⟨hiff, hsame⟩ := claimDue_changed hc
    refine ⟨⟨_, hruns, fun run => ?_⟩, fun d hd scheduledFor hdue => ?_, ?_⟩
    · rw [hmemory]
      exact mem_runnable
    · rw [hmemory]
      exact creates_of_computable hw hcomputable hd hdue
    · rw [hfile]
      cases c with
      | true => simp [hw.batch]
      | false =>
        rw [hmemory, hsame rfl]
        rcases hbefore with hagrees | hdue
        · exact hagrees
        · have htrue := hiff.mpr (.inr hdue)
          cases htrue

theorem careful_agrees (h : Execution (CarefulStep calendar) World.start es w) :
    w.Sound ∧ w.store.memory = w.store.file := by
  refine h.invariant (I := fun w => w.Sound ∧ w.store.memory = w.store.file) ⟨World.Sound.start, rfl⟩ ?_
  rintro w e t ⟨hw, hagrees⟩ ⟨hstep, hcareful⟩
  refine ⟨hw.step hstep, ?_⟩
  obtain ⟨hworld, -, -⟩ := hw.worldStep hstep
  cases hworld with
  | idle heq =>
    rw [heq]
    exact hagrees
  | rewritten _ _ _ hfile => exact hfile.symm
  | ahead now hcall =>
    have hfair := (fair_iff hw).mpr ⟨hcareful now hcall, .inl hagrees⟩
    obtain ⟨_, _⟩ := hstep
    dsimp only at hcall
    subst hcall
    exact hfair.agrees

/-- `claimRunnable` starves nobody exactly when the next occurrence of every due definition computes
and it has something to save or nothing is unsaved; where that holds at every claim so far, nothing
ever is unsaved. -/
theorem claims_starve_nobody : (∀ es w, Execution (Step calendar) World.start es w → ∀ now, Fair calendar now w.store ↔
      Computable calendar now w.store.memory.definitions.rows ∧
        (w.store.memory = w.store.file ∨ ∃ d ∈ w.store.memory.definitions, (d.due now).isSome)) ∧
    ∀ es w, Execution (CarefulStep calendar) World.start es w → w.store.memory = w.store.file ∧
      ∀ now, Fair calendar now w.store ↔ Computable calendar now w.store.memory.definitions.rows := by
  refine ⟨fun es w h now => fair_iff (World.Sound.start.execution h), fun es w h => ?_⟩
  obtain ⟨hw, hagrees⟩ := careful_agrees h
  refine ⟨hagrees, fun now => ?_⟩
  rw [fair_iff hw]
  exact ⟨fun h => h.1, fun h => ⟨h, .inl hagrees⟩⟩

namespace StarvationExample

/-- A `Cron` of the pattern of one instant, the first of January 2027, runs at that instant only. -/
def oneShot : Calendar where
  timezoneParts := fun _ _ => .error "RangeError"
  nextRun := fun _ _ after => .ok (if after < 1798761600000 then some 1798761600000 else none)

def first : UUID := ⟨"00000000-0000-4000-8000-000000000001", by decide⟩

def second : UUID := ⟨"00000000-0000-4000-8000-000000000002", by decide⟩

def calls : List Call :=
  [.create 1798761300000 first ⟨true, .cron "2027-01-01T00:00:00" "UTC", false, none⟩,
    .create 1798761300000 second ⟨true, .interval 5, false, none⟩]

theorem draws : Draws calls World.start.drawn := by
  simp [Draws, calls, Call.uuids, World.start, first, second]

def store : AutomationStore := (World.after oneShot calls World.start).store

theorem claim_throws : ((store.claimRunnable oneShot 1798761660000).1.map List.length =
      .error "automation_schedule_has_no_next_run") ∧
    (store.claimRunnable oneShot 1798761660000).2.memory.runs.rows.map AutomationRun.automationId = [definitionId first] ∧
    (store.claimRunnable oneShot 1798761660000).2.file.runs.rows = [] := by
  decide

theorem starved : ¬ ∀ calendar es w, Execution (Step calendar) World.start es w → ∀ now, Fair calendar now w.store := by
  intro hall
  obtain ⟨es, h⟩ := World.execution_after draws
  obtain ⟨_, hruns, -⟩ := (hall oneShot es _ h 1798761660000).returns
  have hthrows := claim_throws.1
  unfold store at hthrows
  rw [hruns] at hthrows
  cases hthrows

end StarvationExample

end WorkAgent.Harness.Automation
