import WorkAgent.Harness.AutomationSteps

namespace WorkAgent.Harness.Automation

open Library Table
open AutomationStore (reopen)

variable {calendar : Calendar} {w t : World} {e : Event} {es : List Event} {id : String} {run : AutomationRun}
  {drawn : List UUID} {old new : AutomationDocument} {P : AutomationRun → Prop}

def AutomationRun.Untouched (run : AutomationRun) : Prop :=
  run.status = .pending ∧ run.busyRetryCount = 0 ∧ run.submittedAt = none

def AutomationRun.Named (run : AutomationRun) (drawn : List UUID) : Prop :=
  (run.trigger = .scheduled ∧ run.id = scheduledRunId run.automationId run.scheduledFor) ∨
    (run.trigger = .manual ∧ ∃ uuid ∈ drawn, run.id = manualRunId uuid)

structure AutomationRun.Lawful (run : AutomationRun) : Prop where
  retries : run.busyRetryCount ≤ 3
  unsubmitted : run.status = .pending ∨ run.status = .waiting → run.submittedAt = none

structure AutomationDocument.Sound (document : AutomationDocument) (drawn : List UUID) : Prop where
  definitions : ∀ d ∈ document.definitions, ∃ uuid ∈ drawn, d.id = definitionId uuid
  named : ∀ run ∈ document.runs, run.Named drawn
  housed : ∀ run ∈ document.runs, ∃ d ∈ document.definitions, d.id = run.automationId
  lawful : ∀ run ∈ document.runs, run.Lawful

/-- The file has everything but the runs that a `claimRunnable` that threw has entered in memory. -/
structure World.Sound (w : World) : Prop where
  batch : w.store.batch = false
  memory : w.store.memory.Sound w.drawn
  saved : ∀ run ∈ w.store.file.runs, run ∈ w.store.memory.runs
  unsaved : ∀ run ∈ w.store.memory.runs, run ∈ w.store.file.runs ∨ run.Untouched
  definitions : ∀ id, (∃ d ∈ w.store.memory.definitions, d.id = id) ↔ ∃ d ∈ w.store.file.definitions, d.id = id

variable {next : AutomationRun}

theorem AutomationRun.Named.same {more : List UUID} (h : run.Named drawn)
    (hsame : SameOccurrence run next) : next.Named (more ++ drawn) := by
  unfold AutomationRun.Named at h ⊢
  rw [hsame.id, hsame.automationId, hsame.trigger, hsame.scheduledFor]
  rcases h with hscheduled | ⟨hmanual, uuid, huuid, hid⟩
  · exact .inl hscheduled
  · exact .inr ⟨hmanual, uuid, List.mem_append_right _ huuid, hid⟩

theorem RunStep.lawful (h : RunStep e run next) (hrun : run.Lawful) : next.Lawful := by
  cases h with
  | kept => exact hrun
  | begun => exact ⟨hrun.retries, by simp [AutomationRun.begun]⟩
  | bound _ hstatus | submitted _ _ hstatus => exact ⟨hrun.retries, by simp [hstatus]⟩
  | deferred _ _ _ _ hsubmitted =>
    refine ⟨?_, fun _ => hsubmitted⟩
    have hretries := hrun.retries
    simp only [AutomationRun.deferred]
    split <;> omega
  | finished _ outcome =>
    cases outcome with
    | succeeded | failed => exact ⟨hrun.retries, by simp [AutomationRun.finished]⟩
  | cancelled => exact ⟨hrun.retries, by simp [AutomationRun.cancelled]⟩
  | interrupted => exact ⟨hrun.retries, by simp [AutomationRun.interrupted]⟩

theorem AutomationDocument.Sound.rewrites (h : old.Sound drawn) (hr : Rewrites e old new) :
    new.Sound (e.call.uuids ++ drawn) where
  definitions := by
    intro d hd
    rcases hr.definitions d hd with ⟨d₀, hd₀, hid⟩ | ⟨uuid, huuid, hid⟩
    · obtain ⟨uuid, huuid, hid'⟩ := h.definitions d₀ hd₀
      exact ⟨uuid, List.mem_append_right _ huuid, hid.symm.trans hid'⟩
    · exact ⟨uuid, List.mem_append_left _ huuid, hid⟩
  named := by
    intro next hnext
    rcases hr.origin next hnext with ⟨run, hrun, hstep⟩ | hnew
    · exact (h.named run hrun).same hstep.same
    · cases hnew with
      | occurrence _ _ _ _ _ heq =>
        subst heq
        exact .inl ⟨rfl, rfl⟩
      | manual _ uuid _ _ huuid heq =>
        subst heq
        exact .inr ⟨rfl, uuid, List.mem_append_left _ huuid, rfl⟩
  housed := by
    intro next hnext
    have hold : ∃ d ∈ old.definitions, d.id = next.automationId := by
      rcases hr.origin next hnext with ⟨run, hrun, hstep⟩ | hnew
      · rw [hstep.same.automationId]
        exact h.housed run hrun
      · cases hnew with
        | occurrence d _ _ hd _ heq | manual d _ _ hd _ heq => exact ⟨d, hd, by rw [heq]; rfl⟩
    obtain ⟨d, hd, hid⟩ := hold
    rcases hr.kept d hd with ⟨d', hd', hid'⟩ | hgone
    · exact ⟨d', hd', hid'.trans hid⟩
    · exact absurd hid.symm (hgone next hnext)
  lawful := by
    intro next hnext
    rcases hr.origin next hnext with ⟨run, hrun, hstep⟩ | hnew
    · exact hstep.lawful (h.lawful run hrun)
    · cases hnew with
      | occurrence _ _ _ _ _ heq | manual _ _ _ _ _ heq =>
        subst heq
        exact ⟨Nat.zero_le 3, fun _ => rfl⟩

variable {now : String → Instant}

theorem mem_reopen {file : AutomationDocument} {x : AutomationRun} :
    x ∈ (reopen now file).memory.runs ↔
      ∃ run ∈ file.runs, x = if run.status = .running then run.interrupted (now run.id) else run := by
  have hruns : (reopen now file).memory.runs =
      file.runs.update (fun run => run.status = .running) (fun run => run.interrupted (now run.id)) := by
    unfold reopen
    split
    · rfl
    · rfl
  rw [hruns, ← mem_rows, rows_update, List.mem_map]
  simp only [mem_rows, eq_comm]

theorem reopen_definitions {file : AutomationDocument} :
    (reopen now file).memory.definitions = file.definitions := by
  unfold reopen
  split
  · rfl
  · rfl

theorem reopen_file {file : AutomationDocument} :
    (reopen now file).file = (reopen now file).memory := by
  unfold reopen
  split
  · rfl
  · rename_i hnone
    have hsame : file.runs.update (fun run => run.status = .running) (fun run => run.interrupted (now run.id)) = file.runs :=
      update_eq_self (fun run hrun hstatus => hnone ⟨run, hrun, hstatus⟩)
    simp only [hsame]

theorem reopen_batch {file : AutomationDocument} :
    (reopen now file).batch = false := by
  unfold reopen
  split
  · rfl
  · rfl

theorem reopen_rewrites (now : String → Instant) (file : AutomationDocument) :
    Rewrites e file (reopen now file).memory where
  runs := by
    intro run hrun
    refine .inl ⟨_, mem_reopen.mpr ⟨run, hrun, rfl⟩, ?_⟩
    split
    · rename_i hstatus
      exact .interrupted _ hstatus
    · exact .kept
  origin := by
    intro _ hnext
    obtain ⟨run, hrun, rfl⟩ := mem_reopen.mp hnext
    refine .inl ⟨run, hrun, ?_⟩
    split
    · rename_i hstatus
      exact .interrupted _ hstatus
    · exact .kept
  definitions := by
    intro d hd
    rw [reopen_definitions] at hd
    exact .inl ⟨d, hd, rfl⟩
  kept := by
    intro d hd
    refine .inl ⟨d, ?_, rfl⟩
    rw [reopen_definitions]
    exact hd

/-- What a step does: nothing, a rewriting of the document of memory or of the file that both then
hold, or a `claimRunnable` whose runs stay in memory. -/
inductive WorldStep (e : Event) (w t : World) : Prop
  | idle (h : t.store = w.store)
  | rewritten (document : AutomationDocument) (hsource : document = w.store.memory ∨ document = w.store.file)
      (hr : Rewrites e document t.store.memory) (hfile : t.store.file = t.store.memory) (hbatch : t.store.batch = false)
  | ahead (now : Instant) (hcall : e.call = .claimRunnable now) (hm : Claims now w.store.memory t.store.memory)
      (hfile : t.store.file = w.store.file)
      (hbatch : t.store.batch = false)

namespace World.Sound

theorem start : World.start.Sound where
  batch := rfl
  memory := ⟨forall_mem_empty, forall_mem_empty,
    forall_mem_empty, forall_mem_empty⟩
  saved := fun _ h => h
  unsaved := fun _ h => .inl h
  definitions := fun _ => Iff.rfl

theorem file (h : w.Sound) : w.store.file.Sound w.drawn where
  definitions := by
    intro d hd
    obtain ⟨d', hd', hid⟩ := (h.definitions d.id).mpr ⟨d, hd, rfl⟩
    obtain ⟨uuid, huuid, hid'⟩ := h.memory.definitions d' hd'
    exact ⟨uuid, huuid, hid.symm.trans hid'⟩
  named := fun run hrun => h.memory.named run (h.saved run hrun)
  housed := fun run hrun => (h.definitions _).mp (h.memory.housed run (h.saved run hrun))
  lawful := fun run hrun => h.memory.lawful run (h.saved run hrun)

section

variable {document : AutomationDocument} (h : w.Sound) (hsource : document = w.store.memory ∨ document = w.store.file)
include h hsource

theorem source : document.Sound w.drawn := by
  rcases hsource with rfl | rfl
  · exact h.memory
  · exact h.file

theorem durable (hrun : run ∈ w.store.file.runs) : run ∈ document.runs := by
  rcases hsource with rfl | rfl
  · exact h.saved run hrun
  · exact hrun

end

theorem ne_manual (h : old.Sound drawn) (hrun : run ∈ old.runs) {uuid : UUID} (hfresh : uuid ∉ drawn) :
    run.id ≠ manualRunId uuid := by
  intro hid
  rcases h.named run hrun with ⟨-, hname⟩ | ⟨-, _, huuid', hname⟩
  · obtain ⟨d, hd, hdid⟩ := h.housed run hrun
    obtain ⟨_, -, howner⟩ := h.definitions d hd
    rw [hid, ← hdid, howner] at hname
    exact scheduledRunId_ne_manual hname.symm
  · rw [hid] at hname
    exact hfresh (manualRunId_inj hname ▸ huuid')

theorem worldStep (h : w.Sound) (hstep : Step calendar w e t) :
    WorldStep e w t ∧ t.drawn = e.call.uuids ++ w.drawn ∧ ∀ uuid ∈ e.call.uuids, uuid ∉ w.drawn := by
  obtain ⟨call, hfresh⟩ := hstep
  refine ⟨?_, rfl, hfresh⟩
  have hnew : ∀ run ∈ w.store.memory.runs, ∀ uuid ∈ call.uuids, run.id ≠ manualRunId uuid :=
    fun run hrun uuid huuid => ne_manual h.memory hrun (hfresh uuid huuid)
  cases call.storeStep calendar h.batch hnew with
  | idle heq => exact .idle heq
  | saved _ hm heq =>
    refine .rewritten _ (.inl rfl) ?_ ?_ ?_
    · rw [heq]
      exact hm
    · rw [heq]
    · rw [heq]
  | unsaved now _ hcall hm heq =>
    refine .ahead now hcall ?_ ?_ ?_
    · rw [heq]
      exact hm
    · rw [heq]
    · rw [heq]
  | restarted now heq =>
    refine .rewritten _ (.inr rfl) ?_ ?_ ?_
    · rw [heq]
      exact reopen_rewrites now w.store.file
    · rw [heq]
      exact reopen_file
    · rw [heq]
      exact reopen_batch

theorem step (h : w.Sound) (hstep : Step calendar w e t) : t.Sound := by
  obtain ⟨hworld, hdrawn, -⟩ := h.worldStep hstep
  cases hworld with
  | idle heq =>
    refine ⟨?_, ?_, ?_, ?_, ?_⟩
    · rw [heq]
      exact h.batch
    · have hempty : Rewrites e w.store.memory w.store.memory := (Claims.refl 0 w.store.memory).rewrites
      rw [heq, hdrawn]
      exact h.memory.rewrites hempty
    · rw [heq]
      exact h.saved
    · rw [heq]
      exact h.unsaved
    · rw [heq]
      exact h.definitions
  | rewritten _ hsource hr hfile hbatch =>
    refine ⟨hbatch, ?_, ?_, ?_, ?_⟩
    · rw [hdrawn]
      exact (h.source hsource).rewrites hr
    · rw [hfile]
      exact fun run hrun => hrun
    · rw [hfile]
      exact fun run hrun => .inl hrun
    · rw [hfile]
      exact fun id => Iff.rfl
  | ahead _ _ hm hfile hbatch =>
    refine ⟨hbatch, ?_, ?_, ?_, ?_⟩
    · rw [hdrawn]
      exact h.memory.rewrites hm.rewrites
    · rw [hfile]
      exact fun run hrun => hm.runs run (h.saved run hrun)
    · intro run hrun
      rw [hfile]
      rcases hm.origin run hrun with hold | ⟨-, d, -, _, rfl⟩
      · exact h.unsaved run hold
      · exact .inr ⟨rfl, rfl, rfl⟩
    · intro _
      rw [hfile, ← h.definitions]
      constructor
      · rintro ⟨d, hd, rfl⟩
        exact hm.definitions d hd
      · rintro ⟨d, hd, rfl⟩
        exact hm.kept d hd

theorem execution (h : w.Sound) (hrun : Execution (Step calendar) w es t) : t.Sound :=
  hrun.invariant h (fun _ _ _ h hstep => h.step hstep)

end World.Sound

def World.Spent (w : World) (id : String) : Prop :=
  (∃ uuid ∈ w.drawn, id = manualRunId uuid) ∨ ∃ uuid ∈ w.drawn, ∃ scheduledFor,
    id = scheduledRunId (definitionId uuid) scheduledFor ∧ ∀ d ∈ w.store.memory.definitions, d.id ≠ definitionId uuid

structure World.Gone (w : World) (id : String) : Prop where
  absent : ∀ run ∈ w.store.memory.runs, run.id ≠ id
  spent : w.Spent id

theorem World.Spent.not_entered (h : w.Spent id) (hsound : old.Sound w.drawn)
    (hids : ∀ d ∈ old.definitions, ∃ d' ∈ w.store.memory.definitions, d'.id = d.id)
    (hfresh : ∀ uuid ∈ e.call.uuids, uuid ∉ w.drawn) (hentered : Entered e old next) : next.id ≠ id := by
  rintro rfl
  cases hentered with
  | occurrence d scheduledFor _ hd _ heq =>
    obtain ⟨owner, -, howner⟩ := hsound.definitions d hd
    have hname : next.id = scheduledRunId (definitionId owner) scheduledFor := by
      rw [heq, ← howner]
      rfl
    rcases h with ⟨uuid, -, hid⟩ | ⟨uuid, -, instant, hid, hgone⟩
    · exact scheduledRunId_ne_manual (hname.symm.trans hid)
    · obtain ⟨rfl, -⟩ := scheduledRunId_inj (hname.symm.trans hid)
      obtain ⟨d', hd', hid'⟩ := hids d hd
      exact hgone d' hd' (hid'.trans howner)
  | manual _ uuid _ _ huuid heq =>
    have hname : next.id = manualRunId uuid := by
      rw [heq]
      rfl
    rcases h with ⟨_, huuid', hid⟩ | ⟨_, -, _, hid, -⟩
    · exact hfresh uuid huuid (manualRunId_inj (hname.symm.trans hid) ▸ huuid')
    · exact scheduledRunId_ne_manual (hid.symm.trans hname)

theorem World.Sound.sourceDefinitions (h : w.Sound) (hsource : old = w.store.memory ∨ old = w.store.file) (id : String) :
    (∃ d ∈ old.definitions, d.id = id) ↔ ∃ d ∈ w.store.memory.definitions, d.id = id := by
  rcases hsource with rfl | rfl
  · exact Iff.rfl
  · exact (h.definitions id).symm

theorem World.Spent.step (h : w.Spent id) (hw : w.Sound) (hstep : Step calendar w e t) : t.Spent id := by
  obtain ⟨hworld, hdrawn, hfresh⟩ := hw.worldStep hstep
  have hmore : ∀ uuid ∈ w.drawn, uuid ∈ t.drawn := by
    rw [hdrawn]
    exact fun uuid huuid => List.mem_append_right _ huuid
  have hdefinitions : ∀ d ∈ t.store.memory.definitions,
      (∃ d₀ ∈ w.store.memory.definitions, d₀.id = d.id) ∨ ∃ uuid ∈ e.call.uuids, d.id = definitionId uuid := by
    intro d hd
    cases hworld with
    | idle heq =>
      rw [heq] at hd
      exact .inl ⟨d, hd, rfl⟩
    | rewritten _ hsource hr =>
      rcases hr.definitions d hd with hold | hnew
      · exact .inl ((hw.sourceDefinitions hsource d.id).mp hold)
      · exact .inr hnew
    | ahead _ _ hm => exact .inl (hm.definitions d hd)
  rcases h with ⟨uuid, huuid, hid⟩ | ⟨uuid, huuid, scheduledFor, hid, hgone⟩
  · exact .inl ⟨uuid, hmore uuid huuid, hid⟩
  · refine .inr ⟨uuid, hmore uuid huuid, scheduledFor, hid, fun d hd heq => ?_⟩
    rcases hdefinitions d hd with ⟨d₀, hd₀, hid₀⟩ | ⟨uuid', huuid', hid'⟩
    · exact hgone d₀ hd₀ (hid₀.trans heq)
    · obtain rfl := definitionId_inj (hid'.symm.trans heq)
      exact hfresh uuid' huuid' huuid

theorem World.Gone.step (h : w.Gone id) (hw : w.Sound) (hstep : Step calendar w e t) : t.Gone id := by
  refine ⟨?_, h.spent.step hw hstep⟩
  obtain ⟨hworld, -, hfresh⟩ := hw.worldStep hstep
  intro next hnext
  cases hworld with
  | idle heq =>
    rw [heq] at hnext
    exact h.absent next hnext
  | rewritten _ hsource hr =>
    rcases hr.origin next hnext with ⟨run, hrun, hs⟩ | hentered
    · rw [hs.same.id]
      rcases hsource with rfl | rfl
      · exact h.absent run hrun
      · exact h.absent run (hw.saved run hrun)
    · refine h.spent.not_entered (hw.source hsource) (fun d hd => ?_) hfresh hentered
      exact (hw.sourceDefinitions hsource d.id).mp ⟨d, hd, rfl⟩
  | ahead _ _ hm =>
    have hr : Rewrites e w.store.memory t.store.memory := hm.rewrites
    rcases hr.origin next hnext with ⟨run, hrun, hs⟩ | hentered
    · rw [hs.same.id]
      exact h.absent run hrun
    · exact h.spent.not_entered hw.memory (fun d hd => ⟨d, hd, rfl⟩) hfresh hentered

def World.Lasting (P : AutomationRun → Prop) (w : World) (id : String) : Prop :=
  (∃ run ∈ w.store.file.runs, run.id = id ∧ P run) ∨ w.Gone id

theorem World.Sound.durableStep (hw : w.Sound) (hstep : Step calendar w e t) (hrun : run ∈ w.store.file.runs) :
    (∃ next ∈ t.store.file.runs, RunStep e run next) ∨ t.Gone run.id := by
  have ht := hw.step hstep
  obtain ⟨hworld, hdrawn, hfresh⟩ := hw.worldStep hstep
  cases hworld with
  | idle heq =>
    rw [heq]
    exact .inl ⟨run, hrun, .kept⟩
  | ahead _ _ _ hfile =>
    rw [hfile]
    exact .inl ⟨run, hrun, .kept⟩
  | rewritten _ hsource hr hfile =>
    have hmem := hw.durable hsource hrun
    have hsound := hw.source hsource
    rcases hr.runs run hmem with hnext | hremoved
    · rw [hfile]
      exact .inl hnext
    · right
      constructor
      · intro next hnext hid
        rcases hr.origin next hnext with ⟨_, hrun', hs⟩ | hentered
        · obtain rfl := eq_of_key hrun' hmem (hs.same.id.symm.trans hid)
          obtain ⟨d, hd, howner⟩ := ht.memory.housed next hnext
          exact hremoved d hd (howner.trans hs.same.automationId)
        · cases hentered with
          | occurrence _ _ _ _ hnew => exact hnew run hmem hid.symm
          | manual _ uuid _ _ huuid heq =>
            rw [heq] at hid
            exact World.Sound.ne_manual hsound hmem (hfresh uuid huuid) hid.symm
      · have hmore : ∀ uuid ∈ w.drawn, uuid ∈ t.drawn := by
          rw [hdrawn]
          exact fun uuid huuid => List.mem_append_right _ huuid
        rcases hsound.named run hmem with ⟨-, hname⟩ | ⟨-, uuid, huuid, hname⟩
        · obtain ⟨d, hd, howner⟩ := hsound.housed run hmem
          obtain ⟨uuid, huuid, hid⟩ := hsound.definitions d hd
          have howned : run.automationId = definitionId uuid := howner.symm.trans hid
          refine .inr ⟨uuid, hmore uuid huuid, run.scheduledFor, by rw [hname, howned], ?_⟩
          rw [← howned]
          exact hremoved
        · exact .inl ⟨uuid, hmore uuid huuid, hname⟩

theorem World.Lasting.step (h : w.Lasting P id) (hw : w.Sound) (hstep : Step calendar w e t)
    (hP : ∀ run next, run.id = id → P run → RunStep e run next → P next) : t.Lasting P id := by
  rcases h with ⟨run, hrun, rfl, hp⟩ | hgone
  · rcases hw.durableStep hstep hrun with ⟨next, hnext, hs⟩ | hgone
    · exact .inl ⟨next, hnext, hs.same.id, hP run next rfl hp hs⟩
    · exact .inr hgone
  · exact .inr (hgone.step hw hstep)

theorem World.Lasting.execution (h : w.Lasting P id) (hw : w.Sound) (hrun : Execution (Step calendar) w es t)
    (hP : ∀ e run next, P run → RunStep e run next → P next) : t.Lasting P id :=
  (hrun.invariant (I := fun w => w.Sound ∧ w.Lasting P id) ⟨hw, h⟩
    (fun _ e _ h hstep => ⟨h.1.step hstep, h.2.step h.1 hstep (fun run next _ => hP e run next)⟩)).2

theorem World.Lasting.memory (h : w.Lasting P id) (hw : w.Sound) (hrun : run ∈ w.store.memory.runs) (hid : run.id = id) :
    P run := by
  rcases h with ⟨run', hrun', hid', hp⟩ | hgone
  · obtain rfl := eq_of_key hrun (hw.saved run' hrun') (hid.trans hid'.symm)
    exact hp
  · exact absurd hid (hgone.absent run hrun)

end WorkAgent.Harness.Automation
