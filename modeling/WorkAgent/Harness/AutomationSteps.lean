import Mathlib
import WorkAgent.Library.Interleaving
import WorkAgent.Harness.AutomationStore

namespace WorkAgent.Harness.Automation

open Library AutomationStore Table

variable {calendar : Calendar} {e : Event} {now : Instant} {store next : AutomationStore}
  {run : AutomationRun}

variable {u v : UUID}

theorem definitionId_inj (h : definitionId u = definitionId v) : u = v :=
  UUID.eq_of_text ((String.append_right_inj _).mp h)

theorem manualRunId_inj (h : manualRunId u = manualRunId v) : u = v :=
  UUID.eq_of_text ((String.append_right_inj _).mp h)

theorem scheduledRunId_inj {m n : Instant}
    (h : scheduledRunId (definitionId u) m = scheduledRunId (definitionId v) n) : u = v ∧ m = n := by
  have hlist := congrArg String.toList h
  simp only [scheduledRunId, definitionId, String.toList_append, List.append_assoc,
    List.append_cancel_left_eq] at hlist
  obtain ⟨htext, hrest⟩ := List.append_inj hlist (by rw [u.length_toList, v.length_toList])
  rw [List.append_cancel_left_eq, String.toList_inj] at hrest
  exact ⟨UUID.eq_of_text (String.toList_inj.mp htext), Int.repr_injective hrest⟩

theorem scheduledRunId_ne_manual {n : Instant} :
    scheduledRunId (definitionId u) n ≠ manualRunId v := by
  intro h
  have hlength := congrArg String.length h
  simp only [scheduledRunId, definitionId, manualRunId, String.length_append, u.length, v.length] at hlength
  have hprefix : "automation-".length = 11 := by decide
  omega

inductive RunStep (e : Event) (run : AutomationRun) : AutomationRun → Prop
  | kept : RunStep e run run
  | begun (now : Instant) (hcall : e.call = .begin now run.id) (hstatus : run.status = .pending ∨ run.status = .waiting) :
      RunStep e run (run.begun now)
  | bound (sessionId : String) (hstatus : run.status = .running) :
      RunStep e run { run with sessionId := some sessionId }
  | submitted (now : Instant) (turnId : String) (hstatus : run.status = .running) :
      RunStep e run { run with turnId := some turnId, submittedAt := some now }
  | deferred (now : Instant) (hcall : e.call = .deferBusy now run.id) (hanswer : e.answer = .ok (.run (run.deferred now)))
      (hstatus : run.status = .running) (hsubmitted : run.submittedAt = none) : RunStep e run (run.deferred now)
  | finished (now : Instant) (outcome : RunOutcome) (hstatus : run.status = .running) :
      RunStep e run (run.finished now outcome)
  | cancelled (now : Instant) (hstatus : run.status = .pending ∨ run.status = .waiting ∨ run.status = .running) :
      RunStep e run (run.cancelled now)
  | interrupted (now : Instant) (hstatus : run.status = .running) : RunStep e run (run.interrupted now)

structure SameOccurrence (run next : AutomationRun) : Prop where
  id : next.id = run.id
  automationId : next.automationId = run.automationId
  trigger : next.trigger = run.trigger
  scheduledFor : next.scheduledFor = run.scheduledFor

theorem RunStep.same {next : AutomationRun} (h : RunStep e run next) : SameOccurrence run next := by
  cases h with
  | finished _ outcome => cases outcome <;> exact ⟨rfl, rfl, rfl, rfl⟩
  | _ => exact ⟨rfl, rfl, rfl, rfl⟩

inductive Entered (e : Event) (document : AutomationDocument) (next : AutomationRun) : Prop
  | occurrence (definition : AutomationDefinition) (scheduledFor now : Instant) (hd : definition ∈ document.definitions)
      (hnew : ∀ run ∈ document.runs, run.id ≠ next.id) (h : next = definition.occurrence scheduledFor now)
  | manual (definition : AutomationDefinition) (uuid : UUID) (now : Instant) (hd : definition ∈ document.definitions)
      (huuid : uuid ∈ e.call.uuids) (h : next = definition.manualRun uuid now)

structure Rewrites (e : Event) (old new : AutomationDocument) : Prop where
  runs : ∀ run ∈ old.runs, (∃ next ∈ new.runs, RunStep e run next) ∨ ∀ d ∈ new.definitions, d.id ≠ run.automationId
  origin : ∀ next ∈ new.runs, (∃ run ∈ old.runs, RunStep e run next) ∨ Entered e old next
  definitions : ∀ d ∈ new.definitions, (∃ d₀ ∈ old.definitions, d₀.id = d.id) ∨ ∃ uuid ∈ e.call.uuids, d.id = definitionId uuid
  kept : ∀ d ∈ old.definitions, (∃ d' ∈ new.definitions, d'.id = d.id) ∨ ∀ next ∈ new.runs, next.automationId ≠ d.id

structure Claims (now : Instant) (old new : AutomationDocument) : Prop where
  runs : ∀ run ∈ old.runs, run ∈ new.runs
  origin : ∀ next ∈ new.runs, next ∈ old.runs ∨ (∀ run ∈ old.runs, run.id ≠ next.id) ∧
    ∃ d ∈ old.definitions, ∃ scheduledFor, next = d.occurrence scheduledFor now
  definitions : ∀ d ∈ new.definitions, ∃ d₀ ∈ old.definitions, d₀.id = d.id
  kept : ∀ d ∈ old.definitions, ∃ d' ∈ new.definitions, d'.id = d.id

/-- A step of the store. Only a `claimRunnable` that throws leaves memory ahead of the file. -/
inductive StoreStep (e : Event) (old new : AutomationStore) : Prop
  | idle (h : new = old)
  | saved (memory : AutomationDocument) (hm : Rewrites e old.memory memory) (h : new = ⟨memory, false, memory⟩)
  | unsaved (now : Instant) (memory : AutomationDocument) (hcall : e.call = .claimRunnable now)
      (hm : Claims now old.memory memory) (h : new = ⟨memory, false, old.file⟩)
  | restarted (now : String → Instant) (h : new = AutomationStore.reopen now old.file)

section Claims

variable {old document : AutomationDocument} {definition : AutomationDefinition}

theorem Claims.refl (now : Instant) (old : AutomationDocument) : Claims now old old where
  runs := fun _ h => h
  origin := fun _ h => .inl h
  definitions := fun d h => ⟨d, h, rfl⟩
  kept := fun d h => ⟨d, h, rfl⟩

theorem Claims.insert (h : Claims now old document) (hd : definition ∈ old.definitions) (scheduledFor : Instant) :
    Claims now old { document with runs := document.runs.insertOrIgnore (definition.occurrence scheduledFor now) } :=
  { h with
    runs := fun run hrun => mem_insertOrIgnore.mpr (.inl (h.runs run hrun))
    origin := by
      intro next hnext
      rcases mem_insertOrIgnore.mp hnext with hold | ⟨rfl, hnone⟩
      · exact h.origin next hold
      · refine .inr ⟨fun run hrun => ?_, definition, hd, scheduledFor, rfl⟩
        exact find?_eq_none.mp hnone run (h.runs run hrun) }

theorem Claims.set (h : Claims now old document) (hd : definition ∈ old.definitions) {d : AutomationDefinition}
    (hid : d.id = definition.id) : Claims now old (document.setDefinition d) where
  runs := h.runs
  origin := h.origin
  definitions := forall_mem_set ⟨definition, hd, hid.symm⟩ h.definitions
  kept := by
    intro x hx
    obtain ⟨x', hx', hid'⟩ := h.kept x hx
    by_cases heq : x'.id = d.id
    · exact ⟨d, mem_set.mpr (.inl rfl), heq.symm.trans hid'⟩
    · exact ⟨x', mem_set.mpr (.inr ⟨hx', heq⟩), hid'⟩

theorem claimed_id {scheduledFor : Instant} {next : AutomationDefinition}
    (h : definition.claimed calendar scheduledFor now = .ok next) : next.id = definition.id := by
  unfold AutomationDefinition.claimed at h
  obtain ⟨_, -, h⟩ := bind_eq_ok.mp h
  cases h
  rfl

theorem Claims.claimDue (calendar : Calendar) (definitions : List AutomationDefinition) (hsub : ∀ d ∈ definitions, d ∈ old.definitions)
    (changed : Bool) (h : Claims now old document) :
    Claims now old (document.claimDue calendar now definitions changed).2 := by
  induction definitions generalizing document changed with
  | nil => exact h
  | cons definition definitions ih =>
    have hrest : ∀ d ∈ definitions, d ∈ old.definitions := fun d hd => hsub d (List.mem_cons_of_mem _ hd)
    have hd : definition ∈ old.definitions := hsub definition (List.mem_cons_self)
    unfold AutomationDocument.claimDue
    split
    · exact ih hrest changed h
    · rename_i scheduledFor _
      dsimp only
      split
      · exact h.insert hd scheduledFor
      · rename_i next hnext
        exact ih hrest true ((h.insert hd scheduledFor).set hd (claimed_id hnext))

theorem claimRunnable_claims (calendar : Calendar) (now : Instant) (store : AutomationStore) :
    ∃ memory, Claims now store.memory memory ∧ ((store.claimRunnable calendar now).2 = store.withMemory memory ∨
      (store.claimRunnable calendar now).2 = (store.withMemory memory).save) := by
  have hclaims := (Claims.refl now store.memory).claimDue calendar store.memory.definitions.rows
    (fun _ h => h) false
  unfold AutomationStore.claimRunnable
  generalize store.memory.claimDue calendar now store.memory.definitions.rows false = result at hclaims ⊢
  obtain ⟨answer, memory⟩ := result
  refine ⟨memory, hclaims, ?_⟩
  cases answer with
  | error => exact .inl rfl
  | ok changed =>
    cases changed with
    | true => exact .inr rfl
    | false => exact .inl rfl

theorem Claims.rewrites (h : Claims now old document) : Rewrites e old document where
  runs := fun run hrun => .inl ⟨run, h.runs run hrun, .kept⟩
  origin := by
    intro next hnext
    rcases h.origin next hnext with hold | ⟨hnew, d, hd, scheduledFor, heq⟩
    · exact .inl ⟨next, hold, .kept⟩
    · exact .inr (.occurrence d scheduledFor now hd hnew heq)
  definitions := fun d hd => .inl (h.definitions d hd)
  kept := fun d hd => .inl (h.kept d hd)

end Claims

section Methods

variable {runId : String} {old : AutomationDocument} {next : AutomationRun}

theorem requiredRun_eq_ok (h : store.requiredRun runId = .ok run) : run ∈ store.memory.runs ∧ run.id = runId := by
  unfold requiredRun at h
  cases hfind : store.memory.runs.find? runId with
  | none =>
    rw [hfind] at h
    cases h
  | some =>
    rw [hfind] at h
    cases h
    exact find?_eq_some.mp hfind

variable {id : String}

theorem required_eq_ok {d : AutomationDefinition} (h : store.required id = .ok d) :
    d ∈ store.memory.definitions ∧ d.id = id := by
  unfold required at h
  cases hfind : store.memory.definitions.find? id with
  | none =>
    rw [hfind] at h
    cases h
  | some =>
    rw [hfind] at h
    cases h
    exact find?_eq_some.mp hfind

theorem parse_eq_ok (h : run.parse = .ok next) : next = run := by
  unfold AutomationRun.parse at h
  split at h
  · cases h
  · cases h
    rfl

theorem save_withMemory (hbatch : store.batch = false) (memory : AutomationDocument) :
    (store.withMemory memory).save = ⟨memory, false, memory⟩ := by
  simp [AutomationStore.save, withMemory, hbatch]

theorem begin_eq_ok {s : AutomationStore} (h : store.begin now runId = .ok (next, s)) :
    ∃ run ∈ store.memory.runs, run.id = runId ∧ (run.status = .pending ∨ run.status = .waiting) ∧ next = run.begun now ∧
      s = (store.withMemory (store.memory.setRun next)).save := by
  unfold AutomationStore.begin at h
  obtain ⟨run, hrun, h⟩ := bind_eq_ok.mp h
  obtain ⟨hmem, hid⟩ := requiredRun_eq_ok hrun
  split at h
  · cases h
  · rename_i hstatus
    cases h
    refine ⟨run, hmem, hid, ?_, rfl, rfl⟩
    by_cases hpending : run.status = .pending
    · exact .inl hpending
    · exact .inr (not_not.mp (fun hw => hstatus ⟨hpending, hw⟩))

theorem bindSession_eq_ok {sessionId : String} {a : Unit} {s : AutomationStore}
    (h : store.bindSession runId sessionId = .ok (a, s)) :
    s = store ∨ ∃ run ∈ store.memory.runs, run.status = .running ∧
      s = (store.withMemory (store.memory.setRun { run with sessionId := some sessionId })).save := by
  unfold AutomationStore.bindSession at h
  obtain ⟨run, hrun, h⟩ := bind_eq_ok.mp h
  split at h
  · cases h
    exact .inl rfl
  · rename_i hstatus
    obtain ⟨_, hnext, h⟩ := bind_eq_ok.mp h
    cases h
    rw [parse_eq_ok hnext]
    exact .inr ⟨run, (requiredRun_eq_ok hrun).1, not_not.mp hstatus, rfl⟩

theorem submitted_eq_ok {turnId : String} {a : Unit} {s : AutomationStore}
    (h : store.submitted now runId turnId = .ok (a, s)) :
    s = store ∨ ∃ run ∈ store.memory.runs, run.status = .running ∧
      s = (store.withMemory (store.memory.setRun { run with turnId := some turnId, submittedAt := some now })).save := by
  unfold AutomationStore.submitted at h
  obtain ⟨run, hrun, h⟩ := bind_eq_ok.mp h
  split at h
  · cases h
    exact .inl rfl
  · rename_i hstatus
    cases h
    exact .inr ⟨run, (requiredRun_eq_ok hrun).1, not_not.mp hstatus, rfl⟩

theorem deferBusy_eq_ok {s : AutomationStore} (h : store.deferBusy now runId = .ok (next, s)) :
    (s = store ∧ next ∈ store.memory.runs ∧ next.id = runId ∧ next.status = .cancelled) ∨
      ∃ run ∈ store.memory.runs, run.id = runId ∧ run.status = .running ∧ run.submittedAt = none ∧
        next = run.deferred now ∧ s = (store.withMemory (store.memory.setRun next)).save := by
  unfold AutomationStore.deferBusy at h
  obtain ⟨run, hrun, h⟩ := bind_eq_ok.mp h
  obtain ⟨hmem, hid⟩ := requiredRun_eq_ok hrun
  split at h
  · rename_i hcancelled
    cases h
    exact .inl ⟨rfl, hmem, hid, hcancelled⟩
  · split at h
    · cases h
    · rename_i hretry
      cases h
      rw [not_or, not_not, Option.not_isSome_iff_eq_none] at hretry
      exact .inr ⟨run, hmem, hid, hretry.1, hretry.2, rfl, rfl⟩

theorem finish_eq_ok {outcome : RunOutcome} {s : AutomationStore}
    (h : store.finish now runId outcome = .ok (next, s)) :
    s = store ∨ ∃ run ∈ store.memory.runs, run.status = .running ∧
      s = (store.withMemory (store.memory.setRun (run.finished now outcome))).save := by
  unfold AutomationStore.finish at h
  obtain ⟨run, hrun, h⟩ := bind_eq_ok.mp h
  split at h
  · cases h
    exact .inl rfl
  · split at h
    · cases h
    · rename_i hstatus
      obtain ⟨_, hnext, h⟩ := bind_eq_ok.mp h
      cases h
      rw [parse_eq_ok hnext]
      exact .inr ⟨run, (requiredRun_eq_ok hrun).1, not_not.mp hstatus, rfl⟩

theorem cancel_eq_ok {automationId : String} {s : AutomationStore}
    (h : store.cancel now automationId runId = .ok (next, s)) :
    ∃ run ∈ store.memory.runs, (run.status = .pending ∨ run.status = .waiting ∨ run.status = .running) ∧
      s = (store.withMemory (store.memory.setRun (run.cancelled now))).save := by
  unfold AutomationStore.cancel at h
  obtain ⟨run, hrun, h⟩ := bind_eq_ok.mp h
  by_cases hid : run.automationId = automationId
  · rw [if_neg (not_not.mpr hid)] at h
    by_cases hstatus : run.status ≠ .pending ∧ run.status ≠ .waiting ∧ run.status ≠ .running
    · rw [if_pos hstatus] at h
      cases h
    · rw [if_neg hstatus] at h
      cases h
      refine ⟨run, (requiredRun_eq_ok hrun).1, ?_, rfl⟩
      by_contra hnone
      exact hstatus (by simpa [not_or] using hnone)
  · rw [if_pos hid] at h
    cases h

theorem Rewrites.setRun (hrun : run ∈ old.runs) (hstep : RunStep e run next) :
    Rewrites e old (old.setRun next) where
  runs := by
    intro x hx
    by_cases hid : x.id = run.id
    · obtain rfl := eq_of_key hx hrun hid
      exact .inl ⟨next, mem_set.mpr (.inl rfl), hstep⟩
    · refine .inl ⟨x, mem_set.mpr (.inr ⟨hx, ?_⟩), .kept⟩
      rw [hstep.same.id]
      exact hid
  origin := by
    intro x hx
    rcases mem_set.mp hx with rfl | ⟨hx, -⟩
    · exact .inl ⟨run, hrun, hstep⟩
    · exact .inl ⟨x, hx, .kept⟩
  definitions := fun d hd => .inl ⟨d, hd, rfl⟩
  kept := fun d hd => .inl ⟨d, hd, rfl⟩

theorem Rewrites.runNow {d : AutomationDefinition} {uuid : UUID} (hd : d ∈ old.definitions) (huuid : uuid ∈ e.call.uuids)
    (hnew : ∀ run ∈ old.runs, run.id ≠ manualRunId uuid) : Rewrites e old (old.setRun (d.manualRun uuid now)) where
  runs := fun x hx => .inl ⟨x, mem_set.mpr (.inr ⟨hx, hnew x hx⟩), .kept⟩
  origin := by
    intro x hx
    rcases mem_set.mp hx with rfl | ⟨hx, -⟩
    · exact .inr (.manual d uuid now hd huuid rfl)
    · exact .inl ⟨x, hx, .kept⟩
  definitions := fun d hd => .inl ⟨d, hd, rfl⟩
  kept := fun d hd => .inl ⟨d, hd, rfl⟩

theorem Rewrites.setDefinition {d : AutomationDefinition}
    (hid : (∃ d₀ ∈ old.definitions, d₀.id = d.id) ∨ ∃ uuid ∈ e.call.uuids, d.id = definitionId uuid) :
    Rewrites e old (old.setDefinition d) where
  runs := fun x hx => .inl ⟨x, hx, .kept⟩
  origin := fun x hx => .inl ⟨x, hx, .kept⟩
  definitions := by
    intro x hx
    rcases mem_set.mp hx with rfl | ⟨hx, -⟩
    · exact hid
    · exact .inl ⟨x, hx, rfl⟩
  kept := by
    intro x hx
    by_cases heq : x.id = d.id
    · exact .inl ⟨d, mem_set.mpr (.inl rfl), heq.symm⟩
    · exact .inl ⟨x, mem_set.mpr (.inr ⟨hx, heq⟩), rfl⟩

theorem mem_cancelScheduled {document : AutomationDocument} {x : AutomationRun} :
    x ∈ (AutomationStore.cancelScheduled document id now).runs ↔ ∃ run ∈ document.runs,
      x = if run.automationId = id ∧ (run.status = .waiting ∨ run.status = .pending) ∧ run.trigger = .scheduled then
        run.cancelled now else run := by
  rw [← mem_rows, AutomationStore.cancelScheduled, rows_update, List.mem_map]
  simp only [mem_rows, eq_comm]

theorem Rewrites.cancelScheduled {new : AutomationDocument} (h : Rewrites e old new)
    (hruns : new.runs = old.runs) : Rewrites e old (AutomationStore.cancelScheduled new id now) where
  runs := by
    intro x hx
    refine .inl ⟨_, mem_cancelScheduled.mpr ⟨x, hruns ▸ hx, rfl⟩, ?_⟩
    split
    · rename_i hp
      exact .cancelled now (by rcases hp.2.1 with h | h <;> simp [h])
    · exact .kept
  origin := by
    intro x hx
    obtain ⟨r, hr, rfl⟩ := mem_cancelScheduled.mp hx
    refine .inl ⟨r, hruns ▸ hr, ?_⟩
    split
    · rename_i hp
      exact .cancelled now (by rcases hp.2.1 with h | h <;> simp [h])
    · exact .kept
  definitions := h.definitions
  kept := by
    intro d hd
    rcases h.kept d hd with hkept | hgone
    · exact .inl hkept
    · refine .inr (fun x hx => ?_)
      obtain ⟨r, hr, rfl⟩ := mem_cancelScheduled.mp hx
      have hr' := hgone r hr
      split
      · exact hr'
      · exact hr'

theorem Rewrites.delete : Rewrites e old
    { old with
      definitions := old.definitions.delete (fun definition => definition.id = id)
      runs := old.runs.delete (fun run => run.automationId = id) } where
  runs := by
    intro x hx
    by_cases hid : x.automationId = id
    · right
      intro d hd
      rw [hid]
      exact (mem_delete.mp hd).2
    · exact .inl ⟨x, mem_delete.mpr ⟨hx, hid⟩, .kept⟩
  origin := fun x hx => .inl ⟨x, (mem_delete.mp hx).1, .kept⟩
  definitions := fun d hd => .inl ⟨d, (mem_delete.mp hd).1, rfl⟩
  kept := by
    intro d hd
    by_cases hid : d.id = id
    · right
      intro x hx
      rw [hid]
      exact (mem_delete.mp hx).2
    · exact .inl ⟨d, mem_delete.mpr ⟨hd, hid⟩, rfl⟩

end Methods

section Edits

variable {s : AutomationStore} {d : AutomationDefinition} {uuid : UUID}

theorem create_eq_ok {input : AutomationMutation} (h : store.create calendar now uuid input = .ok (d, s)) :
    d.id = definitionId uuid ∧ s = (store.withMemory (store.memory.setDefinition d)).save := by
  unfold AutomationStore.create at h
  obtain ⟨-, -, h⟩ := bind_eq_ok.mp h
  obtain ⟨_, -, h⟩ := bind_eq_ok.mp h
  obtain ⟨-, -, h⟩ := bind_eq_ok.mp h
  cases h
  exact ⟨rfl, rfl⟩

theorem update_eq_ok {id : String} {expectedVersion : ℤ} {input : AutomationPatch}
    (h : store.update calendar now id expectedVersion input = .ok (d, s)) :
    (∃ d₀ ∈ store.memory.definitions, d₀.id = d.id) ∧
      (s = (store.withMemory (store.memory.setDefinition d)).save ∨
        s = (store.withMemory (AutomationStore.cancelScheduled (store.memory.setDefinition d) id now)).save) := by
  unfold AutomationStore.update at h
  obtain ⟨current, hcurrent, h⟩ := bind_eq_ok.mp h
  by_cases hversion : current.version ≠ expectedVersion
  · rw [if_pos hversion] at h
    cases h
  · rw [if_neg hversion] at h
    obtain ⟨-, -, h⟩ := bind_eq_ok.mp h
    obtain ⟨_, -, h⟩ := bind_eq_ok.mp h
    obtain ⟨-, -, h⟩ := bind_eq_ok.mp h
    have hmem := (required_eq_ok hcurrent).1
    split at h
    · cases h
      exact ⟨⟨current, hmem, rfl⟩, .inr rfl⟩
    · cases h
      exact ⟨⟨current, hmem, rfl⟩, .inl rfl⟩

theorem edit_eq_ok {edit : Edit} (h : edit.perform calendar store = .ok (d, s)) :
    ∃ memory, s = (store.withMemory memory).save ∧
      ∀ e : Event, (∀ uuid ∈ edit.uuids, uuid ∈ e.call.uuids) → Rewrites e store.memory memory := by
  cases edit with
  | create _ uuid =>
    obtain ⟨hid, rfl⟩ := create_eq_ok h
    exact ⟨_, rfl, fun e he => .setDefinition (.inr ⟨uuid, he uuid (by simp [Edit.uuids]), hid⟩)⟩
  | update =>
    obtain ⟨hold, rfl | rfl⟩ := update_eq_ok h
    · exact ⟨_, rfl, fun e _ => .setDefinition (.inl hold)⟩
    · exact ⟨_, rfl, fun e _ => (Rewrites.setDefinition (.inl hold)).cancelScheduled rfl⟩
  | refused => cases h

theorem operation_eq_ok {id input : String} {edit : Edit}
    (h : store.operation id input (edit.perform calendar) = .ok (d, s)) : s = store ∨
      ∃ memory, s = ⟨memory, false, memory⟩ ∧
        ∀ e : Event, (∀ uuid ∈ edit.uuids, uuid ∈ e.call.uuids) → Rewrites e store.memory memory := by
  unfold AutomationStore.operation at h
  by_cases hvalid : ¬ validOperationId id
  · rw [if_pos hvalid] at h
    cases h
  · rw [if_neg hvalid] at h
    cases hfind : store.memory.operations.find? id with
    | some =>
      simp only [hfind] at h
      split at h
      · cases h
      · cases h
        exact .inl rfl
    | none =>
      simp only [hfind] at h
      obtain ⟨⟨result, _⟩, hperform, h⟩ := bind_eq_ok.mp h
      obtain ⟨memory, rfl, hm⟩ := edit_eq_ok hperform
      cases h
      refine .inr ⟨{ memory with operations := memory.operations.set ⟨id, input, result⟩ }, ?_, fun e he => ?_⟩
      · simp [AutomationStore.save, withMemory]
      · exact ⟨(hm e he).runs, (hm e he).origin, (hm e he).definitions, (hm e he).kept⟩

end Edits

theorem attempt_idle {α : Type} {answer : α → Answer} {outcome : Except String (α × AutomationStore)}
    (h : ∀ a s, outcome = .ok (a, s) → StoreStep e store s) : StoreStep e store (attempt store answer outcome).2 := by
  unfold attempt
  split
  · rename_i a s
    exact h a s rfl
  · exact .idle rfl

theorem Call.storeStep (calendar : Calendar) (call : Call) (hbatch : store.batch = false)
    (hnew : ∀ run ∈ store.memory.runs, ∀ uuid ∈ call.uuids, run.id ≠ manualRunId uuid) :
    StoreStep ⟨call, (call.perform calendar store).1⟩ store (call.perform calendar store).2 := by
  cases call with
  | create _ uuid =>
    refine attempt_idle (fun a s h => ?_)
    obtain ⟨hid, rfl⟩ := create_eq_ok h
    exact .saved _ (.setDefinition (.inr ⟨uuid, by simp [Call.uuids], hid⟩)) (save_withMemory hbatch _)
  | update =>
    refine attempt_idle (fun a s h => ?_)
    obtain ⟨hold, rfl | rfl⟩ := update_eq_ok h
    · exact .saved _ (.setDefinition (.inl hold)) (save_withMemory hbatch _)
    · exact .saved _ ((Rewrites.setDefinition (.inl hold)).cancelScheduled rfl) (save_withMemory hbatch _)
  | delete =>
    refine attempt_idle (fun a s h => ?_)
    unfold AutomationStore.delete at h
    obtain ⟨-, -, h⟩ := bind_eq_ok.mp h
    split at h
    · cases h
    · cases h
      exact .saved _ .delete (save_withMemory hbatch _)
  | runNow now uuid automationId =>
    refine attempt_idle (fun a s h => ?_)
    unfold AutomationStore.runNow at h
    obtain ⟨d, hd, h⟩ := bind_eq_ok.mp h
    cases h
    have huuid : uuid ∈ (Call.runNow now uuid automationId).uuids := by simp [Call.uuids]
    exact .saved _ (.runNow (required_eq_ok hd).1 huuid (fun run hrun => hnew run hrun uuid huuid))
      (save_withMemory hbatch _)
  | claimRunnable now =>
    obtain ⟨memory, hclaims, hs | hs⟩ := claimRunnable_claims calendar now store
    · refine .unsaved now memory rfl hclaims (Eq.trans hs ?_)
      simp [withMemory, hbatch]
    · exact .saved memory hclaims.rewrites (hs.trans (save_withMemory hbatch memory))
  | begin now =>
    refine attempt_idle (fun a s h => ?_)
    obtain ⟨run, hrun, rfl, hstatus, rfl, rfl⟩ := begin_eq_ok h
    exact .saved _ (.setRun hrun (.begun now rfl hstatus)) (save_withMemory hbatch _)
  | bindSession _ sessionId =>
    refine attempt_idle (fun a s h => ?_)
    rcases bindSession_eq_ok h with rfl | ⟨run, hrun, hstatus, rfl⟩
    · exact .idle rfl
    · exact .saved _ (.setRun hrun (.bound sessionId hstatus)) (save_withMemory hbatch _)
  | submitted now _ turnId =>
    refine attempt_idle (fun a s h => ?_)
    rcases submitted_eq_ok h with rfl | ⟨run, hrun, hstatus, rfl⟩
    · exact .idle rfl
    · exact .saved _ (.setRun hrun (.submitted now turnId hstatus)) (save_withMemory hbatch _)
  | deferBusy now =>
    refine attempt_idle (fun a s h => ?_)
    rcases deferBusy_eq_ok h with ⟨rfl, -⟩ | ⟨run, hrun, rfl, hstatus, hsubmitted, rfl, rfl⟩
    · exact .idle rfl
    · refine .saved _ (.setRun hrun (.deferred now rfl ?_ hstatus hsubmitted)) (save_withMemory hbatch _)
      simp only [Call.perform, attempt, h]
  | acknowledgeInterruptedExecution runId =>
    refine attempt_idle (fun a s h => ?_)
    unfold AutomationStore.acknowledgeInterruptedExecution at h
    obtain ⟨run, -, h⟩ := bind_eq_ok.mp h
    split at h
    · cases h
    · cases h
      have hr := (Claims.refl 0 store.memory).rewrites (e := ⟨.acknowledgeInterruptedExecution runId,
        (Call.perform calendar store (.acknowledgeInterruptedExecution runId)).1⟩)
      refine .saved _ ?_ (save_withMemory hbatch _)
      exact ⟨hr.runs, hr.origin, hr.definitions, hr.kept⟩
  | finish now _ outcome =>
    refine attempt_idle (fun a s h => ?_)
    rcases finish_eq_ok h with rfl | ⟨run, hrun, hstatus, rfl⟩
    · exact .idle rfl
    · exact .saved _ (.setRun hrun (.finished now outcome hstatus)) (save_withMemory hbatch _)
  | cancel now =>
    refine attempt_idle (fun a s h => ?_)
    obtain ⟨_, hrun, hstatus, rfl⟩ := cancel_eq_ok h
    exact .saved _ (.setRun hrun (.cancelled now hstatus)) (save_withMemory hbatch _)
  | operation =>
    refine attempt_idle (fun a s h => ?_)
    rcases operation_eq_ok h with rfl | ⟨memory, rfl, hm⟩
    · exact .idle rfl
    · exact .saved memory (hm _ (fun uuid huuid => huuid)) rfl
  | restart now => exact .restarted now rfl

end WorkAgent.Harness.Automation
