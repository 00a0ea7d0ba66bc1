import WorkAgent.Harness.AutomationRuns

namespace WorkAgent.Harness.Automation

open Library

variable {calendar : Calendar} {w t u : World} {e : Event} {es fs : List Event} {id : String} {run next : AutomationRun}
  {drawn : List UUID}

namespace Event

def begins (id : String) (e : Event) : Bool :=
  match e with
  | ⟨.begin _ runId, .ok (.run _)⟩ => runId = id
  | _ => false

def defers (id : String) (e : Event) : Bool :=
  match e with
  | ⟨.deferBusy _ runId, .ok (.run run)⟩ => runId = id ∧ run.status = .waiting
  | _ => false

theorem begins_iff : e.begins id = true ↔ ∃ now run, e = ⟨.begin now id, .ok (.run run)⟩ := by
  unfold begins
  split
  · rename_i now runId run
    simp only [decide_eq_true_eq, mk.injEq, Call.begin.injEq, Except.ok.injEq, Answer.run.injEq]
    constructor
    · rintro rfl
      exact ⟨now, run, ⟨rfl, rfl⟩, rfl⟩
    · rintro ⟨_, _, ⟨-, hid⟩, -⟩
      exact hid
  · rename_i hother
    constructor
    · intro h
      cases h
    · rintro ⟨now, run, rfl⟩
      exact absurd rfl (hother now id run)

theorem defers_iff : e.defers id = true ↔ ∃ now run, e = ⟨.deferBusy now id, .ok (.run run)⟩ ∧ run.status = .waiting := by
  unfold defers
  split
  · rename_i now runId run
    simp only [decide_eq_true_eq, mk.injEq, Call.deferBusy.injEq, Except.ok.injEq, Answer.run.injEq]
    constructor
    · rintro ⟨rfl, hstatus⟩
      exact ⟨now, run, ⟨⟨rfl, rfl⟩, rfl⟩, hstatus⟩
    · rintro ⟨_, _, ⟨⟨-, hid⟩, rfl⟩, hstatus⟩
      exact ⟨hid, hstatus⟩
  · rename_i hother
    constructor
    · intro h
      cases h
    · rintro ⟨now, run, rfl, -⟩
      exact absurd rfl (hother now id run)

end Event

def AutomationRun.Begun (run : AutomationRun) : Prop := run.status ≠ .pending ∧ run.status ≠ .waiting

def AutomationRun.Closed (run : AutomationRun) : Prop :=
  run.status.Final ∨ (run.status = .running ∧ run.submittedAt.isSome)

open RunStatus (Final)

theorem RunStep.of_final (h : RunStep e run next) (hfinal : run.status.Final) : next = run := by
  cases h with
  | kept => rfl
  | begun _ _ hstatus => rcases hstatus with hs | hs <;> simp [Final, hs] at hfinal
  | cancelled _ hstatus => rcases hstatus with hs | hs | hs <;> simp [Final, hs] at hfinal
  | bound _ hs | submitted _ _ hs | deferred _ _ _ hs | finished _ _ hs | interrupted _ hs => simp [Final, hs] at hfinal

theorem finished_final {now : Instant} {outcome : RunOutcome} : (run.finished now outcome).status.Final := by
  cases outcome <;> simp [AutomationRun.finished, Final]

theorem RunStep.closed (h : RunStep e run next) (hclosed : run.Closed) : next.Closed := by
  rcases hclosed with hfinal | ⟨hrunning, hsubmitted⟩
  · rw [h.of_final hfinal]
    exact .inl hfinal
  · cases h with
    | kept | bound => exact .inr ⟨hrunning, hsubmitted⟩
    | begun _ _ hstatus => simp [hrunning] at hstatus
    | cancelled => exact .inl (by simp [AutomationRun.cancelled, Final])
    | submitted => exact .inr ⟨hrunning, rfl⟩
    | deferred _ _ _ _ hnone => simp [hnone] at hsubmitted
    | finished => exact .inl finished_final
    | interrupted => exact .inl (by simp [AutomationRun.interrupted, Final])

open AutomationRun (Begun Closed status)

theorem AutomationRun.Closed.begun (h : run.Closed) : run.Begun := by
  rcases h with (h | h | h | h) | ⟨h, -⟩ <;> simp [Begun, h]

theorem Event.defers_of_deferred {now : Instant} (hcall : e.call = .deferBusy now run.id)
    (hanswer : e.answer = .ok (.run (run.deferred now))) (hretries : ¬ 3 ≤ run.busyRetryCount) : e.defers run.id = true := by
  obtain ⟨_, _⟩ := e
  dsimp only at hcall hanswer
  subst hcall hanswer
  refine Event.defers_iff.mpr ⟨now, run.deferred now, rfl, ?_⟩
  simp [AutomationRun.deferred, hretries]

theorem RunStep.begun_or_defers (h : RunStep e run next) (hbegun : run.Begun) : next.Begun ∨ e.defers run.id = true := by
  cases h with
  | kept | bound | submitted => exact .inl hbegun
  | begun => exact .inl (by simp [Begun, AutomationRun.begun])
  | deferred _ hcall hanswer =>
    by_cases hexhausted : 3 ≤ run.busyRetryCount
    · exact .inl (by simp [Begun, AutomationRun.deferred, hexhausted])
    · exact .inr (Event.defers_of_deferred hcall hanswer hexhausted)
  | finished => exact .inl (AutomationRun.Closed.begun (.inl finished_final))
  | cancelled => exact .inl (by simp [Begun, AutomationRun.cancelled])
  | interrupted => exact .inl (by simp [Begun, AutomationRun.interrupted])

theorem RunStep.retries (h : RunStep e run next) (hcalm : e.defers run.id = false) :
    next.busyRetryCount = run.busyRetryCount := by
  cases h with
  | deferred _ hcall hanswer =>
    by_cases hexhausted : 3 ≤ run.busyRetryCount
    · simp [AutomationRun.deferred, hexhausted]
    · rw [Event.defers_of_deferred hcall hanswer hexhausted] at hcalm
      cases hcalm
  | finished _ outcome => cases outcome <;> rfl
  | _ => rfl

theorem attempt_eq_ok {α : Type} {store : AutomationStore} {answer : α → Answer}
    {outcome : Except String (α × AutomationStore)} {x : Answer} (h : (attempt store answer outcome).1 = .ok x) :
    ∃ a, outcome = .ok (a, (attempt store answer outcome).2) ∧ answer a = x := by
  cases outcome with
  | error => cases h
  | ok result =>
    obtain ⟨a, s⟩ := result
    cases h
    exact ⟨a, rfl, rfl⟩

theorem Step.of_begin {now : Instant} (h : Step calendar w ⟨.begin now id, .ok (.run run)⟩ t) :
    w.store.begin now id = .ok (run, t.store) := by
  generalize he : (⟨.begin now id, .ok (.run run)⟩ : Event) = e at h
  obtain ⟨_, _⟩ := h
  obtain ⟨rfl, hanswer⟩ := Event.mk.injEq .. ▸ he
  obtain ⟨a, ha, hrun⟩ := attempt_eq_ok hanswer.symm
  cases hrun
  exact ha

theorem Step.of_deferBusy {now : Instant} (h : Step calendar w ⟨.deferBusy now id, .ok (.run run)⟩ t) :
    w.store.deferBusy now id = .ok (run, t.store) := by
  generalize he : (⟨.deferBusy now id, .ok (.run run)⟩ : Event) = e at h
  obtain ⟨_, _⟩ := h
  obtain ⟨rfl, hanswer⟩ := Event.mk.injEq .. ▸ he
  obtain ⟨a, ha, hrun⟩ := attempt_eq_ok hanswer.symm
  cases hrun
  exact ha

theorem World.Sound.saved_set (hw : w.Sound) (h : t.store = (w.store.withMemory (w.store.memory.setRun next)).save) :
    next ∈ t.store.file.runs := by
  rw [h, save_withMemory hw.batch]
  exact Table.mem_set.mpr (.inl rfl)

theorem World.Sound.begins (hw : w.Sound) (hstep : Step calendar w e t) (he : e.begins id = true) :
    (∃ run ∈ w.store.memory.runs, run.id = id ∧ ¬ run.Begun) ∧ t.Lasting Begun id := by
  obtain ⟨now, _, rfl⟩ := Event.begins_iff.mp he
  obtain ⟨run, hrun, rfl, hstatus, rfl, hsaved⟩ := begin_eq_ok hstep.of_begin
  refine ⟨⟨run, hrun, rfl, ?_⟩, .inl ⟨run.begun now, hw.saved_set hsaved, rfl, ?_⟩⟩
  · rcases hstatus with hs | hs <;> simp [Begun, hs]
  · simp [Begun, AutomationRun.begun]

theorem World.Lasting.begins (h : w.Lasting Begun id) (hw : w.Sound) (hrun : Execution (Step calendar) w es t)
    (hstep : Step calendar t e u) (he : e.begins id = true) : ∃ d ∈ es, d.defers id = true := by
  have ht := hw.execution hrun
  obtain ⟨⟨run, hmem, hid, hstartable⟩, -⟩ := ht.begins hstep he
  refine hrun.exists_of_ended hw (fun _ _ _ h hstep => h.step hstep) (A := fun w => w.Lasting Begun id) ?_ h ?_
  · intro s d _ hs hlasting hd hcalm
    refine hlasting.step hs hd (fun run next hid hbegun hr => ?_)
    rcases hr.begun_or_defers hbegun with hnext | hdefers
    · exact hnext
    · exact absurd (hid ▸ hdefers) hcalm
  · exact fun hlasting => hstartable (hlasting.memory ht hmem hid)

structure Tallied (es : List Event) (w : World) : Prop where
  counted : ∀ run ∈ w.store.file.runs, es.countP (Event.defers run.id) = run.busyRetryCount
  others : ∀ id, (∀ run ∈ w.store.file.runs, run.id ≠ id) → es.countP (Event.defers id) = 0 ∨
    (es.countP (Event.defers id) ≤ 3 ∧ w.Gone id)

theorem countP_snoc (p : Event → Bool) : (es ++ [e]).countP p = es.countP p + if p e then 1 else 0 := by
  rw [List.countP_append, List.countP_singleton]

theorem Tallied.memory (h : Tallied es w) (hw : w.Sound) (hrun : run ∈ w.store.memory.runs) :
    es.countP (Event.defers run.id) = run.busyRetryCount := by
  by_cases hfile : run ∈ w.store.file.runs
  · exact h.counted run hfile
  · have hnone : ∀ r ∈ w.store.file.runs, r.id ≠ run.id := by
      intro r hr hid
      exact hfile (Table.eq_of_key (hw.saved r hr) hrun hid ▸ hr)
    have huntouched := (hw.unsaved run hrun).resolve_left hfile
    rcases h.others run.id hnone with hzero | ⟨-, hgone⟩
    · exact hzero.trans huntouched.2.1.symm
    · exact absurd rfl (hgone.absent run hrun)

theorem Tallied.deferred (h : Tallied es w) (hw : w.Sound) (hstep : Step calendar w e t) (hid : e.defers id = true) :
    Tallied (es ++ [e]) t := by
  obtain ⟨now, _, rfl, hwaiting⟩ := Event.defers_iff.mp hid
  rcases deferBusy_eq_ok hstep.of_deferBusy with ⟨-, -, -, hcancelled⟩ | ⟨run, hrun, rfl, -, -, rfl, hsaved⟩
  · rw [hcancelled] at hwaiting
    cases hwaiting
  · have hretries : ¬ 3 ≤ run.busyRetryCount := by
      intro hexhausted
      simp [AutomationRun.deferred, hexhausted] at hwaiting
    have hother : ∀ id', id' ≠ run.id → Event.defers id' ⟨.deferBusy now run.id, .ok (.run (run.deferred now))⟩ = false := by
      intro id' hne
      simp [Event.defers, hne.symm]
    have hfile : t.store.file = w.store.memory.setRun (run.deferred now) := by
      rw [hsaved, save_withMemory hw.batch]
    constructor
    · intro next hnext
      rw [hfile] at hnext
      rw [countP_snoc]
      rcases Table.mem_set.mp hnext with rfl | ⟨hold, hne⟩
      · have hcount := h.memory hw hrun
        rw [show (run.deferred now).id = run.id from rfl, hid, hcount]
        simp [AutomationRun.deferred, hretries]
      · rw [hother next.id hne, h.memory hw hold]
        rfl
    · intro id' hnone
      rw [hfile] at hnone
      have hne : id' ≠ run.id := fun heq => hnone _ (Table.mem_set.mpr (.inl rfl)) heq.symm
      rw [countP_snoc, hother id' hne]
      have hold : ∀ r ∈ w.store.file.runs, r.id ≠ id' := by
        intro r hr hrid
        refine hnone r (Table.mem_set.mpr (.inr ⟨hw.saved r hr, ?_⟩)) hrid
        rw [hrid]
        exact hne
      rcases h.others id' hold with hzero | ⟨hle, hgone⟩
      · exact .inl hzero
      · exact .inr ⟨hle, hgone.step hw hstep⟩

theorem Tallied.calm (h : Tallied es w) (hw : w.Sound) (hstep : Step calendar w e t)
    (hcalm : ∀ id, e.defers id = false) : Tallied (es ++ [e]) t := by
  have hcount : ∀ id, (es ++ [e]).countP (Event.defers id) = es.countP (Event.defers id) := by
    intro id
    rw [countP_snoc, hcalm id]
    rfl
  obtain ⟨hworld, -, hfresh⟩ := hw.worldStep hstep
  constructor
  · intro next hnext
    rw [hcount]
    cases hworld with
    | idle heq =>
      rw [heq] at hnext
      exact h.counted next hnext
    | ahead _ _ _ hfile =>
      rw [hfile] at hnext
      exact h.counted next hnext
    | rewritten document hsource hr hfile =>
      rw [hfile] at hnext
      have hmemory : ∀ r ∈ document.runs, r ∈ w.store.memory.runs := by
        rcases hsource with rfl | rfl
        · exact fun r hr => hr
        · exact hw.saved
      rcases hr.origin next hnext with ⟨run, hrun, hs⟩ | hentered
      · rw [hs.same.id, hs.retries (hcalm _)]
        exact h.memory hw (hmemory run hrun)
      · have hnew : ∀ r ∈ w.store.file.runs, r.id ≠ next.id := by
          intro r hmem
          have hdocument := hw.durable hsource hmem
          cases hentered with
          | occurrence _ _ _ _ hnew => exact hnew r hdocument
          | manual _ uuid _ _ huuid heq =>
            rw [heq]
            exact World.Sound.ne_manual (hw.source hsource) hdocument (hfresh uuid huuid)
        have hzero : next.busyRetryCount = 0 := by
          cases hentered with
          | occurrence _ _ _ _ _ heq | manual _ _ _ _ _ heq =>
            rw [heq]
            rfl
        rw [hzero]
        rcases h.others next.id hnew with hnone | ⟨-, hgone⟩
        · exact hnone
        · refine absurd rfl (hgone.spent.not_entered (hw.source hsource) (fun d hd => ?_) hfresh hentered)
          exact (hw.sourceDefinitions hsource d.id).mp ⟨d, hd, rfl⟩
  · intro id hnone
    rw [hcount]
    by_cases hold : ∃ r ∈ w.store.file.runs, r.id = id
    · obtain ⟨r, hr, rfl⟩ := hold
      rcases hw.durableStep hstep hr with ⟨next, hnext, hs⟩ | hgone
      · exact absurd hs.same.id (hnone next hnext)
      · rw [h.counted r hr]
        exact .inr ⟨(hw.file.lawful r hr).retries, hgone⟩
    · rcases h.others id (fun r hr hid => hold ⟨r, hr, hid⟩) with hzero | ⟨hle, hgone⟩
      · exact .inl hzero
      · exact .inr ⟨hle, hgone.step hw hstep⟩

theorem World.Gone.execution (h : w.Gone id) (hw : w.Sound) (hrun : Execution (Step calendar) w es t) : t.Gone id :=
  (hrun.invariant (I := fun w => w.Sound ∧ w.Gone id) ⟨hw, h⟩ (fun _ _ _ h hstep => ⟨h.1.step hstep, h.2.step h.1 hstep⟩)).2

/-- An automation that was deleted neither comes back nor runs again, whatever is asked, answered again or restarted. -/
theorem deleted_for_good {fs gs : List Event} {u t : World} {d : AutomationDefinition} (hu : Execution (Step calendar) .start es u)
    (hw : Execution (Step calendar) u fs w) (ht : Execution (Step calendar) w gs t) (hd : d ∈ u.store.memory.definitions)
    (hgone : ∀ d' ∈ w.store.memory.definitions, d'.id ≠ d.id) :
    (∀ d', d' ∈ t.store.memory.definitions ∨ d' ∈ t.store.file.definitions → d'.id ≠ d.id) ∧
      ∀ run, run ∈ t.store.memory.runs ∨ run ∈ t.store.file.runs → run.automationId ≠ d.id := by
  have hsound := World.Sound.start.execution hu
  obtain ⟨uuid, huuid, hid⟩ := hsound.memory.definitions d hd
  have hdrawn : w.Sound ∧ uuid ∈ w.drawn := by
    apply hw.invariant (I := fun s => s.Sound ∧ uuid ∈ s.drawn) ⟨hsound, huuid⟩
    rintro s e s' ⟨hs, hmem⟩ hstep
    obtain ⟨-, hmore, -⟩ := hs.worldStep hstep
    exact ⟨hs.step hstep, by simp [hmore, hmem]⟩
  -- an occurrence of the automation, at any time, is spent
  have hspent : t.Sound ∧ t.Spent (scheduledRunId (definitionId uuid) 0) := by
    apply ht.invariant (I := fun s => s.Sound ∧ s.Spent (scheduledRunId (definitionId uuid) 0))
    · exact ⟨hdrawn.1, .inr ⟨uuid, hdrawn.2, 0, rfl, hid ▸ hgone⟩⟩
    · rintro s e s' ⟨hs, h⟩ hstep
      exact ⟨hs.step hstep, h.step hs hstep⟩
  obtain ⟨htsound, hspent⟩ := hspent
  have habsent : ∀ d' ∈ t.store.memory.definitions, d'.id ≠ d.id := by
    rcases hspent with ⟨_, -, heq⟩ | ⟨_, -, _, heq, habsent⟩
    · exact absurd heq scheduledRunId_ne_manual
    · obtain ⟨rfl, -⟩ := scheduledRunId_inj heq
      rw [hid]
      exact habsent
  constructor
  · rintro d' (hd' | hd') heq
    · exact habsent d' hd' heq
    · obtain ⟨d'', hmem, hsame⟩ := (htsound.definitions d'.id).mpr ⟨d', hd', rfl⟩
      exact habsent d'' hmem (hsame.trans heq)
  · intro run hrun heq
    obtain ⟨owner, howner, hname⟩ := htsound.memory.housed run (hrun.elim id (htsound.saved run))
    exact habsent owner howner (hname.trans heq)

namespace OnceExample

def noCalendar : Calendar where
  timezoneParts := fun _ _ => .error "RangeError"
  nextRun := fun _ _ _ => .error "TypeError"

def uuid : UUID := ⟨"00000000-0000-4000-8000-000000000000", by decide⟩

def calls : List Call :=
  [.create 0 uuid ⟨true, .interval 5, false, none⟩, .claimRunnable 300000,
    .begin 300000 (scheduledRunId (definitionId uuid) 300000)]

theorem draws : Draws calls World.start.drawn := by
  simp [Draws, calls, Call.uuids, World.start]

def made : World := World.after noCalendar [.create 0 uuid ⟨true, .interval 5, false, none⟩] World.start

def deleted : World := World.after noCalendar [.delete (definitionId uuid)] made

theorem deleted_stays_deleted : ¬ ∃ run ∈ (World.after noCalendar [.claimRunnable 300000] deleted).store.memory.runs,
    run.automationId = definitionId uuid := by
  have hmade : ∃ es, Execution (Step noCalendar) .start es made := World.execution_after (by simp [Draws, Call.uuids, World.start])
  have hdeleted : ∃ es, Execution (Step noCalendar) made es deleted := World.execution_after (by simp [Draws, Call.uuids])
  have hclaimed : ∃ es, Execution (Step noCalendar) deleted es (World.after noCalendar [.claimRunnable 300000] deleted) :=
    World.execution_after (by simp [Draws, Call.uuids])
  obtain ⟨_, hmade⟩ := hmade
  obtain ⟨_, hdeleted⟩ := hdeleted
  obtain ⟨_, hclaimed⟩ := hclaimed
  have hd : ∃ d ∈ made.store.memory.definitions.rows, d.id = definitionId uuid := by decide
  have hgone : ∀ d ∈ deleted.store.memory.definitions.rows, d.id ≠ definitionId uuid := by decide
  obtain ⟨d, hd, hid⟩ := hd
  rintro ⟨run, hrun, heq⟩
  exact (deleted_for_good hmade hdeleted hclaimed hd (hid ▸ hgone)).2 run (.inl hrun) (heq.trans hid.symm)

end OnceExample

end WorkAgent.Harness.Automation
