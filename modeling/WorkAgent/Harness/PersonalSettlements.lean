import WorkAgent.Library.Executions
import WorkAgent.Library.Table

namespace WorkAgent.Harness.PersonalSettlements

open Library Function Table

abbrev Units := { n : ℕ // n < 2 ^ 53 }

structure Completion where
  runId : String
  actualUnits : Units
  deriving DecidableEq

/-- The stages of the promise that `settle` returns: its first microtask is queued, `quota.settle` is under way, it has succeeded, or only
`finally` is left. -/
inductive Phase
  | queued
  | calling
  | answered
  | finished
  deriving DecidableEq

structure Work where
  runId : String
  completed : Units
  phase : Phase
  deriving DecidableEq

structure Recovery where
  rest : List Completion
  awaits : Option ℕ

/-- `#pending`, the file, the promises, which of them `#active` holds for a run, and the recovery loop. -/
structure State where
  pending : Table Completion.runId
  file : Table Completion.runId
  works : ℕ → Option Work
  created : ℕ
  active : String → Option ℕ
  recovery : Option Recovery

namespace State

variable (s : State)

def track (runId : String) (actualUnits : Units) (saves : Bool) : Option State :=
  if s.pending.has runId then some s
  else if saves then
    some { s with
      pending := s.pending.insertOrIgnore ⟨runId, actualUnits⟩
      file := s.pending.insertOrIgnore ⟨runId, actualUnits⟩ }
  else none

def discard (runId : String) (saves : Bool) : Option State :=
  if ¬ s.pending.has runId then some s
  else if saves then
    some { s with
      pending := s.pending.delete fun c => c.runId = runId
      file := s.pending.delete fun c => c.runId = runId }
  else none

def work (i : ℕ) (work : Option Work) : State := { s with works := Function.update s.works i work }

def settle (runId : String) (actualUnits : Units) (saves : Bool) : State :=
  if (s.active runId).isSome then s
  else
    match s.track runId actualUnits saves with
    | none => s
    | some t =>
      match t.pending.find? runId with
      | none => t
      | some c =>
        { t.work t.created (some ⟨runId, c.actualUnits, .queued⟩) with
          created := t.created + 1
          active := Function.update t.active runId (some t.created) }

end State

/-- `saves` tells whether the file can be written. A restart loses everything but the file. -/
inductive Event
  | track (runId : String) (actualUnits : Units) (saves : Bool)
  | discard (runId : String) (saves : Bool)
  | settle (runId : String) (actualUnits : Units) (saves : Bool)
  | begins (i : ℕ)
  | answers (i : ℕ) (succeeds : Bool)
  | completes (i : ℕ) (saves : Bool)
  | clears (i : ℕ)
  | recovers
  | recoversNext (saves : Bool)
  | stopsRecovery
  | restarts

def next (s : State) : Event → Option State
  | .track runId actualUnits saves => some ((s.track runId actualUnits saves).getD s)
  | .discard runId saves => some ((s.discard runId saves).getD s)
  | .settle runId actualUnits saves => some (s.settle runId actualUnits saves)
  | .begins i =>
    match s.works i with
    | some ⟨runId, completed, .queued⟩ =>
      some (s.work i (some ⟨runId, completed, if s.pending.has runId then .calling else .finished⟩))
    | _ => none
  | .answers i succeeds =>
    match s.works i with
    | some ⟨runId, completed, .calling⟩ => some (s.work i (some ⟨runId, completed, if succeeds then .answered else .finished⟩))
    | _ => none
  | .completes i saves =>
    match s.works i with
    | some ⟨runId, completed, .answered⟩ => some (((s.discard runId saves).getD s).work i (some ⟨runId, completed, .finished⟩))
    | _ => none
  | .clears i =>
    match s.works i with
    | some ⟨runId, _, .finished⟩ => some { s.work i none with active := Function.update s.active runId none }
    | _ => none
  | .recovers =>
    match s.recovery with
    | none => some { s with recovery := some ⟨s.pending.rows, none⟩ }
    | some _ => none
  | .recoversNext saves =>
    match s.recovery with
    | none => none
    | some ⟨rest, awaits⟩ =>
      if (awaits.bind s.works).isSome then none
      else
        match rest with
        | [] => some { s with recovery := none }
        | c :: rest =>
          if s.pending.has c.runId then
            some { s.settle c.runId c.actualUnits saves with
              recovery := some ⟨rest, (s.settle c.runId c.actualUnits saves).active c.runId⟩ }
          else some { s with recovery := some ⟨rest, none⟩ }
  | .stopsRecovery => some { s with recovery := none }
  | .restarts => some ⟨s.file, s.file, fun _ => none, s.created, fun _ => none, none⟩

def Step (s : State) (e : Event) (t : State) : Prop := next s e = some t

def start (file : Table Completion.runId) : State := ⟨file, file, fun _ => none, 0, fun _ => none, none⟩

/-- The condition: a run is not tracked anew, with another amount, while the promise of an earlier `settle` waits for its microtask. -/
def Careful (s : State) (e : Event) : Prop :=
  ∀ runId actualUnits saves, e = .track runId actualUnits saves → s.pending.has runId = false →
    ∀ i completed, s.works i = some ⟨runId, completed, .queued⟩ → completed = actualUnits

def CarefulStep (s : State) (e : Event) (t : State) : Prop := Step s e t ∧ Careful s e

variable {s t : State} {e : Event} {es : List Event} {runId : String} {actualUnits completed : Units} {saves : Bool} {i j : ℕ} {u : Work}
  {c : Completion}

section Operations

theorem track_eq (h : s.track runId actualUnits saves = some t) : t = s ∨ (s.pending.has runId = false ∧
    t = { s with pending := s.pending.insertOrIgnore ⟨runId, actualUnits⟩, file := s.pending.insertOrIgnore ⟨runId, actualUnits⟩ }) := by
  unfold State.track at h
  split at h
  · exact .inl (Option.some.inj h).symm
  · rename_i hnew
    split at h
    · exact .inr ⟨by simpa using hnew, (Option.some.inj h).symm⟩
    · cases h

theorem discard_eq (h : s.discard runId saves = some t) : t = s ∨
    (saves = true ∧ t = { s with pending := s.pending.delete fun c => c.runId = runId, file := s.pending.delete fun c => c.runId = runId }) := by
  unfold State.discard at h
  split at h
  · exact .inl (Option.some.inj h).symm
  · split at h
    · exact .inr ⟨‹_›, (Option.some.inj h).symm⟩
    · cases h

end Operations

section Invariant

theorem recoversNext_eq (h : next s (.recoversNext saves) = some t) :
    (∃ r : Option Recovery, t = { s with recovery := r }) ∨
      ∃ (c : Completion) (r : Option Recovery), t = { s.settle c.runId c.actualUnits saves with recovery := r } := by
  simp only [next] at h
  split at h
  · cases h
  split at h
  · cases h
  split at h
  · exact .inl ⟨none, (Option.some.inj h).symm⟩
  rename_i c rest _
  split at h
  · exact .inr ⟨c, _, (Option.some.inj h).symm⟩
  · exact .inl ⟨_, (Option.some.inj h).symm⟩

/-- The file is what is pending, each promise is that of its run, and what is queued carries the pending amount. -/
structure Sound (s : State) : Prop where
  file : s.pending = s.file
  active : ∀ i u, s.works i = some u → s.active u.runId = some i
  queued : ∀ i u c, s.works i = some u → u.phase = .queued → c ∈ s.pending → c.runId = u.runId → c.actualUnits = u.completed
  created : ∀ i, s.created ≤ i → s.works i = none

structure Consistent (s : State) (e : Event) (t : State) : Prop where
  sent : ∀ i u, t.works i = some u → u.phase = .calling → s.works i ≠ some u → ⟨u.runId, u.completed⟩ ∈ s.pending
  frozen : ∀ c ∈ s.pending, c ∈ t.pending ∨ e = .discard c.runId true ∨
    ∃ i u, e = .completes i true ∧ s.works i = some u ∧ u.runId = c.runId ∧ u.phase = .answered
  single : ∀ i j u v, t.works i = some u → t.works j = some v → u.phase = .calling → v.phase = .calling → u.runId = v.runId → i = j
  file : t.pending = t.file

theorem Sound.track (h : Sound s) (ht : s.track runId actualUnits saves = some t)
    (hnew : s.pending.has runId = false → ∀ i completed, s.works i = some ⟨runId, completed, .queued⟩ → completed = actualUnits) : Sound t := by
  rcases track_eq ht with rfl | ⟨hhas, rfl⟩
  · exact h
  refine ⟨rfl, h.active, ?_, h.created⟩
  intro i u c hu hphase hc hrun
  rcases mem_insertOrIgnore.mp hc with hc | ⟨rfl, -⟩
  · exact h.queued i u c hu hphase hc hrun
  · obtain ⟨run, completed, phase⟩ := u
    obtain rfl : phase = .queued := hphase
    obtain rfl : runId = run := hrun
    exact (hnew hhas i completed hu).symm

theorem Sound.discard (h : Sound s) (ht : s.discard runId saves = some t) : Sound t := by
  rcases discard_eq ht with rfl | ⟨-, rfl⟩
  · exact h
  refine ⟨rfl, h.active, ?_, h.created⟩
  intro i u c hu hphase hc
  exact h.queued i u c hu hphase (mem_delete.mp hc).1

theorem Sound.advances (h : Sound s) {phase : Phase} (hu : s.works i = some u) (hphase : phase ≠ .queued) :
    Sound (s.work i (some ⟨u.runId, u.completed, phase⟩)) := by
  have hcases {j : ℕ} {v : Work} (hv : (s.work i (some ⟨u.runId, u.completed, phase⟩)).works j = some v) :
      (j = i ∧ v = ⟨u.runId, u.completed, phase⟩) ∨ s.works j = some v := by
    by_cases hji : j = i
    · subst hji
      left
      refine ⟨rfl, ?_⟩
      simpa [State.work] using hv.symm
    · right
      simpa [State.work, update_of_ne hji] using hv
  refine ⟨h.file, ?_, ?_, ?_⟩
  · intro j v hv
    rcases hcases hv with ⟨rfl, rfl⟩ | hv
    · exact h.active j u hu
    · exact h.active j v hv
  · intro j v c hv hqueued hc hrun
    rcases hcases hv with ⟨-, rfl⟩ | hv
    · exact absurd hqueued hphase
    · exact h.queued j v c hv hqueued hc hrun
  · intro j hj
    have hji : j ≠ i := by
      rintro rfl
      rw [h.created j hj] at hu
      cases hu
    simpa [State.work, update_of_ne hji] using h.created j hj

theorem Sound.settle (h : Sound s) : Sound (s.settle runId actualUnits saves) := by
  unfold State.settle
  split
  · exact h
  rename_i hactive
  have hnone (i : ℕ) (u : Work) (hu : s.works i = some u) : u.runId ≠ runId := by
    rintro rfl
    apply hactive
    rw [h.active i u hu]
    rfl
  split
  · exact h
  rename_i t ht
  have hsound : Sound t := h.track ht fun _ i completed hu => absurd rfl (hnone i _ hu)
  have hkept : t.works = s.works ∧ t.active = s.active := by
    rcases track_eq ht with rfl | ⟨-, rfl⟩
    · exact ⟨rfl, rfl⟩
    · exact ⟨rfl, rfl⟩
  split
  · exact hsound
  rename_i c hc
  obtain ⟨hmem, hrun⟩ := find?_eq_some.mp hc
  have hcases {j : ℕ} {v : Work} (hv : Function.update t.works t.created (some ⟨runId, c.actualUnits, .queued⟩) j = some v) :
      (j = t.created ∧ v = ⟨runId, c.actualUnits, .queued⟩) ∨ (t.works j = some v ∧ v.runId ≠ runId) := by
    by_cases hj : j = t.created
    · subst hj
      left
      refine ⟨rfl, ?_⟩
      simpa using hv.symm
    · right
      rw [update_of_ne hj] at hv
      exact ⟨hv, hnone j v (hkept.1 ▸ hv)⟩
  refine ⟨hsound.file, ?_, ?_, ?_⟩
  · intro j v hv
    rcases hcases hv with ⟨rfl, rfl⟩ | ⟨hv, hne⟩
    · exact update_self ..
    · exact (update_of_ne hne ..).trans (hsound.active j v hv)
  · intro j v c' hv hqueued hc' hrun'
    rcases hcases hv with ⟨-, rfl⟩ | ⟨hv, -⟩
    · rw [eq_of_key hc' hmem (hrun'.trans hrun.symm)]
    · exact hsound.queued j v c' hv hqueued hc' hrun'
  · intro j hj
    have hlater : t.created + 1 ≤ j := hj
    exact (update_of_ne (by omega) ..).trans (hsound.created j (by omega))

theorem Sound.clears (h : Sound s) (hu : s.works i = some u) :
    Sound { s.work i none with active := Function.update s.active u.runId none } := by
  have hcases {j : ℕ} {v : Work} (hv : Function.update s.works i none j = some v) : j ≠ i ∧ s.works j = some v := by
    by_cases hji : j = i
    · subst hji
      rw [update_self] at hv
      cases hv
    · rw [update_of_ne hji] at hv
      exact ⟨hji, hv⟩
  refine ⟨h.file, ?_, ?_, ?_⟩
  · intro j v hv
    obtain ⟨hji, hv⟩ := hcases hv
    have hne : v.runId ≠ u.runId := by
      intro hsame
      have hj := h.active j v hv
      rw [hsame, h.active i u hu] at hj
      exact hji (Option.some.inj hj).symm
    exact (update_of_ne hne ..).trans (h.active j v hv)
  · intro j v c hv hqueued hc hrun
    exact h.queued j v c (hcases hv).2 hqueued hc hrun
  · intro j hj
    by_cases hji : j = i
    · subst hji
      exact update_self ..
    · exact (update_of_ne hji ..).trans (h.created j hj)

theorem CarefulStep.sound (hstep : CarefulStep s e t) (h : Sound s) : Sound t := by
  obtain ⟨hnext, hcareful⟩ := hstep
  cases e with
  | track runId actualUnits saves =>
    cases hnext
    cases ht : s.track runId actualUnits saves with
    | none => exact h
    | some => exact h.track ht (hcareful runId actualUnits saves rfl)
  | discard runId saves =>
    cases hnext
    cases ht : s.discard runId saves with
    | none => exact h
    | some => exact h.discard ht
  | settle =>
    cases hnext
    exact h.settle
  | begins i | answers i succeeds =>
    simp only [Step, next] at hnext
    split at hnext
    · rename_i hu
      cases hnext
      refine h.advances hu ?_
      split <;> simp
    · cases hnext
  | completes i saves =>
    simp only [Step, next] at hnext
    split at hnext
    · rename_i runId completed hu
      cases hnext
      cases ht : s.discard runId saves with
      | none => exact h.advances hu (by simp)
      | some t =>
        have hkept : t.works i = s.works i := by
          rcases discard_eq ht with rfl | ⟨-, rfl⟩
          · rfl
          · rfl
        exact (h.discard ht).advances (hkept.trans hu) (by simp)
    · cases hnext
  | clears =>
    simp only [Step, next] at hnext
    split at hnext
    · rename_i hu
      cases hnext
      exact h.clears hu
    · cases hnext
  | recovers =>
    simp only [Step, next] at hnext
    split at hnext
    · cases hnext
      exact ⟨h.file, h.active, h.queued, h.created⟩
    · cases hnext
  | recoversNext saves =>
    rcases recoversNext_eq hnext with ⟨r, rfl⟩ | ⟨c, r, rfl⟩
    · exact ⟨h.file, h.active, h.queued, h.created⟩
    · have hsettled : Sound (s.settle c.runId c.actualUnits saves) := h.settle
      exact ⟨hsettled.file, hsettled.active, hsettled.queued, hsettled.created⟩
  | stopsRecovery =>
    cases hnext
    exact ⟨h.file, h.active, h.queued, h.created⟩
  | restarts =>
    cases hnext
    exact ⟨rfl, by simp, by simp, fun _ _ => rfl⟩

end Invariant

section Laws

theorem works_settle (hu : (s.settle runId actualUnits saves).works i = some u) (hphase : u.phase ≠ .queued) : s.works i = some u := by
  unfold State.settle at hu
  split at hu
  · exact hu
  split at hu
  · exact hu
  rename_i t ht
  have hkept : t.works = s.works := by
    rcases track_eq ht with rfl | ⟨-, rfl⟩
    · rfl
    · rfl
  rw [← hkept]
  split at hu
  · exact hu
  · rename_i c _
    by_cases hi : i = t.created
    · subst hi
      simp only [State.work, update_self] at hu
      rw [← Option.some.inj hu] at hphase
      exact absurd rfl hphase
    · simpa only [State.work, update_of_ne hi] using hu

theorem pending_settle (hc : c ∈ s.pending) : c ∈ (s.settle runId actualUnits saves).pending := by
  unfold State.settle
  split
  · exact hc
  split
  · exact hc
  rename_i t ht
  have hkept : c ∈ t.pending := by
    rcases track_eq ht with rfl | ⟨-, rfl⟩
    · exact hc
    · exact mem_insertOrIgnore.mpr (.inl hc)
  split
  · exact hkept
  · exact hkept

theorem CarefulStep.sent (hstep : CarefulStep s e t) (h : Sound s) (hu : t.works i = some u) (hphase : u.phase = .calling)
    (hnew : s.works i ≠ some u) : ⟨u.runId, u.completed⟩ ∈ s.pending := by
  have hqueued : u.phase ≠ .queued := by
    rw [hphase]
    simp
  obtain ⟨hnext, -⟩ := hstep
  cases e with
  | track runId actualUnits saves =>
    cases hnext
    cases ht : s.track runId actualUnits saves with
    | none =>
      rw [ht] at hu
      exact absurd hu hnew
    | some =>
      rw [ht] at hu
      rcases track_eq ht with rfl | ⟨-, rfl⟩
      · exact absurd hu hnew
      · exact absurd hu hnew
  | discard runId saves =>
    cases hnext
    cases ht : s.discard runId saves with
    | none =>
      rw [ht] at hu
      exact absurd hu hnew
    | some =>
      rw [ht] at hu
      rcases discard_eq ht with rfl | ⟨-, rfl⟩
      · exact absurd hu hnew
      · exact absurd hu hnew
  | settle =>
    cases hnext
    exact absurd (works_settle hu hqueued) hnew
  | begins j =>
    simp only [Step, next] at hnext
    split at hnext
    · rename_i runId completed hwork
      cases hnext
      by_cases hij : i = j
      · subst hij
        simp only [State.work, update_self] at hu
        cases hu
        dsimp only at hphase
        split at hphase
        · rename_i hhas
          obtain ⟨c, hc, hrun⟩ := has_eq_true.mp hhas
          have hunits := h.queued i _ c hwork rfl hc hrun
          obtain ⟨run, units⟩ := c
          obtain rfl : run = runId := hrun
          obtain rfl : units = completed := hunits
          exact hc
        · cases hphase
      · simp only [State.work, update_of_ne hij] at hu
        exact absurd hu hnew
    · cases hnext
  | answers j succeeds =>
    simp only [Step, next] at hnext
    split at hnext
    · cases hnext
      by_cases hij : i = j
      · subst hij
        simp only [State.work, update_self] at hu
        cases hu
        cases succeeds <;> cases hphase
      · simp only [State.work, update_of_ne hij] at hu
        exact absurd hu hnew
    · cases hnext
  | completes j saves =>
    simp only [Step, next] at hnext
    split at hnext
    · rename_i runId completed hwork
      cases hnext
      have hkept : ((s.discard runId saves).getD s).works = s.works := by
        cases ht : s.discard runId saves with
        | none => rfl
        | some =>
          rcases discard_eq ht with rfl | ⟨-, rfl⟩
          · rfl
          · rfl
      by_cases hij : i = j
      · subst hij
        simp only [State.work, update_self] at hu
        cases hu
        cases hphase
      · simp only [State.work, update_of_ne hij, hkept] at hu
        exact absurd hu hnew
    · cases hnext
  | clears j =>
    simp only [Step, next] at hnext
    split at hnext
    · cases hnext
      by_cases hij : i = j
      · subst hij
        simp only [State.work, update_self] at hu
        cases hu
      · simp only [State.work, update_of_ne hij] at hu
        exact absurd hu hnew
    · cases hnext
  | recovers =>
    simp only [Step, next] at hnext
    split at hnext
    · cases hnext
      exact absurd hu hnew
    · cases hnext
  | recoversNext =>
    rcases recoversNext_eq hnext with ⟨r, rfl⟩ | ⟨c, r, rfl⟩
    · exact absurd hu hnew
    · exact absurd (works_settle hu hqueued) hnew
  | stopsRecovery =>
    cases hnext
    exact absurd hu hnew
  | restarts =>
    cases hnext
    cases hu

theorem Step.frozen (hnext : Step s e t) (h : Sound s) (hc : c ∈ s.pending) : c ∈ t.pending ∨ e = .discard c.runId true ∨
    ∃ i u, e = .completes i true ∧ s.works i = some u ∧ u.runId = c.runId ∧ u.phase = .answered := by
  cases e with
  | track runId actualUnits saves =>
    cases hnext
    left
    cases ht : s.track runId actualUnits saves with
    | none => exact hc
    | some =>
      rcases track_eq ht with rfl | ⟨-, rfl⟩
      · exact hc
      · exact mem_insertOrIgnore.mpr (.inl hc)
  | discard runId saves =>
    cases hnext
    cases ht : s.discard runId saves with
    | none => exact .inl hc
    | some =>
      rcases discard_eq ht with rfl | ⟨hsaves, rfl⟩
      · exact .inl hc
      · by_cases hrun : c.runId = runId
        · exact .inr (.inl (by rw [hrun, hsaves]))
        · exact .inl (mem_delete.mpr ⟨hc, hrun⟩)
  | settle =>
    cases hnext
    exact .inl (pending_settle hc)
  | begins i | answers i succeeds | clears | recovers =>
    simp only [Step, next] at hnext
    split at hnext
    · cases hnext
      exact .inl hc
    · cases hnext
  | completes i saves =>
    simp only [Step, next] at hnext
    split at hnext
    · rename_i runId completed hu
      cases hnext
      cases ht : s.discard runId saves with
      | none => exact .inl hc
      | some =>
        rcases discard_eq ht with rfl | ⟨hsaves, rfl⟩
        · exact .inl hc
        · by_cases hrun : c.runId = runId
          · exact .inr (.inr ⟨i, _, by rw [hsaves], hu, hrun.symm, rfl⟩)
          · exact .inl (mem_delete.mpr ⟨hc, hrun⟩)
    · cases hnext
  | recoversNext =>
    rcases recoversNext_eq hnext with ⟨r, rfl⟩ | ⟨c, r, rfl⟩
    · exact .inl hc
    · exact .inl (pending_settle hc)
  | stopsRecovery =>
    cases hnext
    exact .inl hc
  | restarts =>
    cases hnext
    left
    rw [h.file] at hc
    exact hc

theorem sound_start (file : Table Completion.runId) : Sound (start file) := ⟨rfl, by simp [start], by simp [start], fun _ _ => rfl⟩

def settled : State := (start Table.empty).settle "run" ⟨5, by decide⟩ true

def tracked : State :=
  (((settled.discard "run" true).getD settled).track "run" ⟨0, by decide⟩ true).getD settled

end Laws

end WorkAgent.Harness.PersonalSettlements
