import WorkAgent.Harness.FileMoveProgress

namespace WorkAgent.Harness.Moves

open Library List Table

variable {casing : Casing} {w t : World} {acts more : List Action} {runs : List (List Action)} {operation : Operation}

/-- The paths that are given have one spelling; a move names no identity by another case; the asset index can be
written; the process does not die where the file still has a queued operation that memory has not; and
the files are not touched while a move is half made. -/
structure Careful (casing : Casing) (w : World) (acts : List Action) (t : World) : Prop where
  requested : ∀ moves, .requested moves ∈ acts → ∀ m ∈ moves, Spelled m.source ∧ Spelled m.destination
  identified : ∀ path, .identified path ∈ acts → Spelled path
  cased : ∀ op ∈ w.memory.operations, ∀ loop m, w.phase = .rewriting op.id loop → op.moves[op.applied]? = some m →
    ∀ row ∈ w.memory.files, row.workspaceId = op.workspaceId → row.deleted = false → covers casing m.source row.path = true →
      Within m.source row.path
  indexed : .unindexed ∉ acts
  synced : w.phase ≠ .dead → t.phase = .dead → Synced w
  undisturbed : ∀ workspaceId, .outside workspaceId ∈ acts → (w.phase = .idle ∨ w.phase = .dead) ∧ Calm w.file

def CarefulStep (casing : Casing) (w : World) (acts : List Action) (t : World) : Prop := Step casing w acts t ∧ Careful casing w acts t

def Unclaimed (casing : Casing) (w : World) : Prop :=
  ∀ op ∈ w.memory.operations, ∀ loop m, w.phase = .rewriting op.id loop → op.moves[op.applied]? = some m →
    ∀ row ∈ w.memory.files, ∀ other ∈ w.memory.files, row.workspaceId = op.workspaceId → other.workspaceId = op.workspaceId →
      row.deleted = false → other.deleted = false → covers casing m.source row.path = true → covers casing m.source other.path = false →
        casing.lower other.path ≠ casing.lower (m.destination ++ row.path.drop m.source.length)

def FollowStep (casing : Casing) (w : World) (acts : List Action) (t : World) : Prop :=
  Step casing w acts t ∧ Careful casing w acts t ∧ Unclaimed casing w

theorem FollowStep.careful {w t : World} {acts : List Action} (h : FollowStep casing w acts t) : CarefulStep casing w acts t := ⟨h.1, h.2.1⟩

theorem Synced.quiet (h : Sound casing acts w) (hsynced : Synced w) : ∀ op ∈ w.file.operations, op.state = .queued → ¬ Gone acts op.id := by
  intro op hop hqueued
  obtain ⟨other, hother, hid, hstate | ⟨_, hending⟩⟩ := hsynced op hop hqueued
  · rw [← hid]
    exact h.queued other hother hstate
  · obtain ⟨-, ⟨_, -, -, -, hleft⟩, -⟩ := h.of_phase hending
    exact hleft.2.1

theorem Sound.goes {phase : Phase} (h : Sound casing acts w) (halive : w.phase ≠ .dead)
    (hending : ∀ id left loop, w.phase ≠ .ending id left loop) (hphase : phase ≠ .dead)
    (hok : phase.Ok casing acts (w.enter phase)) : Sound casing acts (w.enter phase) :=
  h.hold halive h.memory h.drawn.1 h.queued (fun op hop hover => .inl (h.settled hending op hop hover)) hphase hok

theorem planning_nil {disk : Tree Name ℕ} {moves : List FileMove} (hnonempty : moves ≠ [])
    (hspelled : ∀ m ∈ moves, Spelled m.source ∧ Spelled m.destination) : Planning disk moves [] :=
  ⟨hnonempty, hspelled, rfl, forall_mem_nil _, forall_mem_nil _, List.Pairwise.nil⟩

section

variable (h : Sound casing acts w)
include h

theorem Sound.waiting {operation : Operation} {rest : List UUID} (hop : operation ∈ w.memory.operations)
    (hqueue : Queue w.memory (operation.id :: rest)) :
    operation.state = .queued ∧ operation.applied = 0 ∧ ¬ Gone acts operation.id ∧ Queue w.memory rest ∧ operation.id ∉ rest := by
  obtain ⟨hnodup, hqueued⟩ := hqueue
  obtain ⟨other, hother, hid, hstate⟩ := hqueued operation.id mem_cons_self
  obtain rfl := eq_of_key hother hop hid
  have hrevised := h.memory.revised other hop
  rw [Operation.Revised, hstate] at hrevised
  obtain ⟨hnew, hrest⟩ := nodup_cons.mp hnodup
  exact ⟨hstate, hrevised.1, h.queued other hop hstate, ⟨hrest, fun id hid => hqueued id (mem_cons_of_mem _ hid)⟩, hnew⟩

theorem Sound.refuses {operation : Operation} {rest : List UUID} {workspaceId error : String}
    (halive : w.phase ≠ .dead) (hending : ∀ id left loop, w.phase ≠ .ending id left loop) (hcalm : Calm w.memory)
    (hop : operation ∈ w.memory.operations) (hqueue : Queue w.memory (operation.id :: rest)) :
    Sound casing acts (w.fails operation error false (.drain workspaceId rest)) := by
  obtain ⟨hstate, happlied, hgone, hrest, hnew⟩ := h.waiting hop hqueue
  have hothers : ∀ other ∈ w.memory.operations, other.state = .moving → other.id = operation.id :=
    fun other hother hmoving => absurd hmoving (hcalm other hother)
  have hleft : if false = true then ∃ before, Underway casing acts operation before w.memory (w.disk operation.workspaceId) w.assets
        operation.applied operation.applied
      else operation.applied = 0 ∧ ¬ Gone acts operation.id ∧ ∃ loopId others, Loop.drain workspaceId rest = .drain loopId others :=
    ⟨happlied, hgone, workspaceId, rest, rfl⟩
  refine h.fails halive hending hop (.inl hstate) hothers hleft ?_ ?_
  · intro _ others heq
    obtain ⟨rfl, rfl⟩ := Loop.drain.inj heq
    exact ⟨hrest, hnew⟩
  · intro _ heq
    cases heq

theorem Sound.tracking {operation : Operation} {todo : List Path} {loop : Loop}
    (hphase : w.phase = .tracking operation.id todo loop) (hop : operation ∈ w.memory.operations) :
    Calm w.memory ∧ operation.state = .queued ∧ Checked casing (w.disk operation.workspaceId) operation.moves ∧
      ∃ workspaceId rest, loop = .drain workspaceId rest ∧ Queue w.memory (operation.id :: rest) := by
  obtain ⟨hcalm, _, hin, hid, hstate, hrest⟩ := h.of_phase hphase
  obtain rfl := eq_of_key hin hop hid
  exact ⟨hcalm, hstate, hrest⟩

theorem Sound.identifies {workspaceId : String} {path : Path} {id : UUID} {phase : Phase} {saved : Bool}
    (halive : w.phase ≠ .dead) (hending : ∀ id left loop, w.phase ≠ .ending id left loop) (hcalm : Calm w.memory) (hpath : Spelled path)
    (hphase : phase ≠ .dead)
    (hok : phase.Ok casing acts ((w.write (w.memory.identify id workspaceId path) saved).enter phase)) :
    Sound casing acts (((w.write (w.memory.identify id workspaceId path) saved).draw id).enter phase) := by
  have hsound : Sound casing acts ((w.write (w.memory.identify id workspaceId path) saved).enter phase) :=
    h.writeFiles halive hending hcalm rfl (spelled_identify h.memory.spelled hpath) hphase hok
  exact hsound.draw id

theorem Sound.step (hstep : CarefulStep casing w more t) : Sound casing (acts ++ more) t := by
  obtain ⟨hstep, hcareful⟩ := hstep
  cases hstep with
  | identifies workspaceId path id saved hphase =>
    refine (Sound.draw ?_ id).calm (forall_mem_cons.mpr ⟨rfl, mem_quiet_saving⟩)
    exact h.idles hphase rfl (spelled_identify h.memory.spelled (hcareful.identified path (by simp)))
  | deletes _ _ _ hphase =>
    refine Sound.calm ?_ mem_quiet_saving
    exact h.idles hphase rfl (spelled_delete h.memory.spelled)
  | removesWorkspace workspaceId saved hphase =>
    have hsound : Sound casing (acts ++ ((w.memory.queued workspaceId).map Operation.id).map .cancelled)
        (w.write ((w.memory.cancelAll workspaceId).delete fun row => row.workspaceId = workspaceId) saved) := h.cancelAll hphase _
    rw [map_map] at hsound
    rw [← append_assoc]
    exact hsound.calm mem_quiet_saving
  | leases _ _ hphase | releases _ _ _ hphase =>
    refine Sound.calm ?_ mem_quiet_saving
    exact h.idles hphase rfl h.memory.spelled
  | cancels _ _ hphase hop hqueued =>
    rw [append_cons]
    exact (h.cancel hphase hop hqueued).calm mem_quiet_saving
  | requests _ moves _ hphase hlength =>
    have hcalm : Calm w.memory := h.of_phase hphase
    have hspelled := hcareful.requested moves (by simp)
    refine Sound.calm ?_ (by simp [Action.quiet])
    exact h.goes (by simp [hphase]) (by simp [hphase]) (by simp) ⟨hcalm, planning_nil hlength.1 hspelled⟩
  | undoes operation hphase hop =>
    have hcalm : Calm w.memory := h.of_phase hphase
    have hspelled := hcareful.requested _ (mem_singleton.mpr rfl)
    have hnonempty : operation.moves.map (fun m => (⟨m.destination, m.source, m.fileId⟩ : FileMove)) ≠ [] := by
      simpa using (h.memory.planned operation hop).nonempty
    refine Sound.calm ?_ (by simp [Action.quiet])
    exact h.goes (by simp [hphase]) (by simp [hphase]) (by simp) ⟨hcalm, planning_nil hnonempty hspelled⟩
  | plans _ _ _ _ _ _ _ hphase hmove hplannable =>
    obtain ⟨hcalm, hplanning⟩ := h.of_phase hphase
    rw [append_nil]
    exact h.goes (by simp [hphase]) (by simp [hphase]) (by simp) ⟨hcalm, hplanning.snoc hmove hplannable _⟩
  | plansNew _ _ _ _ m _ _ hphase hmove hplannable =>
    obtain ⟨hcalm, hplanning⟩ := h.of_phase hphase
    refine Sound.calm ?_ (by simp [Action.quiet])
    change Sound casing acts (((w.write _ true).draw _).enter _)
    exact h.identifies (by simp [hphase]) (by simp [hphase]) hcalm (hcareful.identified m.source (by simp)) (by simp)
      ⟨hcalm, hplanning.snoc hmove hplannable _⟩
  | plansUnsaved _ _ _ _ m _ _ hphase =>
    obtain ⟨hcalm, -⟩ := h.of_phase hphase
    refine Sound.calm ?_ (by simp [Action.quiet])
    change Sound casing acts (((w.write _ false).draw _).enter _)
    exact h.identifies (by simp [hphase]) (by simp [hphase]) hcalm (hcareful.identified m.source (by simp)) (by simp) hcalm
  | planThrows _ _ _ _ hphase | drained _ hphase | blocked _ _ _ _ _ hphase =>
    obtain ⟨hcalm, -⟩ := h.of_phase hphase
    rw [append_nil]
    exact h.goes (by simp [hphase]) (by simp [hphase]) (by simp) hcalm
  | queues _ _ _ _ _ _ _ hphase hlength hfresh =>
    refine Sound.calm ?_ mem_quiet_saving
    apply h.queue hphase hlength hfresh
    · split <;> simp
    · split
      · exact .inr ⟨_, rfl, queue_queued _ _⟩
      · exact .inl rfl
  | drains _ hphase =>
    have hcalm : Calm w.memory := h.of_phase hphase
    rw [append_nil]
    exact h.goes (by simp [hphase]) (by simp [hphase]) (by simp) ⟨hcalm, queue_queued _ _⟩
  | restarted hphase =>
    obtain ⟨-, ⟨-, hcalm⟩ | ⟨op, -, -, hone⟩⟩ := h.of_phase hphase
    · rw [append_nil]
      exact h.goes (by simp [hphase]) (by simp [hphase]) (by simp) hcalm
    · cases hone
  | executes workspaceId operation rest _ hphase hop _ hrecheck =>
    obtain ⟨hcalm, hqueue⟩ := h.of_phase hphase
    obtain ⟨hstate, -⟩ := h.waiting hop hqueue
    rw [append_nil]
    exact h.goes (by simp [hphase]) (by simp [hphase]) (by simp)
      ⟨hcalm, operation, hop, rfl, hstate, checked_of_recheck hrecheck, workspaceId, rest, rfl, hqueue⟩
  | refuses _ _ _ _ _ hphase hop =>
    obtain ⟨hcalm, hqueue⟩ := h.of_phase hphase
    rw [append_nil]
    exact h.refuses (by simp [hphase]) (by simp [hphase]) hcalm hop hqueue
  | resumes _ _ hphase =>
    obtain ⟨hsame, ⟨hnone, -⟩ | ⟨op, hop, hmoving, hone⟩⟩ := h.of_phase hphase
    · cases hnone
    · obtain ⟨rfl, rfl⟩ := List.cons.inj hone
      rw [append_nil]
      exact h.goes (by simp [hphase]) (by simp [hphase]) (by simp) ⟨hsame, ⟨op, hop, rfl, hmoving⟩, rfl⟩
  | tracks operation _ _ _ _ hphase hop =>
    obtain ⟨hcalm, hstate, hrest⟩ := h.tracking hphase hop
    rw [append_nil]
    exact h.goes (by simp [hphase]) (by simp [hphase]) (by simp) ⟨hcalm, operation, hop, rfl, hstate, hrest⟩
  | tracksNew operation path _ _ _ hphase hop =>
    obtain ⟨hcalm, hstate, hrest⟩ := h.tracking hphase hop
    refine Sound.calm ?_ (by simp [Action.quiet])
    change Sound casing acts (((w.write _ true).draw _).enter _)
    exact h.identifies (by simp [hphase]) (by simp [hphase]) hcalm (hcareful.identified path (by simp)) (by simp)
      ⟨hcalm, operation, hop, rfl, hstate, hrest⟩
  | tracksUnsaved operation path todo _ id error hphase hop =>
    obtain ⟨hcalm, hstate, hchecked, workspaceId, rest, rfl, hqueue⟩ := h.tracking hphase hop
    have hheld : Sound casing acts (((w.write (w.memory.identify id operation.workspaceId path) false).draw id).enter
        (.tracking operation.id (path :: todo) (.drain workspaceId rest))) :=
      h.identifies (by simp [hphase]) (by simp [hphase]) hcalm (hcareful.identified path (by simp)) (by simp)
        ⟨hcalm, operation, hop, rfl, hstate, hchecked, workspaceId, rest, rfl, hqueue⟩
    rw [enter_eq (by exact hphase)] at hheld
    have hsound : Sound casing acts (((w.hold (w.memory.identify id operation.workspaceId path)).draw id).fails operation error false
        (.drain workspaceId rest)) :=
      hheld.refuses (by simp [World.write, World.hold, World.draw, hphase]) (by simp [World.write, World.hold, World.draw, hphase]) hcalm hop
        hqueue
    exact hsound.calm (by simp [Action.quiet])
  | trackFails _ _ _ _ _ hphase hop =>
    obtain ⟨hcalm, -, -, workspaceId, rest, rfl, hqueue⟩ := h.tracking hphase hop
    rw [append_nil]
    exact h.refuses (by simp [hphase]) (by simp [hphase]) hcalm hop hqueue
  | begins _ _ hphase hop => exact h.begins hphase hop
  | beginsUnsaved _ _ _ hphase hop =>
    obtain ⟨hcalm, -, -, _, _, rfl, hqueue⟩ := h.tracking hphase hop
    refine Sound.calm ?_ (by simp [Action.quiet])
    exact h.refuses (by simp [hphase]) (by simp [hphase]) hcalm hop hqueue
  | renames _ _ _ _ _ _ _ hphase hop hmove hpending hmade hdisk =>
    exact h.renames hphase hop hmove hpending hmade hdisk
  | renameFails _ _ _ _ _ _ _ _ hphase hop hmove hpending hmade =>
    rw [append_nil]
    exact h.renameFails hphase hop hmove hpending hmade
  | renamed _ _ _ hphase hop hmove hpending =>
    rw [append_nil]
    exact h.found hphase hop hmove hpending
  | moveThrows _ _ _ _ hphase hop hmove hpending =>
    rw [append_nil]
    exact h.moveThrows hphase hop hmove hpending
  | rewrites operation loop m hphase hop hmove =>
    rw [append_nil]
    exact h.rewrites hphase hop hmove (hcareful.cased operation hop loop m hphase hmove)
  | rewriteThrows => exact absurd (mem_singleton.mpr rfl) hcareful.indexed
  | checkpoints _ _ hphase =>
    rw [append_nil]
    exact h.checkpoints hphase
  | checkpointFails _ _ _ hphase hop =>
    refine Sound.calm ?_ (by simp [Action.quiet])
    exact h.checkpointFails hphase hop
  | completes _ _ hphase hop hmoves =>
    rw [append_nil]
    exact h.completes hphase hop hmoves
  | ends _ _ _ _ hphase hop => exact h.ends hphase hop (hcareful.synced (by simp [hphase]))
  | outside workspaceId =>
    obtain ⟨hphase, hcalm⟩ := hcareful.undisturbed workspaceId (by simp)
    refine Sound.calm ?_ (by simp [Action.quiet])
    exact h.outside hphase hcalm
  | dies hphase =>
    rw [append_nil]
    exact h.dies (Synced.quiet h (hcareful.synced hphase rfl))
  | starts hphase =>
    rw [append_nil]
    exact h.starts hphase

end

theorem sound_start (disk : String → Tree Name ℕ) (assets : List Asset) : Sound casing [] (.start disk assets) where
  memory := fine_empty
  file := fine_empty
  assets := fun halive => absurd rfl halive
  drawn := ⟨forall_mem_empty, forall_mem_empty,
    fun _ hgone => by simp [Gone] at hgone⟩
  underway := forall_mem_empty
  single := forall_mem_empty
  once := fun _ => Nat.zero_le 1
  queued := forall_mem_empty
  asleep := fun _ => forall_mem_empty
  renamed := fun _ _ _ hmem => by cases hmem
  ended := fun _ _ hmem => by cases hmem
  finished := forall_mem_empty
  overFile := forall_mem_empty
  phase := rfl

theorem Sound.run (h : Sound casing acts w) (hrun : Execution (CarefulStep casing) w runs t) : Sound casing (acts ++ runs.flatten) t := by
  induction hrun with
  | start =>
    rw [flatten_nil, append_nil]
    exact h
  | step _ hlast ih =>
    rw [flatten_append, flatten_singleton, ← append_assoc]
    exact ih.step hlast

def Keeps (disk disk' : Tree Name ℕ) : Prop := ∀ e ∈ disk.entries, e.file.isSome → ∃ e' ∈ disk'.entries, e'.file = e.file

theorem Keeps.refl (disk : Tree Name ℕ) : Keeps disk disk := fun e he _ => ⟨e, he, rfl⟩

theorem Keeps.trans {disk made after : Tree Name ℕ} (h : Keeps disk made) (h' : Keeps made after) : Keeps disk after := by
  intro e he hfile
  obtain ⟨x, hx, hsame⟩ := h e he hfile
  obtain ⟨y, hy, hsame'⟩ := h' x hx (by rw [hsame]; exact hfile)
  exact ⟨y, hy, hsame'.trans hsame⟩

theorem keeps_mkdirs {disk made : Tree Name ℕ} {paths : List (List Name)} (h : disk.mkdirs paths = some made) : Keeps disk made :=
  fun e he _ => ⟨e, (Tree.mkdirs_grows h).kept e he, rfl⟩

theorem keeps_rename {disk made : Tree Name ℕ} {src dst : List Name} (h : disk.rename src dst = some made) : Keeps disk made := by
  obtain ⟨hentries, -⟩ := Tree.rename_eq_some h
  intro e he _
  refine ⟨{ e with path := relocate src dst e.path }, ?_, rfl⟩
  rw [hentries]
  exact mem_map_of_mem he

theorem keeps_setDisk {workspaceId : String} {disk : Tree Name ℕ} (h : Keeps (w.disk workspaceId) disk) (id : String) :
    Keeps (w.disk id) ((w.setDisk workspaceId disk).disk id) := by
  change Keeps (w.disk id) (if id = workspaceId then disk else w.disk id)
  split
  · rename_i hid
    rw [hid]
    exact h
  · exact Keeps.refl _

theorem leave_disk (w : World) (saved : Bool) (loop : Loop) : (w.leave saved loop).disk = w.disk := by
  cases saved <;> cases loop <;> rfl

theorem Step.keeps (h : Step casing w acts t) (hinside : ∀ workspaceId, .outside workspaceId ∉ acts) (id : String) :
    Keeps (w.disk id) (t.disk id) := by
  have hsame : ∀ t : World, t.disk = w.disk → Keeps (w.disk id) (t.disk id) := by
    intro t ht
    rw [ht]
    exact Keeps.refl _
  cases h with
  | renames _ _ _ _ _ _ _ _ _ _ _ hmade hdisk =>
    exact keeps_setDisk ((keeps_mkdirs hmade).trans (keeps_rename hdisk)) id
  | renameFails _ _ _ _ _ _ _ _ _ _ _ _ hmade => exact keeps_setDisk (keeps_mkdirs hmade) id
  | outside workspaceId => exact absurd (mem_singleton.mpr rfl) (hinside workspaceId)
  | identifies _ _ _ saved | deletes _ _ saved | removesWorkspace _ saved | leases _ saved | releases _ _ saved
  | cancels _ saved | queues _ _ _ _ saved =>
    exact hsame _ (write_disk _ _ saved)
  | ends _ _ saved loop => exact hsame _ (leave_disk _ saved loop)
  | _ => exact Keeps.refl _

theorem Keeps.run (hrun : Execution (CarefulStep casing) w runs t) (hinside : ∀ workspaceId, .outside workspaceId ∉ runs.flatten)
    (id : String) : Keeps (w.disk id) (t.disk id) := by
  induction hrun with
  | start => exact Keeps.refl _
  | step _ hlast ih =>
    rw [flatten_append, flatten_singleton] at hinside
    have hbefore := ih (fun workspaceId hmem => hinside workspaceId (mem_append_left _ hmem))
    exact hbefore.trans (hlast.1.keeps (fun workspaceId hmem => hinside workspaceId (mem_append_right _ hmem)) id)

structure MovesExactly (first : World) (runs : List (List Action)) (w : World) : Prop where
  leavesOnce : ∀ id, runs.flatten.countP (Action.leaves id) ≤ 1
  untouched : ∀ id m disk, .cancelled id ∈ runs.flatten → .renamed id m disk ∉ runs.flatten
  fresh : ∀ id m disk, .renamed id m disk ∈ runs.flatten → ∀ e ∈ disk.entries, ¬ parts m.destination <+: e.path
  kept : (∀ workspaceId, .outside workspaceId ∉ runs.flatten) → ∀ id, Keeps (first.disk id) (w.disk id)
  exact : ∀ op after, .ended op after ∈ runs.flatten →
    ∃ before, .left op.id before ∈ runs.flatten ∧ Took (op.moves.take op.applied) before after
  told : w.phase = .idle → ∀ op ∈ w.memory.operations, op.state = .completed ∨ op.state = .failed →
    ∃ after, .ended op after ∈ runs.flatten
  context : w.phase = .idle → ∀ workspaceId, (w.memory.context workspaceId 0).2 =
    (w.memory.operations.rows.filter fun op =>
      op.workspaceId = workspaceId && (op.state = .completed || op.state = .failed)).flatMap fun op =>
        (op.moves.take op.applied).map fun m => (m.source, m.destination)

theorem eq_of_countP_le_one {act act' : Action} {p : Action → Bool} (hcount : acts.countP p ≤ 1) (hact : act ∈ acts) (hact' : act' ∈ acts)
    (hp : p act = true) (hp' : p act' = true) : act = act' := by
  rw [countP_eq_length_filter] at hcount
  have hmem : act ∈ acts.filter p := mem_filter.mpr ⟨hact, hp⟩
  have hmem' : act' ∈ acts.filter p := mem_filter.mpr ⟨hact', hp'⟩
  cases hfilter : acts.filter p with
  | nil =>
    rw [hfilter] at hmem
    cases hmem
  | cons _ rest =>
    rw [hfilter] at hcount hmem hmem'
    obtain rfl : rest = [] := length_eq_zero_iff.mp (by simpa using hcount)
    rw [mem_singleton.mp hmem, mem_singleton.mp hmem']

theorem flatMap_filter_congr {ops : List Operation} {p q : Operation → Bool} {f : Operation → List (Path × Path)}
    (h : ∀ op ∈ ops, (if p op then f op else []) = if q op then f op else []) : (ops.filter p).flatMap f = (ops.filter q).flatMap f := by
  induction ops with
  | nil => rfl
  | cons op =>
    obtain ⟨_, _⟩ := forall_mem_cons.mp h
    rw [filter_cons, filter_cons]
    cases hp : p op <;> cases hq : q op <;> simp_all

theorem reported (hrevised : operation.Revised) (hmoving : operation.state ≠ .moving) :
    (if operation.revision.any (fun revision => revision ≠ 0 && 0 < revision) then
      (operation.moves.take operation.applied).map fun m => (m.source, m.destination) else []) =
    if operation.state = .completed || operation.state = .failed then
      (operation.moves.take operation.applied).map fun m => (m.source, m.destination) else [] := by
  unfold Operation.Revised at hrevised
  cases hstate : operation.state with
  | queued | cancelled =>
    rw [hstate] at hrevised
    simp [hrevised.2]
  | moving => exact absurd hstate hmoving
  | completed =>
    rw [hstate] at hrevised
    obtain ⟨-, revision, hrevision⟩ := hrevised
    simp [hrevision]
  | failed =>
    rw [hstate] at hrevised
    dsimp only at hrevised
    by_cases hzero : operation.applied = 0
    · rw [if_pos hzero] at hrevised
      simp [hrevised, hzero]
    · rw [if_neg hzero] at hrevised
      obtain ⟨_, hrevision⟩ := hrevised
      simp [hrevision]

/-- In every run of careful steps exactly the first moves of an operation that has ended have taken
effect: as many as it counts. -/
theorem moves_exactly (casing : Casing) (disk : String → Tree Name ℕ) (assets : List Asset) (runs : List (List Action)) (w : World)
    (h : Execution (CarefulStep casing) (.start disk assets) runs w) : MovesExactly (.start disk assets) runs w := by
  have hsound := (sound_start disk assets).run h
  rw [nil_append] at hsound
  have hcalm : w.phase = .idle → Calm w.memory := fun hphase => hsound.of_phase hphase
  refine ⟨hsound.once, ?_, ?_, Keeps.run h, ?_, ?_, ?_⟩
  · intro id m disk hcancelled hrenamed
    obtain ⟨⟨before, hleft⟩, -⟩ := hsound.renamed id m disk hrenamed
    cases eq_of_countP_le_one (hsound.once id) hcancelled hleft (decide_eq_true rfl) (decide_eq_true rfl)
  · intro id m disk hrenamed e he hsub
    obtain ⟨-, hfree⟩ := hsound.renamed id m disk hrenamed
    rw [Tree.has_above he hsub] at hfree
    cases hfree
  · intro op after hended
    obtain ⟨before, hleft, -, -, -, -, htook⟩ := hsound.ended op after hended
    exact ⟨before, hleft, htook⟩
  · exact fun hphase => hsound.settled (by simp [hphase])
  · intro hphase workspaceId
    apply flatMap_filter_congr
    intro op hop
    have hreported := reported (hsound.memory.revised op hop) (hcalm hphase op hop)
    by_cases hworkspace : op.workspaceId = workspaceId
    · simpa [hworkspace] using hreported
    · simp [hworkspace]

namespace FilingExample

def ascii : Casing := ⟨List.map Char.toLower, fun a b => by simp⟩

def row : UUID := ⟨"00000000-0000-4000-8000-000000000031", rfl⟩

def filing : UUID := ⟨"00000000-0000-4000-8000-000000000032", rfl⟩

def note : Path := "note.txt".toList

def letter : Path := "letter.txt".toList

def m : FileMove := ⟨note, letter, none⟩

def planned : FileMove := ⟨note, letter, some row⟩

def waiting : Operation := ⟨filing, "project", [planned], .queued, 0, none, none⟩

def tree : Tree Name ℕ := ⟨[⟨[note], some 1⟩], by simp, by simp, by simp⟩

def disk (id : String) : Tree Name ℕ := if id = "project" then tree else .empty

def first : World := .start disk [⟨"asset", "project", note, note⟩]

def awake : World := { first with
  memory := first.file, assets := first.assetFile, phase := .looping (.restart (first.file.moving.map Operation.id)) }

def idle : World := awake.enter .idle

def planning : World := idle.enter (.planning "project" [m] false [])

def plannedWorld : World :=
  ((planning.save (planning.memory.identify row "project" note)).draw row).enter (.planning "project" [m] false [planned])

def queued : World := ((plannedWorld.write (plannedWorld.memory.push waiting) true).draw filing).enter
  (if true ∧ ¬ false then .looping (.drain "project" (((plannedWorld.memory.push waiting).queued "project").map Operation.id)) else .idle)

def executing : World := queued.enter (.tracking filing [note] (.drain "project" []))

def trackedWorld : World := executing.enter (.tracking filing (tracked (executing.disk "project") note ++ []) (.drain "project" []))

def moving : World := (trackedWorld.save (trackedWorld.memory.setState filing .moving)).enter (.renaming filing (.drain "project" []))

theorem renames_some : (tree.rename [note] [letter]).isSome = true := by
  decide

def renamed : World := (moving.setDisk "project" ((tree.rename [note] [letter]).get renames_some)).enter
  (.rewriting filing (.drain "project" []))

theorem plannable : Plannable ascii planning "project" [m] false [] m 0 where
  source := rfl
  file := by
    intro _ h
    cases h
  outside := by decide
  apart := by decide
  destination := by
    intro j hj
    obtain rfl := Nat.le_zero.mp hj
    rfl
  taken := by
    intro j hj
    obtain rfl := Nat.le_zero.mp hj
    decide
  keepBoth := .inl rfl

def Tame : Action → Prop
  | .requested moves => ∀ m ∈ moves, Spelled m.source ∧ Spelled m.destination
  | .identified path => Spelled path
  | .unindexed => False
  | .outside _ => False
  | _ => True

theorem careful {w t : World} {acts : List Action} (phase : Phase) (hphase : w.phase = phase)
    (hother : ∀ id loop, phase ≠ .rewriting id loop) (hacts : ∀ act ∈ acts, Tame act) (halive : t.phase ≠ .dead) :
    Careful ascii w acts t ∧ Unclaimed ascii w where
  left :=
    { requested := fun _ hmem => hacts _ hmem
      identified := fun _ hmem => hacts _ hmem
      cased := fun op _ loop _ heq => absurd (hphase.symm.trans heq) (hother op.id loop)
      indexed := fun hmem => hacts _ hmem
      synced := fun _ hdead => absurd hdead halive
      undisturbed := fun _ hmem => (hacts _ hmem).elim }
  right := fun op _ loop _ heq => absurd (hphase.symm.trans heq) (hother op.id loop)

theorem spelled_note : Spelled note := by
  unfold Spelled
  decide

theorem spelled_letter : Spelled letter := by
  unfold Spelled
  decide

def filed : List (List Action) :=
  [[], [], [.requested [m]], [.identified note], [], [], [], [.left filing (trackedWorld.snapshot "project")],
    [.renamed filing planned tree]]

theorem moves_file : Execution (FollowStep ascii) first filed renamed := by
  have h : Execution (FollowStep ascii) first [[]] awake :=
    .single ⟨.starts rfl, careful .dead rfl (by simp) (by simp) (by simp [awake])⟩
  have h : Execution (FollowStep ascii) first [[], []] idle :=
    h.step ⟨.restarted (by decide), careful (.looping (.restart [])) (by decide) (by simp) (by simp)
      (by simp [idle, World.enter])⟩
  have h : Execution (FollowStep ascii) first [[], [], [.requested [m]]] planning :=
    h.step ⟨.requests "project" [m] false rfl ⟨by simp, by simp⟩, careful .idle rfl (by simp)
      (by simp [Tame, m, spelled_note, spelled_letter]) (by simp [planning, World.enter])⟩
  have h : Execution (FollowStep ascii) first [[], [], [.requested [m]], [.identified note]] plannedWorld :=
    h.step ⟨.plansNew "project" [m] [] false m 0 row rfl rfl plannable (by decide) (by decide),
      careful (.planning "project" [m] false []) rfl (by simp) (by simp [Tame, spelled_note]) (by simp [plannedWorld, World.enter])⟩
  have h : Execution (FollowStep ascii) first [[], [], [.requested [m]], [.identified note], []] queued :=
    h.step ⟨.queues "project" [m] [planned] false true false filing rfl rfl (by decide),
      careful (.planning "project" [m] false [planned]) rfl (by simp) (by simp) (by simp [queued, World.enter])⟩
  have hmem : waiting ∈ queued.memory.operations := mem_rows.mp (by decide)
  have h : Execution (FollowStep ascii) first [[], [], [.requested [m]], [.identified note], [], []] executing :=
    h.step ⟨.executes "project" waiting [] 0 (by decide) hmem forall_mem_empty
      (by decide), careful (.looping (.drain "project" [filing])) (by decide) (by simp) (by simp)
      (by simp [executing, World.enter])⟩
  have h : Execution (FollowStep ascii) first [[], [], [.requested [m]], [.identified note], [], [], []] trackedWorld :=
    h.step ⟨.tracks waiting note [] (.drain "project" []) ⟨row, "project", note, [], false⟩ rfl hmem rfl (by decide),
      careful (.tracking filing [note] (.drain "project" [])) rfl (by simp) (by simp) (by simp [trackedWorld, World.enter])⟩
  have h : Execution (FollowStep ascii) first
      [[], [], [.requested [m]], [.identified note], [], [], [], [.left filing (trackedWorld.snapshot "project")]] moving :=
    h.step ⟨.begins waiting (.drain "project" []) (by decide) hmem,
      careful (.tracking filing [] (.drain "project" [])) (by decide) (by simp) (by simp [Tame]) (by simp [moving, World.enter])⟩
  exact h.step ⟨.renames { waiting with state := .moving } (.drain "project" []) planned [note] [letter] tree
      ((tree.rename [note] [letter]).get renames_some) rfl (mem_rows.mp (by decide)) rfl (by rfl) rfl
      (Option.some_get renames_some).symm,
    careful (.renaming filing (.drain "project" [])) rfl (by simp) (by simp [Tame]) (by simp [renamed, World.enter])⟩

def counted : World := { renamed with
  memory := (renamed.memory.rewrite ascii "project" planned).setApplied filing 1
  assets := renamed.changed "project" planned
  assetFile := renamed.changed "project" planned
  phase := .checkpoint filing (.drain "project" []) }

def saved : World := (counted.save counted.memory).enter (.renaming filing (.drain "project" []))

def completed : World := (saved.hold (saved.memory.complete filing)).enter (.ending filing true (.drain "project" []))

def done : Operation := { waiting with state := .completed, applied := 1, revision := some 1 }

theorem note_filed : Execution (FollowStep ascii) first
    (filed ++ [[]] ++ [[]] ++ [[]] ++ [[.ended done (completed.snapshot "project")]]) (completed.leave true (.drain "project" [])) := by
  have hfiles : renamed.memory.files.rows = [⟨row, "project", note, [], false⟩] := by decide
  have hwithin : ∀ identity ∈ renamed.memory.files, ∀ op ∈ renamed.memory.operations, ∀ moved,
      op.moves[op.applied]? = some moved → Within moved.source identity.path := by
    intro identity hidentity op hop moved hmoved
    have hops : renamed.memory.operations.rows = [{ waiting with state := .moving }] := by decide
    rw [← mem_rows, hops] at hop
    rw [← mem_rows, hfiles] at hidentity
    obtain rfl := mem_singleton.mp hop
    obtain rfl := mem_singleton.mp hidentity
    obtain rfl : planned = moved := Option.some.inj hmoved
    exact .inl rfl
  have hcareful : Careful ascii renamed [] counted :=
    ⟨by simp, by simp, fun op hop _ moved _ hmoved identity hidentity _ _ _ => hwithin identity hidentity op hop moved hmoved,
      by simp, by simp [counted], by simp⟩
  have hunclaimed : Unclaimed ascii renamed := by
    intro op hop _ moved _ hmoved _ _ other hother _ _ _ _ _ hout
    rw [covers_of_within (hwithin other hother op hop moved hmoved)] at hout
    cases hout
  have h : Execution (FollowStep ascii) first (filed ++ [[]]) counted :=
    moves_file.step ⟨.rewrites { waiting with state := .moving } (.drain "project" []) planned rfl
      (mem_rows.mp (by decide)) rfl, hcareful, hunclaimed⟩
  have h : Execution (FollowStep ascii) first (filed ++ [[]] ++ [[]]) saved :=
    h.step ⟨.checkpoints filing (.drain "project" []) rfl, careful (.checkpoint filing (.drain "project" [])) rfl (by simp) (by simp)
      (by simp [saved, World.enter])⟩
  have h : Execution (FollowStep ascii) first (filed ++ [[]] ++ [[]] ++ [[]]) completed :=
    h.step ⟨.completes { waiting with state := .moving, applied := 1 } (.drain "project" []) rfl (mem_rows.mp (by decide))
      (by decide), careful (.renaming filing (.drain "project" [])) rfl (by simp) (by simp) (by simp [completed, World.enter])⟩
  exact h.step ⟨.ends done true true (.drain "project" []) rfl (mem_rows.mp (by decide)),
    careful (.ending filing true (.drain "project" [])) rfl (by simp) (by simp [Tame]) (by simp [World.leave, World.enter])⟩

theorem note_filed_exactly : MovesExactly first
    (filed ++ [[]] ++ [[]] ++ [[]] ++ [[.ended done (completed.snapshot "project")]]) (completed.leave true (.drain "project" [])) :=
  moves_exactly ascii disk _ _ _ (note_filed.mono fun _ _ _ h => h.careful)

def unindexed : World := { renamed with
  memory := renamed.memory.rewrite ascii "project" planned
  assets := renamed.changed "project" planned }.fails { waiting with state := .moving } "EIO" true (.drain "project" [])

def failed : Operation := { waiting with state := .failed, error := some "EIO" }

theorem moved_uncounted : ¬ ∀ casing disk assets runs w, Execution (Step casing) (.start disk assets) runs w →
    MovesExactly (.start disk assets) runs w := by
  intro hall
  have h : Execution (Step ascii) first filed renamed := moves_file.mono (fun _ _ _ h => h.1)
  have h : Execution (Step ascii) first (filed ++ [[.unindexed]]) unindexed :=
    h.step (.rewriteThrows { waiting with state := .moving } (.drain "project" []) planned "EIO" rfl
      (mem_rows.mp (by decide)) rfl)
  have h : Execution (Step ascii) first (filed ++ [[.unindexed]] ++ [[.ended failed (unindexed.snapshot "project")]])
      (unindexed.leave true (.drain "project" [])) :=
    h.step (.ends failed true true (.drain "project" []) rfl (mem_rows.mp (by decide)))
  obtain ⟨before, hleft, htook⟩ := (hall ascii disk _ _ _ h).exact failed (unindexed.snapshot "project") (by simp)
  have hbefore : failed.id = filing ∧ before = trackedWorld.snapshot "project" := by
    simpa [filed] using hleft
  have hfiles := htook.files
  rw [hbefore.2] at hfiles
  revert hfiles
  decide

end FilingExample

end WorkAgent.Harness.Moves
