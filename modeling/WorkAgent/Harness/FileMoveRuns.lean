import WorkAgent.Harness.FileMoveEffects

namespace WorkAgent.Harness.Moves

open Library List Table Function

variable {casing : Casing} {w : World} {acts more : List Action} {journal : Journal} {operation : Operation} {m : FileMove}
  {moves planned : List FileMove} {id : UUID} {workspaceId : String} {a d : ℕ} {loop : Loop}

def Action.leaves (id : UUID) : Action → Bool
  | left other _ => other = id
  | cancelled other => other = id
  | _ => false

def Gone (acts : List Action) (id : UUID) : Prop := ∃ act ∈ acts, act.leaves id = true

def Operation.Revised (operation : Operation) : Prop :=
  match operation.state with
  | .queued => operation.applied = 0 ∧ operation.revision = none
  | .moving => operation.applied ≤ operation.moves.length ∧ operation.revision = none
  | .completed => operation.applied = operation.moves.length ∧ ∃ revision, operation.revision = some (revision + 1)
  | .failed => if operation.applied = 0 then operation.revision = none else ∃ revision, operation.revision = some (revision + 1)
  | .cancelled => operation.applied = 0 ∧ operation.revision = none

structure Fine (journal : Journal) : Prop where
  spelled : ∀ row ∈ journal.files, Spelled row.path
  planned : ∀ operation ∈ journal.operations, Planned operation.moves
  revised : ∀ operation ∈ journal.operations, operation.Revised

def Calm (journal : Journal) : Prop := ∀ operation ∈ journal.operations, operation.state ≠ .moving

def Journal.live (journal : Journal) (workspaceId : String) : List (UUID × Path) :=
  (journal.files.rows.filter fun row => row.workspaceId = workspaceId && !row.deleted).map fun row => (row.id, row.path)

def assetPaths (assets : List Asset) (workspaceId : String) : List (String × Path) :=
  (assets.filter fun asset => asset.workspaceId = workspaceId).map fun asset => (asset.id, asset.path)

structure Underway (casing : Casing) (acts : List Action) (operation : Operation) (before : Snapshot) (journal : Journal)
    (disk : Tree Name ℕ) (assets : List Asset) (d a : ℕ) : Prop where
  left : .left operation.id before ∈ acts
  spelled : ∀ file ∈ before.files, Spelled file.2
  checked : Checked casing before.disk operation.moves
  disk : DiskAt before.disk operation.moves d disk
  files : journal.live operation.workspaceId =
    before.files.map fun file => (file.1, followed (operation.moves.take operation.applied) file.2)
  assets : assetPaths assets operation.workspaceId =
    before.assets.map fun asset => (asset.1, followed (operation.moves.take a) asset.2)

structure Took (moves : List FileMove) (before after : Snapshot) : Prop where
  kept : ∀ e ∈ before.disk.entries, ∃ e' ∈ after.disk.entries, e'.file = e.file ∧ e'.path = moved moves e.path
  files : after.files = before.files.map fun file => (file.1, followed moves file.2)
  assets : after.assets = before.assets.map fun asset => (asset.1, followed moves asset.2)
  others : ∀ e' ∈ after.disk.entries, e'.file.isSome → ∃ e ∈ before.disk.entries, e'.file = e.file ∧ e'.path = moved moves e.path

def Queue (journal : Journal) (ids : List UUID) : Prop :=
  ids.Nodup ∧ ∀ id ∈ ids, ∃ operation ∈ journal.operations, operation.id = id ∧ operation.state = .queued

def Loop.Ok (journal : Journal) : Loop → Prop
  | .drain _ rest => Queue journal rest
  | .restart rest => rest = []

structure Planning (disk : Tree Name ℕ) (moves planned : List FileMove) : Prop where
  nonempty : moves ≠ []
  spelled : ∀ m ∈ moves, Spelled m.source ∧ Spelled m.destination
  sources : planned.map FileMove.source = (moves.take planned.length).map FileMove.source
  here : ∀ p ∈ planned, disk.has (parts p.source) = true ∧ disk.has (parts p.destination) = false ∧ Spelled p.destination
  outside : ∀ p ∈ planned, ∀ other ∈ moves, ¬ parts other.source <+: (parts p.destination).dropLast
  apart : planned.Pairwise fun m n => ¬ parts m.source <+: parts n.source ∧ ¬ parts n.source <+: parts m.source

def Phase.Ok (casing : Casing) (acts : List Action) (w : World) : Phase → Prop
  | .dead => w.memory = .empty
  | .idle => Calm w.memory
  | .planning workspaceId moves _ planned => Calm w.memory ∧ Planning (w.disk workspaceId) moves planned
  | .looping (.drain _ rest) => Calm w.memory ∧ Queue w.memory rest
  | .looping (.restart rest) => w.memory = w.file ∧
      (rest = [] ∧ Calm w.memory ∨ ∃ operation ∈ w.memory.operations, operation.state = .moving ∧ rest = [operation.id])
  | .tracking id _ loop => Calm w.memory ∧ ∃ operation ∈ w.memory.operations, operation.id = id ∧ operation.state = .queued ∧
      Checked casing (w.disk operation.workspaceId) operation.moves ∧
      ∃ workspaceId rest, loop = .drain workspaceId rest ∧ Queue w.memory (id :: rest)
  | .renaming id loop => w.memory = w.file ∧ (∃ operation ∈ w.memory.operations, operation.id = id ∧ operation.state = .moving) ∧
      loop.Ok w.memory
  | .rewriting id loop => w.memory = w.file ∧ (∃ operation ∈ w.memory.operations, operation.id = id ∧ operation.state = .moving ∧
      operation.applied < operation.moves.length ∧ ∃ before a, (a = operation.applied ∨ a = operation.applied + 1) ∧
        Underway casing acts operation before w.memory (w.disk operation.workspaceId) w.assets (operation.applied + 1) a) ∧
      loop.Ok w.memory
  | .checkpoint id loop => (∃ operation ∈ w.memory.operations, operation.id = id ∧ operation.state = .moving ∧
      ∃ before, Underway casing acts operation before w.memory (w.disk operation.workspaceId) w.assets operation.applied
        operation.applied) ∧
      (∀ other ∈ w.memory.operations, other.state = .moving → other.id = id) ∧ loop.Ok w.memory
  | .ending id left loop => Calm w.memory ∧ (∃ operation ∈ w.memory.operations, operation.id = id ∧
      (operation.state = .completed ∨ operation.state = .failed) ∧
      if left then ∃ before, Underway casing acts operation before w.memory (w.disk operation.workspaceId) w.assets operation.applied
        operation.applied
      else operation.applied = 0 ∧ ¬ Gone acts id ∧ ∃ workspaceId rest, loop = .drain workspaceId rest) ∧ loop.Ok w.memory

structure Sound (casing : Casing) (acts : List Action) (w : World) : Prop where
  memory : Fine w.memory
  file : Fine w.file
  assets : w.phase ≠ .dead → w.assets = w.assetFile
  drawn : (∀ operation ∈ w.memory.operations, operation.id ∈ w.drawn) ∧ (∀ operation ∈ w.file.operations, operation.id ∈ w.drawn) ∧
    ∀ id, Gone acts id → id ∈ w.drawn
  underway : ∀ operation ∈ w.file.operations, operation.state = .moving → ∃ before d a,
    (d = operation.applied ∨ d = operation.applied + 1 ∧ operation.applied < operation.moves.length) ∧ (a = operation.applied ∨ a = d) ∧
      Underway casing acts operation before w.file (w.disk operation.workspaceId) w.assetFile d a
  single : ∀ operation ∈ w.file.operations, ∀ other ∈ w.file.operations, operation.state = .moving → other.state = .moving →
    operation = other
  once : ∀ id, acts.countP (Action.leaves id) ≤ 1
  queued : ∀ operation ∈ w.memory.operations, operation.state = .queued → ¬ Gone acts operation.id
  asleep : w.phase = .dead → ∀ operation ∈ w.file.operations, operation.state = .queued → ¬ Gone acts operation.id
  renamed : ∀ id m disk, .renamed id m disk ∈ acts → (∃ before, .left id before ∈ acts) ∧ disk.has (parts m.destination) = false
  ended : ∀ operation after, .ended operation after ∈ acts → ∃ before, .left operation.id before ∈ acts ∧
    (∀ file ∈ before.files, Spelled file.2) ∧ Planned operation.moves ∧ operation.Revised ∧
    (operation.applied ≠ 0 → Checked casing before.disk operation.moves) ∧
    Took (operation.moves.take operation.applied) before after
  finished : ∀ operation ∈ w.memory.operations, operation.state = .completed ∨ operation.state = .failed →
    (∃ after, .ended operation after ∈ acts) ∨ ∃ left loop, w.phase = .ending operation.id left loop
  overFile : ∀ operation ∈ w.file.operations, operation.state = .completed ∨ operation.state = .failed →
    ∃ after, .ended operation after ∈ acts
  phase : w.phase.Ok casing acts w

structure Replaces (journal changed : Journal) (operation y : Operation) : Prop where
  files : changed.files = journal.files
  id : y.id = operation.id
  workspaceId : y.workspaceId = operation.workspaceId
  moves : y.moves = operation.moves
  operations : ∀ x, x ∈ changed.operations ↔ x = y ∨ (x ∈ journal.operations ∧ x.id ≠ operation.id)

variable {changed : Journal} {y : Operation} {before : Snapshot} {disk : Tree Name ℕ} {assets : List Asset} {ids : List UUID}

theorem mem_modify {f : Operation → Operation} (hf : ∀ x, (f x).id = x.id) (h : operation ∈ journal.operations) (x : Operation) :
    x ∈ (journal.modify operation.id f hf).operations ↔ x = f operation ∨ (x ∈ journal.operations ∧ x.id ≠ operation.id) := by
  unfold Journal.modify
  dsimp only
  rw [mem_update]
  constructor
  · rintro ⟨r, hr, rfl⟩
    by_cases hid : r.id = operation.id
    · rw [if_pos hid, eq_of_key hr h hid]
      exact .inl rfl
    · rw [if_neg hid]
      exact .inr ⟨hr, hid⟩
  · rintro (rfl | ⟨hx, hid⟩)
    · exact ⟨operation, h, (if_pos rfl).symm⟩
    · exact ⟨x, hx, (if_neg hid).symm⟩

section

variable (h : operation ∈ journal.operations)
include h

theorem replaces_setState (state : State) :
    Replaces journal (journal.setState operation.id state) operation { operation with state := state } :=
  ⟨rfl, rfl, rfl, rfl, mem_modify (f := fun x => { x with state := state }) (fun _ => rfl) h⟩

theorem replaces_setApplied (applied : ℕ) :
    Replaces journal (journal.setApplied operation.id applied) operation { operation with applied := applied } :=
  ⟨rfl, rfl, rfl, rfl, mem_modify (f := fun x => { x with applied := applied }) (fun _ => rfl) h⟩

theorem replaces_complete : Replaces journal (journal.complete operation.id) operation
    { operation with state := .completed, revision := some (journal.revision + 1) } :=
  ⟨rfl, rfl, rfl, rfl,
    mem_modify (f := fun x => { x with state := .completed, revision := some (journal.revision + 1) }) (fun _ => rfl) h⟩

theorem replaces_fail (hrevision : operation.revision = none) (error : String) :
    ∃ y, Replaces journal (journal.fail operation error) operation y ∧ y.state = .failed ∧ y.applied = operation.applied ∧ y.Revised := by
  unfold Journal.fail
  by_cases hzero : operation.applied = 0
  · rw [if_neg (by simp [hzero])]
    refine ⟨{ operation with state := .failed, error := some error }, ⟨rfl, rfl, rfl, rfl,
      mem_modify (f := fun x => { x with state := .failed, error := some error }) (fun _ => rfl) h⟩, rfl, rfl, ?_⟩
    simp [Operation.Revised, hzero, hrevision]
  · rw [if_pos hzero]
    refine ⟨{ operation with state := .failed, error := some error, revision := some (journal.revision + 1) },
      ⟨rfl, rfl, rfl, rfl, mem_modify (f := fun x =>
        { x with state := .failed, error := some error, revision := some (journal.revision + 1) }) (fun _ => rfl) h⟩, rfl, rfl, ?_⟩
    simp [Operation.Revised, hzero]

end

section

variable (h : Replaces journal changed operation y)
include h

theorem Replaces.mem : y ∈ changed.operations := (h.operations y).mpr (.inl rfl)

theorem Replaces.fine (hfine : Fine journal) (hop : operation ∈ journal.operations)
    (hrevised : y.Revised) : Fine changed where
  spelled := by
    rw [h.files]
    exact hfine.spelled
  planned := by
    intro x hx
    rcases (h.operations x).mp hx with rfl | ⟨hold, -⟩
    · rw [h.moves]
      exact hfine.planned operation hop
    · exact hfine.planned x hold
  revised := by
    intro x hx
    rcases (h.operations x).mp hx with rfl | ⟨hold, -⟩
    · exact hrevised
    · exact hfine.revised x hold

theorem Replaces.queue (hqueue : Queue journal ids) (hid : operation.id ∉ ids) :
    Queue changed ids := by
  refine ⟨hqueue.1, fun id hmem => ?_⟩
  obtain ⟨x, hx, hxid, hstate⟩ := hqueue.2 id hmem
  refine ⟨x, (h.operations x).mpr (.inr ⟨hx, ?_⟩), hxid, hstate⟩
  rintro heq
  exact hid (heq ▸ hxid ▸ hmem)

end

theorem Queue.not_mem (h : Queue journal ids) (hop : operation ∈ journal.operations) (hstate : operation.state ≠ .queued) :
    operation.id ∉ ids := by
  intro hmem
  obtain ⟨x, hx, hid, hqueued⟩ := h.2 operation.id hmem
  rw [eq_of_key hx hop hid] at hqueued
  exact hstate hqueued

theorem Replaces.loop_ok (h : Replaces journal changed operation y) (hloop : loop.Ok journal) (hop : operation ∈ journal.operations)
    (hstate : operation.state ≠ .queued) : loop.Ok changed := by
  cases loop with
  | drain => exact h.queue hloop (Queue.not_mem hloop hop hstate)
  | restart => exact hloop

theorem Replaces.live (h : Replaces journal changed operation y) (workspaceId : String) : changed.live workspaceId = journal.live workspaceId := by
  unfold Journal.live
  rw [h.files]

theorem Underway.replace (hunder : Underway casing acts operation before journal disk assets d a)
    (h : Replaces journal changed operation y) (happlied : y.applied = operation.applied) :
    Underway casing acts y before changed disk assets d a where
  left := by
    rw [h.id]
    exact hunder.left
  spelled := hunder.spelled
  checked := by
    rw [h.moves]
    exact hunder.checked
  disk := by
    rw [h.moves]
    exact hunder.disk
  files := by
    rw [h.workspaceId, h.live, h.moves, happlied]
    exact hunder.files
  assets := by
    rw [h.workspaceId, h.moves]
    exact hunder.assets

theorem Underway.mono (h : Underway casing acts operation before journal disk assets d a) :
    Underway casing (acts ++ more) operation before journal disk assets d a :=
  { h with left := mem_append_left _ h.left }

theorem Underway.took (h : Underway casing acts operation before journal disk assets operation.applied operation.applied) :
    Took (operation.moves.take operation.applied) before
      ⟨disk, journal.live operation.workspaceId, assetPaths assets operation.workspaceId⟩ :=
  { h with
    kept := h.disk.kept
    others := by
      intro e' he' hfile
      rcases h.disk.made e' he' with hold | ⟨hnone, -⟩
      · exact hold
      · rw [hnone] at hfile
        cases hfile }

theorem live_rewrite (hcased : ∀ row ∈ journal.files, row.workspaceId = workspaceId → row.deleted = false →
    covers casing m.source row.path = true → Within m.source row.path) :
    (journal.rewrite casing workspaceId m).live workspaceId = (journal.live workspaceId).map fun file => (file.1, m.follow file.2) := by
  have hkeep : (fun row : Identity => decide (row.workspaceId = workspaceId) && !row.deleted) ∘ rewrite casing workspaceId m =
      fun row : Identity => decide (row.workspaceId = workspaceId) && !row.deleted := by
    funext row
    dsimp only [comp]
    unfold rewrite
    split <;> rfl
  change ((journal.files.rows.map fun row => if True then rewrite casing workspaceId m row else row).filter _).map _ = _
  simp only [if_true]
  rw [filter_map, hkeep, map_map, Journal.live, map_map]
  apply map_congr_left
  intro row hrow
  obtain ⟨hmem, hlive⟩ := mem_filter.mp hrow
  simp only [Bool.and_eq_true, decide_eq_true_eq, Bool.not_eq_true'] at hlive
  have hwithin : covers casing m.source row.path = true ↔ Within m.source row.path :=
    ⟨hcased row hmem hlive.1 hlive.2, covers_of_within⟩
  dsimp only [comp]
  unfold rewrite FileMove.follow
  by_cases hcovers : covers casing m.source row.path = true
  · rw [if_neg (by simp [hlive, hcovers]), if_pos (hwithin.mp hcovers)]
  · rw [if_pos (.inr (.inr hcovers)), if_neg (fun h => hcovers (hwithin.mpr h))]

theorem assetPaths_changed (workspaceId : String) (m : FileMove) : assetPaths (w.changed workspaceId m) workspaceId =
    (assetPaths w.assets workspaceId).map fun asset => (asset.1, m.follow asset.2) := by
  have hkeep : (fun asset : Asset => decide (asset.workspaceId = workspaceId)) ∘ (fun asset => asset.move workspaceId m) =
      fun asset : Asset => decide (asset.workspaceId = workspaceId) := by
    funext asset
    dsimp only [comp]
    unfold Asset.move
    split <;> rfl
  unfold assetPaths World.changed
  rw [filter_map, hkeep, map_map, map_map]
  apply map_congr_left
  intro asset hasset
  have hworkspace : asset.workspaceId = workspaceId := by simpa using (mem_filter.mp hasset).2
  dsimp only [comp]
  have hmoves : (asset.workspaceId = workspaceId ∧ (asset.path = m.source ∨ (m.source ++ ['/']).isPrefixOf asset.path = true)) ↔
      Within m.source asset.path := by
    rw [ isPrefixOf_iff_prefix]
    exact and_iff_right hworkspace
  unfold Asset.move FileMove.follow
  by_cases hwithin : Within m.source asset.path
  · rw [if_pos (hmoves.mpr hwithin), if_pos hwithin]
  · rw [if_neg (fun h => hwithin (hmoves.mp h)), if_neg hwithin]

end WorkAgent.Harness.Moves
