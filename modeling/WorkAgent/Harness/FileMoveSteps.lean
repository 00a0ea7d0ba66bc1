import WorkAgent.Harness.FileMoveRuns

namespace WorkAgent.Harness.Moves

open Library List

variable {casing : Casing} {w : World} {acts more : List Action} {journal : Journal} {operation : Operation} {m : FileMove}
  {moves planned : List FileMove} {id : UUID} {ids : List UUID} {workspaceId : String} {a d : ℕ} {loop : Loop} {phase : Phase}
  {saved : Bool} {before : Snapshot}

def Action.quiet : Action → Bool
  | requested _ => true
  | identified _ => true
  | outside _ => true
  | unsaved => true
  | unindexed => true
  | _ => false

theorem gone_append : Gone (acts ++ more) id ↔ Gone acts id ∨ Gone more id := by
  unfold Gone
  simp only [mem_append, or_and_right, exists_or]

theorem leaves_of_quiet {act : Action} (h : act.quiet = true) (id : UUID) : act.leaves id = false := by
  cases act <;> first | rfl | cases h

theorem not_gone_of_quiet (h : ∀ act ∈ more, act.quiet = true) (id : UUID) : ¬ Gone more id := by
  rintro ⟨act, hact, hleaves⟩
  rw [leaves_of_quiet (h act hact)] at hleaves
  cases hleaves

theorem countP_eq_zero_of_not_gone (h : ¬ Gone acts id) : acts.countP (Action.leaves id) = 0 := by
  rw [countP_eq_zero]
  exact fun act hact hleaves => h ⟨act, hact, hleaves⟩

theorem Phase.Ok.mono (h : phase.Ok casing acts w) (hgone : ∀ id, Gone more id → ∀ left loop, phase ≠ .ending id left loop) :
    phase.Ok casing (acts ++ more) w := by
  cases phase with
  | rewriting =>
    obtain ⟨hsame, ⟨op, hop, hid, hstate, hlt, before, a, ha, hunder⟩, hloop⟩ := h
    exact ⟨hsame, ⟨op, hop, hid, hstate, hlt, before, a, ha, hunder.mono⟩, hloop⟩
  | checkpoint =>
    obtain ⟨⟨op, hop, hid, hstate, before, hunder⟩, hrest⟩ := h
    exact ⟨⟨op, hop, hid, hstate, before, hunder.mono⟩, hrest⟩
  | ending id left loop =>
    obtain ⟨hcalm, ⟨op, hop, hid, hstate, hleft⟩, hloop⟩ := h
    refine ⟨hcalm, ⟨op, hop, hid, hstate, ?_⟩, hloop⟩
    cases left with
    | true =>
      obtain ⟨before, hunder⟩ := hleft
      exact ⟨before, hunder.mono⟩
    | false =>
      refine ⟨hleft.1, fun hgoes => ?_, hleft.2.2⟩
      rcases gone_append.mp hgoes with hold | hnew
      · exact hleft.2.1 hold
      · exact hgone id hnew false loop rfl
  | looping loop => cases loop <;> exact h
  | _ => exact h

section

variable (h : Sound casing acts w)
include h

theorem Sound.tellAs (hcount : ∀ id, more.countP (Action.leaves id) ≤ 1)
    (hgone : ∀ id, Gone more id → phase ≠ .dead ∧ ¬ Gone acts id ∧ id ∈ w.drawn ∧
      ∀ op ∈ w.memory.operations, op.id = id → op.state ≠ .queued)
    (hrenamed : ∀ id m disk, .renamed id m disk ∈ more → (∃ before, .left id before ∈ acts) ∧ disk.has (parts m.destination) = false)
    (hended : ∀ operation after, .ended operation after ∈ more → ∃ before, .left operation.id before ∈ acts ++ more ∧
      (∀ file ∈ before.files, Spelled file.2) ∧ Planned operation.moves ∧ operation.Revised ∧
      (operation.applied ≠ 0 → Checked casing before.disk operation.moves) ∧
      Took (operation.moves.take operation.applied) before after)
    (hover : ∀ op ∈ w.memory.operations, op.state = .completed ∨ op.state = .failed →
      (∃ after, .ended op after ∈ acts ++ more) ∨ ∃ left loop, phase = .ending op.id left loop)
    (hdead : phase = .dead ↔ w.phase = .dead) (hok : phase.Ok casing (acts ++ more) (w.enter phase)) :
    Sound casing (acts ++ more) (w.enter phase) where
  memory := h.memory
  file := h.file
  assets := fun halive => h.assets (fun hidle => halive (hdead.mpr hidle))
  drawn := by
    refine ⟨h.drawn.1, h.drawn.2.1, fun id hgoes => ?_⟩
    rcases gone_append.mp hgoes with hold | hnew
    · exact h.drawn.2.2 id hold
    · exact (hgone id hnew).2.2.1
  underway := by
    intro op hop hstate
    obtain ⟨before, d, a, hd, ha, hunder⟩ := h.underway op hop hstate
    exact ⟨before, d, a, hd, ha, hunder.mono⟩
  single := h.single
  once := by
    intro id
    rw [countP_append]
    by_cases hnew : Gone more id
    · rw [countP_eq_zero_of_not_gone (hgone id hnew).2.1, Nat.zero_add]
      exact hcount id
    · rw [countP_eq_zero_of_not_gone hnew]
      exact h.once id
  queued := by
    intro op hop hstate hgoes
    rcases gone_append.mp hgoes with hold | hnew
    · exact h.queued op hop hstate hold
    · exact (hgone _ hnew).2.2.2 op hop rfl hstate
  asleep := by
    intro hidle op hop hstate hgoes
    rcases gone_append.mp hgoes with hold | hnew
    · exact h.asleep (hdead.mp hidle) op hop hstate hold
    · exact (hgone _ hnew).1 hidle
  renamed := by
    intro id m disk hmem
    rcases mem_append.mp hmem with hmem | hmem
    · obtain ⟨⟨before, hleft⟩, hfree⟩ := h.renamed id m disk hmem
      exact ⟨⟨before, mem_append_left _ hleft⟩, hfree⟩
    · obtain ⟨⟨before, hleft⟩, hfree⟩ := hrenamed id m disk hmem
      exact ⟨⟨before, mem_append_left _ hleft⟩, hfree⟩
  ended := by
    intro op after hmem
    rcases mem_append.mp hmem with hmem | hmem
    · obtain ⟨before, hleft, hrest⟩ := h.ended op after hmem
      exact ⟨before, mem_append_left _ hleft, hrest⟩
    · exact hended op after hmem
  finished := hover
  overFile := by
    intro op hop hstate
    obtain ⟨after, hmem⟩ := h.overFile op hop hstate
    exact ⟨after, mem_append_left _ hmem⟩
  phase := hok

theorem Sound.tell (hcount : ∀ id, more.countP (Action.leaves id) ≤ 1)
    (hgone : ∀ id, Gone more id → w.phase = .idle ∧ ¬ Gone acts id ∧ id ∈ w.drawn ∧
      ∀ op ∈ w.memory.operations, op.id = id → op.state ≠ .queued)
    (hrenamed : ∀ id m disk, .renamed id m disk ∈ more → (∃ before, .left id before ∈ acts) ∧ disk.has (parts m.destination) = false)
    (hended : ∀ operation after, .ended operation after ∉ more) : Sound casing (acts ++ more) w := by
  have hsame : w.enter w.phase = w := rfl
  rw [← hsame]
  apply h.tellAs hcount _ hrenamed (fun op after hmem => absurd hmem (hended op after)) _ Iff.rfl
  · apply h.phase.mono
    intro id hnew _ _ heq
    rw [(hgone id hnew).1] at heq
    cases heq
  · intro id hnew
    obtain ⟨hidle, hrest⟩ := hgone id hnew
    exact ⟨by simp [hidle], hrest⟩
  · intro op hop hstate
    rcases h.finished op hop hstate with ⟨after, hmem⟩ | hending
    · exact .inl ⟨after, mem_append_left _ hmem⟩
    · exact .inr hending

theorem Sound.calm (hquiet : ∀ act ∈ more, act.quiet = true) : Sound casing (acts ++ more) w := by
  apply h.tell
  · intro id
    rw [countP_eq_zero_of_not_gone (not_gone_of_quiet hquiet id)]
    exact Nat.zero_le 1
  · exact fun id hnew => absurd hnew (not_gone_of_quiet hquiet id)
  · exact fun id m disk hmem => by cases hquiet _ hmem
  · exact fun op after hmem => by cases hquiet _ hmem

section

variable (halive : w.phase ≠ .dead) (hfine : Fine journal) (hdrawn : ∀ op ∈ journal.operations, op.id ∈ w.drawn)
  (hqueued : ∀ op ∈ journal.operations, op.state = .queued → ¬ Gone acts op.id)
include halive hfine hdrawn hqueued

theorem Sound.hold
    (hover : ∀ op ∈ journal.operations, op.state = .completed ∨ op.state = .failed → (∃ after, .ended op after ∈ acts) ∨ ∃ left loop, phase = .ending op.id left loop)
    (hphase : phase ≠ .dead) (hok : phase.Ok casing acts ((w.hold journal).enter phase)) :
    Sound casing acts ((w.hold journal).enter phase) :=
  { h with
    memory := hfine
    assets := fun _ => h.assets halive
    drawn := ⟨hdrawn, h.drawn.2⟩
    queued := hqueued
    asleep := fun hdead => absurd hdead hphase
    finished := hover
    phase := hok }

theorem Sound.save (hover : ∀ op ∈ journal.operations, op.state = .completed ∨ op.state = .failed → ∃ after, .ended op after ∈ acts)
    (hsingle : ∀ op ∈ journal.operations, ∀ other ∈ journal.operations, op.state = .moving → other.state = .moving → op = other)
    (hunder : ∀ op ∈ journal.operations, op.state = .moving → ∃ before, Underway casing acts op before journal (w.disk op.workspaceId) w.assets op.applied op.applied)
    (hphase : phase ≠ .dead) (hok : phase.Ok casing acts ((w.save journal).enter phase)) :
    Sound casing acts ((w.save journal).enter phase) :=
  { h with
    memory := hfine
    file := hfine
    assets := fun _ => h.assets halive
    drawn := ⟨hdrawn, hdrawn, h.drawn.2.2⟩
    underway := by
      intro op hop hstate
      obtain ⟨before, hbegun⟩ := hunder op hop hstate
      rw [h.assets halive] at hbegun
      exact ⟨before, op.applied, op.applied, .inl rfl, .inl rfl, hbegun⟩
    single := hsingle
    queued := hqueued
    asleep := fun hdead => absurd hdead hphase
    finished := fun op hop hstate => .inl (hover op hop hstate)
    overFile := hover
    phase := hok }

end

theorem Sound.write (halive : w.phase ≠ .dead) (hfine : Fine journal) (hcalm : Calm journal)
    (hdrawn : ∀ op ∈ journal.operations, op.id ∈ w.drawn)
    (hqueued : ∀ op ∈ journal.operations, op.state = .queued → ¬ Gone acts op.id)
    (hover : ∀ op ∈ journal.operations, op.state = .completed ∨ op.state = .failed → ∃ after, .ended op after ∈ acts)
    (hphase : phase ≠ .dead) (hok : phase.Ok casing acts ((w.write journal saved).enter phase)) :
    Sound casing acts ((w.write journal saved).enter phase) := by
  cases saved with
  | true =>
    apply h.save halive hfine hdrawn hqueued hover _ _ hphase hok
    · exact fun op hop _ _ hstate => absurd hstate (hcalm op hop)
    · exact fun op hop hstate => absurd hstate (hcalm op hop)
  | false => exact h.hold halive hfine hdrawn hqueued (fun op hop hstate => .inl (hover op hop hstate)) hphase hok

end

theorem Phase.Ok.draw (h : phase.Ok casing acts w) : phase.Ok casing acts (w.draw id) := by
  cases phase with
  | looping loop => cases loop <;> exact h
  | _ => exact h

theorem Sound.draw (h : Sound casing acts w) (id : UUID) : Sound casing acts (w.draw id) :=
  { h with
    drawn := ⟨fun op hop => mem_cons_of_mem _ (h.drawn.1 op hop), fun op hop => mem_cons_of_mem _ (h.drawn.2.1 op hop),
      fun other hgone => mem_cons_of_mem _ (h.drawn.2.2 other hgone)⟩
    phase := h.phase.draw }

theorem Sound.cancelled (h : Sound casing acts w) (hphase : w.phase = .idle) (hnodup : ids.Nodup)
    (hids : ∀ id ∈ ids, ¬ Gone acts id ∧ id ∈ w.drawn ∧ ∀ op ∈ w.memory.operations, op.id = id → op.state ≠ .queued) :
    Sound casing (acts ++ ids.map Action.cancelled) w := by
  have hgone : ∀ id, Gone (ids.map Action.cancelled) id → id ∈ ids := by
    rintro id ⟨_, hact, hleaves⟩
    obtain ⟨other, hother, rfl⟩ := mem_map.mp hact
    have heq : other = id := by simpa [Action.leaves] using hleaves
    exact heq ▸ hother
  apply h.tell
  · intro id
    rw [countP_map]
    have hone := nodup_iff_count_le_one.mp hnodup id
    apply Nat.le_trans _ hone
    apply countP_mono_left
    intro _ _ hleaves
    simpa [Action.leaves] using hleaves
  · exact fun id hnew => ⟨hphase, hids id (hgone id hnew)⟩
  · simp
  · simp

theorem enter_eq (h : w.phase = phase) : w.enter phase = w := by
  subst h
  rfl

theorem write_phase (w : World) (journal : Journal) (saved : Bool) : (w.write journal saved).phase = w.phase := by
  cases saved <;> rfl

theorem write_memory (w : World) (journal : Journal) (saved : Bool) : (w.write journal saved).memory = journal := by
  cases saved <;> rfl

theorem write_disk (w : World) (journal : Journal) (saved : Bool) : (w.write journal saved).disk = w.disk := by
  cases saved <;> rfl

theorem Sound.settled (h : Sound casing acts w) (hending : ∀ id left loop, w.phase ≠ .ending id left loop) :
    ∀ op ∈ w.memory.operations, op.state = .completed ∨ op.state = .failed → ∃ after, .ended op after ∈ acts := by
  intro op hop hstate
  rcases h.finished op hop hstate with hended | ⟨_, _, hphase⟩
  · exact hended
  · exact absurd hphase (hending _ _ _)

theorem Sound.writeFiles (h : Sound casing acts w) (halive : w.phase ≠ .dead) (hending : ∀ id left loop, w.phase ≠ .ending id left loop)
    (hcalm : Calm w.memory) (hops : journal.operations = w.memory.operations) (hspelled : ∀ row ∈ journal.files, Spelled row.path)
    (hphase : phase ≠ .dead) (hok : phase.Ok casing acts ((w.write journal saved).enter phase)) :
    Sound casing acts ((w.write journal saved).enter phase) := by
  have hsettled := h.settled hending
  have hfine := h.memory
  have hdrawn := h.drawn.1
  have hqueued := h.queued
  apply h.write halive ⟨hspelled, ?_, ?_⟩ ?_ ?_ ?_ ?_ hphase hok
  · rw [hops]
    exact hfine.planned
  · rw [hops]
    exact hfine.revised
  · unfold Calm
    rw [hops]
    exact hcalm
  · rw [hops]
    exact hdrawn
  · rw [hops]
    exact hqueued
  · rw [hops]
    exact hsettled

theorem spelled_identify {path : Path} (h : ∀ row ∈ journal.files, Spelled row.path) (hpath : Spelled path) :
    ∀ row ∈ (journal.identify id workspaceId path).files, Spelled row.path := by
  intro row hrow
  rcases Table.mem_insertOrIgnore.mp hrow with hold | ⟨rfl, -⟩
  · exact h row hold
  · exact hpath

theorem spelled_delete {p : Identity → Bool} (h : ∀ row ∈ journal.files, Spelled row.path) :
    ∀ row ∈ (journal.delete p).files, Spelled row.path := by
  intro _ hrow
  unfold Journal.delete at hrow
  dsimp only at hrow
  rw [Table.mem_update] at hrow
  obtain ⟨old, hold, rfl⟩ := hrow
  split
  · exact h old hold
  · exact h old hold

theorem Sound.idles (h : Sound casing acts w) (hphase : w.phase = .idle) (hops : journal.operations = w.memory.operations)
    (hspelled : ∀ row ∈ journal.files, Spelled row.path) : Sound casing acts (w.write journal saved) := by
  have hcalm : Calm w.memory := by
    have hok := h.phase
    rw [hphase] at hok
    exact hok
  have hsame : (w.write journal saved).enter .idle = w.write journal saved := enter_eq (by rw [write_phase, hphase])
  rw [← hsame]
  apply h.writeFiles (by simp [hphase]) (by simp [hphase]) hcalm hops hspelled (by simp)
  change Calm ((w.write journal saved).memory)
  rw [write_memory]
  unfold Calm
  rw [hops]
  exact hcalm

theorem Sound.cancel (h : Sound casing acts w) (hphase : w.phase = .idle) (hop : operation ∈ w.memory.operations)
    (hqueued : operation.state = .queued) :
    Sound casing (acts ++ [.cancelled operation.id]) (w.write (w.memory.setState operation.id .cancelled) saved) := by
  have hcalm : Calm w.memory := by
    have hok := h.phase
    rw [hphase] at hok
    exact hok
  have hreplaces := replaces_setState hop .cancelled
  have hrevised : operation.Revised := h.memory.revised operation hop
  have hgone := h.queued operation hop hqueued
  have hwrites : Sound casing acts ((w.write (w.memory.setState operation.id .cancelled) saved).enter .idle) := by
    apply h.write (by simp [hphase]) _ _ _ _ _ (by simp)
    · change Calm ((w.write (w.memory.setState operation.id .cancelled) saved).memory)
      rw [write_memory]
      intro x hx
      rcases (hreplaces.operations x).mp hx with rfl | ⟨hold, -⟩
      · simp
      · exact hcalm x hold
    · apply hreplaces.fine h.memory hop
      simpa [Operation.Revised, hqueued] using hrevised
    · intro x hx
      rcases (hreplaces.operations x).mp hx with rfl | ⟨hold, -⟩
      · simp
      · exact hcalm x hold
    · intro x hx
      rcases (hreplaces.operations x).mp hx with rfl | ⟨hold, -⟩
      · exact h.drawn.1 operation hop
      · exact h.drawn.1 x hold
    · intro x hx hstate
      rcases (hreplaces.operations x).mp hx with rfl | ⟨hold, -⟩
      · cases hstate
      · exact h.queued x hold hstate
    · intro x hx hstate
      rcases (hreplaces.operations x).mp hx with rfl | ⟨hold, -⟩
      · rcases hstate with hstate | hstate <;> cases hstate
      · exact h.settled (by simp [hphase]) x hold hstate
  rw [enter_eq (by rw [write_phase, hphase])] at hwrites
  have hnodup : [operation.id].Nodup := nodup_singleton _
  apply hwrites.cancelled (by rw [write_phase, hphase]) hnodup
  intro _ hid
  obtain rfl := mem_singleton.mp hid
  refine ⟨hgone, ?_, ?_⟩
  · have hdrawn := h.drawn.1 operation hop
    cases saved <;> exact hdrawn
  · intro x hx hxid
    rw [write_memory] at hx
    rcases (hreplaces.operations x).mp hx with rfl | ⟨-, hne⟩
    · simp
    · exact absurd hxid hne

theorem mem_cancelAll {x : Operation} : x ∈ (journal.cancelAll workspaceId).operations ↔
    ∃ op ∈ journal.operations, x = if op.workspaceId = workspaceId ∧ op.state = .queued then { op with state := .cancelled } else op := by
  unfold Journal.cancelAll
  dsimp only
  exact Table.mem_update

theorem Sound.cancelAll (h : Sound casing acts w) (hphase : w.phase = .idle) (p : Identity → Bool) :
    Sound casing (acts ++ ((w.memory.queued workspaceId).map Operation.id).map .cancelled)
      (w.write ((w.memory.cancelAll workspaceId).delete p) saved) := by
  have hcalm : Calm w.memory := by
    have hok := h.phase
    rw [hphase] at hok
    exact hok
  have hmem : ∀ x ∈ ((w.memory.cancelAll workspaceId).delete p).operations, (x ∈ w.memory.operations ∧
      ¬ (x.workspaceId = workspaceId ∧ x.state = .queued)) ∨ ∃ op ∈ w.memory.operations, op.state = .queued ∧
        x = { op with state := .cancelled } := by
    intro x hx
    obtain ⟨op, hop, rfl⟩ := mem_cancelAll.mp hx
    split
    · rename_i hcancelled
      exact .inr ⟨op, hop, hcancelled.2, rfl⟩
    · rename_i hkept
      exact .inl ⟨hop, hkept⟩
  have hwrites : Sound casing acts ((w.write ((w.memory.cancelAll workspaceId).delete p) saved).enter .idle) := by
    have hcalm' : Calm ((w.memory.cancelAll workspaceId).delete p) := by
      intro x hx
      rcases hmem x hx with ⟨hold, -⟩ | ⟨op, -, -, rfl⟩
      · exact hcalm x hold
      · simp
    apply h.write (by simp [hphase]) ⟨?_, ?_, ?_⟩ hcalm' _ _ _ (by simp)
    · change Calm ((w.write ((w.memory.cancelAll workspaceId).delete p) saved).memory)
      rw [write_memory]
      exact hcalm'
    · exact spelled_delete h.memory.spelled
    · intro x hx
      rcases hmem x hx with ⟨hold, -⟩ | ⟨op, hop, -, rfl⟩
      · exact h.memory.planned x hold
      · exact h.memory.planned op hop
    · intro x hx
      rcases hmem x hx with ⟨hold, -⟩ | ⟨op, hop, hqueued, rfl⟩
      · exact h.memory.revised x hold
      · have hrevised := h.memory.revised op hop
        simpa [Operation.Revised, hqueued] using hrevised
    · intro x hx
      rcases hmem x hx with ⟨hold, -⟩ | ⟨op, hop, -, rfl⟩
      · exact h.drawn.1 x hold
      · exact h.drawn.1 op hop
    · intro x hx hstate
      rcases hmem x hx with ⟨hold, -⟩ | ⟨op, -, -, rfl⟩
      · exact h.queued x hold hstate
      · cases hstate
    · intro x hx hstate
      rcases hmem x hx with ⟨hold, -⟩ | ⟨op, -, -, rfl⟩
      · exact h.settled (by simp [hphase]) x hold hstate
      · rcases hstate with hstate | hstate <;> cases hstate
  rw [enter_eq (by rw [write_phase, hphase])] at hwrites
  apply hwrites.cancelled (by rw [write_phase, hphase])
  · exact (filter_sublist.map Operation.id).nodup w.memory.operations.nodup
  · intro _ hid
    obtain ⟨op, hop, rfl⟩ := mem_map.mp hid
    obtain ⟨hin, hqueued⟩ := mem_filter.mp hop
    simp only [Bool.and_eq_true, decide_eq_true_eq] at hqueued
    refine ⟨h.queued op hin hqueued.2, ?_, ?_⟩
    · have hdrawn := h.drawn.1 op hin
      cases saved <;> exact hdrawn
    · intro x hx hxid hstate
      rw [write_memory] at hx
      rcases hmem x hx with ⟨hold, hkept⟩ | ⟨_, -, -, rfl⟩
      · rw [Table.eq_of_key hold hin hxid] at hkept
        exact hkept hqueued
      · cases hstate

theorem Planning.snoc (h : Planning (w.disk workspaceId) moves planned) {suffix : ℕ} {keepBoth : Bool} (hmove : moves[planned.length]? = some m)
    (hplannable : Plannable casing w workspaceId moves keepBoth planned m suffix) (fileId : Option UUID) :
    Planning (w.disk workspaceId) moves (planned ++ [⟨m.source,
      candidate m.destination ((w.disk workspaceId).isDirectory (parts m.source)) suffix, fileId⟩]) := by
  have hm := mem_of_getElem? hmove
  obtain ⟨hsource, hdestination⟩ := h.spelled m hm
  constructor
  · exact h.nonempty
  · exact h.spelled
  · rw [map_append, length_append, length_singleton, take_succ_of_getElem? hmove, map_append, h.sources]
    rfl
  · intro p hp
    rcases mem_append.mp hp with hp | hp
    · exact h.here p hp
    · obtain rfl := mem_singleton.mp hp
      refine ⟨(resolve_ok hplannable.source).2.1 rfl, ?_, spelled_candidate _ _ hdestination⟩
      have hfree := (hplannable.taken suffix (Nat.le_refl suffix)).not
      simp only [Nat.lt_irrefl, not_false_eq_true, true_iff, not_or] at hfree
      simpa using hfree.1
  · intro p hp other hother
    rcases mem_append.mp hp with hp | hp
    · exact h.outside p hp other hother
    · obtain rfl := mem_singleton.mp hp
      intro hsub
      rw [dropLast_parts_candidate _ _ hdestination] at hsub
      have hcovers := hplannable.outside other hother
      rw [covers_of_within (within_of_parts (h.spelled other hother).1 hdestination (hsub.trans ( dropLast_prefix _)))] at hcovers
      cases hcovers
  · rw [pairwise_append]
    refine ⟨h.apart, pairwise_singleton _ _, fun p hp q hq => ?_⟩
    obtain rfl := mem_singleton.mp hq
    obtain ⟨j, hj, rfl⟩ := getElem_of_mem hp
    have hlength : planned.length < moves.length := (List.getElem?_eq_some_iff.mp hmove).1
    have hbefore : j < moves.length := hj.trans hlength
    have hsame : planned[j].source = moves[j].source := by
      have hsources := congrArg (fun sources => sources[j]?) h.sources
      simpa [hj, hbefore] using hsources
    have hother : moves[j] ∈ moves.eraseIdx planned.length :=
      mem_eraseIdx_iff_getElem?.mpr ⟨j, Nat.ne_of_lt hj, getElem?_eq_getElem hbefore⟩
    obtain ⟨hcover, hcover'⟩ := hplannable.apart _ hother
    have hspelled := (h.spelled _ (getElem_mem hbefore)).1
    dsimp only
    rw [hsame]
    constructor
    · intro hsub
      rw [covers_of_within (within_of_parts hspelled hsource hsub)] at hcover
      cases hcover
    · intro hsub
      rw [covers_of_within (within_of_parts hsource hspelled hsub)] at hcover'
      cases hcover'

end WorkAgent.Harness.Moves
