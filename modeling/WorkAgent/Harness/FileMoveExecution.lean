import WorkAgent.Harness.FileMoveSteps

namespace WorkAgent.Harness.Moves

open Library List

variable {casing : Casing} {w : World} {acts : List Action} {journal : Journal} {operation y : Operation} {m : FileMove}
  {moves planned : List FileMove} {id : UUID} {workspaceId : String} {a d : ℕ} {loop : Loop} {phase : Phase}
  {saved left : Bool} {before : Snapshot} {error : String} {disk made : Tree Name ℕ}

theorem Planning.complete (h : Planning disk moves planned) (hlength : planned.length = moves.length) : Planned planned where
  nonempty := by
    rintro rfl
    exact h.nonempty (length_eq_zero_iff.mp hlength.symm)
  spelled := by
    intro m hm
    have hsource : m.source ∈ planned.map FileMove.source := mem_map_of_mem hm
    rw [h.sources, hlength, take_length] at hsource
    obtain ⟨other, hother, heq⟩ := mem_map.mp hsource
    exact ⟨heq ▸ (h.spelled other hother).1, (h.here m hm).2.2⟩
  outside := by
    intro m hm n hn hsub
    have hsource : m.source ∈ planned.map FileMove.source := mem_map_of_mem hm
    rw [h.sources, hlength, take_length] at hsource
    obtain ⟨other, hother, heq⟩ := mem_map.mp hsource
    have houtside := h.outside n hn other hother
    rw [heq] at houtside
    have hne : parts m.source ≠ parts n.destination := by
      intro hsame
      have hfree := (h.here n hn).2.1
      rw [← hsame, (h.here m hm).1] at hfree
      cases hfree
    -- a source above a destination that it is not is above its directory
    rcases prefix_concat_iff.mp (dropLast_concat_getLast (parts_ne_nil n.destination) ▸ hsub) with heq' | hbelow
    · exact hne (heq'.trans (dropLast_concat_getLast _))
    · exact houtside hbelow
  apart := h.apart

theorem Sound.queue (h : Sound casing acts w) {keepBoth : Bool} (hphase : w.phase = .planning workspaceId moves keepBoth planned)
    (hlength : planned.length = moves.length) (hfresh : id ∉ w.drawn) (hdead : phase ≠ .dead)
    (hok : phase = .idle ∨ ∃ rest, phase = .looping (.drain workspaceId rest) ∧
      Queue (w.memory.push ⟨id, workspaceId, planned, .queued, 0, none, none⟩) rest) :
    Sound casing acts (((w.write (w.memory.push ⟨id, workspaceId, planned, .queued, 0, none, none⟩) saved).draw id).enter phase) := by
  obtain ⟨hcalm, hplanning⟩ : Calm w.memory ∧ Planning (w.disk workspaceId) moves planned := by
    have hphase' := h.phase
    rw [hphase] at hphase'
    exact hphase'
  have hmem : ∀ x ∈ (w.memory.push ⟨id, workspaceId, planned, .queued, 0, none, none⟩).operations, x ∈ w.memory.operations ∨
      x = ⟨id, workspaceId, planned, .queued, 0, none, none⟩ := by
    intro x hx
    rcases Table.mem_insertOrIgnore.mp hx with hold | ⟨rfl, -⟩
    · exact .inl hold
    · exact .inr rfl
  have hcalm' : Calm (w.memory.push ⟨id, workspaceId, planned, .queued, 0, none, none⟩) := by
    intro x hx
    rcases hmem x hx with hold | rfl
    · exact hcalm x hold
    · simp
  have hdraws := h.draw id
  have hgoal : Sound casing acts (((w.draw id).write (w.memory.push ⟨id, workspaceId, planned, .queued, 0, none, none⟩) saved).enter phase) := by
    apply hdraws.write (by simp [World.draw, hphase]) ⟨?_, ?_, ?_⟩ hcalm' _ _ _ hdead
    · rcases hok with rfl | ⟨rest, rfl, hqueue⟩
      · change Calm (((w.draw id).write _ saved).memory)
        rw [write_memory]
        exact hcalm'
      · change Calm (((w.draw id).write _ saved).memory) ∧ Queue (((w.draw id).write _ saved).memory) rest
        rw [write_memory]
        exact ⟨hcalm', hqueue⟩
    · exact h.memory.spelled
    · intro x hx
      rcases hmem x hx with hold | rfl
      · exact h.memory.planned x hold
      · exact hplanning.complete hlength
    · intro x hx
      rcases hmem x hx with hold | rfl
      · exact h.memory.revised x hold
      · exact ⟨rfl, rfl⟩
    · intro x hx
      rcases hmem x hx with hold | rfl
      · exact mem_cons_of_mem _ (h.drawn.1 x hold)
      · exact mem_cons_self
    · intro x hx hstate
      rcases hmem x hx with hold | rfl
      · exact h.queued x hold hstate
      · exact fun hgone => hfresh (h.drawn.2.2 id hgone)
    · intro x hx hstate
      rcases hmem x hx with hold | rfl
      · exact h.settled (by simp [hphase]) x hold hstate
      · rcases hstate with hstate | hstate <;> cases hstate
  cases saved <;> exact hgoal

theorem queue_queued (journal : Journal) (workspaceId : String) : Queue journal ((journal.queued workspaceId).map Operation.id) := by
  refine ⟨(filter_sublist.map Operation.id).nodup journal.operations.nodup, fun id hid => ?_⟩
  obtain ⟨op, hop, rfl⟩ := mem_map.mp hid
  obtain ⟨hin, hqueued⟩ := mem_filter.mp hop
  simp only [Bool.and_eq_true, decide_eq_true_eq] at hqueued
  exact ⟨op, hin, rfl, hqueued.2⟩

theorem Sound.fails (h : Sound casing acts w) (halive : w.phase ≠ .dead) (hending : ∀ id left loop, w.phase ≠ .ending id left loop)
    (hop : operation ∈ w.memory.operations) (hstate : operation.state = .queued ∨ operation.state = .moving)
    (hothers : ∀ other ∈ w.memory.operations, other.state = .moving → other.id = operation.id)
    (hleft : if left then ∃ before, Underway casing acts operation before w.memory (w.disk operation.workspaceId) w.assets
        operation.applied operation.applied
      else operation.applied = 0 ∧ ¬ Gone acts operation.id ∧ ∃ workspaceId rest, loop = .drain workspaceId rest)
    (hloop : ∀ workspaceId rest, loop = .drain workspaceId rest → Queue w.memory rest ∧ operation.id ∉ rest)
    (hrestart : ∀ rest, loop = .restart rest → rest = []) : Sound casing acts (w.fails operation error left loop) := by
  have hrevision : operation.revision = none := by
    have hrevised := h.memory.revised operation hop
    rcases hstate with hstate | hstate
    · rw [Operation.Revised, hstate] at hrevised
      exact hrevised.2
    · rw [Operation.Revised, hstate] at hrevised
      exact hrevised.2
  obtain ⟨y, hreplaces, hfailed, happlied, hrevised⟩ := replaces_fail hop hrevision error
  apply h.hold halive (hreplaces.fine h.memory hop hrevised) _ _ _ (by simp)
  · refine ⟨?_, ⟨y, hreplaces.mem, hreplaces.id, .inr hfailed, ?_⟩, ?_⟩
    · intro x hx hmoving
      rcases (hreplaces.operations x).mp hx with rfl | ⟨hold, hne⟩
      · rw [hfailed] at hmoving
        cases hmoving
      · exact hne (hothers x hold hmoving)
    · cases left with
      | true =>
        obtain ⟨before, hunder⟩ := hleft
        refine ⟨before, ?_⟩
        change Underway casing acts y before (w.memory.fail operation error) (w.disk y.workspaceId) w.assets y.applied y.applied
        rw [happlied, hreplaces.workspaceId]
        exact hunder.replace hreplaces happlied
      | false => exact ⟨happlied.trans hleft.1, hleft.2⟩
    · cases loop with
      | drain workspaceId rest =>
        obtain ⟨hqueue, hid⟩ := hloop workspaceId rest rfl
        exact hreplaces.queue hqueue hid
      | restart rest => exact hrestart rest rfl
  · intro x hx
    rcases (hreplaces.operations x).mp hx with rfl | ⟨hold, -⟩
    · rw [hreplaces.id]
      exact h.drawn.1 operation hop
    · exact h.drawn.1 x hold
  · intro x hx hqueued
    rcases (hreplaces.operations x).mp hx with rfl | ⟨hold, -⟩
    · rw [hfailed] at hqueued
      cases hqueued
    · exact h.queued x hold hqueued
  · intro x hx hover
    rcases (hreplaces.operations x).mp hx with rfl | ⟨hold, -⟩
    · rw [hreplaces.id]
      exact .inr ⟨left, loop, rfl⟩
    · exact .inl (h.settled hending x hold hover)

theorem gone_left {x : UUID} : Gone (acts ++ [.left id before]) x ↔ Gone acts x ∨ x = id := by
  rw [gone_append]
  refine or_congr_right ⟨?_, ?_⟩
  · rintro ⟨_, hact, hleaves⟩
    obtain rfl := mem_singleton.mp hact
    simpa [Action.leaves, eq_comm] using hleaves
  · rintro rfl
    exact ⟨_, mem_singleton.mpr rfl, by simp [Action.leaves]⟩

theorem once_left (honce : ∀ id, acts.countP (Action.leaves id) ≤ 1) (hgone : ¬ Gone acts id) (x : UUID) :
    (acts ++ [Action.left id before]).countP (Action.leaves x) ≤ 1 := by
  rw [countP_append]
  by_cases hx : x = id
  · subst hx
    rw [countP_eq_zero_of_not_gone hgone, Nat.zero_add]
    exact countP_le_length
  · have hnone : [Action.left id before].countP (Action.leaves x) = 0 := by
      rw [countP_singleton, if_neg (by simp [Action.leaves, Ne.symm hx])]
    rw [hnone]
    exact honce x

theorem spelled_snapshot (h : Fine w.memory) : ∀ file ∈ (w.snapshot workspaceId).files, Spelled file.2 := by
  intro _ hfile
  obtain ⟨row, hrow, rfl⟩ := mem_map.mp hfile
  exact h.spelled row (mem_filter.mp hrow).1

section

variable (h : Sound casing acts w)
include h

theorem Sound.of_phase (hphase : w.phase = phase) : phase.Ok casing acts w := by
  have hok := h.phase
  rw [hphase] at hok
  exact hok

theorem Sound.begins (hphase : w.phase = .tracking operation.id [] loop)
    (hop : operation ∈ w.memory.operations) : Sound casing (acts ++ [.left operation.id (w.snapshot operation.workspaceId)])
      ((w.save (w.memory.setState operation.id .moving)).enter (.renaming operation.id loop)) := by
  obtain ⟨hcalm, op, hin, hid, hqueued, hchecked, _, _, rfl, hqueue⟩ := h.of_phase hphase
  obtain rfl := Table.eq_of_key hin hop hid
  have halive : w.phase ≠ .dead := by simp [hphase]
  have hreplaces := replaces_setState hop .moving
  have hgone := h.queued op hop hqueued
  obtain ⟨happlied, hrevision⟩ : op.applied = 0 ∧ op.revision = none := by
    have hrevised := h.memory.revised op hop
    rw [Operation.Revised, hqueued] at hrevised
    exact hrevised
  have hfine := hreplaces.fine h.memory hop ⟨by simp [happlied], hrevision⟩
  have honly : ∀ x ∈ (w.memory.setState op.id .moving).operations, x.state = .moving → x = { op with state := .moving } := by
    intro x hx hmoving
    rcases (hreplaces.operations x).mp hx with rfl | ⟨hold, -⟩
    · rfl
    · exact absurd hmoving (hcalm x hold)
  have hqueued' : ∀ x ∈ (w.memory.setState op.id .moving).operations, x.state = .queued →
      ¬ Gone (acts ++ [.left op.id (w.snapshot op.workspaceId)]) x.id := by
    intro x hx hstate
    rcases (hreplaces.operations x).mp hx with rfl | ⟨hold, hne⟩
    · cases hstate
    · rw [gone_left, not_or]
      exact ⟨h.queued x hold hstate, hne⟩
  have hdrawn : ∀ x ∈ (w.memory.setState op.id .moving).operations, x.id ∈ w.drawn := by
    intro x hx
    rcases (hreplaces.operations x).mp hx with rfl | ⟨hold, -⟩
    · exact h.drawn.1 op hop
    · exact h.drawn.1 x hold
  have hunder : Underway casing (acts ++ [.left op.id (w.snapshot op.workspaceId)]) { op with state := .moving }
      (w.snapshot op.workspaceId) (w.memory.setState op.id .moving) (w.disk op.workspaceId) w.assetFile op.applied op.applied := by
    refine ⟨by simp, spelled_snapshot h.memory, hchecked, ?_, ?_, ?_⟩
    · rw [happlied]
      exact DiskAt.refl _ _
    · rw [happlied]
      exact (map_id' (w.snapshot op.workspaceId).files).symm
    · rw [happlied, ← h.assets halive]
      exact (map_id' (w.snapshot op.workspaceId).assets).symm
  refine ⟨hfine, hfine, fun _ => h.assets halive, ⟨hdrawn, hdrawn, fun x hx => ?_⟩, ?_, ?_, once_left h.once hgone, hqueued', ?_, ?_, ?_,
    ?_, ?_, rfl, ⟨_, hreplaces.mem, rfl, rfl⟩, ?_⟩
  · rcases gone_left.mp hx with hold | rfl
    · exact h.drawn.2.2 x hold
    · exact h.drawn.1 op hop
  · intro x hx hmoving
    rw [honly x hx hmoving]
    exact ⟨_, op.applied, op.applied, .inl rfl, .inl rfl, hunder⟩
  · intro x hx other hother hmoving hmoving'
    rw [honly x hx hmoving, honly other hother hmoving']
  · intro hdead
    cases hdead
  · intro id m disk hmem
    obtain ⟨⟨before, hleft⟩, hfree⟩ := h.renamed id m disk (by simpa using hmem)
    exact ⟨⟨before, mem_append_left _ hleft⟩, hfree⟩
  · intro x after hmem
    obtain ⟨before, hleft, hrest⟩ := h.ended x after (by simpa using hmem)
    exact ⟨before, mem_append_left _ hleft, hrest⟩
  · intro x hx hover
    rcases (hreplaces.operations x).mp hx with rfl | ⟨hold, -⟩
    · rcases hover with hover | hover <;> cases hover
    · obtain ⟨after, hmem⟩ := h.settled (by simp [hphase]) x hold hover
      exact .inl ⟨after, mem_append_left _ hmem⟩
  · intro x hx hover
    rcases (hreplaces.operations x).mp hx with rfl | ⟨hold, -⟩
    · rcases hover with hover | hover <;> cases hover
    · obtain ⟨after, hmem⟩ := h.settled (by simp [hphase]) x hold hover
      exact ⟨after, mem_append_left _ hmem⟩
  · exact hreplaces.queue ⟨(nodup_cons.mp hqueue.1).2, fun id hid => hqueue.2 id (mem_cons_of_mem _ hid)⟩
      (nodup_cons.mp hqueue.1).1

theorem Sound.renaming (hphase : w.phase = .renaming operation.id loop) (hop : operation ∈ w.memory.operations) :
    w.memory = w.file ∧ operation.state = .moving ∧ (∀ other ∈ w.memory.operations, other.state = .moving → other = operation) ∧
      loop.Ok w.memory ∧ ∃ before d a,
        (d = operation.applied ∨ d = operation.applied + 1 ∧ operation.applied < operation.moves.length) ∧
        (a = operation.applied ∨ a = d) ∧
        Underway casing acts operation before w.memory (w.disk operation.workspaceId) w.assets d a := by
  obtain ⟨hsame, ⟨op, hin, hid, hmoving⟩, hloop⟩ := h.of_phase hphase
  obtain rfl := Table.eq_of_key hin hop hid
  have halive : w.phase ≠ .dead := by simp [hphase]
  have hfile : op ∈ w.file.operations := hsame ▸ hop
  obtain ⟨before, d, a, hd, ha, hunder⟩ := h.underway op hfile hmoving
  rw [← hsame, ← h.assets halive] at hunder
  refine ⟨hsame, hmoving, fun other hother hmoves => ?_, hloop, before, d, a, hd, ha, hunder⟩
  rw [hsame] at hother
  exact h.single other hother op hfile hmoves hmoving

theorem Sound.renaming_done (hop : operation ∈ w.memory.operations)
    (hmove : operation.moves[operation.applied]? = some m)
    (hd : d = operation.applied ∨ d = operation.applied + 1 ∧ operation.applied < operation.moves.length)
    (hunder : Underway casing acts operation before journal disk w.assets d a) :
    disk.has (parts m.source) = true ∧ d = operation.applied ∨
      disk.has (parts m.source) = false ∧ disk.has (parts m.destination) = true ∧ d = operation.applied + 1 := by
  have hplanned := h.memory.planned operation hop
  rcases hd with rfl | ⟨rfl, -⟩
  · exact .inl ⟨hunder.disk.has_source hplanned hunder.checked hmove, rfl⟩
  · exact .inr ⟨hunder.disk.not_source hplanned hunder.checked hmove, hunder.disk.has_destination hplanned hunder.checked hmove, rfl⟩

end

theorem Underway.setDisk {made : Tree Name ℕ} {e : ℕ} (h : Underway casing acts operation before journal disk w.assets d a)
    (hdisk : DiskAt before.disk operation.moves e made) : Underway casing acts operation before journal made w.assets e a :=
  { h with disk := hdisk }

theorem Sound.setDisk (h : Sound casing acts w) (hphase : w.phase = .renaming operation.id loop) (hop : operation ∈ w.memory.operations)
    {e : ℕ} (he : e = operation.applied ∨ e = operation.applied + 1 ∧ operation.applied < operation.moves.length)
    (ha : a = operation.applied ∨ a = e) (hunder : Underway casing acts operation before w.memory disk w.assets e a)
    (hok : phase.Ok casing acts ((w.setDisk operation.workspaceId disk).enter phase)) (hdead : phase ≠ .dead) :
    Sound casing acts ((w.setDisk operation.workspaceId disk).enter phase) := by
  obtain ⟨hsame, _, honly, _, -⟩ := h.renaming hphase hop
  have halive : w.phase ≠ .dead := by simp [hphase]
  refine { h with assets := fun _ => h.assets halive, underway := ?_, asleep := fun hidle => absurd hidle hdead, finished := ?_, phase := hok }
  · intro x hx hstate
    change x ∈ w.file.operations at hx
    have hself : x = operation := honly x (hsame ▸ hx) hstate
    subst hself
    refine ⟨before, e, a, he, ha, ?_⟩
    change Underway casing acts x before w.file (if x.workspaceId = x.workspaceId then disk else _) w.assetFile e a
    rw [if_pos rfl, ← hsame, ← h.assets halive]
    exact hunder
  · intro x hx hover
    exact .inl (h.settled (by simp [hphase]) x hx hover)

theorem disk_setDisk (w : World) (workspaceId : String) (disk : Tree Name ℕ) : (w.setDisk workspaceId disk).disk workspaceId = disk :=
  if_pos rfl

theorem Sound.renames (h : Sound casing acts w) {src dst : List Name} (hphase : w.phase = .renaming operation.id loop)
    (hop : operation ∈ w.memory.operations) (hmove : operation.moves[operation.applied]? = some m)
    (hpending : pending casing (w.disk operation.workspaceId) m = .ok (some (src, dst)))
    (hmade : (w.disk operation.workspaceId).mkdirs (parents dst) = some made) (hdisk : made.rename src dst = some disk) :
    Sound casing (acts ++ [.renamed operation.id m (w.disk operation.workspaceId)])
      ((w.setDisk operation.workspaceId disk).enter (.rewriting operation.id loop)) := by
  obtain ⟨hsame, hmoving, -, hloop, before, d, a, hd, ha, hunder⟩ := h.renaming hphase hop
  have hplanned := h.memory.planned operation hop
  have hmem := mem_of_getElem? hmove
  have hlt : operation.applied < operation.moves.length := (List.getElem?_eq_some_iff.mp hmove).1
  rw [pending_eq hunder.checked hmem] at hpending
  rcases h.renaming_done hop hmove hd hunder with ⟨hsource, rfl⟩ | ⟨hsource, hdestination, -⟩
  · rw [if_pos hsource] at hpending
    split at hpending
    · cases hpending
    · rename_i hfree
      obtain ⟨rfl, rfl⟩ := Prod.mk.inj (Option.some.inj (Except.ok.inj hpending))
      have hafter : DiskAt before.disk operation.moves (operation.applied + 1) disk :=
        (hunder.disk.grow hmem (fun _ hpath => hpath) hmade).rename hplanned hmove hdisk
      have ha' : a = operation.applied := ha.elim id id
      have hnext := hunder.setDisk hafter
      have hsound : Sound casing acts ((w.setDisk operation.workspaceId disk).enter (.rewriting operation.id loop)) := by
        apply h.setDisk hphase hop (.inr ⟨rfl, hlt⟩) (.inl ha') hnext _ (by simp)
        refine ⟨hsame, ⟨operation, hop, rfl, hmoving, hlt, before, a, .inl ha', ?_⟩, hloop⟩
        change Underway casing acts operation before w.memory ((w.setDisk operation.workspaceId disk).disk operation.workspaceId) w.assets
          (operation.applied + 1) a
        rw [disk_setDisk]
        exact hnext
      apply hsound.tell
      · intro id
        rw [countP_eq_zero_of_not_gone]
        · exact Nat.zero_le 1
        · simp [Gone, Action.leaves]
      · intro id hgone
        simp [Gone, Action.leaves] at hgone
      · intro _ x _ hmem
        obtain ⟨rfl, rfl, rfl⟩ := Action.renamed.inj (mem_singleton.mp hmem)
        exact ⟨⟨before, hunder.left⟩, by simpa using hfree⟩
      · simp
  · rw [if_neg (by simp [hsource]), if_pos hdestination] at hpending
    cases Except.ok.inj hpending

end WorkAgent.Harness.Moves
