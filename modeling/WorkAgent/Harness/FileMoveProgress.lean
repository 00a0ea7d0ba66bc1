import WorkAgent.Harness.FileMoveExecution

namespace WorkAgent.Harness.Moves

open Library List Table
open Operation (Revised)

variable {casing : Casing} {w : World} {acts : List Action} {journal : Journal} {operation : Operation} {m : FileMove}
  {id : UUID} {workspaceId : String} {a d : ℕ} {loop : Loop} {phase : Phase} {saved left : Bool} {before : Snapshot}
  {error : String} {disk made : Tree Name ℕ}

theorem Sound.found (h : Sound casing acts w) (hphase : w.phase = .renaming operation.id loop) (hop : operation ∈ w.memory.operations)
    (hmove : operation.moves[operation.applied]? = some m) (hpending : pending casing (w.disk operation.workspaceId) m = .ok none) :
    Sound casing acts (w.enter (.rewriting operation.id loop)) := by
  obtain ⟨hsame, hmoving, -, hloop, before, d, a, hd, ha, hunder⟩ := h.renaming hphase hop
  have hlt : operation.applied < operation.moves.length := (List.getElem?_eq_some_iff.mp hmove).1
  rw [pending_eq hunder.checked (mem_of_getElem? hmove)] at hpending
  rcases h.renaming_done hop hmove hd hunder with ⟨hsource, -⟩ | ⟨-, -, rfl⟩
  · rw [if_pos hsource] at hpending
    split at hpending
    · cases hpending
    · cases Except.ok.inj hpending
  · have hfine := h.memory
    have hok : (Phase.rewriting operation.id loop).Ok casing acts (w.enter (.rewriting operation.id loop)) :=
      ⟨hsame, ⟨operation, hop, rfl, hmoving, hlt, before, a, ha, hunder⟩, hloop⟩
    refine h.hold (by simp [hphase]) hfine h.drawn.1 h.queued ?_ (by simp) hok
    exact fun x hx hover => .inl (h.settled (by simp [hphase]) x hx hover)

theorem Loop.Ok.drained (h : loop.Ok journal) (hop : operation ∈ journal.operations) (hstate : operation.state ≠ .queued) :
    (∀ workspaceId rest, loop = .drain workspaceId rest → Queue journal rest ∧ operation.id ∉ rest) ∧
      ∀ rest, loop = .restart rest → rest = [] := by
  constructor
  · rintro _ rest rfl
    exact ⟨h, Queue.not_mem h hop hstate⟩
  · rintro _ rfl
    exact h

section

variable (h : Sound casing acts w) (hphase : w.phase = .renaming operation.id loop) (hop : operation ∈ w.memory.operations)
  (hmove : operation.moves[operation.applied]? = some m)
include h hphase hop hmove

theorem Sound.moveThrows (hpending : pending casing (w.disk operation.workspaceId) m = .error error) :
    Sound casing acts (w.fails operation error true loop) := by
  obtain ⟨_, hmoving, honly, hloop, before, d, a, hd, ha, hunder⟩ := h.renaming hphase hop
  rw [pending_eq hunder.checked (mem_of_getElem? hmove)] at hpending
  rcases h.renaming_done hop hmove hd hunder with ⟨-, rfl⟩ | ⟨hsource, hdestination, -⟩
  · have ha' : a = operation.applied := ha.elim id id
    subst ha'
    obtain ⟨hdrain, hrestart⟩ := hloop.drained hop (by simp [hmoving])
    exact h.fails (by simp [hphase]) (by simp [hphase]) hop (.inr hmoving) (fun x hx hstate => by rw [honly x hx hstate])
      ⟨before, hunder⟩ hdrain hrestart
  · rw [if_neg (by simp [hsource]), if_pos hdestination] at hpending
    cases hpending

theorem Sound.renameFails {src dst : List Name} {count : ℕ}
    (hpending : pending casing (w.disk operation.workspaceId) m = .ok (some (src, dst)))
    (hmade : (w.disk operation.workspaceId).mkdirs ((parents dst).take count) = some made) :
    Sound casing acts ((w.setDisk operation.workspaceId made).fails operation error true loop) := by
  obtain ⟨hsame, hmoving, honly, hloop, before, d, a, hd, ha, hunder⟩ := h.renaming hphase hop
  have hmem := mem_of_getElem? hmove
  rw [pending_eq hunder.checked hmem] at hpending
  rcases h.renaming_done hop hmove hd hunder with ⟨hsource, rfl⟩ | ⟨hsource, hdestination, -⟩
  · rw [if_pos hsource] at hpending
    split at hpending
    · cases hpending
    · obtain ⟨rfl, rfl⟩ := Prod.mk.inj (Option.some.inj (Except.ok.inj hpending))
      have ha' : a = operation.applied := ha.elim id id
      subst ha'
      have hnext := hunder.setDisk (hunder.disk.grow hmem (fun _ hpath => mem_of_mem_take hpath) hmade)
      have hgrown : Sound casing acts ((w.setDisk operation.workspaceId made).enter (.renaming operation.id loop)) :=
        h.setDisk hphase hop (.inl rfl) (.inl rfl) hnext ⟨hsame, ⟨operation, hop, rfl, hmoving⟩, hloop⟩ (by simp)
      obtain ⟨hdrain, hrestart⟩ := hloop.drained hop (by simp [hmoving])
      have hunder' : ∃ before, Underway casing acts operation before w.memory
          ((w.setDisk operation.workspaceId made).disk operation.workspaceId) w.assets operation.applied operation.applied := by
        rw [disk_setDisk]
        exact ⟨before, hnext⟩
      exact hgrown.fails (by simp [World.enter]) (by simp [World.enter]) hop (.inr hmoving)
        (fun x hx hstate => by rw [honly x hx hstate]) hunder' hdrain hrestart
  · rw [if_neg (by simp [hsource]), if_pos hdestination] at hpending
    cases Except.ok.inj hpending

end

theorem spelled_rewrite (h : ∀ row ∈ journal.files, Spelled row.path) (hm : Spelled m.destination) :
    ∀ row ∈ (journal.rewrite casing workspaceId m).files, Spelled row.path := by
  intro _ hrow
  unfold Journal.rewrite at hrow
  dsimp only at hrow
  rw [mem_update] at hrow
  obtain ⟨old, hold, rfl⟩ := hrow
  rw [if_pos trivial]
  unfold rewrite
  split
  · exact h old hold
  · intro hmem
    rcases mem_append.mp hmem with hmem | hmem
    · exact hm hmem
    · exact h old hold (mem_of_mem_drop hmem)

theorem Underway.follow (h : Underway casing acts operation before w.memory (w.disk operation.workspaceId) w.assets
      (operation.applied + 1) a) (hmove : operation.moves[operation.applied]? = some m)
    (hplanned : Planned operation.moves) (ha : a = operation.applied ∨ a = operation.applied + 1)
    (hcased : ∀ row ∈ w.memory.files, row.workspaceId = operation.workspaceId → row.deleted = false →
      covers casing m.source row.path = true → Within m.source row.path) :
    (w.memory.rewrite casing operation.workspaceId m).live operation.workspaceId =
        before.files.map (fun file => (file.1, followed (operation.moves.take (operation.applied + 1)) file.2)) ∧
      assetPaths (w.changed operation.workspaceId m) operation.workspaceId =
        before.assets.map (fun asset => (asset.1, followed (operation.moves.take (operation.applied + 1)) asset.2)) := by
  have hmem := mem_of_getElem? hmove
  constructor
  · rw [live_rewrite hcased, h.files, map_map, take_succ_of_getElem? hmove]
    apply map_congr_left
    intro _ _
    rw [followed_concat]
    rfl
  · rw [assetPaths_changed, h.assets, map_map]
    apply map_congr_left
    intro _ _
    rcases ha with rfl | rfl
    · rw [take_succ_of_getElem? hmove, followed_concat]
      rfl
    · have hout : ¬ Within m.source m.destination := fun hin => hplanned.outside m hmem m hmem (parts_above hin)
      have hback : ¬ Within m.destination m.source := fun hin => h.checked.not_above hmem hmem (parts_above hin)
      rw [take_succ_of_getElem? hmove, followed_concat]
      dsimp only [Function.comp]
      rw [followed_concat, FileMove.follow_follow hout hback]

section

variable (h : Sound casing acts w)
include h

theorem Sound.rewrites (hphase : w.phase = .rewriting operation.id loop) (hop : operation ∈ w.memory.operations)
    (hmove : operation.moves[operation.applied]? = some m)
    (hcased : ∀ row ∈ w.memory.files, row.workspaceId = operation.workspaceId → row.deleted = false →
      covers casing m.source row.path = true → Within m.source row.path) :
    Sound casing acts { w with
      memory := (w.memory.rewrite casing operation.workspaceId m).setApplied operation.id (operation.applied + 1)
      assets := w.changed operation.workspaceId m
      assetFile := w.changed operation.workspaceId m
      phase := .checkpoint operation.id loop } := by
  obtain ⟨hsame, ⟨op, hin, hid, hmoving, hlt, before, a, ha, hunder⟩, hloop⟩ := h.of_phase hphase
  obtain rfl := eq_of_key hin hop hid
  have halive : w.phase ≠ .dead := by simp [hphase]
  have hplanned := h.memory.planned op hop
  obtain ⟨hfiles, hassets⟩ := hunder.follow hmove hplanned ha hcased
  have hkept : op ∈ (w.memory.rewrite casing op.workspaceId m).operations := hop
  have hreplaces := replaces_setApplied hkept (op.applied + 1)
  have hfine : Fine (w.memory.rewrite casing op.workspaceId m) :=
    ⟨spelled_rewrite h.memory.spelled (hplanned.spelled m (mem_of_getElem? hmove)).2, h.memory.planned, h.memory.revised⟩
  have hrevision : op.revision = none := by
    have hrevised := h.memory.revised op hop
    rw [Revised, hmoving] at hrevised
    exact hrevised.2
  have hrevised : Revised { op with applied := op.applied + 1 } := by
    rw [Revised]
    simp only [hmoving]
    exact ⟨hlt, hrevision⟩
  have honly : ∀ x ∈ w.memory.operations, x.state = .moving → x = op := by
    intro x hx hstate
    rw [hsame] at hx hop
    exact h.single x hx op hop hstate hmoving
  refine ⟨hreplaces.fine hfine hop hrevised, h.file, fun _ => rfl, ⟨?_, h.drawn.2⟩, ?_, h.single, h.once, ?_, fun hdead => ?_, h.renamed,
    h.ended, ?_, h.overFile, ⟨{ op with applied := op.applied + 1 }, hreplaces.mem, rfl, hmoving, before, ?_⟩, ?_, ?_⟩
  · intro x hx
    rcases (hreplaces.operations x).mp hx with rfl | ⟨hold, -⟩
    · exact h.drawn.1 op hop
    · exact h.drawn.1 x hold
  · intro x hx hstate
    change x ∈ w.file.operations at hx
    obtain rfl := honly x (hsame ▸ hx) hstate
    rw [hsame] at hunder
    refine ⟨before, x.applied + 1, x.applied + 1, .inr ⟨rfl, hlt⟩, .inr rfl, ?_⟩
    exact { hunder with assets := hassets }
  · intro x hx hqueued
    rcases (hreplaces.operations x).mp hx with rfl | ⟨hold, -⟩
    · rw [hmoving] at hqueued
      cases hqueued
    · exact h.queued x hold hqueued
  · cases hdead
  · intro x hx hover
    rcases (hreplaces.operations x).mp hx with rfl | ⟨hold, -⟩
    · rw [hmoving] at hover
      rcases hover with hover | hover <;> cases hover
    · exact .inl (h.settled (by simp [hphase]) x hold hover)
  · refine { hunder with files := ?_, assets := hassets }
    rw [hreplaces.live]
    exact hfiles
  · intro x hx hstate
    rcases (hreplaces.operations x).mp hx with rfl | ⟨hold, -⟩
    · rfl
    · rw [honly x hold hstate]
  · exact hreplaces.loop_ok hloop hop (by simp [hmoving])

theorem Sound.checkpoints (hphase : w.phase = .checkpoint id loop) :
    Sound casing acts ((w.save w.memory).enter (.renaming id loop)) := by
  obtain ⟨⟨op, hop, rfl, hmoving, before, hunder⟩, honly, hloop⟩ := h.of_phase hphase
  have hself : ∀ x ∈ w.memory.operations, x.state = .moving → x = op :=
    fun x hx hstate => eq_of_key hx hop (honly x hx hstate)
  apply h.save (by simp [hphase]) h.memory h.drawn.1 h.queued (h.settled (by simp [hphase])) _ _ (by simp)
  · exact ⟨rfl, ⟨op, hop, rfl, hmoving⟩, hloop⟩
  · intro x hx other hother hstate hstate'
    rw [hself x hx hstate, hself other hother hstate']
  · intro x hx hstate
    rw [hself x hx hstate]
    exact ⟨before, hunder⟩

theorem Sound.checkpointFails (hphase : w.phase = .checkpoint operation.id loop)
    (hop : operation ∈ w.memory.operations) : Sound casing acts (w.fails operation error true loop) := by
  obtain ⟨⟨_, hin, hid, hmoving, before, hunder⟩, honly, hloop⟩ := h.of_phase hphase
  obtain rfl := eq_of_key hin hop hid
  obtain ⟨hdrain, hrestart⟩ := hloop.drained hop (by simp [hmoving])
  exact h.fails (by simp [hphase]) (by simp [hphase]) hop (.inr hmoving) honly ⟨before, hunder⟩ hdrain hrestart

theorem Sound.completes (hphase : w.phase = .renaming operation.id loop) (hop : operation ∈ w.memory.operations)
    (hmoves : operation.moves.length ≤ operation.applied) :
    Sound casing acts ((w.hold (w.memory.complete operation.id)).enter (.ending operation.id true loop)) := by
  obtain ⟨_, hmoving, honly, hloop, before, d, a, hd, ha, hunder⟩ := h.renaming hphase hop
  have hlength : operation.applied = operation.moves.length := by
    have hrevised := h.memory.revised operation hop
    rw [Revised, hmoving] at hrevised
    exact Nat.le_antisymm hrevised.1 hmoves
  have hd' : d = operation.applied := by
    rcases hd with hd | ⟨-, _⟩
    · exact hd
    · omega
  subst hd'
  have ha' : a = operation.applied := ha.elim id id
  subst ha'
  have hreplaces := replaces_complete hop
  apply h.hold (by simp [hphase]) (hreplaces.fine h.memory hop _) _ _ _ (by simp)
  · refine ⟨?_, ⟨_, hreplaces.mem, rfl, .inl rfl, before, hunder.replace hreplaces rfl⟩, hreplaces.loop_ok hloop hop (by simp [hmoving])⟩
    intro x hx hstate
    rcases (hreplaces.operations x).mp hx with rfl | ⟨hold, hne⟩
    · cases hstate
    · exact hne (by rw [honly x hold hstate])
  · exact ⟨hlength, _, rfl⟩
  · intro x hx
    rcases (hreplaces.operations x).mp hx with rfl | ⟨hold, -⟩
    · exact h.drawn.1 operation hop
    · exact h.drawn.1 x hold
  · intro x hx hqueued
    rcases (hreplaces.operations x).mp hx with rfl | ⟨hold, -⟩
    · cases hqueued
    · exact h.queued x hold hqueued
  · intro x hx hover
    rcases (hreplaces.operations x).mp hx with rfl | ⟨hold, -⟩
    · exact .inr ⟨true, loop, rfl⟩
    · exact .inl (h.settled (by simp [hphase]) x hold hover)

theorem Sound.tellsEnd (hphase : w.phase = .ending operation.id left loop) (hop : operation ∈ w.memory.operations) :
    Sound casing (acts ++ ((if left then [] else [.left operation.id (w.snapshot operation.workspaceId)]) ++
      [.ended operation (w.snapshot operation.workspaceId)])) (w.enter .idle) := by
  obtain ⟨hcalm, ⟨op, hin, hid, hstate, hleft⟩, -⟩ := h.of_phase hphase
  obtain rfl := eq_of_key hin hop hid
  have hplanned := h.memory.planned op hop
  have hrevised := h.memory.revised op hop
  have hnot : op.state ≠ .queued := by
    rcases hstate with hstate | hstate <;> simp [hstate]
  have hleaves : ∀ id, Gone ((if left then [] else [.left op.id (w.snapshot op.workspaceId)]) ++
      [.ended op (w.snapshot op.workspaceId)]) id → left = false ∧ id = op.id := by
    rintro id ⟨_, hact, hleaves⟩
    cases left with
    | true =>
      obtain rfl := mem_singleton.mp hact
      cases hleaves
    | false =>
      rcases mem_cons.mp hact with rfl | hact
      · exact ⟨rfl, by simpa [Action.leaves, eq_comm] using hleaves⟩
      · obtain rfl := mem_singleton.mp hact
        cases hleaves
  refine h.tellAs ?_ ?_ ?_ ?_ ?_ (by simp [hphase]) hcalm
  · intro id
    cases left with
    | true => exact Nat.zero_le 1
    | false =>
      change [Action.left op.id (w.snapshot op.workspaceId), .ended op (w.snapshot op.workspaceId)].countP (Action.leaves id) ≤ 1
      rw [countP_cons]
      change 0 + _ ≤ 1
      split <;> simp
  · intro id hnew
    obtain ⟨rfl, rfl⟩ := hleaves id hnew
    refine ⟨by simp, hleft.2.1, h.drawn.1 op hop, fun x hx hxid => ?_⟩
    rw [eq_of_key hx hop hxid]
    exact hnot
  · intro _ m _ hmem
    cases left <;> simp at hmem
  · intro x after hmem
    obtain ⟨rfl, rfl⟩ : x = op ∧ after = w.snapshot op.workspaceId := by
      cases left <;> simpa using hmem
    cases left with
    | true =>
      obtain ⟨before, hunder⟩ := hleft
      exact ⟨before, mem_append_left _ hunder.left, hunder.spelled, hplanned, hrevised, fun _ => hunder.checked, hunder.took⟩
    | false =>
      refine ⟨w.snapshot x.workspaceId, by simp, spelled_snapshot h.memory, hplanned, hrevised, fun hne => absurd hleft.1 hne, ?_⟩
      rw [hleft.1]
      exact ⟨fun e he => ⟨e, he, rfl, rfl⟩, (map_id' _).symm, (map_id' _).symm, fun e he _ => ⟨e, he, rfl, rfl⟩⟩
  · intro x hx hover
    rcases h.finished x hx hover with ⟨after, hmem⟩ | ⟨_, _, hending⟩
    · exact .inl ⟨after, mem_append_left _ hmem⟩
    · rw [hphase] at hending
      rw [eq_of_key hx hop (Phase.ending.inj hending).1.symm]
      exact .inl ⟨w.snapshot op.workspaceId, by simp⟩

end

theorem fine_empty : Fine .empty where
  spelled := forall_mem_empty
  planned := forall_mem_empty
  revised := forall_mem_empty

theorem Sound.dies (h : Sound casing acts w) (hsynced : ∀ op ∈ w.file.operations, op.state = .queued → ¬ Gone acts op.id) :
    Sound casing acts w.dead :=
  { h with
    memory := fine_empty
    assets := fun halive => absurd rfl halive
    drawn := ⟨forall_mem_empty, h.drawn.2⟩
    queued := forall_mem_empty
    asleep := fun _ => hsynced
    finished := forall_mem_empty
    phase := rfl }

theorem mem_quiet_saving : ∀ act ∈ saving saved, act.quiet = true := by
  cases saved <;> simp [saving, Action.quiet]

def Synced (w : World) : Prop :=
  ∀ op ∈ w.file.operations, op.state = .queued → ∃ other ∈ w.memory.operations, other.id = op.id ∧
    (other.state = .queued ∨ ∃ loop, w.phase = .ending op.id false loop)

theorem Sound.ends (h : Sound casing acts w) (hphase : w.phase = .ending operation.id left loop) (hop : operation ∈ w.memory.operations)
    (hsynced : (w.leave saved loop).phase = .dead → Synced w) :
    Sound casing (acts ++ ((if left then [] else [.left operation.id (w.snapshot operation.workspaceId)]) ++
      .ended operation (w.snapshot operation.workspaceId) :: saving saved)) (w.leave saved loop) := by
  obtain ⟨hcalm, ⟨_, _, _, -, hleft⟩, hloop⟩ := h.of_phase hphase
  have hidle := h.tellsEnd hphase hop
  have hlabel : acts ++ ((if left then [] else [.left operation.id (w.snapshot operation.workspaceId)]) ++
      .ended operation (w.snapshot operation.workspaceId) :: saving saved) =
      (acts ++ ((if left then [] else [.left operation.id (w.snapshot operation.workspaceId)]) ++
        [.ended operation (w.snapshot operation.workspaceId)])) ++ saving saved := by
    simp
  rw [hlabel]
  apply Sound.calm _ mem_quiet_saving
  cases saved with
  | true =>
    have hok : (Phase.looping loop).Ok casing (acts ++ ((if left then [] else [.left operation.id (w.snapshot operation.workspaceId)]) ++
        [.ended operation (w.snapshot operation.workspaceId)])) (((w.enter .idle).write w.memory true).enter (.looping loop)) := by
      cases loop with
      | drain => exact ⟨hcalm, hloop⟩
      | restart => exact ⟨rfl, .inl ⟨hloop, hcalm⟩⟩
    exact hidle.write (by simp [World.enter]) h.memory hcalm h.drawn.1 hidle.queued (hidle.settled (by simp [World.enter])) (by simp) hok
  | false =>
    cases loop with
    | drain => exact hidle
    | restart =>
      apply hidle.dies
      intro x hx hqueued
      obtain ⟨other, hother, hsame, hstate | ⟨_, hending⟩⟩ := hsynced rfl x hx hqueued
      · rw [← hsame]
        exact hidle.queued other hother hstate
      · rw [hphase] at hending
        obtain ⟨-, rfl, -⟩ := Phase.ending.inj hending
        obtain ⟨_, _, hdrain⟩ := hleft.2.2
        cases hdrain

theorem filter_eq_of_single {ops : List Operation} {p : Operation → Bool} (hnodup : (ops.map Operation.id).Nodup)
    (hsingle : ∀ op ∈ ops, ∀ other ∈ ops, p op = true → p other = true → op = other) :
    ops.filter p = [] ∨ ∃ op ∈ ops, p op = true ∧ ops.filter p = [op] := by
  cases hfilter : ops.filter p with
  | nil => exact .inl rfl
  | cons op rest =>
    have hmem : ∀ x ∈ op :: rest, x ∈ ops ∧ p x = true := by
      intro x hx
      rw [← hfilter] at hx
      exact mem_filter.mp hx
    obtain ⟨hop, hp⟩ := hmem op mem_cons_self
    refine .inr ⟨op, hop, hp, ?_⟩
    have hdistinct : (op :: rest).Nodup := hfilter ▸ (hnodup.of_map Operation.id).filter p
    cases rest with
    | nil => rfl
    | cons other =>
      obtain ⟨hother, hp'⟩ := hmem other (by simp)
      rw [hsingle op hop other hother hp hp'] at hdistinct
      exact absurd mem_cons_self (nodup_cons.mp hdistinct).1

theorem Sound.starts (h : Sound casing acts w) (hphase : w.phase = .dead) : Sound casing acts { w with
    memory := w.file, assets := w.assetFile, phase := .looping (.restart (w.file.moving.map Operation.id)) } :=
  { h with
    memory := h.file
    assets := fun _ => rfl
    drawn := ⟨h.drawn.2.1, h.drawn.2⟩
    queued := h.asleep hphase
    asleep := fun hdead => by cases hdead
    finished := fun op hop hstate => .inl (h.overFile op hop hstate)
    phase := by
      refine ⟨rfl, ?_⟩
      rcases filter_eq_of_single (p := fun op => op.state = .moving) w.file.operations.nodup (fun op hop other hother hmoves hmoves' =>
        h.single op hop other hother (of_decide_eq_true hmoves) (of_decide_eq_true hmoves')) with hnone | ⟨op, hop, hmoves, hone⟩
      · refine .inl ⟨?_, fun op hop hmoves => ?_⟩
        · unfold Journal.moving
          rw [hnone]
          rfl
        · exact filter_eq_nil_iff.mp hnone op hop (decide_eq_true hmoves)
      · refine .inr ⟨op, hop, of_decide_eq_true hmoves, ?_⟩
        unfold Journal.moving
        rw [hone]
        rfl }

theorem Sound.outside (h : Sound casing acts w) (hphase : w.phase = .idle ∨ w.phase = .dead) (hcalm : Calm w.file) :
    Sound casing acts (w.setDisk workspaceId disk) :=
  { h with
    underway := fun op hop hstate => absurd hstate (hcalm op hop)
    phase := by
      change w.phase.Ok casing acts (w.setDisk workspaceId disk)
      rcases hphase with hphase | hphase
      · have hok := h.of_phase hphase
        rw [hphase]
        exact hok
      · have hok := h.of_phase hphase
        rw [hphase]
        exact hok }

end WorkAgent.Harness.Moves
