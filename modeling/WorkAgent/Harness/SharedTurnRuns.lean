import WorkAgent.Harness.SharedTurns

namespace WorkAgent.Harness

open Library Quota List

structure JournalEntries.Agrees (x : String) (m m' : JournalEntries) : Prop where
  mem : ∀ e, e.runId = x → (e ∈ m'.table ↔ e ∈ m.table)
  units : ∀ e, e.runId = x → m'.actualUnits e = m.actualUnits e

namespace JournalEntries.Agrees

theorem refl (x : String) (m : JournalEntries) : Agrees x m m := ⟨fun _ _ => Iff.rfl, fun _ _ => rfl⟩

theorem trans {x : String} {m m' m'' : JournalEntries} (h : Agrees x m m') (h' : Agrees x m' m'') :
    Agrees x m m'' :=
  ⟨fun e he => (h'.mem e he).trans (h.mem e he), fun e he => (h'.units e he).trans (h.units e he)⟩

end JournalEntries.Agrees

namespace SharedTurnQuotaJournal

variable {x : String} {j j' : SharedTurnQuotaJournal}

structure Frame (x : String) (j j' : SharedTurnQuotaJournal) : Prop where
  memory : j.memory.Agrees x j'.memory
  file : j.file.Agrees x j'.file ∨ j'.memory.Agrees x j'.file

namespace Frame

theorem refl (x : String) (j : SharedTurnQuotaJournal) : Frame x j j := ⟨.refl x _, .inl (.refl x _)⟩

theorem trans {j'' : SharedTurnQuotaJournal} (h : Frame x j j') (h' : Frame x j' j'') : Frame x j j'' := by
  refine ⟨h.memory.trans h'.memory, ?_⟩
  rcases h'.file with hfile | hfile
  · rcases h.file with hold | hsaved
    · exact .inl (hold.trans hfile)
    · right
      have hback : j''.memory.Agrees x j'.memory :=
        ⟨fun e he => (h'.memory.mem e he).symm, fun e he => (h'.memory.units e he).symm⟩
      exact hback.trans (hsaved.trans hfile)
  · exact .inr hfile

end Frame

@[simp] theorem memory_save (written : Bool) : (j.save written).memory = j.memory := by
  cases written <;> rfl

theorem frame_save (written : Bool) : Frame x j (j.save written) := by
  cases written with
  | false => exact .refl x j
  | true => exact ⟨.refl x _, .inr (.refl x _)⟩

variable {entry : SharedTurnQuotaEntry}

theorem mem_set_iff {e : SharedTurnQuotaEntry} (h : entry.runId ≠ x ∨ entry ∈ j.memory.table)
    (he : e.runId = x) : e ∈ j.memory.table.set entry ↔ e ∈ j.memory.table := by
  rw [Table.mem_set]
  constructor
  · rintro (rfl | ⟨hmem, -⟩)
    · exact h.resolve_left (fun hne => hne he)
    · exact hmem
  · intro hmem
    by_cases hk : e.runId = entry.runId
    · have hentry := h.resolve_left (fun hne => hne (hk.symm.trans he))
      exact .inl (Table.eq_of_key hmem hentry hk)
    · exact .inr ⟨hmem, hk⟩

theorem frame_track {written : Bool}
    (h : entry.runId ≠ x ∨ entry ∈ j.memory.table) : Frame x j (j.track entry written) := by
  have hset : Frame x j { j with memory := { j.memory with table := j.memory.table.set entry } } := by
    refine ⟨⟨?_, fun _ _ => rfl⟩, .inl (.refl x _)⟩
    intro e he
    exact mem_set_iff h he
  exact hset.trans (frame_save written)

theorem frame_release {runId : String} {written : Bool} (h : runId ≠ x) :
    Frame x j (j.release runId written) := by
  unfold release
  split
  · exact .refl x j
  · have hdelete : Frame x j { j with
        memory := { j.memory with table := j.memory.table.delete (fun e => e.runId = runId) } } := by
      refine ⟨⟨?_, fun _ _ => rfl⟩, .inl (.refl x _)⟩
      intro e he
      rw [Table.mem_delete]
      constructor
      · exact And.left
      · intro hmem
        exact ⟨hmem, fun hrun => h (hrun.symm.trans he)⟩
    exact hdelete.trans (frame_save written)

theorem frame_assign {actualUnits : Option ℕ} (h : entry.runId ≠ x) :
    Frame x j (j.assign entry actualUnits) := by
  refine ⟨⟨fun _ _ => Iff.rfl, ?_⟩, .inl (.refl x _)⟩
  intro e he
  apply Function.update_of_ne
  rintro rfl
  exact h he

theorem frame_allocate {request : SharedTurnRuntimeRequest} (h : request.runId ≠ x) :
    Frame x j (j.allocate request) := by
  unfold allocate
  split
  · exact .refl x j
  · have hassign : Frame x j (j.assign (request.entry j.next) none) := frame_assign h
    exact ⟨hassign.memory, hassign.file⟩

theorem entryFor_runId (request : SharedTurnRuntimeRequest) : (j.entryFor request).runId = request.runId := by
  unfold entryFor
  cases h : j.memory.table.find? request.runId with
  | none => rfl
  | some => exact (Table.find?_eq_some.mp h).2

theorem mem_track (entry : SharedTurnQuotaEntry) (written : Bool) :
    entry ∈ (j.track entry written).memory.table := by
  unfold track
  rw [memory_save]
  exact Table.mem_set.mpr (.inl rfl)

theorem mem_file_track (entry : SharedTurnQuotaEntry) : entry ∈ (j.track entry true).file.table :=
  Table.mem_set.mpr (.inl rfl)

end SharedTurnQuotaJournal

def Event.run : Event → String
  | .invoked runId _ => runId
  | .succeeded runId _ => runId
  | .failed runId => runId
  | .settle runId _ => runId

def Event.invokes (x : String) : Event → Bool
  | .invoked runId _ => runId = x
  | _ => false

theorem Event.run_of_invokes {x : String} {ev : Event} (h : ev.invokes x = true) : ev.run = x := by
  cases ev <;> simp_all [invokes, run]

structure Orderly (sid : String) (posted : List Call) (r : Runtime) : Prop where
  reserve : ∀ t ∈ r.turns, ∀ n, t.awaits = .reserve n →
    ∃ env, postReserve sid n env (t.entry.reserveRequest t.engine) ∈ posted
  settle : ∀ t ∈ r.turns, ∀ n units, t.awaits = .settle n units →
    ∃ env, postSettle sid n env (t.entry.settleRequest units) ∈ posted
  lookup : ∀ p n, r.reconciling = some p → p.awaits = .lookup n →
    ∃ env, postLookup sid n env p.entry.runId ∈ posted
  recovery : ∀ p n units, r.reconciling = some p → p.awaits = .settle n units →
    ∃ env, postSettle sid n env (p.entry.settleRequest units) ∈ posted
  active : ∀ t ∈ r.turns, t.entry.runId ∈ r.active
  distinct : (r.turns.map (fun t => t.entry.runId)).Nodup

theorem resume_cases {sid : String} {name : ℕ} {env : ℕ → Env} {r r' : Runtime}
    {rest : List SharedTurnQuotaEntry} {requests : List Call}
    (h : r.resume sid name env rest = (requests, r')) :
    (requests = [] ∧ r' = { r with reconciling := none }) ∨
    ∃ e left, (∀ y ∈ e :: left, y ∈ rest) ∧ e.runId ∉ r.active ∧
      requests = [postLookup sid name env e.runId] ∧
      r' = { r with reconciling := some ⟨e, .lookup name, left⟩ } := by
  unfold Runtime.resume at h
  have hsub := (dropWhile_suffix (l := rest) (fun e => decide (e.runId ∈ r.active))).subset
  have hhead := head?_dropWhile_not (fun e : SharedTurnQuotaEntry => decide (e.runId ∈ r.active)) rest
  generalize rest.dropWhile (fun e => decide (e.runId ∈ r.active)) = left at h hsub hhead
  cases left with
  | nil =>
    cases h
    exact .inl ⟨rfl, rfl⟩
  | cons e left =>
    cases h
    refine .inr ⟨e, left, fun y hy => hsub hy, ?_, rfl, rfl⟩
    simpa using hhead

theorem mem_leave {r : Runtime} {before after : List Turn} {t t' : Turn} (ht : r.turns = before ++ t :: after)
    (h : t' ∈ before ++ after) : t' ∈ r.turns := by
  rw [ht]
  rcases mem_append.mp h with h | h
  · exact mem_append_left _ h
  · exact mem_append_right _ (mem_cons_of_mem t h)

theorem mem_wait {r : Runtime} {before after : List Turn} {t t' : Turn} {awaits : Await}
    (h : t' ∈ (r.wait before after t awaits).turns) :
    t' ∈ before ++ after ∨ t' = { t with awaits := awaits } := by
  rcases mem_append.mp h with h | h
  · exact .inl (mem_append_left _ h)
  · rcases mem_cons.mp h with h | h
    · exact .inr h
    · exact .inl (mem_append_right _ h)

namespace Orderly

variable {sid : String} {posted posted' : List Call} {r r' : Runtime}

theorem of_eq (h : Orderly sid posted r) (hp : posted ⊆ posted') (ht : r'.turns = r.turns)
    (ha : r'.active = r.active) (hr : r'.reconciling = r.reconciling) : Orderly sid posted' r' where
  reserve t hmem n hn := by
    rw [ht] at hmem
    obtain ⟨env, hpost⟩ := h.reserve t hmem n hn
    exact ⟨env, hp hpost⟩
  settle t hmem n units hn := by
    rw [ht] at hmem
    obtain ⟨env, hpost⟩ := h.settle t hmem n units hn
    exact ⟨env, hp hpost⟩
  lookup p n hrec hn := by
    rw [hr] at hrec
    obtain ⟨env, hpost⟩ := h.lookup p n hrec hn
    exact ⟨env, hp hpost⟩
  recovery p n units hrec hn := by
    rw [hr] at hrec
    obtain ⟨env, hpost⟩ := h.recovery p n units hrec hn
    exact ⟨env, hp hpost⟩
  active t hmem := by
    rw [ht] at hmem
    rw [ha]
    exact h.active t hmem
  distinct := by
    rw [ht]
    exact h.distinct

theorem log (h : Orderly sid posted r) (event : Event) : Orderly sid posted (r.log event) :=
  h.of_eq (List.Subset.refl _) rfl rfl rfl

theorem release (h : Orderly sid posted r) (runId : String) (written : Bool) :
    Orderly sid posted (r.release runId written) := h.of_eq (List.Subset.refl _) rfl rfl rfl

variable {before after : List Turn} {t : Turn}

section

variable (h : Orderly sid posted r)
include h

theorem ne_of_distinct (ht : r.turns = before ++ t :: after) {t' : Turn}
    (hmem : t' ∈ before ++ after) : t'.entry.runId ≠ t.entry.runId := by
  have hd := h.distinct
  rw [ht, map_append, map_cons, nodup_middle, nodup_cons] at hd
  intro heq
  apply hd.1
  rw [← map_append, ← heq]
  exact mem_map_of_mem hmem

theorem leave (ht : r.turns = before ++ t :: after) :
    Orderly sid posted (r.leave before after t.entry.runId) := by
  have hmem (t' : Turn) (h' : t' ∈ before ++ after) : t' ∈ r.turns := mem_leave ht h'
  refine ⟨fun t' h' => h.reserve t' (hmem t' h'), fun t' h' => h.settle t' (hmem t' h'), h.lookup, h.recovery,
    ?_, ?_⟩
  · intro t' h'
    apply mem_filter.mpr
    exact ⟨h.active t' (hmem t' h'), by simpa using h.ne_of_distinct ht h'⟩
  · have hd := h.distinct
    rw [ht, map_append, map_cons, nodup_middle, nodup_cons] at hd
    simpa [Runtime.leave] using hd.2

theorem wait (ht : r.turns = before ++ t :: after) {awaits : Await}
    (hp : posted ⊆ posted')
    (hreserve : ∀ n, awaits = .reserve n →
      ∃ env, postReserve sid n env (t.entry.reserveRequest t.engine) ∈ posted')
    (hsettle : ∀ n units, awaits = .settle n units →
      ∃ env, postSettle sid n env (t.entry.settleRequest units) ∈ posted') :
    Orderly sid posted' (r.wait before after t awaits) := by
  have hmem (t' : Turn) (h' : t' ∈ (r.wait before after t awaits).turns) :
      t' ∈ r.turns ∨ t' = { t with awaits := awaits } := (mem_wait h').imp_left (mem_leave ht)
  refine ⟨?_, ?_, ?_, ?_, ?_, ?_⟩
  · intro t' h' n hn
    rcases hmem t' h' with h' | rfl
    · obtain ⟨env, hpost⟩ := h.reserve t' h' n hn
      exact ⟨env, hp hpost⟩
    · exact hreserve n hn
  · intro t' h' n units hn
    rcases hmem t' h' with h' | rfl
    · obtain ⟨env, hpost⟩ := h.settle t' h' n units hn
      exact ⟨env, hp hpost⟩
    · exact hsettle n units hn
  · intro p n hrec hn
    obtain ⟨env, hpost⟩ := h.lookup p n hrec hn
    exact ⟨env, hp hpost⟩
  · intro p n units hrec hn
    obtain ⟨env, hpost⟩ := h.recovery p n units hrec hn
    exact ⟨env, hp hpost⟩
  · intro t' h'
    rcases hmem t' h' with h' | rfl
    · exact h.active t' h'
    · apply h.active t
      rw [ht]
      simp
  · have hd := h.distinct
    rw [ht] at hd
    simpa [Runtime.wait] using hd

variable {name : ℕ} {env : ℕ → Env} {requests : List Call}

theorem resume {rest : List SharedTurnQuotaEntry} (hr : r.resume sid name env rest = (requests, r')) :
    Orderly sid (requests ++ posted) r' := by
  rcases resume_cases hr with ⟨rfl, rfl⟩ | ⟨e, _, -, -, rfl, rfl⟩
  · refine { h with lookup := ?_, recovery := ?_ }
    · intro p n hrec
      cases hrec
    · intro p n units hrec
      cases hrec
  · refine ⟨?_, ?_, ?_, ?_, h.active, h.distinct⟩
    · intro t ht n hn
      obtain ⟨env', hpost⟩ := h.reserve t ht n hn
      exact ⟨env', mem_cons_of_mem _ hpost⟩
    · intro t ht n units hn
      obtain ⟨env', hpost⟩ := h.settle t ht n units hn
      exact ⟨env', mem_cons_of_mem _ hpost⟩
    · intro p n hrec hn
      cases hrec
      cases hn
      exact ⟨env, mem_cons_self⟩
    · intro p n _ hrec hn
      cases hrec
      cases hn

theorem recover {p : Recovery} {units : ℕ} :
    Orderly sid (postSettle sid name env (p.entry.settleRequest units) :: posted)
      { r with reconciling := some { p with awaits := .settle name units } } := by
  refine ⟨?_, ?_, ?_, ?_, h.active, h.distinct⟩
  · intro t ht n hn
    obtain ⟨env', hpost⟩ := h.reserve t ht n hn
    exact ⟨env', mem_cons_of_mem _ hpost⟩
  · intro t ht n k hn
    obtain ⟨env', hpost⟩ := h.settle t ht n k hn
    exact ⟨env', mem_cons_of_mem _ hpost⟩
  · intro q n hrec hn
    cases hrec
    cases hn
  · intro q n k hrec hn
    cases hrec
    cases hn
    exact ⟨env, mem_cons_self⟩

theorem conclude (ht : r.turns = before ++ t :: after) {actualUnits : ℕ} {written : Bool}
    (hr : r.conclude sid name env before after t actualUnits written = (requests, r')) :
    Orderly sid (requests ++ posted) r' := by
  have hcharge : Orderly sid posted (r.charge t.entry actualUnits written) :=
    h.of_eq (List.Subset.refl _) rfl rfl rfl
  cases written with
  | false =>
    cases hr
    exact hcharge.leave ht
  | true =>
    cases hr
    refine (hcharge.log _).wait ht (subset_cons_self _ _) ?_ ?_
    · intro n hn
      cases hn
    · intro n _ hn
      cases hn
      exact ⟨env, mem_cons_self⟩

theorem moves {answers : List (Call × Outcome)}
    (hm : TurnMoves sid answers r requests r') : Orderly sid (requests ++ posted) r' := by
  have hrefl : posted ⊆ posted := List.Subset.refl posted
  cases hm with
  | execute request _ env hactive =>
    have hrun := SharedTurnQuotaJournal.entryFor_runId (j := r.journal) request
    refine ⟨?_, ?_, ?_, ?_, ?_, ?_⟩
    · intro t ht n hn
      rcases mem_append.mp ht with ht | ht
      · obtain ⟨env', hpost⟩ := h.reserve t ht n hn
        exact ⟨env', mem_cons_of_mem _ hpost⟩
      · obtain rfl := mem_singleton.mp ht
        cases hn
        exact ⟨env, mem_cons_self⟩
    · intro t ht n units hn
      rcases mem_append.mp ht with ht | ht
      · obtain ⟨env', hpost⟩ := h.settle t ht n units hn
        exact ⟨env', mem_cons_of_mem _ hpost⟩
      · obtain rfl := mem_singleton.mp ht
        cases hn
    · intro p n hrec hn
      obtain ⟨env', hpost⟩ := h.lookup p n hrec hn
      exact ⟨env', mem_cons_of_mem _ hpost⟩
    · intro p n units hrec hn
      obtain ⟨env', hpost⟩ := h.recovery p n units hrec hn
      exact ⟨env', mem_cons_of_mem _ hpost⟩
    · intro t ht
      rcases mem_append.mp ht with ht | ht
      · exact mem_cons_of_mem _ (h.active t ht)
      · obtain rfl := mem_singleton.mp ht
        rw [hrun]
        exact mem_cons_self
    · unfold Runtime.enter
      rw [map_append, nodup_append]
      refine ⟨h.distinct, by simp, ?_⟩
      intro a ha b hb hab
      obtain ⟨t, ht, rfl⟩ := mem_map.mp ha
      simp only [map_cons, map_nil, mem_singleton] at hb
      rw [hb, hrun] at hab
      exact hactive (hab ▸ h.active t ht)
  | executeUnwritten request hactive =>
    refine ⟨?_, ?_, h.lookup, h.recovery, ?_, ?_⟩
    · intro t ht
      exact h.reserve t (by simpa [Runtime.leave] using ht)
    · intro t ht
      exact h.settle t (by simpa [Runtime.leave] using ht)
    · intro t ht
      have hmem : t ∈ r.turns := by simpa [Runtime.leave] using ht
      refine mem_filter.mpr ⟨h.active t hmem, ?_⟩
      have hne : t.entry.runId ≠ request.runId := fun heq => hactive (heq ▸ h.active t hmem)
      simpa using hne
    · simpa [Runtime.leave] using h.distinct
  | reserveAgain _ _ _ n _ env _ ht =>
    refine h.wait ht (subset_cons_self _ _) ?_ ?_
    · intro n hn
      cases hn
      exact ⟨env, mem_cons_self⟩
    · intro n units hn
      cases hn
  | reserveFails _ _ _ _ ht | alreadyAccepted _ _ _ _ _ _ ht | settleFails _ _ _ _ _ ht => exact h.leave ht
  | alreadySettled _ _ _ _ _ _ _ ht | settled _ _ _ _ _ _ ht =>
    exact (h.release _ _).leave ht
  | cancelledBefore _ _ _ _ _ _ _ _ _ ht _ _ _ _ _ _ hr =>
    exact h.conclude ht hr
  | invoke _ _ _ n _ _ ht =>
    refine (h.log _).wait ht hrefl ?_ ?_
    · intro n hn
      cases hn
    · intro n units hn
      cases hn
  | innerSucceeds _ _ _ _ _ _ ht _ _ _ hr | innerFails _ _ _ _ _ _ ht _ _ _ hr =>
    exact (h.log _).conclude ht hr
  | settleAgain _ _ _ n units _ env ht =>
    refine (h.log _).wait ht (subset_cons_self _ _) ?_ ?_
    · intro n hn
      cases hn
    · intro n units hn
      cases hn
      exact ⟨env, mem_cons_self⟩
  | cancelSharedTurn => exact h.of_eq hrefl rfl rfl rfl
  | reconcileInterrupted _ _ _ _ _ hr | lookupActive _ _ _ _ _ _ _ _ _ _ _ _ hr
  | lookupUnaccepted _ _ _ _ _ _ _ _ _ _ _ _ _ _ hr | recoveryFails _ _ _ _ _ _ hr => exact h.resume hr
  | lookupSettled _ _ _ _ _ _ _ _ _ _ _ _ _ _ hr | recovered _ _ _ _ _ _ _ _ _ _ _ hr =>
    exact (h.release _ _).resume hr
  | lookupAccepted | recoverAgain =>
    exact (h.log _).recover
  | restart =>
    refine ⟨?_, ?_, ?_, ?_, ?_, nodup_nil⟩
    · intro t ht
      cases ht
    · intro t ht
      cases ht
    · intro p n hrec
      cases hrec
    · intro p n _ hrec
      cases hrec
    · intro t ht
      cases ht

end

end Orderly

end WorkAgent.Harness
