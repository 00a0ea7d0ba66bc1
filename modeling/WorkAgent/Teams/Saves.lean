import WorkAgent.Teams.Controls

namespace WorkAgent.Teams

open Library

set_option synthInstance.maxSize 4000

variable {host : Host} {s t : TeamStore} {α β : Type}

section Saves

class Quiet (x : StoreAct α) : Prop where
  quiet : ∀ s, (x s).2.batch = s.batch ∧ (x s).2.file = s.file

class Late (x : StoreAct α) : Prop where
  late : ∀ s, s.batch = false → (x s).2.batch = false ∧ ((x s).2.file = s.file ∨ (x s).2.file = (x s).2.toDocument)

class Saving (x : StoreAct α) : Prop where
  saved : ∀ s a t, s.batch = false → x s = (.ok a, t) → t.file = t.toDocument

variable {x : StoreAct α} {f : α → StoreAct β}

theorem Quiet.eq [hx : Quiet x] {r : Except String α} (h : x s = (r, t)) : t.batch = s.batch ∧ t.file = s.file := by
  have hs := hx.quiet s
  rwa [h] at hs

def SameFile (s t : TeamStore) : Prop := t.batch = s.batch ∧ t.file = s.file

instance : IsPreorder TeamStore SameFile where
  refl _ := ⟨rfl, rfl⟩
  trans _ _ _ h h' := ⟨h'.1.trans h.1, h'.2.trans h.2⟩

instance (priority := low) [Act.Follows Edited x] : Act.Follows SameFile x := .mono fun _ _ (h : Edited _ _) => ⟨h.batch, h.file⟩

instance [hx : Act.Follows SameFile x] : Quiet x := ⟨hx.within⟩

instance (id : ℕ) : Act.Follows SameFile (acknowledge id) := ⟨fun _ => ⟨rfl, rfl⟩⟩

instance (run : TeamRun) (memberId : ℕ) (input : String) (parentId taskId : Option ℕ) (messageIds : List ℕ) :
    Quiet (enqueue run memberId input parentId taskId messageIds) := by
  unfold enqueue
  infer_instance

theorem save_late (h : s.batch = false) : (save s).2.batch = false ∧ ((save s).2.file = s.file ∨ (save s).2.file = (save s).2.toDocument) := by
  refine ⟨(save_batch s).trans h, ?_⟩
  unfold save
  rw [if_neg (by simp [h])]
  split
  · exact .inl rfl
  · exact .inr rfl

instance : Late save := ⟨fun _ => save_late⟩

instance (a : α) : Late (save >>= fun _ => pure a) := by
  constructor
  intro s h
  have hlate := save_late h
  cases hrun : (save >>= fun _ => pure a : StoreAct α) s with
  | mk =>
    rcases Act.bind_any hrun with ⟨_, hsave, -⟩ | ⟨_, u, hsave, hend⟩
    · rwa [hsave] at hlate
    · rw [hsave] at hlate
      cases hend
      exact hlate

instance (e : String) : Late (save >>= fun _ => (Act.throw e : StoreAct α)) := by
  constructor
  intro s h
  have hlate := save_late h
  cases hrun : (save >>= fun _ => Act.throw e : StoreAct α) s with
  | mk =>
    rcases Act.bind_any hrun with ⟨_, hsave, -⟩ | ⟨_, u, hsave, hend⟩
    · rwa [hsave] at hlate
    · rw [hsave] at hlate
      cases hend
      exact hlate

instance [hx : Quiet x] : Late x := ⟨fun s h => ⟨(hx.quiet s).1.trans h, .inl (hx.quiet s).2⟩⟩

theorem Late.eq [hx : Late x] (hb : s.batch = false) {r : Except String α} (h : x s = (r, t)) :
    t.batch = false ∧ (t.file = s.file ∨ t.file = t.toDocument) := by
  have hs := hx.late s hb
  rwa [h] at hs

instance [hx : Quiet x] [hf : ∀ a, Late (f a)] : Late (x >>= f) := by
  constructor
  intro s hb
  cases hrun : (x >>= f) s with
  | mk =>
    rcases Act.bind_any hrun with ⟨_, h, -⟩ | ⟨a, u, h, h'⟩
    · obtain ⟨hbatch, hfile⟩ := Quiet.eq h
      exact ⟨hbatch.trans hb, .inl hfile⟩
    · obtain ⟨hbatch, hfile⟩ := Quiet.eq h
      obtain ⟨hbatch', hfile'⟩ := Late.eq (hbatch.trans hb) h'
      exact ⟨hbatch', hfile'.imp_left fun h => h.trans hfile⟩

instance {condition : Prop} [Decidable condition] {y : StoreAct α} [hx : Late x] [hy : Late y] : Late (if condition then x else y) := by
  split
  · exact hx
  · exact hy

instance (condition : Prop) [Decidable condition] (body : StoreAct Unit) [Late body] : Late (whenever condition body) := by
  unfold whenever
  infer_instance

instance : Saving save := by
  constructor
  intro s a t hb h
  rw [save_ok hb h]

instance (a : α) : Saving (save >>= fun _ => pure a) := by
  constructor
  intro s b t hb h
  obtain ⟨_, u, hsave, h⟩ := Act.bind_ok.mp h
  obtain ⟨-, rfl⟩ := Act.pure_ok.mp h
  rw [save_ok hb hsave]

instance [Quiet x] [hf : ∀ a, Saving (f a)] : Saving (x >>= f) := by
  constructor
  intro s b t hb h
  obtain ⟨a, u, hx, h⟩ := Act.bind_ok.mp h
  exact (hf a).saved u b t ((Quiet.eq hx).1.trans hb) h

instance (name workspaceId : String) (lead : MemberInput) : Late (create host name workspaceId lead) := by
  unfold create
  infer_instance

instance (id version : ℕ) (mutation : TeamMutation) : Late (update host id version mutation) := by
  unfold update
  infer_instance

instance (teamId : ℕ) (input : MemberInput) : Late (addMember host teamId input) := by
  unfold addMember
  infer_instance

instance (teamId memberId : ℕ) (input : MemberMutation) : Late (updateMember host teamId memberId input) := by
  unfold updateMember
  infer_instance

instance (teamId memberId : ℕ) : Late (removeMember teamId memberId) := by
  unfold removeMember
  infer_instance

instance (teamId : ℕ) : Late (delete host teamId) := by
  unfold delete
  infer_instance

instance (teamId : ℕ) (input : String) (memberId : Option ℕ) : Late (startRun teamId input memberId) := by
  unfold startRun
  infer_instance

instance (teamId taskId version : ℕ) (input : TaskMutation) (caller : Option ℕ) : Late (updateTask host teamId taskId version input caller) := by
  unfold updateTask
  infer_instance

instance (teamId taskId version : ℕ) (input : TaskMutation) (caller : Option ℕ) : Saving (updateTask host teamId taskId version input caller) := by
  unfold updateTask
  infer_instance

instance (teamId id : ℕ) : Late (cancelTask teamId id) := by
  unfold cancelTask
  infer_instance

instance (teamId id : ℕ) : Saving (cancelTask teamId id) := by
  unfold cancelTask
  infer_instance

instance (id : ℕ) (turnId : String) (now : ℤ) : Late (submittedDispatch id turnId now) := by
  unfold submittedDispatch
  infer_instance

instance (id : ℕ) (now : ℤ) : Late (deferDispatch id now) := by
  unfold deferDispatch
  infer_instance

instance (run : TeamRun) : Late (pauseBlockedRun run) := by
  unfold pauseBlockedRun
  infer_instance

instance (id : ℕ) : Late (acknowledgeInterruptedExecution id) := by
  unfold acknowledgeInterruptedExecution
  infer_instance

instance (id : ℕ) : Calm (acknowledgeInterruptedExecution id) := by
  unfold acknowledgeInterruptedExecution
  infer_instance

end Saves

end WorkAgent.Teams
