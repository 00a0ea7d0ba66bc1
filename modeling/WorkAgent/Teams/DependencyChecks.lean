import WorkAgent.Teams.TeamHistories

namespace WorkAgent.Teams

open Library Relation

section Refusals

variable {tasks : Table TeamTask.id} {teamId : ℕ} {taskId : Option ℕ} {error : String}

/-- What makes the walk stop at `id`. -/
def Obstacle (tasks : Table TeamTask.id) (teamId : ℕ) (taskId : Option ℕ) (id : ℕ) : Prop :=
  taskId = some id ∨ ∀ task ∈ tasks, task.id = id → task.teamId ≠ teamId

theorem visit_error (bound : ℕ) (stack seen : List ℕ) (h : visit tasks teamId taskId bound stack seen = .error error)
    (hbound : error ≠ "RangeError") : ∃ id ∈ stack, ∃ x, ReflTransGen (Depends tasks) id x ∧ Obstacle tasks teamId taskId x := by
  induction bound generalizing stack seen with
  | zero => exact absurd (Except.error.inj h).symm hbound
  | succ _ ih =>
    cases stack with
    | nil => cases h
    | cons id ids =>
      simp only [visit] at h
      split at h
      · exact ⟨id, by simp, id, .refl, .inl ‹_›⟩
      · split at h
        · obtain ⟨y, hy, hobstacle⟩ := ih ids seen h
          exact ⟨y, by simp [hy], hobstacle⟩
        · split at h
          · rename_i hnone
            refine ⟨id, by simp, id, .refl, .inr ?_⟩
            intro task htask hid
            exact absurd hid (Table.find?_eq_none.mp hnone task htask)
          · rename_i task hfind
            obtain ⟨hmem, rfl⟩ := Table.find?_eq_some.mp hfind
            split at h
            · rename_i hother
              refine ⟨task.id, by simp, task.id, .refl, .inr ?_⟩
              intro other hrow hid
              rw [Table.eq_of_key hrow hmem hid]
              exact hother
            · -- an obstacle beyond a dependency of the task lies beyond the task
              obtain ⟨y, hy, x, hpath, hobstacle⟩ := ih _ _ h
              rcases List.mem_append.mp hy with hy | hy
              · exact ⟨task.id, by simp, x, .head ⟨task, hmem, rfl, hy⟩ hpath, hobstacle⟩
              · exact ⟨y, by simp [hy], x, hpath, hobstacle⟩

theorem visitAll_error (ids : List ℕ) (h : visitAll tasks teamId taskId ids = .error error) :
    ∃ id ∈ ids, ∃ x, ReflTransGen (Depends tasks) id x ∧ Obstacle tasks teamId taskId x := by
  have hbound : error ≠ "RangeError" := fun he => visitAll_bounded ids (he ▸ h)
  induction ids with
  | nil => cases h
  | cons id ids ih =>
    simp only [visitAll] at h
    split at h
    · rename_i hvisit
      cases h
      obtain ⟨_, hmem, hobstacle⟩ := visit_error _ _ _ hvisit hbound
      exact ⟨id, by simp, List.mem_singleton.mp hmem ▸ hobstacle⟩
    · obtain ⟨y, hy, hobstacle⟩ := ih h
      exact ⟨y, by simp [hy], hobstacle⟩

end Refusals

theorem dependencies_decided (host : Host) (s : TeamStore) (h : Reachable host s) (teamId : ℕ) (ids : List ℕ) (taskId : Option ℕ) :
    validateDependencies teamId ids taskId s = (.ok (), s) ↔ ids.Nodup ∧ ∀ id ∈ ids,
      (∃ task ∈ s.tasks, task.id = id ∧ task.teamId = teamId) ∧
        ∀ self, taskId = some self → ¬ ReflTransGen (Depends s.tasks) id self := by
  constructor
  · intro hvalid
    obtain ⟨hnodup, -⟩ := refuse_bind hvalid
    exact ⟨not_not.mp hnodup, visitAll_ok ids (validateDependencies_ok hvalid).2⟩
  · rintro ⟨hnodup, hall⟩
    have hvisit : visitAll s.tasks teamId taskId ids = .ok () := by
      cases hvisit : visitAll s.tasks teamId taskId ids with
      | ok => rfl
      | error error =>
        obtain ⟨id, hid, x, hpath, hobstacle⟩ := visitAll_error ids hvisit
        obtain ⟨hteam, hself⟩ := hall id hid
        have hinside : ∃ task ∈ s.tasks, task.id = x ∧ task.teamId = teamId := by
          clear hobstacle
          induction hpath with
          | refl => exact hteam
          | tail _ hedge ih =>
            obtain ⟨task, htask, hkey, hdependency⟩ := hedge
            obtain ⟨other, hother, hotherKey, rfl⟩ := ih
            obtain ⟨next, hnext, hnextKey, hsame⟩ := h.steady.memory.inside task htask _ hdependency
            rw [Table.eq_of_key htask hother (hkey.trans hotherKey.symm)] at hsame
            exact ⟨next, hnext, hnextKey, hsame⟩
        rcases hobstacle with hobstacle | hobstacle
        · exact absurd hpath (hself x hobstacle)
        · obtain ⟨task, htask, hkey, hmine⟩ := hinside
          exact absurd hmine (hobstacle task htask hkey)
    apply Act.bind_ok.mpr
    refine ⟨(), s, ?_, ?_⟩
    · unfold refuse
      rw [if_neg (not_not.mpr hnodup)]
      rfl
    · rw [read_bind, hvisit]
      rfl

def oneTask : TeamStore :=
  replay plainHost [.create "t" "w" ⟨"l", .harness, none, "p"⟩, .queueTask 0 ⟨1, "a", "a", []⟩ none] .start

set_option maxRecDepth 100000 in
theorem dependencies_decided_oneTask : validateDependencies 0 [3] none oneTask = (.ok (), oneTask) := by
  have htask : ∃ task ∈ oneTask.tasks.rows, task.id = 3 ∧ task.teamId = 0 := by decide
  apply (dependencies_decided plainHost oneTask (replay_later _) 0 [3] none).mpr
  refine ⟨by decide, ?_⟩
  intro id hid
  obtain rfl := List.mem_singleton.mp hid
  exact ⟨htask, by simp⟩

end WorkAgent.Teams
