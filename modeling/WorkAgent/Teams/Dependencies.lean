import WorkAgent.Teams.Board

namespace WorkAgent.Teams

open Library List

section Walk

variable {tasks : Table TeamTask.id} {teamId : ℕ} {taskId : Option ℕ}

theorem visit_ok (bound : ℕ) (stack seen seen' : List ℕ) (h : visit tasks teamId taskId bound stack seen = .ok seen') :
    (∀ id ∈ seen, id ∈ seen') ∧ (∀ id ∈ stack, id ∈ seen') ∧ ∀ id ∈ seen', id ∈ seen ∨
      taskId ≠ some id ∧ ∃ task ∈ tasks, task.id = id ∧ task.teamId = teamId ∧ ∀ dependency ∈ task.dependsOnIds, dependency ∈ seen' := by
  induction bound generalizing stack seen with
  | zero => cases h
  | succ _ ih =>
    cases stack with
    | nil =>
      cases h
      exact ⟨fun _ h => h, by simp, fun _ h => .inl h⟩
    | cons id ids =>
      simp only [visit] at h
      by_cases hself : taskId = some id
      · rw [if_pos hself] at h
        cases h
      · rw [if_neg hself] at h
        by_cases hseen : id ∈ seen
        · rw [if_pos hseen] at h
          obtain ⟨hkept, hstack, hclosed⟩ := ih ids seen h
          refine ⟨hkept, ?_, hclosed⟩
          intro x hx
          rcases mem_cons.mp hx with rfl | hx
          · exact hkept x hseen
          · exact hstack x hx
        · rw [if_neg hseen] at h
          cases hfind : tasks.find? id with
          | none =>
            rw [hfind] at h
            cases h
          | some task =>
            rw [hfind] at h
            obtain ⟨hmem, hid⟩ := Table.find?_eq_some.mp hfind
            by_cases hteam : task.teamId ≠ teamId
            · simp only [if_pos hteam] at h
              cases h
            · simp only [if_neg hteam] at h
              obtain ⟨hkept, hstack, hclosed⟩ := ih _ _ h
              refine ⟨fun x hx => hkept x (mem_cons_of_mem _ hx), ?_, ?_⟩
              · intro x hx
                rcases mem_cons.mp hx with rfl | hx
                · exact hkept x mem_cons_self
                · exact hstack x (mem_append_right _ hx)
              · intro x hx
                rcases hclosed x hx with hx | hx
                · rcases mem_cons.mp hx with rfl | hx
                  · refine .inr ⟨hself, task, hmem, hid, not_not.mp hteam, ?_⟩
                    exact fun dependency hd => hstack dependency (mem_append_left _ hd)
                  · exact .inl hx
                · exact .inr hx

theorem visitAll_ok (ids : List ℕ) (h : visitAll tasks teamId taskId ids = .ok ()) :
    ∀ id ∈ ids, (∃ task ∈ tasks, task.id = id ∧ task.teamId = teamId) ∧
      ∀ self, taskId = some self → ¬ Relation.ReflTransGen (Depends tasks) id self := by
  induction ids with
  | nil => simp
  | cons id _ ih =>
    simp only [visitAll] at h
    cases hvisit : visit tasks teamId taskId (visitBound tasks [id]) [id] [] with
    | error =>
      rw [hvisit] at h
      cases h
    | ok seen =>
      rw [hvisit] at h
      obtain ⟨-, hstack, hclosed⟩ := visit_ok _ _ _ _ hvisit
      have hseen : ∀ x ∈ seen, taskId ≠ some x ∧ ∃ task ∈ tasks, task.id = x ∧ task.teamId = teamId ∧
          ∀ dependency ∈ task.dependsOnIds, dependency ∈ seen := by
        intro x hx
        rcases hclosed x hx with hx | hx
        · cases hx
        · exact hx
      intro x hx
      rcases mem_cons.mp hx with rfl | hx
      · obtain ⟨-, task, hmem, hid, hteam, -⟩ := hseen x (hstack x mem_cons_self)
        refine ⟨⟨task, hmem, hid, hteam⟩, ?_⟩
        intro self hself hpath
        have hreached : ∀ y, Relation.ReflTransGen (Depends tasks) x y → y ∈ seen := by
          intro y hpath
          induction hpath with
          | refl => exact hstack x mem_cons_self
          | tail _ hedge ihpath =>
            obtain ⟨_, hrow, hkey, hd⟩ := hedge
            obtain ⟨-, _, hrow', hkey', -, hnext⟩ := hseen _ ihpath
            obtain rfl := Table.eq_of_key hrow hrow' (hkey.trans hkey'.symm)
            exact hnext _ hd
        exact (hseen self (hreached self hpath)).1 hself
      · exact ih h x hx

def unseenEdges (rows : List TeamTask) (seen : List ℕ) : ℕ :=
  ((rows.filter fun task => task.id ∉ seen).map fun task => task.dependsOnIds.length).sum

theorem unseenEdges_le (rows : List TeamTask) (seen : List ℕ) (id : ℕ) : unseenEdges rows (id :: seen) ≤ unseenEdges rows seen := by
  induction rows with
  | nil => exact Nat.le_refl _
  | cons row _ ih =>
    unfold unseenEdges at ih ⊢
    by_cases hseen : row.id ∈ seen
    · simpa [filter_cons, hseen] using ih
    · by_cases hid : row.id = id
      · simp only [filter_cons, mem_cons, hid, true_or, not_true, decide_false, Bool.false_eq_true, if_false]
        rw [← hid] at ih ⊢
        simp only [hseen, not_false_eq_true, decide_true, if_true, map_cons, sum_cons]
        simp only [mem_cons] at ih
        omega
      · simp only [filter_cons, mem_cons, hid, hseen, or_self, not_false_eq_true, decide_true, if_true, map_cons,
          sum_cons]
        simp only [mem_cons] at ih
        omega

theorem unseenEdges_seen {rows : List TeamTask} {seen : List ℕ} {task : TeamTask} (hmem : task ∈ rows) (hseen : task.id ∉ seen) :
    task.dependsOnIds.length + unseenEdges rows (task.id :: seen) ≤ unseenEdges rows seen := by
  induction rows with
  | nil => cases hmem
  | cons row rows ih =>
    have hle := unseenEdges_le rows seen task.id
    unfold unseenEdges at ih hle ⊢
    rcases mem_cons.mp hmem with rfl | hmem
    · simp only [filter_cons, mem_cons, true_or, not_true, decide_false, Bool.false_eq_true, if_false, hseen,
        not_false_eq_true, decide_true, if_true, map_cons, sum_cons]
      simp only [mem_cons] at hle
      omega
    · have ih := ih hmem
      simp only [mem_cons] at ih
      by_cases hrow : row.id ∈ seen
      · simpa [filter_cons, hrow] using ih
      · by_cases hid : row.id = task.id
        · simp only [filter_cons, mem_cons, hid, true_or, not_true, decide_false, Bool.false_eq_true, if_false, hseen,
            not_false_eq_true, decide_true, if_true, map_cons, sum_cons]
          omega
        · simp only [filter_cons, mem_cons, hid, hrow, or_self, not_false_eq_true, decide_true, if_true, map_cons,
            sum_cons]
          omega

theorem visit_bounded (bound : ℕ) (stack seen : List ℕ) (h : stack.length + unseenEdges tasks.rows seen < bound) :
    visit tasks teamId taskId bound stack seen ≠ .error "RangeError" := by
  induction bound generalizing stack seen with
  | zero => omega
  | succ _ ih =>
    cases stack with
    | nil => simp [visit]
    | cons id ids =>
      simp only [visit]
      simp only [length_cons] at h
      split
      · simp
      · split
        · exact ih ids seen (by omega)
        · rename_i hseen
          cases hfind : tasks.find? id with
          | none => simp
          | some task =>
            obtain ⟨hmem, rfl⟩ := Table.find?_eq_some.mp hfind
            have hedges := unseenEdges_seen hmem hseen
            by_cases hteam : task.teamId ≠ teamId
            · simp [if_pos hteam]
            · simp only [if_neg hteam]
              apply ih
              rw [length_append]
              omega

theorem visitAll_bounded (ids : List ℕ) : visitAll tasks teamId taskId ids ≠ .error "RangeError" := by
  induction ids with
  | nil => simp [visitAll]
  | cons id _ ih =>
    have hbound : visit tasks teamId taskId (visitBound tasks [id]) [id] [] ≠ .error "RangeError" := by
      apply visit_bounded
      have hall : unseenEdges tasks.rows [] = (tasks.rows.map fun task => task.dependsOnIds.length).sum := by
        unfold unseenEdges
        simp
      rw [hall]
      exact Nat.lt_succ_self _
    simp only [visitAll]
    cases hvisit : visit tasks teamId taskId (visitBound tasks [id]) [id] [] with
    | error =>
      intro hrange
      simp only [Except.error.injEq] at hrange
      rw [hvisit, hrange] at hbound
      exact hbound rfl
    | ok => exact ih

end Walk

end WorkAgent.Teams
