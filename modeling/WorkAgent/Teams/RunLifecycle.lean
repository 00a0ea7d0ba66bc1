import WorkAgent.Teams.TeamHistories

namespace WorkAgent.Teams

open Library

variable {host : Host} {s t : TeamStore}

section Lifecycle

structure EndedRun (id : ℕ) (status : RunStatus) (s : TeamStore) : Prop where
  old : id < s.drawn
  memory : ∀ run ∈ s.runs, run.id = id → run.status = status
  saved : ∀ run ∈ s.file.runs, run.id = id → run.status = status

theorem EndedRun.later {id : ℕ} {status : RunStatus} {meets : TeamStore → Action → TeamStore → Prop} (hfinished : status.Finished)
    (h : History host meets s t) (hs : Steady s) (hended : EndedRun id status s) : EndedRun id status t := by
  refine h.keeps hs hended ?_ ?_ ?_
  · intro s t c a _ hs hended ha hstep _
    obtain ⟨-, ⟨hfile, hmoves⟩ | ⟨hfile, hmoves⟩⟩ := hstep.effect hs ha
    · have hmemory := hmoves.finished_after hfinished hended.old hended.memory
      refine ⟨hended.old.trans_le hmoves.drawn, hmemory, ?_⟩
      rw [hfile]
      exact hmemory
    · exact ⟨hended.old.trans_le hmoves.drawn, hmoves.finished_after hfinished hended.old hended.memory, hfile ▸ hended.saved⟩
  · intro s t hs hended h
    obtain ⟨hdocument, hfile, -, hdrawn⟩ := construct_ok hs.saved h
    have hmemory : ∀ run ∈ s.file.recovered.runs, run.id = id → run.status = status := by
      intro _ hrun' hid
      obtain ⟨run, hrun, hsame, -, rfl | ⟨hopen, -⟩⟩ := recovered_run hs.saved hrun'
      · exact hended.saved _ hrun hid
      · rw [hended.saved run hrun (hsame.symm.trans hid)] at hopen
        exact absurd hfinished hopen
    refine ⟨hdrawn ▸ hended.old, ?_, ?_⟩
    · rw [hdocument]
      exact hmemory
    · rw [hfile, hdocument]
      exact hmemory
  · exact fun s writes hended => ⟨hended.old, hended.memory, hended.saved⟩

end Lifecycle

section Scheduling

structure GivenDispatch (id : ℕ) (s : TeamStore) : Prop where
  old : id < s.drawn
  memory : ∀ item ∈ s.dispatches, item.id = id → Given item
  saved : ∀ item ∈ s.file.dispatches, item.id = id → item.status ≠ .queued

theorem GivenDispatch.later {id : ℕ} {meets : TeamStore → Action → TeamStore → Prop} (h : History host meets s t) (hs : Steady s)
    (hgiven : GivenDispatch id s) : GivenDispatch id t := by
  refine h.keeps hs hgiven ?_ ?_ ?_
  · intro s t c a _ hs hgiven ha hstep _
    obtain ⟨-, ⟨hfile, hmoves⟩ | ⟨hfile, hmoves⟩⟩ := hstep.effect hs ha
    · have hmemory := hmoves.given_after hs.memory hgiven.old hgiven.memory
      refine ⟨hgiven.old.trans_le hmoves.drawn, hmemory, ?_⟩
      rw [hfile]
      exact fun item hitem hid => (hmemory item hitem hid).1
    · exact ⟨hgiven.old.trans_le hmoves.drawn, hmoves.given_after hs.memory hgiven.old hgiven.memory, hfile ▸ hgiven.saved⟩
  · intro s t hs hgiven h
    obtain ⟨hdocument, hfile, -, hdrawn⟩ := construct_ok hs.saved h
    have hmemory : ∀ item ∈ s.file.recovered.dispatches, item.id = id → Given item := by
      intro _ hitem' hid
      obtain ⟨item, hitem, _, -, -, -, -, -, ⟨rfl, hnot⟩ | ⟨-, hinterrupted⟩⟩ := recovered_item hs.saved hitem'
      · exact ⟨hgiven.saved _ hitem hid, fun hrunning => absurd hrunning hnot⟩
      · exact ⟨by simp [hinterrupted], by simp [hinterrupted]⟩
    refine ⟨hdrawn ▸ hgiven.old, ?_, ?_⟩
    · rw [hdocument]
      exact hmemory
    · rw [hfile, hdocument]
      exact fun item hitem hid => (hmemory item hitem hid).1
  · exact fun s writes hgiven => ⟨hgiven.old, hgiven.memory, hgiven.saved⟩

end Scheduling

end WorkAgent.Teams
