import WorkAgent.PublishedApps.Revisions

namespace WorkAgent.PublishedApps

open Library SiteExample

variable {parse : String → Option URL} {w w' : World} {e : Event}

/-- The app and the revision that an answer of the store shows its caller. -/
def Event.shows : Event → Option (String × ℤ)
  | .called (.get id) (.app a) => some (id, a.revision)
  | .called (.update a _) (.app updated) => some (a.id, updated.revision)
  | _ => none

/-- What `e` answers after `id` was shown at `revision`. -/
structure Event.Follows (e : Event) (id : String) (revision : ℤ) : Prop where
  reads : ∀ a, e = .called (.get id) (.app a) → revision ≤ a.revision
  updates : ∀ a expected updated, e = .called (.update a expected) (.app updated) → a.id = id →
    revision ≤ expected ∧ updated.revision = expected + 1

structure Moves (db : Database) (e : Event) (db' : Database) : Prop where
  later : db.Later db'
  shown : ∀ id revision, e.shows = some (id, revision) → db'.Reached id revision
  follows : ∀ id revision, db.Reached id revision → e.Follows id revision

theorem moves_of_later {db db' : Database} (h : db.Later db') (hshows : e.shows = none) : Moves db e db' := by
  refine ⟨h, by simp [hshows], ?_⟩
  intro id revision _
  constructor
  · rintro a rfl
    cases hshows
  · rintro a expected updated rfl
    cases hshows

theorem moves_of_step (hident : w.db.Ident) (h : Step parse w e w') : Moves w.db e w'.db := by
  cases h with
  | fails => exact moves_of_later (.refl hident) (by cases ‹Call› <;> rfl)
  | opens h => exact moves_of_later (start_later hident h) rfl
  | breaks hload hrange => exact moves_of_later (setRange_later hident hrange) rfl
  | closes => exact moves_of_later (.refl hident) rfl
  | @calls db limits reads call =>
    let s : Store := ⟨db, limits⟩
    change s.db.Ident at hident
    change Moves s.db (.called call (s.call parse call).1) (s.call parse call).2.db
    cases call with
    | get id =>
      dsimp only [Store.call]
      cases hget : s.db.get id with
      | error => exact moves_of_later (.refl hident) rfl
      | ok a =>
        obtain ⟨row, hrow, hid, hrevision, -⟩ := get_reached hget
        refine ⟨.refl hident, ?_, ?_⟩
        · rintro _ _ ⟨⟩
          exact ⟨row, hrow, hid, by omega⟩
        · intro _ _ hreached
          constructor
          · rintro _ ⟨⟩
            exact le_of_get hget hreached
          · rintro _ _ _ ⟨⟩
    | update a expected =>
      dsimp only [Store.call]
      cases hupdate : s.update a expected with
      | error => exact moves_of_later (.refl hident) rfl
      | ok result =>
        obtain ⟨updated, s'⟩ := result
        obtain ⟨hlater, -, hrevision, hreached, hbound⟩ := update_later hident hupdate
        refine ⟨hlater, ?_, ?_⟩
        · rintro _ _ ⟨⟩
          exact hreached
        · intro _ _ hbefore
          constructor
          · rintro _ ⟨⟩
          · rintro _ _ _ ⟨⟩ rfl
            exact ⟨hbound _ hbefore, hrevision⟩
    | delete id ownerSID =>
      apply moves_of_later
      · dsimp only [Store.call]
        split
        · rename_i hdelete
          exact delete_later hident hdelete
        · exact .refl hident
      · rfl
    | _ => exact moves_of_later (manages_later hident (by simp [Gateway.Manages])) rfl

/-- Whoever is shown an app sees every revision shown before, and an update goes through on the last of them only. -/
theorem revisions_ordered (parse : String → Option URL) (history : List Event) (w : World) (h : Execution (Step parse) .start history w) :
    history.Pairwise fun earlier e => ∀ id revision, earlier.shows = some (id, revision) → e.Follows id revision := by
  have hall : w.db.Ident ∧ (∀ e ∈ history, ∀ id revision, e.shows = some (id, revision) → w.db.Reached id revision) ∧
      history.Pairwise fun earlier e => ∀ id revision, earlier.shows = some (id, revision) → e.Follows id revision := by
    induction h with
    | start => exact ⟨fun row hrow => absurd hrow (Table.not_mem_empty row), by simp, .nil⟩
    | step _ hstep ih =>
      obtain ⟨hident, hshown, hordered⟩ := ih
      have hmoves := moves_of_step hident hstep
      refine ⟨hmoves.later.ident, ?_, ?_⟩
      · intro e he id revision hshows
        rcases List.mem_append.mp he with he | he
        · exact hmoves.later.move (hshown e he id revision hshows)
        · rw [List.mem_singleton.mp he] at hshows
          exact hmoves.shown id revision hshows
      · rw [List.pairwise_append]
        refine ⟨hordered, List.pairwise_singleton _ _, ?_⟩
        intro earlier hearlier e he id revision hshows
        rw [List.mem_singleton.mp he]
        exact hmoves.follows id revision (hshown earlier hearlier id revision hshows)
  exact hall.2.2

theorem site_ordered : (Event.called (.update (siteAt 2000) 1) (moved.call noOrigins (.update (siteAt 2000) 1)).1).Follows siteID 1 := by
  have hordered := revisions_ordered noOrigins _ _ (enables.mono fun _ _ _ h => h.1)
  exact List.pairwise_iff_getElem.mp hordered 3 4 (by decide) (by decide) (by decide) siteID 1 rfl

end WorkAgent.PublishedApps
