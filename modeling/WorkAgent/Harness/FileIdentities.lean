import WorkAgent.Harness.FileMoveJournal

namespace WorkAgent.Harness.Moves

open Library List Table

variable {casing : Casing} {w t : World} {acts : List Action} {runs : List (List Action)} {journal : Journal}
  {files : Table Identity.id} {m : FileMove} {moves : List FileMove} {workspaceId : String} {path : Path} {id : UUID}

def Distinct (casing : Casing) (files : Table Identity.id) : Prop :=
  ∀ row ∈ files, ∀ other ∈ files, row.workspaceId = other.workspaceId → row.deleted = false → other.deleted = false →
    casing.lower row.path = casing.lower other.path → row = other

theorem known_eq_some {row : Identity} (h : known casing files workspaceId path = some row) :
    row ∈ files ∧ row.workspaceId = workspaceId ∧ row.deleted = false ∧ casing.lower row.path = casing.lower path := by
  have hfound := find?_some h
  simp only [Bool.and_eq_true, decide_eq_true_eq, Bool.not_eq_true'] at hfound
  exact ⟨mem_of_find?_eq_some h, hfound.1.1, hfound.1.2, hfound.2⟩

theorem known_eq_none : known casing files workspaceId path = none ↔
    ∀ row ∈ files, row.workspaceId = workspaceId → row.deleted = false → casing.lower row.path ≠ casing.lower path := by
  unfold known
  rw [List.find?_eq_none]
  apply forall₂_congr
  intro _ _
  simp

theorem Distinct.empty : Distinct casing Journal.empty.files := forall_mem_empty

theorem Distinct.identify (h : Distinct casing journal.files) (hknown : known casing journal.files workspaceId path = none) :
    Distinct casing (journal.identify id workspaceId path).files := by
  have hfresh := known_eq_none.mp hknown
  intro row hrow other hother hworkspace hrowLive hotherLive hlower
  rcases mem_insertOrIgnore.mp hrow with hrow | ⟨rfl, -⟩ <;> rcases mem_insertOrIgnore.mp hother with hother | ⟨rfl, -⟩
  · exact h row hrow other hother hworkspace hrowLive hotherLive hlower
  · exact absurd hlower (hfresh row hrow hworkspace hrowLive)
  · exact absurd hlower.symm (hfresh other hother hworkspace.symm hotherLive)
  · rfl

theorem Distinct.delete (h : Distinct casing journal.files) (p : Identity → Bool) : Distinct casing (journal.delete p).files := by
  have hlive : ∀ row ∈ (journal.delete p).files, row.deleted = false → row ∈ journal.files := by
    intro row hrow hdeleted
    obtain ⟨old, hold, rfl⟩ := mem_map.mp (mem_rows.mpr hrow)
    by_cases hp : p old = true
    · rw [if_pos hp] at hdeleted
      cases hdeleted
    · rw [if_neg hp]
      exact hold
  intro row hrow other hother hworkspace hrowLive hotherLive
  exact h row (hlive row hrow hrowLive) other (hlive other hother hotherLive) hworkspace hrowLive hotherLive

theorem lower_follow (casing : Casing) (hwithin : Within m.source path) : ∃ tail, casing.lower path = casing.lower m.source ++ tail ∧
    casing.lower (m.destination ++ path.drop m.source.length) = casing.lower m.destination ++ tail := by
  obtain ⟨_, rfl, rfl | ⟨below, rfl⟩⟩ := within_iff.mp hwithin
  · exact ⟨[], by simp, by simp⟩
  · refine ⟨'/' :: casing.lower below, casing.slash _ _, ?_⟩
    rw [drop_left]
    exact casing.slash _ _

theorem lower_inj_of_follow {other : Path} (hpath : Within m.source path) (hother : Within m.source other)
    (h : casing.lower (m.destination ++ path.drop m.source.length) = casing.lower (m.destination ++ other.drop m.source.length)) :
    casing.lower path = casing.lower other := by
  obtain ⟨_, hlower, hmoved⟩ := lower_follow casing hpath
  obtain ⟨_, hlower', hmoved'⟩ := lower_follow casing hother
  rw [hmoved, hmoved'] at h
  rw [hlower, hlower', append_cancel_left h]

theorem rewrite_moved {row : Identity} (hworkspace : row.workspaceId = workspaceId) (hlive : row.deleted = false)
    (hcovers : covers casing m.source row.path = true) :
    (rewrite casing workspaceId m row).path = m.destination ++ row.path.drop m.source.length := by
  unfold rewrite
  rw [if_neg (by simp [hworkspace, hlive, hcovers])]

theorem rewrite_kept {row : Identity} (h : ¬ (row.workspaceId = workspaceId ∧ row.deleted = false ∧ covers casing m.source row.path = true)) :
    rewrite casing workspaceId m row = row := by
  unfold rewrite
  rw [if_pos]
  by_contra hall
  apply h
  simpa [not_or] using hall

theorem rewrite_same (row : Identity) : (rewrite casing workspaceId m row).workspaceId = row.workspaceId ∧
    (rewrite casing workspaceId m row).deleted = row.deleted := by
  unfold rewrite
  split <;> exact ⟨rfl, rfl⟩

theorem Distinct.rewrite (h : Distinct casing journal.files)
    (hcased : ∀ row ∈ journal.files, row.workspaceId = workspaceId → row.deleted = false → covers casing m.source row.path = true →
      Within m.source row.path)
    (hunclaimed : ∀ row ∈ journal.files, ∀ other ∈ journal.files, row.workspaceId = workspaceId → other.workspaceId = workspaceId →
      row.deleted = false → other.deleted = false → covers casing m.source row.path = true → covers casing m.source other.path = false →
        casing.lower other.path ≠ casing.lower (m.destination ++ row.path.drop m.source.length)) :
    Distinct casing (journal.rewrite casing workspaceId m).files := by
  intro _ hnew _ hnew'
  obtain ⟨row, hrow, rfl⟩ := mem_map.mp (mem_rows.mpr hnew)
  obtain ⟨other, hother, rfl⟩ := mem_map.mp (mem_rows.mpr hnew')
  rw [if_pos trivial, if_pos trivial, (rewrite_same row).1, (rewrite_same row).2, (rewrite_same other).1, (rewrite_same other).2]
  intro hworkspace hrowLive hotherLive hlower
  by_cases hmine : row.workspaceId = workspaceId
  · have hyours : other.workspaceId = workspaceId := hworkspace ▸ hmine
    by_cases hrowMoves : covers casing m.source row.path = true <;> by_cases hotherMoves : covers casing m.source other.path = true
    · rw [rewrite_moved hmine hrowLive hrowMoves, rewrite_moved hyours hotherLive hotherMoves] at hlower
      have hsame := lower_inj_of_follow (hcased row hrow hmine hrowLive hrowMoves) (hcased other hother hyours hotherLive hotherMoves) hlower
      rw [h row hrow other hother hworkspace hrowLive hotherLive hsame]
    · rw [rewrite_moved hmine hrowLive hrowMoves, rewrite_kept (fun hall => hotherMoves hall.2.2)] at hlower
      exact absurd hlower.symm (hunclaimed row hrow other hother hmine hyours hrowLive hotherLive hrowMoves (by simpa using hotherMoves))
    · rw [rewrite_kept (fun hall => hrowMoves hall.2.2), rewrite_moved hyours hotherLive hotherMoves] at hlower
      exact absurd hlower (hunclaimed other hother row hrow hyours hmine hotherLive hrowLive hotherMoves (by simpa using hrowMoves))
    · rw [rewrite_kept (fun hall => hrowMoves hall.2.2), rewrite_kept (fun hall => hotherMoves hall.2.2)] at hlower ⊢
      exact h row hrow other hother hworkspace hrowLive hotherLive hlower
  · rw [rewrite_kept (fun hall => hmine hall.1), rewrite_kept (fun hall => hmine (hworkspace.trans hall.1))] at hlower ⊢
    exact h row hrow other hother hworkspace hrowLive hotherLive hlower

def World.Apart (casing : Casing) (w : World) : Prop := Distinct casing w.memory.files ∧ Distinct casing w.file.files

theorem World.Apart.write (h : w.Apart casing) (hdistinct : Distinct casing journal.files) (saved : Bool) :
    (w.write journal saved).Apart casing := by
  cases saved with
  | true => exact ⟨hdistinct, hdistinct⟩
  | false => exact ⟨hdistinct, h.2⟩

theorem fail_files (operation : Operation) (error : String) : (journal.fail operation error).files = journal.files := by
  unfold Journal.fail
  split <;> rfl

theorem World.Apart.fails (h : w.Apart casing) (operation : Operation) (error : String) (left : Bool) (loop : Loop) :
    (w.fails operation error left loop).Apart casing := by
  refine ⟨?_, h.2⟩
  change Distinct casing (w.memory.fail operation error).files
  rw [fail_files]
  exact h.1

theorem World.Apart.leave (h : w.Apart casing) (saved : Bool) (loop : Loop) : (w.leave saved loop).Apart casing := by
  cases saved with
  | true => exact ⟨h.1, h.1⟩
  | false =>
    cases loop with
    | drain => exact h
    | restart => exact ⟨Distinct.empty, h.2⟩

theorem World.Apart.step (h : w.Apart casing) (hstep : FollowStep casing w acts t) : t.Apart casing := by
  obtain ⟨hstep, hcareful, hunclaimed⟩ := hstep
  cases hstep with
  | identifies _ _ _ saved _ hknown => exact h.write (h.1.identify hknown) saved
  | deletes _ _ saved => exact h.write (h.1.delete _) saved
  | removesWorkspace workspaceId saved =>
    have hcancelled : Distinct casing (w.memory.cancelAll workspaceId).files := h.1
    exact h.write (hcancelled.delete _) saved
  | leases _ saved | releases _ _ saved | cancels _ saved | queues _ _ _ _ saved =>
    refine h.write ?_ saved
    exact h.1
  | plansNew _ _ _ _ _ _ _ _ _ _ hknown | tracksNew _ _ _ _ _ _ _ _ hknown =>
    exact h.write (h.1.identify hknown) true
  | plansUnsaved _ _ _ _ _ _ _ _ _ _ hknown =>
    exact h.write (h.1.identify hknown) false
  | tracksUnsaved operation _ _ loop _ error _ _ hknown =>
    exact World.Apart.fails (h.write (h.1.identify hknown) false) operation error false loop
  | refuses _ operation _ error => exact h.fails operation error false _
  | trackFails operation _ _ loop error | beginsUnsaved operation loop error => exact h.fails operation error false loop
  | begins =>
    refine h.write ?_ true
    exact h.1
  | renameFails operation loop _ _ _ _ _ error | moveThrows operation loop _ error | checkpointFails operation loop error =>
    exact h.fails operation error true loop
  | rewrites operation loop m hphase hoperation hmove =>
    exact ⟨h.1.rewrite (hcareful.cased operation hoperation loop m hphase hmove) (hunclaimed operation hoperation loop m hphase hmove), h.2⟩
  | rewriteThrows => exact absurd (mem_singleton.mpr rfl) hcareful.indexed
  | checkpoints => exact h.write h.1 true
  | ends _ _ saved loop => exact h.leave saved loop
  | dies => exact ⟨Distinct.empty, h.2⟩
  | starts => exact ⟨h.2, h.2⟩
  | _ => exact h

theorem apart_run (disk : String → Tree Name ℕ) (assets : List Asset)
    (h : Execution (FollowStep casing) (.start disk assets) runs w) : w.Apart casing := by
  induction h with
  | start => exact ⟨Distinct.empty, Distinct.empty⟩
  | step _ hlast ih => exact ih.step hlast

theorem moved_of_source {before : Tree Name ℕ} {path : List Name} (hplanned : Planned moves) (hchecked : Checked casing before moves)
    (hm : m ∈ moves) (hbelow : parts m.source <+: path) :
    moved moves path = parts m.destination ++ path.drop (parts m.source).length := by
  obtain ⟨front, back, rfl⟩ := append_of_mem hm
  have hfront : moved front path = path := by
    apply moved_eq_self
    intro n hn hsource
    have hapart := (pairwise_append.mp hplanned.apart).2.2 n hn m mem_cons_self
    rcases prefix_or_prefix_of_prefix hsource hbelow with hsub | hsub
    · exact hapart.1 hsub
    · exact hapart.2 hsub
  obtain ⟨rest, rfl⟩ := hbelow
  have hback : moved back (parts m.destination ++ rest) = parts m.destination ++ rest := by
    apply moved_eq_self
    intro n hn
    have hmem : n ∈ front ++ m :: back := mem_append_right _ (mem_cons_of_mem m hn)
    exact not_prefix_append (hplanned.outside n hmem m hm) (hchecked.not_above hm hmem)
  unfold moved at *
  rw [foldl_append, foldl_cons, hfront, relocate_of_append, hback, drop_left]

theorem parts_followed (hspelled : ∀ m ∈ moves, Spelled m.source ∧ Spelled m.destination) (hpath : Spelled path) :
    parts (followed moves path) = moved moves (parts path) := by
  induction moves generalizing path with
  | nil => rfl
  | cons m rest ih =>
    obtain ⟨hfirst, hrest⟩ := forall_mem_cons.mp hspelled
    change parts (followed rest (m.follow path)) = moved rest (relocate (parts m.source) (parts m.destination) (parts path))
    rw [ih hrest (FileMove.spelled_follow hfirst.2 hpath), FileMove.parts_follow hfirst.1 hpath]

/-- What the identities of a state are worth: one for each path, found again by the path it refers to,
and gone with its file wherever an operation has moved that. -/
structure Identified (casing : Casing) (runs : List (List Action)) (w : World) : Prop where
  unique : ∀ row ∈ w.memory.files, ∀ other ∈ w.memory.files, row.workspaceId = other.workspaceId → row.deleted = false →
    other.deleted = false → parts row.path = parts other.path → row = other
  shared : ∀ workspaceId path other row row', known casing w.memory.files workspaceId path = some row →
    known casing w.memory.files workspaceId other = some row' → row.id = row'.id → casing.lower path = casing.lower other
  found : ∀ row ∈ w.memory.files, row.deleted = false → ∀ path,
    reference casing w.memory.files row.workspaceId path (some row.id) = .ok row.path ∧
      known casing w.memory.files row.workspaceId row.path = some row
  moved : ∀ op after, .ended op after ∈ runs.flatten → op.state = .completed → ∃ before, .left op.id before ∈ runs.flatten ∧
    ∀ m ∈ op.moves, ∀ file ∈ before.files, parts m.source <+: parts file.2 → ∃ file' ∈ after.files, file'.1 = file.1 ∧
      parts file'.2 = parts m.destination ++ (parts file.2).drop (parts m.source).length ∧
      ∀ e ∈ before.disk.entries, e.path = parts file.2 → ∃ e' ∈ after.disk.entries, e'.path = parts file'.2 ∧ e'.file = e.file

theorem reference_of_mem {row : Identity} (hrow : row ∈ files) (hlive : row.deleted = false) (path : Path) :
    reference casing files row.workspaceId path (some row.id) = .ok row.path := by
  have hfound : (files.rows.find? fun f => f.workspaceId = row.workspaceId && f.id = row.id && !f.deleted) = some row := by
    cases hfind : files.rows.find? fun f => f.workspaceId = row.workspaceId && f.id = row.id && !f.deleted with
    | none =>
      have hnone := List.find?_eq_none.mp hfind row hrow
      simp [hlive] at hnone
    | some =>
      have hother := find?_some hfind
      simp only [Bool.and_eq_true, decide_eq_true_eq] at hother
      rw [eq_of_key (mem_of_find?_eq_some hfind) hrow hother.1.2]
  unfold reference
  dsimp only
  rw [hfound]

theorem known_of_mem (h : Distinct casing files) {row : Identity} (hrow : row ∈ files) (hlive : row.deleted = false) :
    known casing files row.workspaceId row.path = some row := by
  cases hknown : known casing files row.workspaceId row.path with
  | none => exact absurd rfl (known_eq_none.mp hknown row hrow rfl hlive)
  | some other =>
    obtain ⟨hother, hworkspace, hotherLive, hlower⟩ := known_eq_some hknown
    rw [h other hother row hrow hworkspace hotherLive hlive hlower]

/-- In every run of careful steps that move nothing onto a path some other identity still has, the
identities are unique and follow their files. -/
theorem identities_follow (casing : Casing) (disk : String → Tree Name ℕ) (assets : List Asset) (runs : List (List Action)) (w : World)
    (h : Execution (FollowStep casing) (.start disk assets) runs w) : Identified casing runs w := by
  have hapart := apart_run disk assets h
  have hsound := (sound_start disk assets).run (h.mono fun _ _ _ hstep => hstep.careful)
  rw [nil_append] at hsound
  constructor
  · intro row hrow other hother hworkspace hrowLive hotherLive hparts
    have hpath := parts_inj (hsound.memory.spelled row hrow) (hsound.memory.spelled other hother) hparts
    exact hapart.1 row hrow other hother hworkspace hrowLive hotherLive (congrArg casing.lower hpath)
  · intro _ path _ row _ hknown hknown' hid
    obtain ⟨hrow, -, -, hlower⟩ := known_eq_some hknown
    obtain ⟨hrow', -, -, hlower'⟩ := known_eq_some hknown'
    rw [← hlower, ← hlower', eq_of_key hrow hrow' hid]
  · intro _ hrow hlive path
    exact ⟨reference_of_mem hrow hlive path, known_of_mem hapart.1 hrow hlive⟩
  · intro op after hended hcompleted
    obtain ⟨before, hleft, hspelled, hplanned, hrevised, hchecked, htook⟩ := hsound.ended op after hended
    unfold Operation.Revised at hrevised
    rw [hcompleted] at hrevised
    have happlied : op.applied ≠ 0 := by
      rw [hrevised.1]
      exact fun hzero => hplanned.nonempty (length_eq_zero_iff.mp hzero)
    rw [hrevised.1, take_length] at htook
    refine ⟨before, hleft, fun m hm file hfile hbelow => ?_⟩
    have hmoved := moved_of_source hplanned (hchecked happlied) hm hbelow
    have hparts := parts_followed hplanned.spelled (hspelled file hfile)
    refine ⟨(file.1, followed op.moves file.2), ?_, rfl, hparts.trans hmoved, fun e he hpath => ?_⟩
    · rw [htook.files]
      exact mem_map_of_mem hfile
    · obtain ⟨e', he', hsame, hpath'⟩ := htook.kept e he
      refine ⟨e', he', ?_, hsame⟩
      rw [hpath', hpath, hparts]

namespace FilingExample

theorem note_identified : Identified ascii (filed ++ [[]] ++ [[]] ++ [[]] ++ [[.ended done (completed.snapshot "project")]])
    (completed.leave true (.drain "project" [])) :=
  identities_follow ascii disk _ _ _ note_filed

def nested : String → Tree Name ℕ := fun _ =>
  ⟨[⟨[['a']], none⟩, ⟨[['a'], ['b']], some 1⟩], by simp, by simp, by simp⟩

def started : World := { World.start nested [] with phase := .looping (.restart []) }

def firstName : UUID := ⟨"00000000-0000-4000-8000-000000000033", rfl⟩

def secondName : UUID := ⟨"00000000-0000-4000-8000-000000000034", rfl⟩

def named : World := (((started.enter .idle).write (started.memory.identify firstName "project" ['a', '\\', 'b']) true).draw firstName)

def namedTwice : World := ((named.write (named.memory.identify secondName "project" ['a', '/', 'b']) true).draw secondName)

theorem named_twice : ¬ ∀ casing disk assets runs w, Execution (Step casing) (.start disk assets) runs w → Identified casing runs w := by
  intro hall
  have h : Execution (Step ascii) (.start nested []) [[]] started := .single (.starts rfl)
  have h : Execution (Step ascii) (.start nested []) [[], []] (started.enter .idle) := h.step (.restarted rfl)
  have h : Execution (Step ascii) (.start nested []) [[], [], [.identified ['a', '\\', 'b']]] named :=
    h.step (.identifies "project" ['a', '\\', 'b'] firstName true rfl (by decide) (by decide))
  have h : Execution (Step ascii) (.start nested []) [[], [], [.identified ['a', '\\', 'b']], [.identified ['a', '/', 'b']]] namedTwice :=
    h.step (.identifies "project" ['a', '/', 'b'] secondName true rfl (by decide) (by decide))
  have hsame := (hall ascii nested _ _ _ h).unique ⟨firstName, "project", ['a', '\\', 'b'], [], false⟩
    (mem_rows.mp (by decide)) ⟨secondName, "project", ['a', '/', 'b'], [], false⟩
    (mem_rows.mp (by decide)) rfl rfl rfl (by decide)
  exact absurd (congrArg Identity.path hsame) (by decide)

end FilingExample

end WorkAgent.Harness.Moves
