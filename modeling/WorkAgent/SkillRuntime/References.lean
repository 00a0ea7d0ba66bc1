import WorkAgent.SkillRuntime.Integrity

namespace WorkAgent.SkillRuntime

open Library Script Function List Option

variable {Tree : Type} {lower : Char → Char} {w t s : World Tree} {op : Op Tree} {r row : Entry Tree} {c d : Call Tree}
  {log : List (Call Tree × Bool)} {answer : Option Answer} {directory id : String} {input : ReferenceInput}

structure Touches (w t : World Tree) (id : String) : Prop where
  rows : t.rows = w.rows
  revoked : t.revoked = w.revoked
  disk : ∀ other, other ≠ fold id → t.disk other = w.disk other

theorem Touches.refl (w : World Tree) (id : String) : Touches w w id := ⟨rfl, rfl, fun _ _ => rfl⟩

theorem Touches.withDisk {x : Option (Directory Tree)} (h : Touches w t id) : Touches w (t.withDisk id x) id := by
  refine ⟨?_, ?_, ?_⟩
  · rw [World.rows_withDisk, h.rows]
  · rw [World.revoked_withDisk, h.revoked]
  · intro other hne
    rw [World.disk_withDisk, update_of_ne hne, h.disk other hne]

theorem fair_touched (name : String) (h : Sound w) (hop : op = .reference input) (htouches : Touches w t input.id)
    (hreference : ∀ r ∈ w.rows, r.id = input.id → r.package = none)
    (hsafe : (∀ r ∈ w.rows, r.id = input.id → t.node input.id r.path.bundle = w.node input.id r.path.bundle) ∨
      ((Call.unlink input.id name, true) ∈ log ∧ ∀ row, (Call.upsert row, true) ∉ log)) : Fair lower w op log none t := by
  intro hcareful
  have hapart (r : Entry Tree) (hr : r ∈ w.rows) (hid : r.id ≠ input.id) : t.disk (fold r.path.directory) = w.disk (fold r.path.directory) :=
    htouches.disk _ (hcareful.separate input hop r hr hid)
  have hown (r : Entry Tree) (hr : r ∈ w.rows) (hid : r.id = input.id) : t.node r.path.directory r.path.bundle = w.node r.path.directory r.path.bundle := by
    have hhome : r.path.directory = input.id := (h.home r hr (hreference r hr hid)).trans hid
    rw [hhome]
    rcases hsafe with hsafe | ⟨hunlinked, hnone⟩
    · exact hsafe r hr hid
    · rcases hcareful.linked rfl input.id name hunlinked with hnorow | ⟨row, hrow⟩
      · exact absurd hid (hnorow r hr)
      · exact absurd hrow (hnone row)
  have hholds (r : Entry Tree) (hr : r ∈ w.rows) : t.node r.path.directory r.path.bundle = some r.content := by
    by_cases hid : r.id = input.id
    · rw [hown r hr hid]
      exact h.housed.holds r hr
    · rw [World.node, hapart r hr hid]
      exact h.housed.holds r hr
  have hsound : Sound t := by
    refine ⟨⟨?_, ?_⟩, ?_, ?_⟩
    · rw [htouches.rows]
      exact hholds
    · rw [htouches.rows]
      exact h.housed.apart
    · rw [htouches.rows]
      exact h.plain
    · rw [htouches.rows]
      exact h.home
  refine ⟨hsound, hsound.housed, (by simp), ?_, ?_⟩
  · intro r hr hnot
    rw [htouches.rows]
    refine ⟨hr, hapart r hr ?_⟩
    intro hid
    rw [hop] at hnot
    exact hnot hid
  · intro _ hid hoff
    rw [htouches.rows, htouches.revoked]
    exact ⟨hid, hoff⟩

section Upsert

theorem upsertRow_eq {rows rows' : Table (@Entry.id Tree)} (h : upsertRow rows row = some rows') :
    ∃ new : Entry Tree, new.id = row.id ∧ (∀ r, r ∈ rows' ↔ (r ∈ rows ∧ r.id ≠ row.id) ∨ r = new) ∧
      ((∃ old ∈ rows, old.id = row.id ∧ new = old.update row) ∨ ((∀ r ∈ rows, r.id ≠ row.id) ∧ new = row)) := by
  unfold upsertRow at h
  split at h
  · rename_i hhas
    obtain ⟨old, hold, hid⟩ := Table.has_eq_true.mp hhas
    split at h
    · cases h
      refine ⟨old.update row, hid, ?_, .inl ⟨old, hold, hid, rfl⟩⟩
      intro r
      constructor
      · intro hr
        obtain ⟨_, hr₀, -, ⟨hkey, rfl⟩ | ⟨hkey, rfl⟩⟩ := Table.exists_of_mem_update hr
        · obtain rfl := Table.eq_of_key hr₀ hold (hkey.trans hid.symm)
          exact .inr rfl
        · exact .inl ⟨hr₀, hkey⟩
      · rintro (⟨hr, hne⟩ | rfl)
        · exact Table.mem_update_of_neg (p := fun r => r.id = row.id) (f := fun r => r.update row) hr hne fun _ => rfl
        · exact Table.mem_update_of_pos (p := fun r => r.id = row.id) (f := fun r => r.update row) hold hid fun _ => rfl
    · cases h
  · rename_i hhas
    obtain ⟨hnone, hmem⟩ := insertRow_eq h
    refine ⟨row, rfl, ?_, .inr ⟨fun r hr => (hnone r hr).1, rfl⟩⟩
    intro r
    rw [hmem]
    exact or_congr_left ⟨fun hr => ⟨hr, (hnone r hr).1⟩, And.left⟩

theorem effect_upsert (h : effect (.upsert row) t = some s) : ∃ rows, upsertRow t.rows row = some rows ∧ s = t.withRows rows := by
  obtain ⟨rows, hrows, hs⟩ := map_eq_some_iff.mp h
  exact ⟨rows, hrows, hs.symm⟩

end Upsert

section Reference

/-- A reference to the directory `target` is being made, and nothing but its link has changed yet. -/
structure Linking (lower : Char → Char) (w : World Tree) (op : Op Tree) (input : ReferenceInput) (target : String) (t : World Tree) : Prop where
  sound : Sound w
  op : op = .reference input
  target : input.directory = some target
  touches : Touches w t input.id
  reference : ∀ r ∈ w.rows, r.id = input.id → r.package = none
  other : ∀ name, name ≠ safeSegment lower input.name → t.node input.id name = w.node input.id name

variable {target : String}

theorem fair_registered (h : Linking lower w op input target t) (hlinked : t.node input.id (safeSegment lower input.name) = some (.link target))
    {rows : Table (@Entry.id Tree)} (hrows : upsertRow w.rows (input.row lower target) = some rows) (hanswer : answer ≠ some .failed) :
    Fair lower w op log answer (t.withRows rows) := by
  obtain ⟨h, hop, hinput, htouches, hreference, hother⟩ := h
  intro hcareful
  obtain ⟨new, hid, hmem, hnew⟩ := upsertRow_eq hrows
  have hapart (r : Entry Tree) (hr : r ∈ w.rows) (hne : r.id ≠ input.id) : fold r.path.directory ≠ fold input.id :=
    hcareful.separate input hop r hr hne
  have hdisk (r : Entry Tree) (hr : r ∈ w.rows) (hne : r.id ≠ input.id) : (t.withRows rows).disk (fold r.path.directory) = w.disk (fold r.path.directory) := by
    rw [World.disk_withRows]
    exact htouches.disk _ (hapart r hr hne)
  have hpackage : new.package = none := by
    rcases hnew with ⟨old, hold, hsame, rfl⟩ | ⟨-, rfl⟩
    · exact hreference old hold hsame
    · rfl
  have hdirectory : new.path.directory = input.id := by
    rcases hnew with ⟨old, hold, hsame, rfl⟩ | ⟨-, rfl⟩
    · exact (h.home old hold (hreference old hold hsame)).trans hsame
    · rfl
  have hcontent : new.content = .link target := by
    rw [Entry.content, hpackage]
    rcases hnew with ⟨old, -, -, rfl⟩ | ⟨-, rfl⟩
    · rfl
    · rfl
  have hnode : t.node input.id new.path.bundle = some (.link target) := by
    by_cases hbundle : new.path.bundle = safeSegment lower input.name
    · rw [hbundle]
      exact hlinked
    rcases hnew with ⟨old, hold, hsame, rfl⟩ | ⟨-, rfl⟩
    · rcases hcareful.bundle input hop old hold hsame with hkept | htarget
      · exact absurd hkept hbundle
      · have hholds := h.housed.holds old hold
        have hhome : old.path.directory = input.id := hdirectory
        rw [hinput] at htarget
        rw [hother _ hbundle]
        rw [hhome, Entry.content, hreference old hold hsame, ← Option.some.inj htarget] at hholds
        exact hholds
    · exact absurd rfl hbundle
  have hsound : Sound (t.withRows rows) := by
    refine h.rehouse new ?_ ?_ ?_ ?_
    · intro r hr
      rcases (hmem r).mp hr with ⟨hr, hne⟩ | rfl
      · exact .inr ⟨hr, hdirectory ▸ hapart r hr hne, hdisk r hr hne⟩
      · exact .inl rfl
    · intro _
      rw [hdirectory, hcontent, ← hnode, World.node, World.disk_withRows, World.node]
    · intro hsome
      rw [hpackage] at hsome
      cases hsome
    · intro _
      exact hdirectory.trans hid.symm
  refine ⟨hsound, hsound.housed, fun hfailed => absurd hfailed hanswer, ?_, ?_⟩
  · intro r hr hnot
    have hne : r.id ≠ input.id := by
      intro hsame
      rw [hop] at hnot
      exact hnot hsame
    exact ⟨(hmem r).mpr (.inl ⟨hr, hne⟩), hdisk r hr hne⟩
  · intro id hrevoked hoff
    rw [World.revoked_withRows, htouches.revoked]
    refine ⟨hrevoked, ?_⟩
    intro r hr hrid
    rcases (hmem r).mp hr with ⟨hr, -⟩ | rfl
    · exact hoff r hr hrid
    · rcases hnew with ⟨old, hold, hsame, rfl⟩ | ⟨hnone, rfl⟩
      · exact hoff old hold hrid
      · rw [← Bool.not_eq_true]
        intro hon
        apply hcareful.revoked id hrevoked
        rw [hop]
        exact ⟨hrid, hon, fun r hr hsame => hnone r hr (hsame.trans hrid.symm)⟩

theorem register_ends (log₀ : List (Call Tree × Bool)) (h : Linking lower w op input target t)
    (hlinked : t.node input.id (safeSegment lower input.name) = some (.link target))
    (hsafe : t.node input.id (safeSegment lower input.name) = w.node input.id (safeSegment lower input.name) ∨
      w.node input.id (safeSegment lower input.name) = none ∨
      ((Call.unlink input.id (safeSegment lower input.name), true) ∈ log₀ ∧ ∀ row, (Call.upsert row, true) ∉ log₀))
    (haltered : t = w ∨ ∃ d, (d, true) ∈ log₀ ∧ d.Alters w) :
    (attempt (.native (target ++ "\\SKILL.md")) (done .failed) <| attempt (.upsert (input.row lower target)) (done .failed) <|
      attempt .answers (done .failed) (done .succeeded)).Ends effect (fun log answer t => Fair lower w op (log₀ ++ log) answer t) t := by
  have hdied {log : List (Call Tree × Bool)} {s : World Tree} (htouches : Touches w s input.id) (hsame : s.disk = t.disk)
      (hlog : ∀ row, (Call.upsert row, true) ∉ log) : Fair lower w op (log₀ ++ log) none s := by
    have hnode (name : String) : s.node input.id name = t.node input.id name := by rw [World.node, hsame, World.node]
    apply fair_touched (safeSegment lower input.name) h.sound h.op htouches h.reference
    rcases hsafe with hsafe | hsafe | ⟨hunlinked, hnone⟩
    · refine .inl fun r _ _ => ?_
      by_cases hname : r.path.bundle = safeSegment lower input.name
      · rw [hnode, hname, hsafe]
      · rw [hnode, h.other _ hname]
    · refine .inl fun r hr hid => ?_
      rw [hnode]
      apply h.other
      intro hname
      have hholds := h.sound.housed.holds r hr
      rw [(h.sound.home r hr (h.reference r hr hid)).trans hid, hname, hsafe] at hholds
      cases hholds
    · refine .inr ⟨mem_append_left _ hunlinked, ?_⟩
      intro row hrow
      rcases mem_append.mp hrow with hrow | hrow
      · exact hnone row hrow
      · exact hlog row hrow
  have hfailed {c : Call Tree} {log : List (Call Tree × Bool)} {s : World Tree} (hin : (c, false) ∈ log)
      (hdone : s = w ∨ ∃ d, (d, true) ∈ log₀ ++ log ∧ d.Alters w) : Fair lower w op (log₀ ++ log) (some .failed) s := by
    rcases hdone with rfl | ⟨d, hd, halters⟩
    · exact fair_same h.sound
    · exact fair_failed (c := c) (d := d) (mem_append_right _ hin) hd halters
  rw [ends_attempt]
  refine ⟨hdied h.touches rfl (by simp), ?_, ?_⟩
  · apply hfailed (c := .native (target ++ "\\SKILL.md")) (by simp)
    rcases haltered with hsame | ⟨d, hd, halters⟩
    · exact .inl hsame
    · exact .inr ⟨d, mem_append_left _ hd, halters⟩
  intro s hs
  obtain rfl := (Option.some.inj hs).symm
  have hnative : Touches w { t with native := insert (target ++ "\\SKILL.md") t.native } input.id :=
    ⟨h.touches.rows, h.touches.revoked, h.touches.disk⟩
  refine ⟨hdied hnative rfl (by simp), ?_⟩
  rw [ends_attempt]
  refine ⟨hdied hnative rfl (by simp), ?_, ?_⟩
  · apply hfailed (c := .upsert (input.row lower target)) (by simp)
    rcases haltered with rfl | ⟨d, hd, halters⟩
    · by_cases hnew : target ++ "\\SKILL.md" ∈ t.native
      · left
        refine World.ext rfl rfl ?_ rfl rfl
        exact Finset.insert_eq_of_mem hnew
      · exact .inr ⟨.native (target ++ "\\SKILL.md"), by simp, hnew⟩
    · exact .inr ⟨d, mem_append_left _ hd, halters⟩
  intro s hs
  obtain ⟨rows, hrows, rfl⟩ := effect_upsert hs
  have hdone {log answer} (hanswer : answer ≠ some .failed) :
      Fair lower w op log answer (({ t with native := insert (target ++ "\\SKILL.md") t.native } : World Tree).withRows rows) := by
    refine fair_registered { h with touches := hnative } hlinked ?_ hanswer
    rw [← h.touches.rows]
    exact hrows
  refine ⟨hdone (by simp), ?_⟩
  rw [ends_attempt]
  refine ⟨hdone (by simp), ?_, ?_⟩
  · exact fair_failed (c := .answers) (d := .upsert (input.row lower target)) (by simp) (by simp) trivial
  · intro u hu
    obtain rfl := (Option.some.inj hu).symm
    exact ⟨hdone (by simp), hdone (by simp)⟩

theorem node_withDisk {x : Option (Directory Tree)} {name : String} : (w.withDisk directory x).node directory name = x.bind (· name) := by
  rw [World.node, World.disk_withDisk, update_self]

theorem effect_makeDirectory (h : effect (.makeDirectory directory) t = some s) :
    (t.disk (fold directory) = none ∧ s = t.withDisk directory (some fun _ => none)) ∨ ((t.disk (fold directory)).isSome ∧ s = t) := by
  simp only [effect] at h
  split at h
  · exact .inl ⟨‹_›, (Option.some.inj h).symm⟩
  · rename_i d hd
    exact .inr ⟨by rw [hd]; rfl, (Option.some.inj h).symm⟩

def Unlinked (w : World Tree) (id name : String) (log : List (Call Tree × Bool)) (t : World Tree) : Prop :=
  (w.node id name = none ∧ (t = w ∨ ∃ d, (d, true) ∈ log ∧ d.Alters w)) ∨
    ((Call.unlink id name, true) ∈ log ∧ ∀ row, (Call.upsert row, true) ∉ log)

theorem Unlinked.append {name : String} {log' : List (Call Tree × Bool)} (h : Unlinked w id name log t)
    (hlog' : ∀ row, (Call.upsert row, true) ∉ log') : Unlinked w id name (log ++ log') t := by
  rcases h with ⟨hnone, hdone⟩ | ⟨hunlinked, hlog⟩
  · refine .inl ⟨hnone, ?_⟩
    rcases hdone with hsame | ⟨d, hd, halters⟩
    · exact .inl hsame
    · exact .inr ⟨d, mem_append_left _ hd, halters⟩
  · refine .inr ⟨mem_append_left _ hunlinked, ?_⟩
    intro row hrow
    exact (mem_append.mp hrow).elim (hlog row) (hlog' row)

theorem Linking.fair (h : Linking lower w op input target t) (hunlinked : Unlinked w input.id (safeSegment lower input.name) log s) :
    Fair lower w op log none t := by
  apply fair_touched (safeSegment lower input.name) h.sound h.op h.touches h.reference
  rcases hunlinked with ⟨hnone, -⟩ | hunlinked
  · left
    intro r hr hid
    apply h.other
    intro hname
    have hholds := h.sound.housed.holds r hr
    rw [(h.sound.home r hr (h.reference r hr hid)).trans hid, hname, hnone] at hholds
    cases hholds
  · exact .inr hunlinked

theorem Unlinked.failed {name : String} (hunlinked : Unlinked w id name log t) (h : Sound w) (hin : (c, false) ∈ log) :
    Fair lower w op log (some .failed) t := by
  rcases hunlinked with ⟨-, rfl | ⟨d, hd, halters⟩⟩ | ⟨hunlinked, -⟩
  · exact fair_same h
  · exact fair_failed hin hd halters
  · exact fair_failed hin hunlinked trivial

section

variable (log₀ : List (Call Tree × Bool)) (h : Linking lower w op input target t)
  (hunlinked : Unlinked w input.id (safeSegment lower input.name) log₀ t)
include log₀ h hunlinked

theorem link_ends : (attempt (.link input.id (safeSegment lower input.name) target) (done .failed) <|
      attempt (.native (target ++ "\\SKILL.md")) (done .failed) <| attempt (.upsert (input.row lower target)) (done .failed) <|
      attempt .answers (done .failed) (done .succeeded)).Ends effect (fun log answer t => Fair lower w op (log₀ ++ log) answer t) t := by
  have hfailed : Unlinked w input.id (safeSegment lower input.name)
      (log₀ ++ [(Call.link input.id (safeSegment lower input.name) target, false)]) t := hunlinked.append (by simp)
  rw [ends_attempt]
  refine ⟨h.fair hfailed, hfailed.failed (c := .link input.id (safeSegment lower input.name) target) h.sound (by simp), ?_⟩
  intro s hs
  obtain ⟨d, hd, rfl⟩ := map_eq_some_iff.mp hs
  have hlog : Unlinked w input.id (safeSegment lower input.name)
      (log₀ ++ [(Call.link input.id (safeSegment lower input.name) target, true)]) t := hunlinked.append (by simp)
  have hlinking : Linking lower w op input target
      (t.withDisk input.id (some (Function.update d (safeSegment lower input.name) (some (.link target))))) := by
    refine { h with touches := h.touches.withDisk, other := fun name hne => ?_ }
    rw [node_withDisk, bind_some, update_of_ne hne, ← h.other name hne, World.node, hd, bind_some]
  refine ⟨hlinking.fair hlog, ?_⟩
  have hregister := register_ends (log₀ ++ [(Call.link input.id (safeSegment lower input.name) target, true)]) hlinking (by
      rw [node_withDisk, bind_some, update_self])
    (.inr (Or.imp_left And.left hlog)) (.inr ⟨.link input.id (safeSegment lower input.name) target, by simp, trivial⟩)
  simpa only [append_assoc, singleton_append] using hregister

theorem create_ends (halready : t = w ∨ (t.disk (fold input.id)).isSome) :
    (attempt (.makeDirectory input.id) (done .failed) <| attempt (.link input.id (safeSegment lower input.name) target) (done .failed) <|
      attempt (.native (target ++ "\\SKILL.md")) (done .failed) <| attempt (.upsert (input.row lower target)) (done .failed) <|
      attempt .answers (done .failed) (done .succeeded)).Ends effect (fun log answer t => Fair lower w op (log₀ ++ log) answer t) t := by
  have hfailed : Unlinked w input.id (safeSegment lower input.name) (log₀ ++ [(Call.makeDirectory input.id, false)]) t :=
    hunlinked.append (by simp)
  rw [ends_attempt]
  refine ⟨h.fair hfailed, hfailed.failed (c := .makeDirectory input.id) h.sound (by simp), ?_⟩
  intro s hs
  have hmade : Linking lower w op input target s ∧
      Unlinked w input.id (safeSegment lower input.name) (log₀ ++ [(Call.makeDirectory input.id, true)]) s := by
    rcases effect_makeDirectory hs with ⟨hnone, rfl⟩ | ⟨-, rfl⟩
    · obtain rfl : t = w := by
        refine halready.resolve_right ?_
        rw [hnone]
        simp
      have hempty (name : String) : t.node input.id name = none := by rw [World.node, hnone, bind_none]
      refine ⟨{ h with touches := h.touches.withDisk, other := fun name _ => ?_ },
        .inl ⟨hempty _, .inr ⟨.makeDirectory input.id, by simp, hnone⟩⟩⟩
      rw [node_withDisk, hempty, bind_some]
    · exact ⟨h, hunlinked.append (by simp)⟩
  obtain ⟨hlinking, hlog⟩ := hmade
  refine ⟨hlinking.fair hlog, ?_⟩
  have hlink := link_ends (log₀ ++ [(Call.makeDirectory input.id, true)]) hlinking hlog
  simpa only [append_assoc, singleton_append] using hlink

end

theorem reference_ends (h : Sound w) (hop : op = .reference input) :
    (Reference lower input).Ends effect (fun log answer t => Fair lower w op log answer t) w := by
  have hsame {log answer} : Fair lower w op log answer w := fair_same h
  unfold Reference
  split
  · exact hsame
  rename_i target hinput
  split
  · exact hsame
  refine ends_reads (fun _ _ => hsame) ?_
  rw [ends_look]
  split
  · exact hsame
  rename_i hprevious
  have hreference (r : Entry Tree) (hr : r ∈ w.rows) (hid : r.id = input.id) : r.package = none := by
    by_contra hpackage
    apply hprevious
    rw [Table.find?_eq_some.mpr ⟨hr, hid⟩]
    simpa using h.plain r hr (isSome_iff_ne_none.mpr hpackage)
  have hlinking : Linking lower w op input target w := ⟨h, hop, hinput, .refl .., hreference, fun _ _ => rfl⟩
  refine ends_reads (fun _ _ => hsame) ?_
  rw [ends_look]
  split
  · exact hsame
  unfold EnsureDirectoryReference
  refine ends_reads (fun _ _ => hsame) ?_
  rw [ends_look]
  split
  · rename_i hnone
    exact create_ends [_, _, _] hlinking (.inl ⟨hnone, .inl rfl⟩) (.inl rfl)
  · exact hsame
  · rename_i current hcurrent
    split
    · rename_i htarget
      refine register_ends [_, _, _] hlinking ?_ (.inl rfl) (.inl rfl)
      rw [hcurrent, htarget]
    · rw [ends_attempt]
      refine ⟨hsame, hsame, ?_⟩
      intro s hs
      obtain ⟨d, hd, rfl⟩ := map_eq_some_iff.mp hs
      have htouches : Touches w (w.withDisk input.id (some (Function.update d (safeSegment lower input.name) none))) input.id :=
        (Touches.refl w input.id).withDisk
      refine ⟨?_, ?_⟩
      · exact fair_touched (safeSegment lower input.name) h hop htouches hreference (.inr ⟨by simp, by simp⟩)
      · refine create_ends [_, _, _, _] { hlinking with touches := htouches, other := ?_ } (.inr ⟨by simp, by simp⟩) (.inr ?_)
        · intro _ hne
          rw [node_withDisk, World.node, hd, bind_some, bind_some, update_of_ne hne]
        · rw [World.disk_withDisk, update_self]
          rfl

end Reference

end WorkAgent.SkillRuntime
