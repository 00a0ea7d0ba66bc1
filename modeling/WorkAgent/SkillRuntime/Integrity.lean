import WorkAgent.SkillRuntime.Housing

namespace WorkAgent.SkillRuntime

open Library Script Table Function List Call

variable {Tree : Type} {lower : Char → Char} {w t s : World Tree} {op : Op Tree} {r row : Entry Tree} {c d : Call Tree}
  {log pre : List (Call Tree × Bool)} {answer : Option Answer} {directory bin name : String} {input : InstallInput Tree}

theorem effect_reads (h : effect .reads w = some t) : w = t := Option.some.inj h

theorem ends_reads {Q : List (Call Tree × Bool) → Option Answer → World Tree → Prop} {p : Script (World Tree) (Call Tree) Answer}
    (hsame : ∀ log answer, Q log answer w) (h : p.Ends effect (fun log => Q ((.reads, true) :: log)) w) :
    (attempt .reads (done .failed) p).Ends effect Q w := by
  rw [ends_attempt]
  refine ⟨hsame _ _, hsame _ _, ?_⟩
  intro s hs
  obtain rfl := effect_reads hs
  exact ⟨hsame _ _, h⟩

theorem effect_activate {bundle : String} {tree : Tree} (h : effect (.activate directory bundle tree) w = some t) :
    w.disk (fold directory) = none ∧ t = w.withDisk directory (some fun name => if name = bundle then some (.package tree) else none) := by
  simp only [effect] at h
  split at h
  · exact ⟨‹_›, (Option.some.inj h).symm⟩
  · cases h

theorem effect_archive (h : effect (.archive directory bin) w = some t) : ∃ d, w.disk (fold directory) = some d ∧ w.trash bin = none ∧
    t = (w.withDisk directory none).withTrash bin (some d) := by
  simp only [effect] at h
  split at h
  · exact ⟨_, ‹_›, ‹_›, (Option.some.inj h).symm⟩
  · cases h

theorem restored {d : Directory Tree} (hd : w.disk (fold directory) = some d) (hbin : w.trash bin = none) :
    (((w.withDisk directory none).withTrash bin (some d)).withDisk directory (some d)).withTrash bin none = w := by
  have hdisk : Function.update (Function.update w.disk (fold directory) none) (fold directory) (some d) = w.disk := by
    rw [update_idem, ← hd, Function.update_eq_self]
  have htrash : Function.update (Function.update w.trash bin (some d)) bin none = w.trash := by
    rw [update_idem, ← hbin, Function.update_eq_self]
  refine World.ext ?_ ?_ ?_ ?_ ?_
  all_goals simp [hdisk, htrash]

theorem effect_restore (h : effect (.restore bin directory) s = some t) : ∃ d, s.trash bin = some d ∧ s.disk (fold directory) = none ∧
    t = (s.withDisk directory (some d)).withTrash bin none := by
  simp only [effect] at h
  split at h
  · exact ⟨_, ‹_›, ‹_›, (Option.some.inj h).symm⟩
  · cases h

theorem effect_insert (h : effect (.insert row) w = some t) : ∃ rows, insertRow w.rows row = some rows ∧ t = w.withRows rows := by
  obtain ⟨rows, hrows, ht⟩ := Option.map_eq_some_iff.mp h
  exact ⟨rows, hrows, ht.symm⟩

section Install

variable {tree : Tree}

theorem Sound.install {bundle : String} (h : Sound w) (hfree : w.disk (fold directory) = none)
    (hs : s = w.withDisk directory (some fun name => if name = bundle then some (.package tree) else none))
    {rows : Table (@Entry.id Tree)} (hrows : insertRow w.rows row = some rows) (hpath : row.path.directory = directory)
    (hbundle : row.path.bundle = bundle) (hpackage : row.package = some tree) (hreference : row.referenceDirectory = "") : Sound (s.withRows rows) := by
  obtain ⟨-, hmem⟩ := insertRow_eq hrows
  have hnew (r : Entry Tree) (hr : r ∈ w.rows) : fold r.path.directory ≠ fold row.path.directory := by
    rw [hpath]
    exact h.free hfree hr
  subst hs
  refine h.rehouse row ?_ ?_ (fun _ => hreference) ?_
  · intro r hr
    rcases (hmem r).mp hr with hr | rfl
    · refine .inr ⟨hr, hnew r hr, disk_withDisk_ne ?_⟩
      rw [← hpath]
      exact hnew r hr
    · exact .inl rfl
  · intro _
    rw [World.node, hpath, World.disk_withRows, World.disk_withDisk, update_self, Entry.content, hpackage]
    simp [hbundle]
  · intro hnone
    rw [hpackage] at hnone
    cases hnone

theorem install_ends (log₀ : List (Call Tree × Bool)) (h : Sound w)
    (hrevoked : ∀ id ∈ w.revoked, ∀ log died, Careful lower w op log died → ¬ (input.id = id ∧ input.enabled = true)) :
    (Install lower input).Ends effect (fun log answer t => Fair lower w op (pre ++ (log₀ ++ log)) answer t) w := by
  have hsame {log answer} : Fair lower w op log answer w := fair_same h
  unfold Install
  split
  · exact hsame
  · split
    · exact hsame
    · rename_i tree hpackage
      refine ends_reads (fun _ _ => hsame) ?_
      rw [ends_look]
      split
      · exact hsame
      · rename_i hoccupied
        rw [ends_attempt]
        refine ⟨hsame, hsame, ?_⟩
        intro s hs
        obtain ⟨hfree, hs⟩ := effect_activate hs
        have hdied {log : List (Call Tree × Bool)} : Fair lower w op log none s := by
          rw [hs]
          exact fair_orphan h hfree (by simp)
        refine ⟨hdied, ?_⟩
        rw [ends_attempt]
        refine ⟨hdied, ?_, ?_⟩
        · rw [ends_ignoring]
          refine ⟨hdied, ?_, ?_⟩
          · intro hcareful
            exact absurd (by simp) (hcareful.discarded (safeSegment lower input.id))
          · intro u hu
            have hback : u = w := by
              rw [← Option.some.inj hu, hs]
              exact withDisk_back hfree
            subst hback
            exact ⟨hsame, hsame⟩
        · intro u hu
          obtain ⟨rows, hrows, rfl⟩ := effect_insert hu
          rw [hs, World.rows_withDisk] at hrows
          have hsound : Sound (s.withRows rows) := h.install hfree hs hrows (InstallInput.row_directory ..) (InstallInput.row_bundle ..) rfl rfl
          have hdone {log answer} (hanswer : answer ≠ some .failed) :
              Fair lower w op log answer (s.withRows rows) := by
            intro hcareful
            obtain ⟨-, hmem⟩ := insertRow_eq hrows
            refine ⟨hsound, hsound.housed, fun hfailed => absurd hfailed hanswer, ?_, ?_⟩
            · intro r hr _
              refine ⟨(hmem r).mpr (.inl hr), ?_⟩
              rw [World.disk_withRows, hs]
              exact disk_withDisk_ne (h.free hfree hr)
            · intro id hid hoff
              refine ⟨hs ▸ hid, ?_⟩
              intro r hr hrid
              rcases (hmem r).mp hr with hr | rfl
              · exact hoff r hr hrid
              · rw [← Bool.not_eq_true]
                exact fun hon => hrevoked id hid log _ hcareful ⟨hrid, hon⟩
          refine ⟨hdone (by simp), ?_⟩
          rw [ends_attempt]
          refine ⟨hdone (by simp), ?_, ?_⟩
          · exact fair_failed (c := .answers) (d := .insert (input.row lower tree)) (by simp) (by simp) trivial
          · intro v hv
            obtain rfl : v = s.withRows rows := (Option.some.inj hv).symm
            exact ⟨hdone (by simp), hdone (by simp)⟩

end Install

section Replace

variable {existing : Entry Tree} {tree : Tree} {x : Directory Tree} {old : String}

theorem effect_replace {id : String} (h : effect (.replace id row) w = some t) :
    ∃ rows, insertRow (w.rows.delete fun r => r.id = id) row = some rows ∧ t = w.withRows rows := by
  obtain ⟨rows, hrows, ht⟩ := Option.map_eq_some_iff.mp h
  exact ⟨rows, hrows, ht.symm⟩

def Unsettled (log : List (Call Tree × Bool)) : Prop := ∀ entry ∈ log, entry.2 = true → ¬ entry.1.Settles

theorem Unsettled.append {log' : List (Call Tree × Bool)} (h : Unsettled log) (h' : Unsettled log') : Unsettled (log ++ log') := by
  intro entry hentry
  rcases mem_append.mp hentry with hentry | hentry
  · exact h entry hentry
  · exact h' entry hentry

theorem fair_gone (harchived : (archive directory bin, true) ∈ log) (hsettled : Unsettled log) : Fair lower w op log none t := by
  intro hcareful
  obtain ⟨c, hsettles, hc⟩ := hcareful.archived rfl directory bin harchived
  exact absurd hsettles (hsettled _ hc rfl)

theorem undo_ends (log₀ : List (Call Tree × Bool)) (h : Sound w) (hx : w.disk (fold old) = some x) (hbin : w.trash bin = none) :
    (restoreOld bin old).Ends effect (fun log answer t => Fair lower w op (pre ++ (log₀ ++ log)) answer t)
      ((w.withDisk old none).withTrash bin (some x)) := by
  unfold restoreOld
  rw [ends_ignoring]
  have hkept {log answer} {t : World Tree} (hin : (restore bin old, false) ∈ log) :
      Fair lower w op log answer t := fun hcareful => absurd hin (hcareful.restored bin old)
  refine ⟨hkept (by simp), hkept (by simp), ?_⟩
  intro t ht
  obtain ⟨y, hy, -, rfl⟩ := effect_restore ht
  obtain rfl : x = y := by simpa using hy
  rw [restored hx hbin]
  exact ⟨fair_same h, fair_same h⟩

theorem Sound.replace {bundle : String} (h : Sound w) (hexisting : existing ∈ w.rows)
    (hfree : ((w.withDisk existing.path.directory none).withTrash bin (some x)).disk (fold directory) = none)
    (hs : s = ((w.withDisk existing.path.directory none).withTrash bin (some x)).withDisk directory
      (some fun name => if name = bundle then some (.package tree) else none))
    {rows : Table (@Entry.id Tree)} (hrows : insertRow (w.rows.delete fun r => r.id = existing.id) row = some rows)
    (hpath : row.path.directory = directory) (hbundle : row.path.bundle = bundle) (hpackage : row.package = some tree)
    (hreference : row.referenceDirectory = "") :
    Sound (s.withRows rows) ∧ ∀ r ∈ w.rows, r.id ≠ existing.id → r ∈ rows ∧
      (s.withRows rows).disk (fold r.path.directory) = w.disk (fold r.path.directory) := by
  obtain ⟨-, hmem⟩ := insertRow_eq hrows
  have hold (r : Entry Tree) (hr : r ∈ w.rows) (hid : r.id ≠ existing.id) : fold r.path.directory ≠ fold existing.path.directory :=
    fun hsame => hid (congrArg Entry.id (h.housed.apart r hr existing hexisting hsame))
  have hnew (r : Entry Tree) (hr : r ∈ w.rows) (hid : r.id ≠ existing.id) : fold r.path.directory ≠ fold directory := by
    intro hsame
    obtain ⟨d, hd⟩ := h.occupied hr
    rw [← hsame, World.disk_withTrash, disk_withDisk_ne (hold r hr hid), hd] at hfree
    cases hfree
  have hdisk (r : Entry Tree) (hr : r ∈ w.rows) (hid : r.id ≠ existing.id) :
      (s.withRows rows).disk (fold r.path.directory) = w.disk (fold r.path.directory) := by
    rw [World.disk_withRows, hs, disk_withDisk_ne (hnew r hr hid), World.disk_withTrash, disk_withDisk_ne (hold r hr hid)]
  refine ⟨h.rehouse row ?_ ?_ (fun _ => hreference) ?_, ?_⟩
  · intro r hr
    rcases (hmem r).mp hr with hr | rfl
    · obtain ⟨hr, hid⟩ := mem_delete.mp hr
      exact .inr ⟨hr, hpath ▸ hnew r hr hid, hdisk r hr hid⟩
    · exact .inl rfl
  · intro _
    rw [World.node, hpath, World.disk_withRows, hs, World.disk_withDisk, update_self, Entry.content, hpackage]
    simp [hbundle]
  · intro hnone
    rw [hpackage] at hnone
    cases hnone
  · intro r hr hid
    exact ⟨(hmem r).mpr (.inl (mem_delete.mpr ⟨hr, hid⟩)), hdisk r hr hid⟩

theorem activateNew_ends (log₀ : List (Call Tree × Bool)) (h : Sound w) (hexisting : existing ∈ w.rows) (hconcerns : op.Concerns existing)
    (hx : w.disk (fold existing.path.directory) = some x) (hbin : w.trash bin = none)
    (hrevoked : ∀ id ∈ w.revoked, ∀ log died, Careful lower w op log died → ¬ (input.id = id ∧ input.enabled = true))
    (harchived : (archive existing.path.directory bin, true) ∈ log₀) (hpre : Unsettled pre) (hlog₀ : Unsettled log₀) :
    (activateNew lower existing bin input tree).Ends effect (fun log answer t => Fair lower w op (pre ++ (log₀ ++ log)) answer t)
      ((w.withDisk existing.path.directory none).withTrash bin (some x)) := by
  have hgone {log : List (Call Tree × Bool)} {t : World Tree} (hlog : Unsettled log) : Fair lower w op (pre ++ (log₀ ++ log)) none t :=
    fair_gone (mem_append_right _ (mem_append_left _ harchived)) (hpre.append (hlog₀.append hlog))
  have hundo (log : List (Call Tree × Bool)) : (restoreOld bin existing.path.directory).Ends effect
      (fun log' answer t => Fair lower w op (pre ++ (log₀ ++ (log ++ log'))) answer t)
      ((w.withDisk existing.path.directory none).withTrash bin (some x)) := by
    simp only [← append_assoc log₀ log]
    exact undo_ends (log₀ ++ log) h hx hbin
  unfold activateNew
  rw [ends_attempt]
  refine ⟨hgone ?_, hundo [_], ?_⟩
  · simp [Unsettled]
  intro s hs
  obtain ⟨hfree, hs⟩ := effect_activate hs
  refine ⟨hgone ?_, ?_⟩
  · simp [Unsettled, Settles]
  rw [ends_attempt]
  refine ⟨hgone ?_, ?_, ?_⟩
  · simp [Unsettled, Settles]
  · rw [ends_ignoring]
    refine ⟨hgone ?_, ?_, ?_⟩
    · simp [Unsettled, Settles]
    · have hkept {log answer} {t : World Tree}
          (hin : (discard (safeSegment lower input.id), false) ∈ log) : Fair lower w op log answer t :=
        fun hcareful => absurd hin (hcareful.discarded _)
      unfold restoreOld
      rw [ends_ignoring]
      refine ⟨hkept (by simp), hkept (by simp), ?_⟩
      exact fun t _ => ⟨hkept (by simp), hkept (by simp)⟩
    · intro t ht
      have hback : t = (w.withDisk existing.path.directory none).withTrash bin (some x) := by
        rw [← Option.some.inj ht, hs]
        exact withDisk_back hfree
      subst hback
      refine ⟨hgone ?_, hundo [_, _, _]⟩
      simp [Unsettled, Settles]
  · intro t ht
    obtain ⟨rows, hrows, rfl⟩ := effect_replace ht
    rw [hs, World.rows_withDisk, World.rows_withTrash, World.rows_withDisk] at hrows
    obtain ⟨hsound, hothers⟩ := h.replace hexisting hfree hs hrows (InstallInput.row_directory ..) (InstallInput.row_bundle ..) rfl rfl
    have hdone {log answer} (hanswer : answer ≠ some .failed) :
        Fair lower w op log answer (s.withRows rows) := by
      intro hcareful
      obtain ⟨-, hmem⟩ := insertRow_eq hrows
      refine ⟨hsound, hsound.housed, fun hfailed => absurd hfailed hanswer, ?_, ?_⟩
      · intro r hr hnot
        apply hothers r hr
        intro hid
        obtain rfl := eq_of_key hr hexisting hid
        exact hnot hconcerns
      · intro id hid hoff
        refine ⟨by simpa [hs] using hid, ?_⟩
        intro r hr hrid
        rcases (hmem r).mp hr with hr | rfl
        · exact hoff r (mem_delete.mp hr).1 hrid
        · rw [← Bool.not_eq_true]
          exact fun hon => hrevoked id hid log _ hcareful ⟨hrid, hon⟩
    refine ⟨hdone (by simp), ?_⟩
    rw [ends_attempt]
    refine ⟨hdone (by simp), ?_, ?_⟩
    · exact fair_failed (c := .answers) (d := .replace existing.id (input.row lower tree)) (by simp) (by simp) trivial
    · intro v hv
      obtain rfl : v = s.withRows rows := (Option.some.inj hv).symm
      exact ⟨hdone (by simp), hdone (by simp)⟩

theorem existing_mem {byName : Bool} {existing : Entry Tree} (h : w.existing byName input = some existing) :
    existing ∈ w.rows ∧ (existing.id = input.id ∨ sameName existing.name (trimSpace input.name)) := by
  have hid {r : Entry Tree} (hr : w.rows.find? input.id = some r) : r ∈ w.rows ∧ (r.id = input.id ∨ sameName r.name (trimSpace input.name)) :=
    ⟨(find?_eq_some.mp hr).1, .inl (find?_eq_some.mp hr).2⟩
  have hname {r : Entry Tree} (hr : (w.rows.rows.find? fun r => sameName r.name (trimSpace input.name)) = some r) :
      r ∈ w.rows ∧ (r.id = input.id ∨ sameName r.name (trimSpace input.name)) := by
    refine ⟨mem_of_find?_eq_some hr, .inr ?_⟩
    simpa using find?_some hr
  simp only [World.existing] at h
  split at h
  · rcases Option.or_eq_some_iff.mp h with h | ⟨-, h⟩
    · exact hname h
    · exact hid h
  · rcases Option.or_eq_some_iff.mp h with h | ⟨-, h⟩
    · exact hid h
    · exact hname h

theorem installOrReplace_ends {byName : Bool} {now : ℕ} {replaceSource : Source} (h : Sound w)
    (hconcerns : ∀ r ∈ w.rows, (r.id = input.id ∨ sameName r.name (trimSpace input.name)) → op.Concerns r)
    (hrevoked : ∀ id ∈ w.revoked, ∀ log died, Careful lower w op log died → ¬ (input.id = id ∧ input.enabled = true)) (hpre : Unsettled pre) :
    (installOrReplace lower byName now input replaceSource).Ends effect (fun log answer t => Fair lower w op (pre ++ log) answer t) w := by
  have hsame {log answer} : Fair lower w op log answer w := fair_same h
  unfold installOrReplace
  refine ends_reads (fun _ _ => hsame) ?_
  rw [ends_look]
  split
  · exact install_ends [_] h hrevoked
  rename_i existing hexisting
  obtain ⟨hmem, hmatch⟩ := existing_mem hexisting
  split
  · exact hsame
  split
  · exact hsame
  split
  · exact hsame
  rename_i tree hpackage
  refine ends_reads (fun _ _ => hsame) ?_
  rw [ends_attempt]
  refine ⟨hsame, hsame, ?_⟩
  intro s hs
  obtain ⟨x, hx, hbin, rfl⟩ := effect_archive hs
  have hgone {log : List (Call Tree × Bool)} {t : World Tree} (hlog : Unsettled log)
      (hin : (archive existing.path.directory (upgradeBin lower existing.id now), true) ∈ log) : Fair lower w op (pre ++ log) none t :=
    fair_gone (mem_append_right _ hin) (hpre.append hlog)
  refine ⟨hgone ?_ (by simp), ?_⟩
  · simp [Unsettled, Settles]
  split
  · refine activateNew_ends [_, _, _] h hmem (hconcerns existing hmem hmatch) hx hbin hrevoked (by simp) hpre ?_
    simp [Unsettled, Settles]
  rw [ends_attempt]
  refine ⟨hgone ?_ (by simp), undo_ends [_, _, _, _] h hx hbin, ?_⟩
  · simp [Unsettled, Settles]
  intro s hs
  obtain rfl := effect_reads hs
  refine ⟨hgone ?_ (by simp), ?_⟩
  · simp [Unsettled, Settles]
  rw [ends_look]
  split
  · exact undo_ends [_, _, _, _] h hx hbin
  · refine activateNew_ends [_, _, _, _] h hmem (hconcerns existing hmem hmatch) hx hbin hrevoked (by simp) hpre ?_
    simp [Unsettled, Settles]

end Replace

section Remove

theorem remove_ends {id : String} {now : ℕ} (h : Sound w) (hconcerns : ∀ r ∈ w.rows, r.id = id → op.Concerns r) (hpre : Unsettled pre) :
    (Remove lower id now).Ends effect (fun log answer t => Fair lower w op (pre ++ log) answer t) w := by
  have hsame {log answer} : Fair lower w op log answer w := fair_same h
  unfold Remove
  refine ends_reads (fun _ _ => hsame) ?_
  rw [ends_look]
  split
  · exact hsame
  rename_i entry hentry
  obtain ⟨hmem, hid⟩ := find?_eq_some.mp hentry
  rw [ends_attempt]
  refine ⟨hsame, hsame, ?_⟩
  intro s hs
  obtain ⟨x, hx, hbin, rfl⟩ := effect_archive hs
  have hgone {log : List (Call Tree × Bool)} {t : World Tree} (hlog : Unsettled log)
      (hin : (archive entry.path.directory (removeBin lower id now), true) ∈ log) : Fair lower w op (pre ++ log) none t :=
    fair_gone (mem_append_right _ hin) (hpre.append hlog)
  refine ⟨hgone ?_ (by simp), ?_⟩
  · simp [Unsettled, Settles]
  rw [ends_attempt]
  refine ⟨hgone ?_ (by simp), undo_ends [_, _, _] h hx hbin, ?_⟩
  · simp [Unsettled, Settles]
  intro t ht
  obtain rfl := (Option.some.inj ht).symm
  have hold (r : Entry Tree) (hr : r ∈ w.rows) (hne : r.id ≠ id) :
      ((w.withDisk entry.path.directory none).withTrash (removeBin lower id now) (some x)).disk (fold r.path.directory) =
        w.disk (fold r.path.directory) := by
    rw [World.disk_withTrash, disk_withDisk_ne]
    intro hdirectory
    exact hne ((congrArg Entry.id (h.housed.apart r hr entry hmem hdirectory)).trans hid)
  have hdone {log answer} (hanswer : answer ≠ some .failed) : Fair lower w op log answer
      (((w.withDisk entry.path.directory none).withTrash (removeBin lower id now) (some x)).withRows (w.rows.delete fun r => r.id = id)) := by
    intro _
    have hsound : Sound (((w.withDisk entry.path.directory none).withTrash (removeBin lower id now) (some x)).withRows
        (w.rows.delete fun r => r.id = id)) := by
      refine h.fewer ?_
      intro r hr
      rw [World.rows_withRows] at hr
      obtain ⟨hr, hne⟩ := mem_delete.mp hr
      exact ⟨hr, (congrFun (World.disk_withRows _) _).trans (hold r hr hne)⟩
    refine ⟨hsound, hsound.housed, fun hfailed => absurd hfailed hanswer, ?_, ?_⟩
    · intro r hr hnot
      have hne : r.id ≠ id := fun hsame => hnot (hconcerns r hr hsame)
      rw [World.rows_withRows]
      exact ⟨mem_delete.mpr ⟨hr, hne⟩, (congrFun (World.disk_withRows _) _).trans (hold r hr hne)⟩
    · intro _ hid' hoff
      rw [World.rows_withRows, World.revoked_withRows, World.revoked_withTrash, World.revoked_withDisk]
      exact ⟨hid', fun r hr => hoff r (mem_delete.mp hr).1⟩
  exact ⟨hdone (by simp), hdone (by simp)⟩

end Remove

end WorkAgent.SkillRuntime
