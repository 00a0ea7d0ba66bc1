import WorkAgent.Harness.UploadIntegrity

namespace WorkAgent.Harness.Uploads

open Library List Table

variable {validate : String → String → Bool} {keepReceipts : Bool} {w t : World} {e : Event} {es : List Event} {id : UUID}
  {task : Task} {row : UploadSession} {disk : Disk} {content : Bytes}

theorem Event.calm_quiet : Event.quiet.Calm := fun _ => ⟨rfl, rfl⟩

theorem Event.calm_refused : (Event.refused id).Calm := fun _ => ⟨rfl, rfl⟩

theorem Event.calm_untruncated : (Event.untruncated id).Calm := fun _ => ⟨rfl, rfl⟩

theorem Event.calm_unsaved : (Event.unsaved id).Calm := fun _ => ⟨rfl, rfl⟩

theorem Event.calm_unfinished {k : ℕ} : (Event.unfinished id k).Calm := fun _ => ⟨rfl, rfl⟩

variable {call : Call}

theorem Event.calm_called {k : ℕ} : (Event.called call k).Calm := fun _ => ⟨rfl, rfl⟩

theorem overwrite_end (bytes value : Bytes) : overwrite bytes bytes.length value = bytes ++ value := by
  simp [overwrite]

variable {bytes : Bytes} {position : ℕ}

theorem overwrite_of_length (value : Bytes) (h : bytes.length = position) :
    overwrite bytes position value = bytes ++ value := by
  rw [← h, overwrite_end]

section

variable (h : Intact es w) (htask : task ∈ w.tasks) (he : e.Calm)
include h htask he

theorem Intact.phase {phase : Phase} (hholds : phase.Holds (contents task.id es) (w.bytes task.id))
    (hfits : task.row.offset + phase.received.length ≤ task.row.size) (hfinishing : phase.finishing = true → task.phase.finishing = true)
    (hpublished : phase.isPublished = false) (hunpublished : task.phase.isPublished = false) :
    Intact (es ++ [e]) (w.withPhase task phase) :=
  h.move htask he rfl rfl (fun _ _ => rfl) (fun h => h) hholds hfits hfinishing hpublished hunpublished

theorem Intact.writes {phase : Phase} {old new : Bytes} (hold : w.bytes task.id = some old)
    (hholds : phase.Holds (contents task.id es) (some new)) (hfits : task.row.offset + phase.received.length ≤ task.row.size)
    (hfinishing : phase.finishing = false) (hpublished : phase.isPublished = false) (hunpublished : task.phase.isPublished = false) :
    Intact (es ++ [e]) (w.write task new phase) := by
  have hnew : (w.withDisk (w.disk.setBytes task.id new)).bytes task.id = some new := by
    rw [bytes_setBytes, if_pos rfl, hold]
    rfl
  refine h.move htask he rfl rfl ?_ ?_ ?_ hfits ?_ hpublished hunpublished
  · intro _ hid
    rw [bytes_setBytes, if_neg hid]
  · intro _
    rw [hold]
    rfl
  · rw [hnew]
    exact hholds
  · intro hf
    rw [hfinishing] at hf
    cases hf

theorem Intact.givesUp (hholds : ∀ b, w.bytes task.id = some b → b = contents task.id es)
    (hplain : task.phase.isPublished = true → task.row.conflict = false) : Intact (es ++ [e]) (w.release task) := by
  refine h.ends htask (fun id => (he id).2) (fun id _ => (he id).1) rfl ?_ (fun _ hrow _ => hrow)
    (fun _ _ => rfl) (fun h => h) ?_ ?_ ?_ ?_
  · intro row hrow
    exact ⟨row, hrow, rfl, rfl, rfl, rfl, rfl, fun _ => rfl, fun hsome => hsome⟩
  · intro b hb
    rw [he.contents]
    exact hholds b hb
  · intro row hrow hid
    rw [he.contents, ← hid]
    exact h.sized row hrow
  · intro row hrow hid hsome
    rw [he.contents, ← hid]
    exact h.completed row hrow hsome
  · intro _ hrow hid hpublished
    have hconflict := hplain hpublished
    rw [(h.tasks task htask).row_of hrow hid] at hconflict
    exact .inr (.inr hconflict)

end

section Receipts

variable {entry : WorkspaceEntry} {now : Instant} {k : ℕ}

/-- What the writes at the end of a `finish` make of the disk, when at least one is made. -/
structure Receipted (w : World) (task : Task) (disk : Disk) : Prop where
  files : disk.files = w.disk.files
  rows : ∀ row ∈ disk.rows, row ∈ w.disk.rows ∨ ∃ entry now, row = { task.row with completed := some entry, updatedAt := now }
  kept : ∀ row ∈ w.disk.rows, row.id ≠ task.id → row ∈ disk.rows
  bytes : ∀ id, id ≠ task.id → (w.withDisk disk).bytes id = w.bytes id
  own : (w.withDisk disk).bytes task.id = w.bytes task.id ∨ (w.withDisk disk).bytes task.id = none
  spent : ∀ row ∈ disk.rows, row.id = task.id → row.completed.isSome ∨ (w.withDisk disk).bytes task.id = none

theorem bytes_removeData_self (w : World) (disk : Disk) : (w.withDisk (disk.removeData id)).bytes id = none := by
  by_contra hsome
  obtain ⟨b, hb⟩ := Option.ne_none_iff_exists'.mp hsome
  obtain ⟨_, hpart, hid, -⟩ := bytes_eq_some.mp hb
  exact (mem_delete.mp hpart).2 hid

theorem bytes_removeData_of_ne {upload : UUID} (w : World) (disk : Disk) (h : id ≠ upload) :
    (w.withDisk (disk.removeData upload)).bytes id = (w.withDisk disk).bytes id := by
  refine Option.ext (fun b => ?_)
  rw [bytes_eq_some, bytes_eq_some]
  constructor
  · rintro ⟨part, hpart, hrest⟩
    exact ⟨part, (mem_delete.mp hpart).1, hrest⟩
  · rintro ⟨part, hpart, rfl, rfl⟩
    exact ⟨part, mem_delete.mpr ⟨hpart, h⟩, rfl, rfl⟩

theorem Receipted.save (w : World) (task : Task) :
    Receipted w task (w.disk.save { task.row with completed := some entry, updatedAt := now }) where
  files := rfl
  rows := by
    intro row hrow
    rcases Table.mem_set.mp hrow with rfl | ⟨hold, -⟩
    · exact .inr ⟨entry, now, rfl⟩
    · exact .inl hold
  kept := fun row hrow hid => Table.mem_set.mpr (.inr ⟨hrow, hid⟩)
  bytes := fun _ _ => rfl
  own := .inl rfl
  spent := by
    intro _ hrow hid
    rcases Table.mem_set.mp hrow with rfl | ⟨-, hne⟩
    · exact .inl rfl
    · exact absurd hid hne

theorem Receipted.removeData_save (w : World) (task : Task) :
    Receipted w task ((w.disk.save { task.row with completed := some entry, updatedAt := now }).removeData task.row.id) where
  files := rfl
  rows := (Receipted.save w task).rows
  kept := fun _ hrow hid => Table.mem_set.mpr (.inr ⟨hrow, hid⟩)
  bytes := fun _ hid => bytes_removeData_of_ne w _ hid
  own := .inr (bytes_removeData_self w _)
  spent := fun _ _ _ => .inr (bytes_removeData_self w _)

theorem Receipted.removeData (w : World) (task : Task) : Receipted w task (w.disk.removeData task.row.id) where
  files := rfl
  rows := fun _ hrow => .inl hrow
  kept := fun _ hrow _ => hrow
  bytes := fun _ hid => bytes_removeData_of_ne w _ hid
  own := .inr (bytes_removeData_self w _)
  spent := fun _ _ _ => .inr (bytes_removeData_self w _)

theorem Receipted.removeBoth (w : World) (task : Task) :
    Receipted w task ((w.disk.removeData task.row.id).removeMetadata task.row.id) where
  files := rfl
  rows := fun _ hrow => .inl (mem_delete.mp hrow).1
  kept := fun _ hrow hid => mem_delete.mpr ⟨hrow, hid⟩
  bytes := fun _ hid => bytes_removeData_of_ne w _ hid
  own := .inr (bytes_removeData_self w _)
  spent := fun _ hrow hid => absurd hid (mem_delete.mp hrow).2

theorem receipted_of_writes (hk : k ≠ 0) :
    Receipted w task (applyAll ((receiptWrites keepReceipts task.row entry now).take k) w.disk) := by
  obtain ⟨k, rfl⟩ := Nat.exists_eq_succ_of_ne_zero hk
  cases keepReceipts with
  | true =>
    cases k with
    | zero => exact Receipted.save w task
    | succ k =>
      have htake : (receiptWrites true task.row entry now).take (k + 2) = receiptWrites true task.row entry now :=
        take_of_length_le (by simp [receiptWrites])
      rw [Nat.succ_eq_add_one, htake]
      exact Receipted.removeData_save w task
  | false =>
    cases k with
    | zero => exact Receipted.removeData w task
    | succ k =>
      have htake : (receiptWrites false task.row entry now).take (k + 2) = receiptWrites false task.row entry now :=
        take_of_length_le (by simp [receiptWrites])
      rw [Nat.succ_eq_add_one, htake]
      exact Receipted.removeBoth w task

theorem Intact.receipted (h : Intact es w) (htask : task ∈ w.tasks) (he : e.Calm) (hphase : task.phase = .published entry)
    (hr : Receipted w task disk) : Intact (es ++ [e]) ((w.withDisk disk).release task) := by
  have hrun := h.tasks task htask
  have hholds := hrun.holds
  have hwhole := hrun.whole (by rw [hphase]; rfl)
  rw [hphase] at hholds
  have hnew : ∀ row ∈ disk.rows, row.id = task.id →
      row.size = task.row.size ∧ (row.completed.isSome → row.offset = (contents task.id es).length ∧ row.offset = row.size) := by
    intro row hrow hid
    rcases hr.rows row hrow with hold | ⟨entry, now, rfl⟩
    · have hsize : task.row.size = row.size := by rw [hrun.row_of hold hid]
      exact ⟨hsize.symm, fun hsome => hid ▸ h.completed row hold hsome⟩
    · exact ⟨rfl, fun _ => ⟨hrun.offset, hwhole.1⟩⟩
  refine h.ends htask (fun id => (he id).2) (fun id _ => (he id).1) hr.files ?_ hr.kept hr.bytes ?_ ?_ ?_ ?_ ?_
  · intro row hrow
    rcases hr.rows row hrow with hold | ⟨_, _, rfl⟩
    · exact ⟨row, hold, rfl, rfl, rfl, rfl, rfl, fun _ => rfl, fun hsome => hsome⟩
    · obtain ⟨stored, hstored, hmeta⟩ := hrun.row
      refine ⟨stored, hstored, ?_, ?_, ?_, ?_, ?_, fun hne => absurd rfl hne, fun _ => rfl⟩ <;> rw [hmeta]
  · intro _
    rw [hholds]
    rfl
  · intro b hb
    rw [he.contents]
    rcases hr.own with hsame | hnone
    · rw [hsame, hholds] at hb
      exact (Option.some.inj hb).symm
    · rw [hnone] at hb
      cases hb
  · intro row hrow hid
    rw [he.contents, ← hrun.offset, (hnew row hrow hid).1]
    exact hwhole.1.le
  · intro row hrow hid hsome
    rw [he.contents]
    exact (hnew row hrow hid).2 hsome
  · intro row hrow hid _
    rcases hr.spent row hrow hid with hsome | hnone
    · exact .inl hsome
    · exact .inr (.inl (hid ▸ hnone))

end Receipts

variable {received : Bytes}

theorem Intact.saved {now : Instant} (h : Intact es w) (htask : task ∈ w.tasks)
    (hphase : task.phase = .closing (some received)) :
    Intact (es ++ [.appended task.id received])
      ((w.withDisk (w.disk.save { task.row with offset := task.row.offset + received.length, updatedAt := now })).release task) := by
  have hrun := h.tasks task htask
  have hholds := hrun.holds
  have hfits := hrun.fits
  have hoffset := hrun.offset
  rw [hphase] at hholds hfits
  change w.bytes task.id = some (contents task.id es ++ received) at hholds
  change task.row.offset + received.length ≤ task.row.size at hfits
  have hcontents : contents task.id (es ++ [.appended task.id received]) = contents task.id es ++ received := by
    rw [contents_snoc]
    simp [Event.bytesOf]
  have hlength : (contents task.id es ++ received).length = task.row.offset + received.length := by
    rw [length_append, hoffset]
  refine h.ends htask (fun _ => rfl) ?_ rfl ?_ ?_ (fun _ _ => rfl) ?_ ?_ ?_ ?_ ?_
  · intro _ hid
    exact if_neg (Ne.symm hid)
  · intro row hrow
    rcases Table.mem_set.mp hrow with rfl | ⟨hold, -⟩
    · obtain ⟨stored, hstored, hmeta⟩ := hrun.row
      refine ⟨stored, hstored, ?_, ?_, ?_, ?_, ?_, fun hne => absurd rfl hne, ?_⟩
      all_goals rw [hmeta]
      exact fun hsome => hsome
    · exact ⟨row, hold, rfl, rfl, rfl, rfl, rfl, fun _ => rfl, fun hsome => hsome⟩
  · intro row hrow hid
    exact Table.mem_set.mpr (.inr ⟨hrow, hid⟩)
  · exact fun hsome => hsome
  · intro b hb
    rw [hcontents]
    exact (Option.some.inj (hholds.symm.trans hb)).symm
  · intro row hrow hid
    rw [hcontents, hlength]
    rcases Table.mem_set.mp hrow with rfl | ⟨-, hne⟩
    · exact hfits
    · exact absurd hid hne
  · intro row hrow hid hsome
    rw [hcontents, hlength]
    rcases Table.mem_set.mp hrow with rfl | ⟨-, hne⟩
    · obtain ⟨stored, hstored, hmeta⟩ := hrun.row
      -- A completed upload has nothing left to append.
      have hstoredSome : stored.completed.isSome := by
        rw [hmeta] at hsome
        exact hsome
      have hfull := h.completed stored hstored hstoredSome
      have hkey : stored.id = task.id := by
        change stored.id = task.row.id
        rw [hmeta]
      have hsize : task.row.size = stored.size := by rw [hmeta]
      rw [hkey, ← hoffset] at hfull
      refine ⟨rfl, ?_⟩
      change task.row.offset + received.length = task.row.size
      omega
    · exact absurd hid hne
  · intro _ _ _ hpublished
    rw [hphase] at hpublished
    cases hpublished

theorem Intact.published {copied : Bytes} {path : String} (h : Intact es w) (htask : task ∈ w.tasks)
    (hphase : task.phase = .committing copied) (hbytes : w.bytes task.id = some bytes) (hend : bytes.length ≤ copied.length)
    (hpath : path = task.row.path ∨ task.row.conflict = true)
    (hfree : ∀ file ∈ w.disk.files, ¬ (file.workspaceId = task.row.workspaceId ∧ file.path = path)) :
    copied = contents task.id es ∧ copied.length = task.row.size ∧
      Intact (es ++ [.published task.id ⟨task.row.workspaceId, path, copied⟩])
        ((w.withDisk { w.disk with files := w.disk.files ++ [⟨task.row.workspaceId, path, copied⟩] }).withPhase task
          (.published ⟨path, copied.length⟩)) := by
  have hrun := h.tasks task htask
  have hholds := hrun.holds
  obtain ⟨hwhole, hunfinished⟩ := hrun.whole (by rw [hphase]; rfl)
  rw [hphase] at hholds
  obtain ⟨hcontent, hinitial⟩ := hholds
  obtain rfl : bytes = contents task.id es := Option.some.inj (hbytes.symm.trans hcontent)
  obtain rfl : copied = contents task.id es := hinitial.eq_of_length_le hend
  have hsize : (contents task.id es).length = task.row.size := by
    rw [← hrun.offset]
    exact hwhole
  refine ⟨rfl, hsize, ?_⟩
  have hfirst : es.countP (Event.publishes task.id) = 0 := by
    by_contra hne
    obtain ⟨row, hrow, hid⟩ := hrun.exists_row
    have hmeta := hrun.row_of hrow hid
    rcases h.spent row hrow (hid.symm ▸ hne) with hsome | hnone | ⟨x, hx, hxid, hxp⟩ | ⟨hplain, file, hfile, hfw, hfp⟩
    · rw [hmeta] at hunfinished
      change row.completed = none at hunfinished
      rw [hunfinished] at hsome
      cases hsome
    · rw [hid, hcontent] at hnone
      cases hnone
    · obtain rfl := eq_of_key hx htask (hxid.trans hid)
      rw [hphase] at hxp
      cases hxp
    · refine hfree file hfile ⟨?_, ?_⟩
      · rw [hfw, hmeta]
      · rcases hpath with hsame | hrename
        · rw [hfp, hsame, hmeta]
        · rw [hmeta] at hrename
          change row.conflict = true at hrename
          rw [hplain] at hrename
          cases hrename
  have hcontents : ∀ id, contents id (es ++ [.published task.id ⟨task.row.workspaceId, path, contents task.id es⟩]) = contents id es := by
    intro id
    rw [contents_snoc]
    exact append_nil _
  have hcount : ∀ id, (es ++ [Event.published task.id ⟨task.row.workspaceId, path, contents task.id es⟩]).countP (Event.publishes id) =
      es.countP (Event.publishes id) + if task.id = id then 1 else 0 := by
    intro id
    rw [countP_snoc]
    simp [Event.publishes]
  have hfiles : ∀ file ∈ w.disk.files, file ∈ w.disk.files ++ [⟨task.row.workspaceId, path, contents task.id es⟩] :=
    fun file hfile => mem_append_left _ hfile
  refine ⟨h.drawnRows, h.drawnParts, ?_, ?_, ?_, ?_, ?_, ?_, ?_⟩
  · intro id hid
    have hne : task.id ≠ id := by
      rintro rfl
      obtain ⟨row, hrow, hrid⟩ := hrun.exists_row
      exact hid (hrid ▸ h.drawnRows row hrow)
    rw [hcontents, hcount, if_neg hne]
    exact h.fresh id hid
  · intro id b hid hb
    rw [hcontents]
    refine h.idle id b (busy_eq_false.mpr (fun x hx hxid => ?_)) hb
    rw [busy_eq_false] at hid
    by_cases heq : x.id = task.id
    · exact hid _ (Table.mem_set.mpr (.inl rfl)) (heq.symm.trans hxid)
    · exact hid x (Table.mem_set.mpr (.inr ⟨hx, heq⟩)) hxid
  · intro row hrow
    rw [hcontents]
    exact h.sized row hrow
  · intro row hrow hsome
    rw [hcontents]
    exact h.completed row hrow hsome
  · intro x hx
    rcases Table.mem_set.mp hx with rfl | ⟨hx, hne⟩
    · refine ⟨hrun.row, ?_, ?_, ?_, fun _ => ⟨hwhole, hunfinished⟩, ?_⟩
      · rw [hcontents]
        exact hrun.offset
      · rw [hcontents]
        exact hcontent
      · exact hwhole.le
      · intro entry hentry
        cases hentry
        exact ⟨_, mem_append_right _ (mem_singleton.mpr rfl), rfl, rfl, hpath⟩
    · have hr := h.tasks x hx
      refine ⟨hr.row, ?_, ?_, hr.fits, hr.whole, ?_⟩
      · rw [hcontents]
        exact hr.offset
      · rw [hcontents]
        exact hr.holds
      · intro entry hentry
        obtain ⟨file, hfile, hrest⟩ := hr.file entry hentry
        exact ⟨file, hfiles file hfile, hrest⟩
  · intro id
    rw [hcount]
    by_cases hid : task.id = id
    · rw [if_pos hid, ← hid, hfirst]
    · rw [if_neg hid]
      exact h.once id
  · intro row hrow hne
    rw [hcount] at hne
    by_cases hid : task.id = row.id
    · exact .inr (.inr (.inl ⟨_, Table.mem_set.mpr (.inl rfl), hid, rfl⟩))
    · rw [if_neg hid] at hne
      rcases h.spent row hrow hne with hsome | hnone | ⟨x, hx, hxid, hxp⟩ | ⟨hplain, file, hfile, hrest⟩
      · exact .inl hsome
      · exact .inr (.inl hnone)
      · refine .inr (.inr (.inl ⟨x, Table.mem_set.mpr (.inr ⟨hx, ?_⟩), hxid, hxp⟩))
        intro heq
        exact hid (heq.symm.trans hxid)
      · exact .inr (.inr (.inr ⟨hplain, file, hfiles file hfile, hrest⟩))

theorem writes_calls (h : Intact es w) (hfresh : ∀ id ∈ call.drawn, id ∉ w.drawn) (k : ℕ) :
    Calls w call.drawn (applyAll ((w.writes validate call).take k) w.disk) :=
  applyAll_keeps (Calls.refl w call.drawn)
    (fun _ hwrite disk hdisk => writes_keep (fun id hid => h.not_busy_of_fresh (hfresh id hid)) hwrite disk hdisk) k

theorem Intact.after (h : Intact es w) (hfresh : ∀ id ∈ call.drawn, id ∉ w.drawn) (k : ℕ) :
    Intact (es ++ [.called call k]) (w.after call ((w.writes validate call).take k)) :=
  h.calls Event.calm_called (writes_calls h hfresh k) hfresh

theorem Intact.crashed {left : UUID → Bytes} {lost : UUID → Bool} {cut : Cut} (h : Intact (es ++ [e]) w) (he : e.Calm)
    (hleft : ∀ id, w.left id = left id) (hplain : ∀ task ∈ w.tasks, task.phase.isPublished = true → task.row.conflict = false) :
    Intact (es ++ [.crashed left lost cut]) w.dead := by
  have hdead : Intact (es ++ [e] ++ [.crashed w.left lost cut]) w.dead := h.died hplain
  refine hdead.congr (fun id => ?_) (fun id => ?_)
  · rw [contents_snoc, contents_snoc, he.contents]
    change contents id es ++ left id = contents id es ++ w.left id
    rw [hleft]
  · rw [countP_snoc, countP_snoc, he.count]
    rfl

theorem left_after (h : Intact es w) (hfresh : ∀ id ∈ call.drawn, id ∉ w.drawn) (k : ℕ) (id : UUID) :
    (w.after call ((w.writes validate call).take k)).left id = w.left id := by
  cases hbusy : w.busy id with
  | false =>
    rw [left_of_idle hbusy]
    exact left_of_idle hbusy
  | true =>
    have hcalls : Calls w call.drawn (applyAll ((w.writes validate call).take k) w.disk) := writes_calls h hfresh k
    have hbytes : (w.after call ((w.writes validate call).take k)).bytes id = w.bytes id :=
      hcalls.bytes_of_busy (fun id hid => h.not_busy_of_fresh (hfresh id hid)) hbusy
    unfold World.left
    exact congrArg (fun b : Option Bytes => (w.tasks.find? id).elim [] fun task => (b.getD []).drop task.row.offset) hbytes

theorem left_receipted {entry : WorkspaceEntry} (h : Intact es w) (htask : task ∈ w.tasks) (hphase : task.phase = .published entry)
    (hr : Receipted w task disk) (id : UUID) : ((w.withDisk disk).release task).left id = w.left id := by
  by_cases hid : id = task.id
  · subst hid
    have hinitial := ((h.tasks task htask).left htask).1
    rw [hphase] at hinitial
    rw [prefix_nil.mp hinitial]
    refine left_of_idle (busy_eq_false.mpr (fun x hx => ?_))
    exact (mem_delete.mp hx).2
  · cases hbusy : w.busy id with
    | false =>
      rw [left_of_idle hbusy]
      refine left_of_idle (busy_eq_false.mpr (fun x hx => ?_))
      exact busy_eq_false.mp hbusy x (mem_delete.mp hx).1
    | true =>
      obtain ⟨x, hx, rfl⟩ := busy_eq_true.mp hbusy
      have hx' : x ∈ ((w.withDisk disk).release task).tasks := mem_delete.mpr ⟨hx, hid⟩
      rw [left_of_task hx, left_of_task hx']
      change (((w.withDisk disk).bytes x.id).getD []).drop x.row.offset = _
      rw [hr.bytes x.id hid]

variable {value : Bytes}

theorem Phase.holds_afterWrite (h : position ≤ value.length) :
    (Phase.afterWrite received value position).Holds content (some (content ++ (received ++ value.take position))) := by
  unfold Phase.afterWrite
  split
  · exact ⟨h, rfl⟩
  · have hall : value.take position = value := take_of_length_le (by omega)
    rw [hall]
    rfl

theorem Phase.received_afterWrite :
    (Phase.afterWrite received value position).received = received ++ value := by
  unfold Phase.afterWrite
  split <;> rfl

theorem Phase.finishing_afterWrite :
    (Phase.afterWrite received value position).finishing = false := by
  unfold Phase.afterWrite
  split <;> rfl

theorem Phase.isPublished_afterWrite :
    (Phase.afterWrite received value position).isPublished = false := by
  unfold Phase.afterWrite
  split <;> rfl

theorem Phase.holds_arrived :
    (Phase.arrived row received value).Holds content (some (content ++ received)) := by
  unfold Phase.arrived
  split
  · exact ⟨received, prefix_rfl, rfl⟩
  · have hholds : (Phase.afterWrite received value 0).Holds content (some (content ++ (received ++ value.take 0))) :=
      Phase.holds_afterWrite (Nat.zero_le value.length)
    rw [take_zero, append_nil] at hholds
    exact hholds

theorem Phase.fits_arrived (h : row.offset + received.length ≤ row.size) :
    row.offset + (Phase.arrived row received value).received.length ≤ row.size := by
  unfold Phase.arrived
  split
  · exact h
  · rename_i hsmall
    rw [not_or] at hsmall
    rw [Phase.received_afterWrite, length_append]
    omega

theorem Phase.finishing_arrived : (Phase.arrived row received value).finishing = false := by
  unfold Phase.arrived
  split
  · rfl
  · exact Phase.finishing_afterWrite

theorem Phase.isPublished_arrived : (Phase.arrived row received value).isPublished = false := by
  unfold Phase.arrived
  split
  · rfl
  · exact Phase.isPublished_afterWrite

theorem Running.wrote {n : ℕ} (h : Running es w task)
    (hphase : task.phase = .writing received value position) (hbytes : w.bytes task.id = some bytes) :
    overwrite bytes (task.row.offset + received.length + position) ((value.drop position).take n) =
      contents task.id es ++ (received ++ value.take (position + n)) := by
  have hholds := h.holds
  rw [hphase, hbytes] at hholds
  obtain ⟨_, hsome⟩ := hholds
  cases hsome
  have hlength : (contents task.id es ++ (received ++ value.take position)).length =
      task.row.offset + received.length + position := by
    rw [length_append, length_append, length_take, h.offset]
    omega
  rw [overwrite_of_length _ hlength, append_assoc, append_assoc, take_add]

theorem Intact.step (h : Intact es w) (hstep : CarefulStep validate keepReceipts w e t) : Intact (es ++ [e]) t := by
  obtain ⟨hstep, hcareful⟩ := hstep
  cases hstep with
  | call _ k hfresh => exact h.after hfresh k
  | callDies _ k hfresh =>
    refine Intact.crashed (h.after hfresh k) Event.calm_called (left_after h hfresh k) (fun task htask hpublished => ?_)
    change task ∈ w.tasks at htask
    refine hcareful task htask ?_
    rw [World.unreceipted, find_task htask]
    exact hpublished
  | died =>
    refine h.died (fun task htask hpublished => hcareful task htask ?_)
    rw [World.unreceipted, find_task htask]
    exact hpublished
  | startAppend _ _ _ _ hbusy hget =>
    exact h.begin Event.calm_quiet hbusy hget (.inl rfl)
  | startFinish _ _ _ hbusy hget hoffset hcompleted =>
    exact h.begin Event.calm_quiet hbusy hget (.inr ⟨rfl, hoffset, hcompleted⟩)
  | opened task htask bytes hphase hbytes =>
    have hrun := h.tasks task htask
    have hholds := hrun.holds
    rw [hphase] at hholds
    refine h.phase htask Event.calm_quiet ?_ ?_ (fun hf => by cases hf) rfl (by rw [hphase]; rfl)
    · change w.bytes task.id = some (contents task.id es ++ [])
      rw [hbytes, hholds bytes hbytes, append_nil]
    · have hfits := hrun.fits
      rw [hphase] at hfits
      exact hfits
  | openFails task htask hphase =>
    have hholds := (h.tasks task htask).holds
    rw [hphase] at hholds
    refine h.givesUp htask Event.calm_refused hholds (fun hp => ?_)
    rw [hphase] at hp
    cases hp
  | chunk task htask received _ hphase =>
    have hrun := h.tasks task htask
    have hholds := hrun.holds
    have hfits := hrun.fits
    rw [hphase] at hholds hfits
    refine h.phase htask Event.calm_quiet ?_ (Phase.fits_arrived hfits) (fun hf => ?_) Phase.isPublished_arrived (by rw [hphase]; rfl)
    · change w.bytes task.id = some (contents task.id es ++ received) at hholds
      rw [hholds]
      exact Phase.holds_arrived
    · rw [Phase.finishing_arrived] at hf
      cases hf
  | wrote task htask _ _ _ _ _ hphase hn hbytes =>
    have hrun := h.tasks task htask
    have hfits := hrun.fits
    rw [hphase] at hfits
    refine h.writes htask Event.calm_quiet hbytes ?_ ?_ Phase.finishing_afterWrite Phase.isPublished_afterWrite (by rw [hphase]; rfl)
    · rw [hrun.wrote hphase hbytes]
      exact Phase.holds_afterWrite hn
    · rw [Phase.received_afterWrite]
      exact hfits
  | writeFails task htask received value _ position n hphase _ hbytes =>
    have hrun := h.tasks task htask
    have hfits := hrun.fits
    rw [hphase] at hfits
    refine h.writes htask Event.calm_quiet hbytes ?_ hfits rfl rfl (by rw [hphase]; rfl)
    rw [hrun.wrote hphase hbytes]
    refine ⟨received ++ value.take (position + n), ?_, rfl⟩
    exact (prefix_append_right_inj received).mpr ( take_prefix _ value)
  | sourceFails task htask received hphase | syncFails task htask received hphase =>
    have hrun := h.tasks task htask
    have hholds := hrun.holds
    have hfits := hrun.fits
    rw [hphase] at hholds hfits
    exact h.phase htask Event.calm_quiet ⟨received, prefix_rfl, hholds⟩ hfits (fun hf => by cases hf) rfl (by rw [hphase]; rfl)
  | sourceEnds task htask _ hphase | synced task htask _ hphase =>
    have hrun := h.tasks task htask
    have hholds := hrun.holds
    have hfits := hrun.fits
    rw [hphase] at hholds hfits
    exact h.phase htask Event.calm_quiet hholds hfits (fun hf => by cases hf) rfl (by rw [hphase]; rfl)
  | truncated task htask _ _ hphase hbytes =>
    have hrun := h.tasks task htask
    have hholds := hrun.holds
    have hfits := hrun.fits
    rw [hphase, hbytes] at hholds
    rw [hphase] at hfits
    obtain ⟨junk, -, hsome⟩ := hholds
    cases hsome
    refine h.writes htask Event.calm_quiet hbytes ?_ (Nat.le_of_add_right_le hfits) rfl rfl (by rw [hphase]; rfl)
    rw [hrun.offset, take_left]
    rfl
  | truncateFails task htask _ hphase =>
    have hrun := h.tasks task htask
    have hholds := hrun.holds
    have hfits := hrun.fits
    rw [hphase] at hholds hfits
    obtain ⟨_, -, hsome⟩ := hholds
    have hleft := (hrun.left htask).2 _ hsome
    change w.left task.id = [] at hcareful
    rw [hcareful, append_nil] at hleft
    refine h.phase htask Event.calm_untruncated ?_ (Nat.le_of_add_right_le hfits) (fun hf => by cases hf) rfl (by rw [hphase]; rfl)
    change w.bytes task.id = some (contents task.id es)
    rw [hsome, hleft]
  | closed task htask hphase =>
    have hholds := (h.tasks task htask).holds
    rw [hphase] at hholds
    change w.bytes task.id = some (contents task.id es) at hholds
    refine h.givesUp htask Event.calm_refused (fun b hb => ?_) (fun hp => ?_)
    · exact (Option.some.inj (hholds.symm.trans hb)).symm
    · rw [hphase] at hp
      cases hp
  | saved _ htask _ _ hphase => exact h.saved htask hphase
  | closeOrSaveFails task htask _ hphase =>
    have hrun := h.tasks task htask
    refine h.givesUp htask Event.calm_unsaved (fun b hb => ?_) (fun hp => ?_)
    · have hleft := (hrun.left htask).2 b hb
      change w.left task.id = [] at hcareful
      rw [hcareful, append_nil] at hleft
      exact hleft
    · rw [hphase] at hp
      cases hp
  | read task htask copied _ n hphase hbytes =>
    have hrun := h.tasks task htask
    have hholds := hrun.holds
    have hfits := hrun.fits
    rw [hphase] at hholds hfits
    obtain ⟨hcontent, hinitial⟩ := hholds
    refine h.phase htask Event.calm_quiet ⟨hcontent, ?_⟩ hfits (fun _ => by rw [hphase]; rfl) rfl (by rw [hphase]; rfl)
    obtain rfl := Option.some.inj (hbytes.symm.trans hcontent)
    obtain ⟨rest, hrest⟩ := hinitial
    rw [← hrest, drop_left]
    exact (prefix_append_right_inj copied).mpr ( take_prefix n rest)
  | commitFails task htask _ hphase =>
    have hholds := (h.tasks task htask).holds
    rw [hphase] at hholds
    refine h.givesUp htask Event.calm_refused (fun b hb => ?_) (fun hp => ?_)
    · exact (Option.some.inj (hholds.1.symm.trans hb)).symm
    · rw [hphase] at hp
      cases hp
  | published _ htask _ _ _ hphase hbytes hend hpath hfree =>
    exact (h.published htask hphase hbytes hend hpath hfree).2.2
  | commitFailsLate task htask _ hphase =>
    have hholds := (h.tasks task htask).holds
    rw [hphase] at hholds
    change w.bytes task.id = some (contents task.id es) at hholds
    refine h.givesUp htask Event.calm_unfinished (fun b hb => ?_) (fun _ => hcareful rfl task htask rfl)
    exact (Option.some.inj (hholds.symm.trans hb)).symm
  | finished task htask entry now hphase =>
    have hr : Receipted w task (applyAll ((receiptWrites keepReceipts task.row entry now).take 2) w.disk) :=
      receipted_of_writes (by decide)
    have hlength : (receiptWrites keepReceipts task.row entry now).length = 2 := by
      cases keepReceipts <;> rfl
    rw [take_of_length_le hlength.le] at hr
    exact h.receipted htask Event.calm_quiet hphase hr
  | finishFails task htask _ _ k hphase =>
    by_cases hk : k = 0
    · subst hk
      have hholds := (h.tasks task htask).holds
      rw [hphase] at hholds
      change w.bytes task.id = some (contents task.id es) at hholds
      refine h.givesUp htask Event.calm_unfinished (fun b hb => ?_) (fun _ => hcareful rfl task htask rfl)
      exact (Option.some.inj (hholds.symm.trans hb)).symm
    · exact h.receipted htask Event.calm_unfinished hphase (receipted_of_writes hk)
  | finishDies task htask entry now k hphase =>
    by_cases hk : k = 0
    · subst hk
      refine h.died (fun x hx hpublished => hcareful x hx ?_)
      dsimp only
      rw [if_neg (fun hboth => hboth.1 rfl), World.unreceipted, find_task hx]
      exact hpublished
    · have hr : Receipted w task (applyAll ((receiptWrites keepReceipts task.row entry now).take k) w.disk) :=
        receipted_of_writes hk
      have hended := h.receipted htask Event.calm_quiet hphase hr
      refine hended.crashed Event.calm_quiet (left_receipted h htask hphase hr) (fun x hx hpublished => ?_)
      obtain ⟨hx, hne⟩ := mem_delete.mp hx
      change x ∈ w.tasks at hx
      refine hcareful x hx ?_
      dsimp only
      rw [if_neg (fun hboth => hne hboth.2), World.unreceipted, find_task hx]
      exact hpublished

end WorkAgent.Harness.Uploads
