import WorkAgent.Harness.ResumableUpload

namespace WorkAgent.Harness.Uploads

open Library List Option Table

variable {validate : String → String → Bool} {keepReceipts : Bool} {w t : World} {e : Event} {es : List Event} {id : UUID}
  {task : Task} {row : UploadSession} {disk : Disk} {content : Bytes}

def Phase.received : Phase → Bytes
  | streaming received => received
  | writing received value _ => received ++ value
  | syncing received => received
  | truncating received => received
  | closing (some received) => received
  | _ => []

def Phase.Holds (content : Bytes) (bytes : Option Bytes) : Phase → Prop
  | opening => ∀ b, bytes = some b → b = content
  | streaming received => bytes = some (content ++ received)
  | writing received value position => position ≤ value.length ∧ bytes = some (content ++ (received ++ value.take position))
  | syncing received => bytes = some (content ++ received)
  | truncating received => ∃ junk, junk <+: received ∧ bytes = some (content ++ junk)
  | closing none => bytes = some content
  | closing (some received) => bytes = some (content ++ received)
  | committing copied => bytes = some content ∧ copied <+: content
  | published _ => bytes = some content

theorem Phase.Holds.more {phase : Phase} {bytes : Bytes} (h : phase.Holds content (some bytes)) :
    ∃ more, more <+: phase.received ∧ bytes = content ++ more := by
  cases phase with
  | opening => exact ⟨[], nil_prefix, by simpa using h bytes rfl⟩
  | streaming received | syncing received => exact ⟨received, prefix_rfl, Option.some.inj h⟩
  | writing received value position =>
    refine ⟨received ++ value.take position, ?_, Option.some.inj h.2⟩
    exact (prefix_append_right_inj received).mpr ( take_prefix position value)
  | truncating =>
    obtain ⟨junk, hjunk, hbytes⟩ := h
    exact ⟨junk, hjunk, Option.some.inj hbytes⟩
  | closing appended =>
    cases appended with
    | none => exact ⟨[], nil_prefix, by simpa using Option.some.inj h⟩
    | some received => exact ⟨received, prefix_rfl, Option.some.inj h⟩
  | committing => exact ⟨[], nil_prefix, by simpa using Option.some.inj h.1⟩
  | published => exact ⟨[], nil_prefix, by simpa using Option.some.inj h⟩

def Phase.finishing : Phase → Bool
  | committing _ => true
  | published _ => true
  | _ => false

structure Running (es : List Event) (w : World) (task : Task) : Prop where
  row : ∃ row ∈ w.disk.rows, task.row = { row with offset := task.row.offset }
  offset : task.row.offset = (contents task.id es).length
  holds : task.phase.Holds (contents task.id es) (w.bytes task.id)
  fits : task.row.offset + task.phase.received.length ≤ task.row.size
  whole : task.phase.finishing = true → task.row.offset = task.row.size ∧ task.row.completed = none
  file : ∀ entry, task.phase = .published entry → ∃ file ∈ w.disk.files,
    file.workspaceId = task.row.workspaceId ∧ file.path = entry.path ∧ (entry.path = task.row.path ∨ task.row.conflict = true)

def Spent (w : World) (row : UploadSession) : Prop :=
  row.completed.isSome ∨ w.bytes row.id = none ∨ (∃ task ∈ w.tasks, task.id = row.id ∧ task.phase.isPublished = true) ∨
    (row.conflict = false ∧ ∃ file ∈ w.disk.files, file.workspaceId = row.workspaceId ∧ file.path = row.path)

structure Intact (es : List Event) (w : World) : Prop where
  drawnRows : ∀ row ∈ w.disk.rows, row.id ∈ w.drawn
  drawnParts : ∀ id b, w.bytes id = some b → id ∈ w.drawn
  fresh : ∀ id, id ∉ w.drawn → contents id es = [] ∧ es.countP (Event.publishes id) = 0
  idle : ∀ id b, w.busy id = false → w.bytes id = some b → b = contents id es
  sized : ∀ row ∈ w.disk.rows, (contents row.id es).length ≤ row.size
  completed : ∀ row ∈ w.disk.rows, row.completed.isSome → row.offset = (contents row.id es).length ∧ row.offset = row.size
  tasks : ∀ task ∈ w.tasks, Running es w task
  once : ∀ id, es.countP (Event.publishes id) ≤ 1
  spent : ∀ row ∈ w.disk.rows, es.countP (Event.publishes row.id) ≠ 0 → Spent w row

/-- Not the steps that go wrong: a truncation that fails, an append that fails after its bytes are
written, and a publication without a receipt of an upload that may be renamed. -/
def Careful (w : World) : Event → Prop
  | .untruncated id => w.left id = []
  | .unsaved id => w.left id = []
  | .unfinished id k => k = 0 → ∀ task ∈ w.tasks, task.id = id → task.row.conflict = false
  | .crashed _ lost _ => ∀ task ∈ w.tasks, lost task.id = true → task.row.conflict = false
  | _ => True

def CarefulStep (validate : String → String → Bool) (keepReceipts : Bool) (w : World) (e : Event) (t : World) : Prop :=
  Step validate keepReceipts w e t ∧ Careful w e

theorem contents_snoc : contents id (es ++ [e]) = contents id es ++ e.bytesOf id := by
  simp [contents]

theorem countP_snoc (p : Event → Bool) : (es ++ [e]).countP p = es.countP p + if p e then 1 else 0 := by
  rw [countP_append, countP_singleton]

def Event.Calm (e : Event) : Prop := ∀ id, e.bytesOf id = [] ∧ e.publishes id = false

theorem Event.Calm.contents (h : e.Calm) (id : UUID) (es : List Event) : contents id (es ++ [e]) = contents id es := by
  rw [contents_snoc, (h id).1, append_nil]

theorem Event.Calm.count (h : e.Calm) (id : UUID) (es : List Event) :
    (es ++ [e]).countP (Event.publishes id) = es.countP (Event.publishes id) := by
  rw [countP_snoc, (h id).2]
  rfl

theorem isPublished_eq_true {phase : Phase} : phase.isPublished = true ↔ ∃ entry, phase = .published entry := by
  cases phase <;> simp [Phase.isPublished]

theorem busy_eq_true : w.busy id = true ↔ ∃ task ∈ w.tasks, task.id = id := has_eq_true

theorem busy_eq_false : w.busy id = false ↔ ∀ task ∈ w.tasks, task.id ≠ id := by
  rw [← Bool.not_eq_true, busy_eq_true]
  simp only [not_exists, not_and, ne_eq]

theorem bytes_eq_some {b : Bytes} : w.bytes id = some b ↔ ∃ part ∈ w.disk.parts, part.id = id ∧ part.bytes = b := by
  unfold World.bytes
  rw [map_eq_some_iff]
  simp only [find?_eq_some, and_assoc]

theorem bytes_setBytes (bytes : Bytes) (upload : UUID) : (w.withDisk (w.disk.setBytes upload bytes)).bytes id =
    if id = upload then (w.bytes id).map (fun _ => bytes) else w.bytes id := by
  unfold World.bytes World.withDisk Disk.setBytes
  dsimp only
  rw [find?_update]
  cases hfind : w.disk.parts.find? id with
  | none => simp
  | some part =>
    obtain ⟨-, rfl⟩ := find?_eq_some.mp hfind
    by_cases heq : part.id = upload <;> simp [heq]

theorem Running.exists_row (h : Running es w task) : ∃ row ∈ w.disk.rows, row.id = task.id := by
  obtain ⟨row, hrow, heq⟩ := h.row
  refine ⟨row, hrow, ?_⟩
  change row.id = task.row.id
  rw [heq]

theorem Running.row_of (h : Running es w task) (hrow : row ∈ w.disk.rows) (hid : row.id = task.id) :
    task.row = { row with offset := task.row.offset } := by
  obtain ⟨stored, hstored, heq⟩ := h.row
  have hkey : stored.id = task.row.id := by rw [heq]
  obtain rfl := eq_of_key hstored hrow (hkey.trans hid.symm)
  exact heq

theorem Intact.move {phase : Phase} (h : Intact es w) (htask : task ∈ w.tasks) (he : e.Calm) (hrows : disk.rows = w.disk.rows)
    (hfiles : disk.files = w.disk.files) (hbytes : ∀ id, id ≠ task.id → (w.withDisk disk).bytes id = w.bytes id)
    (hparts : ((w.withDisk disk).bytes task.id).isSome → (w.bytes task.id).isSome)
    (hholds : phase.Holds (contents task.id es) ((w.withDisk disk).bytes task.id))
    (hfits : task.row.offset + phase.received.length ≤ task.row.size)
    (hfinishing : phase.finishing = true → task.phase.finishing = true) (hpublished : phase.isPublished = false)
    (hunpublished : task.phase.isPublished = false) :
    Intact (es ++ [e]) ((w.withDisk disk).withPhase task phase) := by
  have htasks : ∀ x ∈ ((w.withDisk disk).withPhase task phase).tasks, x = { task with phase := phase } ∨ (x ∈ w.tasks ∧ x.id ≠ task.id) :=
    fun x hx => Table.mem_set.mp hx
  have hbusy : ∀ id, ((w.withDisk disk).withPhase task phase).busy id = false → w.busy id = false := by
    intro id hid
    rw [busy_eq_false] at hid ⊢
    intro x hx hxid
    by_cases heq : x.id = task.id
    · exact hid { task with phase := phase } (Table.mem_set.mpr (.inl rfl)) (heq.symm.trans hxid)
    · exact hid x (Table.mem_set.mpr (.inr ⟨hx, heq⟩)) hxid
  have hrun := h.tasks task htask
  refine ⟨?_, ?_, ?_, ?_, ?_, ?_, ?_, ?_, ?_⟩
  · intro row hrow
    exact h.drawnRows row (hrows ▸ hrow)
  · intro id b hb
    by_cases hid : id = task.id
    · subst hid
      obtain ⟨b', hb'⟩ := isSome_iff_exists.mp (hparts (isSome_iff_exists.mpr ⟨b, hb⟩))
      exact h.drawnParts _ b' hb'
    · exact h.drawnParts id b ((hbytes id hid) ▸ hb)
  · intro id hid
    rw [he.contents, he.count]
    exact h.fresh id hid
  · intro id b hid hb
    rw [he.contents]
    have hne : id ≠ task.id := by
      rintro rfl
      have hbusy' := hbusy _ hid
      rw [busy_eq_false] at hbusy'
      exact hbusy' task htask rfl
    exact h.idle id b (hbusy id hid) ((hbytes id hne) ▸ hb)
  · intro row hrow
    rw [he.contents]
    exact h.sized row (hrows ▸ hrow)
  · intro row hrow hcompleted
    rw [he.contents]
    exact h.completed row (hrows ▸ hrow) hcompleted
  · intro x hx
    rcases htasks x hx with rfl | ⟨hx, hne⟩
    · refine ⟨?_, ?_, ?_, hfits, fun hf => hrun.whole (hfinishing hf), ?_⟩
      · obtain ⟨row, hrow, heq⟩ := hrun.row
        exact ⟨row, hrows.symm ▸ hrow, heq⟩
      · rw [he.contents]
        exact hrun.offset
      · rw [he.contents]
        exact hholds
      · intro entry hentry
        dsimp only at hentry
        rw [hentry] at hpublished
        cases hpublished
    · have hr := h.tasks x hx
      refine ⟨?_, ?_, ?_, hr.fits, hr.whole, ?_⟩
      · obtain ⟨row, hrow, heq⟩ := hr.row
        exact ⟨row, hrows.symm ▸ hrow, heq⟩
      · rw [he.contents]
        exact hr.offset
      · rw [he.contents]
        exact (hbytes x.id hne).symm ▸ hr.holds
      · intro entry hentry
        obtain ⟨file, hfile, hrest⟩ := hr.file entry hentry
        exact ⟨file, hfiles.symm ▸ hfile, hrest⟩
  · intro id
    rw [he.count]
    exact h.once id
  · intro row hrow hcount
    rw [he.count] at hcount
    rcases h.spent row (hrows ▸ hrow) hcount with hc | hb | ⟨x, hx, hxid, hxp⟩ | ⟨hconflict, file, hfile, hrest⟩
    · exact .inl hc
    · refine .inr (.inl ?_)
      by_cases hid : row.id = task.id
      · rw [hid] at hb ⊢
        by_contra hsome
        have hold := hparts (isSome_iff_ne_none.mpr hsome)
        rw [hb] at hold
        cases hold
      · exact (hbytes row.id hid).trans hb
    · refine .inr (.inr (.inl ⟨x, Table.mem_set.mpr (.inr ⟨hx, ?_⟩), hxid, hxp⟩))
      intro heq
      obtain rfl := eq_of_key hx htask heq
      rw [hunpublished] at hxp
      cases hxp
    · exact .inr (.inr (.inr ⟨hconflict, file, hfiles.symm ▸ hfile, hrest⟩))

theorem get_eq_ok {workspaceId : String} (h : disk.get validate workspaceId id = .ok row) :
    ∃ stored ∈ disk.rows, stored.id = id ∧ stored.workspaceId = workspaceId ∧
      ((stored.completed.isSome ∧ row = stored) ∨ (stored.completed = none ∧ validate workspaceId stored.path = true ∧
        ∃ part, disk.parts.find? id = some part ∧ row = { stored with offset := part.bytes.length })) := by
  unfold Disk.get at h
  cases hfind : disk.rows.find? id with
  | none =>
    rw [hfind] at h
    cases h
  | some stored =>
    obtain ⟨hmem, hid⟩ := find?_eq_some.mp hfind
    simp only [hfind] at h
    split at h
    · cases h
    · rename_i hworkspace
      refine ⟨stored, hmem, hid, not_not.mp hworkspace, ?_⟩
      split at h
      · rename_i hcompleted
        split at h
        · cases h
          exact .inl ⟨hcompleted, rfl⟩
        · cases h
      · rename_i hcompleted
        split at h
        · cases h
        · rename_i hvalid
          cases hpart : disk.parts.find? id with
          | none =>
            simp only [hpart] at h
            cases h
          | some part =>
            simp only [hpart] at h
            cases h
            exact .inr ⟨not_isSome_iff_eq_none.mp hcompleted, by simpa using hvalid, part, rfl, rfl⟩

theorem Intact.begin {workspaceId : String} {phase : Phase} (h : Intact es w) (he : e.Calm) (hbusy : w.busy id = false)
    (hget : w.disk.get validate workspaceId id = .ok row)
    (hphase : phase = .opening ∨ (phase = .committing [] ∧ row.offset = row.size ∧ row.completed = none)) :
    Intact (es ++ [e]) { w with tasks := w.tasks.set ⟨row, phase⟩ } := by
  obtain ⟨stored, hstored, rfl, -, hrow⟩ := get_eq_ok hget
  have hid : row.id = stored.id := by
    rcases hrow with ⟨-, rfl⟩ | ⟨-, -, part, -, rfl⟩ <;> rfl
  have hmeta : row = { stored with offset := row.offset } := by
    rcases hrow with ⟨-, rfl⟩ | ⟨-, -, part, -, rfl⟩ <;> rfl
  have hoffset : row.offset = (contents stored.id es).length := by
    rcases hrow with ⟨hcompleted, rfl⟩ | ⟨-, -, part, hpart, rfl⟩
    · exact (h.completed row hstored hcompleted).1
    · rw [h.idle stored.id part.bytes hbusy (by rw [World.bytes, hpart]; rfl)]
  have hsize : row.size = stored.size := by rw [hmeta]
  have hother : ∀ x ∈ w.tasks, x.id ≠ stored.id := busy_eq_false.mp hbusy
  have hsub : ∀ x ∈ w.tasks, x ∈ w.tasks.set ⟨row, phase⟩ := fun x hx =>
    Table.mem_set.mpr (.inr ⟨hx, fun heq => hother x hx (heq.trans hid)⟩)
  refine ⟨h.drawnRows, h.drawnParts, ?_, ?_, ?_, ?_, ?_, ?_, ?_⟩
  · intro id hfresh
    rw [he.contents, he.count]
    exact h.fresh id hfresh
  · intro id b hfree hb
    rw [he.contents]
    refine h.idle id b (busy_eq_false.mpr (fun x hx => ?_)) hb
    exact busy_eq_false.mp hfree x (hsub x hx)
  · intro x hx
    rw [he.contents]
    exact h.sized x hx
  · intro x hx hcompleted
    rw [he.contents]
    exact h.completed x hx hcompleted
  · intro x hx
    rcases Table.mem_set.mp hx with rfl | ⟨hx, -⟩
    · have hsized := h.sized stored hstored
      refine ⟨⟨stored, hstored, hmeta⟩, ?_, ?_, ?_, ?_, ?_⟩
      · rw [he.contents]
        exact hoffset.trans (by rw [← hid]; rfl)
      · rw [he.contents]
        change phase.Holds (contents row.id es) (w.bytes row.id)
        rw [hid]
        rcases hphase with rfl | ⟨rfl, -, hcompleted⟩
        · exact fun b hb => h.idle stored.id b hbusy hb
        · rcases hrow with ⟨hsome, rfl⟩ | ⟨-, -, part, hpart, rfl⟩
          · rw [hcompleted] at hsome
            cases hsome
          · have hbytes : w.bytes stored.id = some part.bytes := by rw [World.bytes, hpart]; rfl
            exact ⟨hbytes.trans (by rw [h.idle stored.id part.bytes hbusy hbytes]), nil_prefix⟩
      · dsimp only
        have hnone : phase.received = [] := by rcases hphase with rfl | ⟨rfl, -⟩ <;> rfl
        rw [hnone, hsize, hoffset]
        simpa using hsized
      · intro hfinishing
        rcases hphase with rfl | ⟨rfl, hwhole⟩
        · cases hfinishing
        · exact hwhole
      · intro _ hentry
        rcases hphase with rfl | ⟨rfl, -⟩ <;> cases hentry
    · have hr := h.tasks x hx
      refine ⟨hr.row, ?_, ?_, hr.fits, hr.whole, hr.file⟩
      · rw [he.contents]
        exact hr.offset
      · rw [he.contents]
        exact hr.holds
  · intro id
    rw [he.count]
    exact h.once id
  · intro x hx hcount
    rw [he.count] at hcount
    rcases h.spent x hx hcount with hc | hb | ⟨y, hy, hyid, hyp⟩ | hfile
    · exact .inl hc
    · exact .inr (.inl hb)
    · exact .inr (.inr (.inl ⟨y, hsub y hy, hyid, hyp⟩))
    · exact .inr (.inr (.inr hfile))

theorem Intact.ends (h : Intact es w) (htask : task ∈ w.tasks) (hpublishes : ∀ id, e.publishes id = false)
    (hother : ∀ id, id ≠ task.id → e.bytesOf id = []) (hfiles : disk.files = w.disk.files)
    (hrows : ∀ row ∈ disk.rows, ∃ old ∈ w.disk.rows, row.id = old.id ∧ row.size = old.size ∧ row.workspaceId = old.workspaceId ∧
      row.path = old.path ∧ row.conflict = old.conflict ∧ (row.id ≠ task.id → row = old) ∧ (old.completed.isSome → row.completed.isSome))
    (hkept : ∀ row ∈ w.disk.rows, row.id ≠ task.id → row ∈ disk.rows)
    (hbytes : ∀ id, id ≠ task.id → (w.withDisk disk).bytes id = w.bytes id)
    (hparts : ((w.withDisk disk).bytes task.id).isSome → (w.bytes task.id).isSome)
    (hidle : ∀ b, (w.withDisk disk).bytes task.id = some b → b = contents task.id (es ++ [e]))
    (hsized : ∀ row ∈ disk.rows, row.id = task.id → (contents task.id (es ++ [e])).length ≤ row.size)
    (hcompleted : ∀ row ∈ disk.rows, row.id = task.id → row.completed.isSome →
      row.offset = (contents task.id (es ++ [e])).length ∧ row.offset = row.size)
    (hspent : ∀ row ∈ disk.rows, row.id = task.id → task.phase.isPublished = true → row.completed.isSome ∨
      (w.withDisk disk).bytes row.id = none ∨ row.conflict = false) :
    Intact (es ++ [e]) ((w.withDisk disk).release task) := by
  have htasks : ∀ x ∈ ((w.withDisk disk).release task).tasks, x ∈ w.tasks ∧ x.id ≠ task.id := fun x hx => mem_delete.mp hx
  have hcontents : ∀ id, id ≠ task.id → contents id (es ++ [e]) = contents id es := by
    intro id hid
    rw [contents_snoc, hother id hid, append_nil]
  have hcount : ∀ id, (es ++ [e]).countP (Event.publishes id) = es.countP (Event.publishes id) := by
    intro id
    rw [countP_snoc, hpublishes id]
    rfl
  have hdrawn : task.id ∈ w.drawn := by
    obtain ⟨row, hrow, hid⟩ := (h.tasks task htask).exists_row
    exact hid ▸ h.drawnRows row hrow
  refine ⟨?_, ?_, ?_, ?_, ?_, ?_, ?_, ?_, ?_⟩
  · intro row hrow
    obtain ⟨old, hold, hid, -⟩ := hrows row hrow
    exact hid ▸ h.drawnRows old hold
  · intro id b hb
    by_cases hid : id = task.id
    · exact hid ▸ hdrawn
    · exact h.drawnParts id b ((hbytes id hid) ▸ hb)
  · intro id hid
    have hne : id ≠ task.id := fun heq => hid (heq ▸ hdrawn)
    rw [hcontents id hne, hcount]
    exact h.fresh id hid
  · intro id b hfree hb
    by_cases hid : id = task.id
    · subst hid
      exact hidle b hb
    · rw [hcontents id hid]
      refine h.idle id b (busy_eq_false.mpr (fun x hx hxid => ?_)) ((hbytes id hid) ▸ hb)
      exact busy_eq_false.mp hfree x (mem_delete.mpr ⟨hx, fun heq => hid (hxid.symm.trans heq)⟩) hxid
  · intro row hrow
    by_cases hid : row.id = task.id
    · rw [hid]
      exact hsized row hrow hid
    · obtain ⟨old, hold, -, -, -, -, -, hsame, -⟩ := hrows row hrow
      obtain rfl := hsame hid
      rw [hcontents _ hid]
      exact h.sized row hold
  · intro row hrow hsome
    by_cases hid : row.id = task.id
    · rw [hid]
      exact hcompleted row hrow hid hsome
    · obtain ⟨old, hold, -, -, -, -, -, hsame, -⟩ := hrows row hrow
      obtain rfl := hsame hid
      rw [hcontents _ hid]
      exact h.completed row hold hsome
  · intro x hx
    obtain ⟨hx, hne⟩ := htasks x hx
    have hr := h.tasks x hx
    refine ⟨?_, ?_, ?_, hr.fits, hr.whole, ?_⟩
    · obtain ⟨row, hrow, heq⟩ := hr.row
      refine ⟨row, hkept row hrow ?_, heq⟩
      intro hid
      apply hne
      rw [← hid]
      change x.row.id = row.id
      rw [heq]
    · rw [hcontents _ hne]
      exact hr.offset
    · rw [hcontents _ hne]
      exact (hbytes x.id hne).symm ▸ hr.holds
    · intro entry hentry
      obtain ⟨file, hfile, hrest⟩ := hr.file entry hentry
      exact ⟨file, hfiles.symm ▸ hfile, hrest⟩
  · intro id
    rw [hcount]
    exact h.once id
  · intro row hrow hne
    rw [hcount] at hne
    obtain ⟨old, hold, hid, -, hworkspace, hpath, hconflict, _, hsome⟩ := hrows row hrow
    rw [hid] at hne
    rcases h.spent old hold hne with hc | hb | ⟨x, hx, hxid, hxp⟩ | ⟨hplain, file, hfile, hfw, hfp⟩
    · exact .inl (hsome hc)
    · refine .inr (.inl ?_)
      rw [← hid] at hb
      by_cases heq : row.id = task.id
      · rw [heq] at hb ⊢
        by_contra hnone
        have hthere := hparts (isSome_iff_ne_none.mpr hnone)
        rw [hb] at hthere
        cases hthere
      · exact (hbytes row.id heq).trans hb
    · by_cases heq : row.id = task.id
      · obtain rfl := eq_of_key hx htask (hxid.trans (hid.symm.trans heq))
        rcases hspent row hrow heq hxp with hc | hb | hplain
        · exact .inl hc
        · exact .inr (.inl hb)
        · obtain ⟨entry, hentry⟩ := isPublished_eq_true.mp hxp
          obtain ⟨file, hfile, hfw, hfp, hwhere⟩ := (h.tasks x hx).file entry hentry
          have hmeta := (h.tasks x hx).row_of hold hxid.symm
          refine .inr (.inr (.inr ⟨hplain, file, hfiles.symm ▸ hfile, ?_, ?_⟩))
          · rw [hfw, hmeta, hworkspace]
          · rcases hwhere with hpath' | hrename
            · rw [hfp, hpath', hmeta, hpath]
            · rw [hmeta] at hrename
              rw [hconflict] at hplain
              exact absurd hrename (by simp [hplain])
      · exact .inr (.inr (.inl ⟨x, mem_delete.mpr ⟨hx, fun hxt => heq (hid.trans (hxid.symm.trans hxt))⟩, hxid.trans hid.symm, hxp⟩))
    · refine .inr (.inr (.inr ⟨hconflict.trans hplain, file, hfiles.symm ▸ hfile, ?_, ?_⟩))
      · rw [hfw, hworkspace]
      · rw [hfp, hpath]

theorem Intact.congr {fs : List Event} (h : Intact es w) (hcontents : ∀ id, contents id fs = contents id es)
    (hcount : ∀ id, fs.countP (Event.publishes id) = es.countP (Event.publishes id)) : Intact fs w where
  drawnRows := h.drawnRows
  drawnParts := h.drawnParts
  fresh := by
    intro id hid
    rw [hcontents, hcount]
    exact h.fresh id hid
  idle := by
    intro id b hfree hb
    rw [hcontents]
    exact h.idle id b hfree hb
  sized := by
    intro row hrow
    rw [hcontents]
    exact h.sized row hrow
  completed := by
    intro row hrow hc
    rw [hcontents]
    exact h.completed row hrow hc
  tasks := by
    intro task htask
    have hr := h.tasks task htask
    refine ⟨hr.row, ?_, ?_, hr.fits, hr.whole, hr.file⟩
    · rw [hcontents]
      exact hr.offset
    · rw [hcontents]
      exact hr.holds
  once := by
    intro id
    rw [hcount]
    exact h.once id
  spent := by
    intro row hrow hne
    rw [hcount] at hne
    exact h.spent row hrow hne

theorem find_task (htask : task ∈ w.tasks) : w.tasks.find? task.id = some task := find?_of_mem htask

theorem left_of_task (htask : task ∈ w.tasks) : w.left task.id = ((w.bytes task.id).getD []).drop task.row.offset := by
  rw [World.left, find_task htask]
  rfl

theorem left_of_idle (h : w.busy id = false) : w.left id = [] := by
  rw [World.left, has_eq_false.mp h]
  rfl

theorem Running.left (h : Running es w task) (htask : task ∈ w.tasks) : w.left task.id <+: task.phase.received ∧
    ∀ b, w.bytes task.id = some b → b = contents task.id es ++ w.left task.id := by
  rw [left_of_task htask]
  cases hb : w.bytes task.id with
  | none => exact ⟨by simp, fun b hb => by cases hb⟩
  | some b =>
    have hholds := h.holds
    rw [hb] at hholds
    obtain ⟨_, hmore, rfl⟩ := hholds.more
    rw [h.offset, getD_some, drop_left]
    exact ⟨hmore, fun b hb => (Option.some.inj hb).symm⟩

theorem Intact.died {lost : UUID → Bool} {cut : Cut} (h : Intact es w)
    (hplain : ∀ task ∈ w.tasks, task.phase.isPublished = true → task.row.conflict = false) :
    Intact (es ++ [.crashed w.left lost cut]) w.dead := by
  have hcontents : ∀ id, contents id (es ++ [.crashed w.left lost cut]) = contents id es ++ w.left id := fun id => contents_snoc
  have hcount : ∀ id, (es ++ [Event.crashed w.left lost cut]).countP (Event.publishes id) = es.countP (Event.publishes id) := by
    intro id
    rw [countP_snoc]
    rfl
  have hidle : ∀ id, w.busy id = false → contents id (es ++ [.crashed w.left lost cut]) = contents id es := by
    intro id hfree
    rw [hcontents, left_of_idle hfree, append_nil]
  have hbusy : ∀ id, w.busy id = true → ∃ task ∈ w.tasks, task.id = id := fun id => busy_eq_true.mp
  refine ⟨h.drawnRows, h.drawnParts, ?_, ?_, ?_, ?_, ?_, ?_, ?_⟩
  · intro id hid
    cases hb : w.busy id with
    | false =>
      rw [hidle id hb, hcount]
      exact h.fresh id hid
    | true =>
      obtain ⟨task, htask, rfl⟩ := hbusy id hb
      obtain ⟨row, hrow, hrid⟩ := (h.tasks task htask).exists_row
      exact absurd (hrid ▸ h.drawnRows row hrow) hid
  · intro id b _ hbytes
    cases hb : w.busy id with
    | false =>
      rw [hidle id hb]
      exact h.idle id b hb hbytes
    | true =>
      obtain ⟨task, htask, rfl⟩ := hbusy id hb
      rw [hcontents]
      exact ((h.tasks task htask).left htask).2 b hbytes
  · intro row hrow
    cases hb : w.busy row.id with
    | false =>
      rw [hidle _ hb]
      exact h.sized row hrow
    | true =>
      obtain ⟨task, htask, hid⟩ := hbusy _ hb
      have hr := h.tasks task htask
      have hinitial := (hr.left htask).1.length_le
      have hfits := hr.fits
      have hoffset := hr.offset
      have hsize : task.row.size = row.size := by rw [hr.row_of hrow hid.symm]
      rw [hcontents, length_append, ← hid]
      omega
  · intro row hrow hsome
    cases hb : w.busy row.id with
    | false =>
      rw [hidle _ hb]
      exact h.completed row hrow hsome
    | true =>
      obtain ⟨task, htask, hid⟩ := hbusy _ hb
      have hr := h.tasks task htask
      obtain ⟨hoffset, hsize⟩ := h.completed row hrow hsome
      have hwhole : task.row.size = row.size := by rw [hr.row_of hrow hid.symm]
      have hlength := hr.offset
      have hfits := hr.fits
      have hinitial := (hr.left htask).1.length_le
      have hnone : w.left row.id = [] := by
        rw [← length_eq_zero_iff, ← hid]
        rw [← hid] at hoffset
        omega
      rw [hcontents, hnone, append_nil]
      exact ⟨hoffset, hsize⟩
  · intro task htask
    exact absurd htask (not_mem_empty task)
  · intro id
    rw [hcount]
    exact h.once id
  · intro row hrow hne
    rw [hcount] at hne
    rcases h.spent row hrow hne with hc | hb | ⟨x, hx, hxid, hxp⟩ | hfile
    · exact .inl hc
    · exact .inr (.inl hb)
    · obtain ⟨entry, hentry⟩ := isPublished_eq_true.mp hxp
      obtain ⟨file, hfile, hfw, hfp, hwhere⟩ := (h.tasks x hx).file entry hentry
      have hmeta := (h.tasks x hx).row_of hrow hxid.symm
      have hconflict := hplain x hx hxp
      refine .inr (.inr (.inr ⟨?_, file, hfile, ?_, ?_⟩))
      · rw [hmeta] at hconflict
        exact hconflict
      · rw [hfw, hmeta]
      · rcases hwhere with hpath | hrename
        · rw [hfp, hpath, hmeta]
        · rw [hconflict] at hrename
          cases hrename
    · exact .inr (.inr (.inr hfile))

/-- What a call without an `await` does to the disk, however short it is cut: it makes an upload of
its own and removes files of others that are not busy. -/
structure Calls (w : World) (drawn : List UUID) (disk : Disk) : Prop where
  parts : ∀ part ∈ disk.parts, part ∈ w.disk.parts ∨ (part.id ∈ drawn ∧ part.bytes = [])
  rows : ∀ row ∈ disk.rows, row ∈ w.disk.rows ∨ (row.id ∈ drawn ∧ row.completed = none)
  busyParts : ∀ part ∈ w.disk.parts, w.busy part.id = true → part ∈ disk.parts
  busyRows : ∀ row ∈ w.disk.rows, w.busy row.id = true → row ∈ disk.rows
  files : disk.files = w.disk.files

section Calls

variable {drawn : List UUID} {seen : List Instant}

theorem Calls.refl (w : World) (drawn : List UUID) : Calls w drawn w.disk :=
  ⟨fun _ h => .inl h, fun _ h => .inl h, fun _ h _ => h, fun _ h _ => h, rfl⟩

section

variable (h : Calls w drawn disk)
include h

theorem Calls.removeData (hfree : w.busy id = false) : Calls w drawn (disk.removeData id) :=
  { h with
    parts := fun part hpart => h.parts part (mem_delete.mp hpart).1
    busyParts := by
      intro part hpart hbusy
      refine mem_delete.mpr ⟨h.busyParts part hpart hbusy, ?_⟩
      rintro rfl
      rw [hfree] at hbusy
      cases hbusy }

theorem Calls.removeMetadata (hfree : w.busy id = false) : Calls w drawn (disk.removeMetadata id) :=
  { h with
    rows := fun row hrow => h.rows row (mem_delete.mp hrow).1
    busyRows := by
      intro row hrow hbusy
      refine mem_delete.mpr ⟨h.busyRows row hrow hbusy, ?_⟩
      rintro rfl
      rw [hfree] at hbusy
      cases hbusy }

theorem Calls.addPart (hid : id ∈ drawn) : Calls w drawn (disk.addPart id) :=
  { h with
    parts := by
      intro part hpart
      rcases mem_insertOrIgnore.mp hpart with hold | ⟨rfl, -⟩
      · exact h.parts part hold
      · exact .inr ⟨hid, rfl⟩
    busyParts := fun part hpart hbusy => mem_insertOrIgnore.mpr (.inl (h.busyParts part hpart hbusy)) }

theorem Calls.save (hid : row.id ∈ drawn) (hcompleted : row.completed = none)
    (hfree : w.busy row.id = false) : Calls w drawn (disk.save row) :=
  { h with
    rows := forall_mem_set (.inr ⟨hid, hcompleted⟩) h.rows
    busyRows := by
      intro x hx hbusy
      refine Table.mem_set.mpr (.inr ⟨h.busyRows x hx hbusy, ?_⟩)
      intro heq
      rw [heq, hfree] at hbusy
      cases hbusy }

end

theorem cleanup_keeps {now : Instant} {write : Disk → Disk} (hwrite : write ∈ w.disk.cleanupWrites now w.busy) (disk : Disk)
    (h : Calls w drawn disk) : Calls w drawn (write disk) := by
  obtain ⟨row, hrow, hwrite⟩ := mem_flatMap.mp hwrite
  have hfree : w.busy row.id = false := by
    have hexpired := (mem_filter.mp hrow).2
    unfold Disk.expired at hexpired
    simpa using (of_decide_eq_true hexpired).2
  rcases mem_cons.mp hwrite with rfl | hwrite
  · exact h.removeData hfree
  · obtain rfl := mem_singleton.mp hwrite
    exact h.removeMetadata hfree

theorem writes_keep {call : Call} (hfresh : ∀ id ∈ call.drawn, w.busy id = false) {write : Disk → Disk}
    (hwrite : write ∈ w.writes validate call) (disk : Disk) (h : Calls w call.drawn disk) : Calls w call.drawn (write disk) := by
  cases call with
  | create now id workspaceId input =>
    change write ∈ w.createWrites validate now id workspaceId input at hwrite
    unfold World.createWrites at hwrite
    have hid : id ∈ (Call.create now id workspaceId input).drawn := mem_singleton.mpr rfl
    split at hwrite
    · cases hwrite
    · rcases mem_append.mp hwrite with hwrite | hwrite
      · exact cleanup_keeps hwrite disk h
      · split at hwrite
        · cases hwrite
        · rcases mem_cons.mp hwrite with rfl | hwrite
          · exact h.addPart hid
          · obtain rfl := mem_singleton.mp hwrite
            exact h.save hid rfl (hfresh id hid)
  | list =>
    dsimp only [World.writes] at hwrite
    split at hwrite
    · exact cleanup_keeps hwrite disk h
    · cases hwrite
  | cancel workspaceId id =>
    change write ∈ w.cancelWrites validate workspaceId id at hwrite
    unfold World.cancelWrites at hwrite
    split at hwrite
    · cases hwrite
    · rename_i hbusy
      have hfree : w.busy id = false := by simpa using hbusy
      split at hwrite
      · cases hwrite
      · rcases mem_cons.mp hwrite with rfl | hwrite
        · exact h.removeData hfree
        · obtain rfl := mem_singleton.mp hwrite
          exact h.removeMetadata hfree
  | cleanup => exact cleanup_keeps hwrite disk h

theorem Intact.not_busy_of_fresh (h : Intact es w) (hid : id ∉ w.drawn) : w.busy id = false := by
  rw [busy_eq_false]
  rintro task htask rfl
  obtain ⟨row, hrow, hrid⟩ := (h.tasks task htask).exists_row
  exact hid (hrid ▸ h.drawnRows row hrow)

theorem Calls.bytes {b : Bytes} (hc : Calls w drawn disk)
    (hb : World.bytes { w with disk := disk, drawn := drawn ++ w.drawn, seen := seen } id = some b) :
    w.bytes id = some b ∨ (id ∈ drawn ∧ b = []) := by
  obtain ⟨part, hpart, rfl, rfl⟩ := bytes_eq_some.mp hb
  rcases hc.parts part hpart with hold | hnew
  · exact .inl (bytes_eq_some.mpr ⟨part, hold, rfl, rfl⟩)
  · exact .inr hnew

theorem Calls.bytes_of_busy (hc : Calls w drawn disk) (hfree : ∀ id ∈ drawn, w.busy id = false) (hbusy : w.busy id = true) :
    World.bytes { w with disk := disk, drawn := drawn ++ w.drawn, seen := seen } id = w.bytes id := by
  cases hb : w.bytes id with
  | some =>
    obtain ⟨part, hpart, rfl, rfl⟩ := bytes_eq_some.mp hb
    exact bytes_eq_some.mpr ⟨part, hc.busyParts part hpart hbusy, rfl, rfl⟩
  | none =>
    by_contra hsome
    obtain ⟨b, hb'⟩ := ne_none_iff_exists'.mp hsome
    rcases hc.bytes hb' with hold | ⟨hnew, -⟩
    · rw [hb] at hold
      cases hold
    · rw [hfree id hnew] at hbusy
      cases hbusy

theorem Intact.calls (h : Intact es w) (he : e.Calm) (hc : Calls w drawn disk) (hfresh : ∀ id ∈ drawn, id ∉ w.drawn) :
    Intact (es ++ [e]) { w with disk := disk, drawn := drawn ++ w.drawn, seen := seen } := by
  have hbytes : ∀ id b, World.bytes { w with disk := disk, drawn := drawn ++ w.drawn, seen := seen } id = some b →
      w.bytes id = some b ∨ (id ∈ drawn ∧ b = []) := fun _ _ hb => hc.bytes hb
  have hbusyBytes : ∀ id, w.busy id = true →
      World.bytes { w with disk := disk, drawn := drawn ++ w.drawn, seen := seen } id = w.bytes id :=
    fun _ hbusy => hc.bytes_of_busy (fun id hid => h.not_busy_of_fresh (hfresh id hid)) hbusy
  refine ⟨?_, ?_, ?_, ?_, ?_, ?_, ?_, ?_, ?_⟩
  · intro row hrow
    rcases hc.rows row hrow with hold | ⟨hnew, -⟩
    · exact mem_append_right _ (h.drawnRows row hold)
    · exact mem_append_left _ hnew
  · intro id b hb
    rcases hbytes id b hb with hold | ⟨hnew, -⟩
    · exact mem_append_right _ (h.drawnParts id b hold)
    · exact mem_append_left _ hnew
  · intro id hid
    rw [he.contents, he.count]
    exact h.fresh id (fun hold => hid (mem_append_right _ hold))
  · intro id b hfree hb
    rw [he.contents]
    rcases hbytes id b hb with hold | ⟨hnew, rfl⟩
    · exact h.idle id b hfree hold
    · exact (h.fresh id (hfresh id hnew)).1.symm
  · intro row hrow
    rw [he.contents]
    rcases hc.rows row hrow with hold | ⟨hnew, -⟩
    · exact h.sized row hold
    · rw [(h.fresh row.id (hfresh _ hnew)).1]
      exact Nat.zero_le _
  · intro row hrow hsome
    rw [he.contents]
    rcases hc.rows row hrow with hold | ⟨-, hnone⟩
    · exact h.completed row hold hsome
    · rw [hnone] at hsome
      cases hsome
  · intro task htask
    have hr := h.tasks task htask
    have hbusy : w.busy task.id = true := busy_eq_true.mpr ⟨task, htask, rfl⟩
    refine ⟨?_, ?_, ?_, hr.fits, hr.whole, ?_⟩
    · obtain ⟨row, hrow, heq⟩ := hr.row
      refine ⟨row, hc.busyRows row hrow ?_, heq⟩
      rw [← hbusy]
      change w.busy row.id = w.busy task.row.id
      rw [heq]
    · rw [he.contents]
      exact hr.offset
    · rw [he.contents, hbusyBytes task.id hbusy]
      exact hr.holds
    · intro entry hentry
      rw [hc.files]
      exact hr.file entry hentry
  · intro id
    rw [he.count]
    exact h.once id
  · intro row hrow hne
    rw [he.count] at hne
    rcases hc.rows row hrow with hold | ⟨hnew, -⟩
    · rcases h.spent row hold hne with hs | hb | htask | ⟨hconflict, file, hfile, hrest⟩
      · exact .inl hs
      · refine .inr (.inl ?_)
        by_contra hsome
        obtain ⟨b, hb'⟩ := ne_none_iff_exists'.mp hsome
        rcases hbytes row.id b hb' with hthere | ⟨hnew, -⟩
        · rw [hb] at hthere
          cases hthere
        · exact hfresh _ hnew (h.drawnRows row hold)
      · exact .inr (.inr (.inl htask))
      · refine .inr (.inr (.inr ⟨hconflict, file, ?_, hrest⟩))
        rw [hc.files]
        exact hfile
    · exact absurd (h.fresh row.id (hfresh _ hnew)).2 hne

end Calls

end WorkAgent.Harness.Uploads
