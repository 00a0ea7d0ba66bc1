import WorkAgent.Harness.UploadOnce

namespace WorkAgent.Harness.Uploads

open Library List Table

variable {validate : String → String → Bool} {keepReceipts : Bool} {w t : World} {e : Event} {es : List Event} {id : UUID}
  {task : Task} {row : UploadSession} {disk : Disk} {now : Instant}

def World.whole (validate : String → String → Bool) (w : World) (call : Call) (k : ℕ) : Prop :=
  match call with
  | .create now _ _ _ => (w.writes validate call).length ≤ k ∨ k ≠ (w.disk.cleanupWrites now w.busy).length + 1
  | .cancel _ _ => (w.writes validate call).length ≤ k ∨ k ≠ 1
  | _ => True

/-- No upload is left with one of its two files: a `create`, a `cancel` or, where no receipts are
kept, the end of a `finish` is not cut between them. -/
def Whole (validate : String → String → Bool) (keepReceipts : Bool) (w : World) : Event → Prop
  | .called call k => w.whole validate call k
  | .crashed _ _ (.call call k) => w.whole validate call k
  | .unfinished _ k => keepReceipts = true ∨ k ≠ 1
  | .crashed _ _ (.finish k) => keepReceipts = true ∨ k ≠ 1
  | _ => True

def WholeStep (validate : String → String → Bool) (keepReceipts : Bool) (w : World) (e : Event) (t : World) : Prop :=
  Step validate keepReceipts w e t ∧ Whole validate keepReceipts w e

/-- Every part has its metadata, and the metadata of an unfinished upload its part, unless a
`cleanup` has begun to remove it. -/
structure Indexed (validate : String → String → Bool) (w : World) : Prop where
  drawn : ∀ row ∈ w.disk.rows, row.id ∈ w.drawn
  parts : ∀ part ∈ w.disk.parts, ∃ row ∈ w.disk.rows, row.id = part.id
  data : ∀ row ∈ w.disk.rows, row.completed.isSome ∨ (w.bytes row.id).isSome ∨
    (w.busy row.id = false ∧ ∃ past ∈ w.seen, lifetime < past - row.updatedAt)
  valid : ∀ row ∈ w.disk.rows, validate row.workspaceId row.path = true
  tasks : ∀ task ∈ w.tasks, ∃ row ∈ w.disk.rows, task.row = { row with offset := task.row.offset }

structure Swept (now : Instant) (busy : UUID → Bool) (old new : Disk) : Prop where
  rows : ∀ row ∈ new.rows, row ∈ old.rows
  parts : ∀ part ∈ new.parts, part ∈ old.parts
  covered : ∀ part ∈ new.parts, ∀ row ∈ old.rows, row.id = part.id → row ∈ new.rows
  kept : ∀ row ∈ old.rows, Disk.expired now busy row = false →
    row ∈ new.rows ∧ ∀ part ∈ old.parts, part.id = row.id → part ∈ new.parts

section Swept

variable {busy : UUID → Bool} {old new : Disk}

theorem Swept.refl (now : Instant) (busy : UUID → Bool) (disk : Disk) : Swept now busy disk disk where
  rows := fun _ hrow => hrow
  parts := fun _ hpart => hpart
  covered := fun _ _ _ hrow _ => hrow
  kept := fun _ hrow _ => ⟨hrow, fun _ hpart _ => hpart⟩

theorem ne_of_expired {x : UploadSession} (hx : x ∈ old.rows) (hexpired : Disk.expired now busy x = true) (hrow : row ∈ old.rows)
    (hlive : Disk.expired now busy row = false) : row.id ≠ x.id := by
  intro hid
  obtain rfl := eq_of_key hrow hx hid
  rw [hexpired] at hlive
  cases hlive

section

variable {x : UploadSession} (h : Swept now busy old new) (hx : x ∈ old.rows) (hexpired : Disk.expired now busy x = true)
include h hx hexpired

theorem Swept.removeData : Swept now busy old (new.removeData x.id) where
  rows := h.rows
  parts := fun part hpart => h.parts part (mem_delete.mp hpart).1
  covered := fun part hpart => h.covered part (mem_delete.mp hpart).1
  kept := by
    intro row hrow hlive
    obtain ⟨hkept, hparts⟩ := h.kept row hrow hlive
    refine ⟨hkept, fun part hpart hid => mem_delete.mpr ⟨hparts part hpart hid, fun heq => ?_⟩⟩
    exact ne_of_expired hx hexpired hrow hlive (hid.symm.trans heq)

theorem Swept.removeBoth : Swept now busy old ((new.removeData x.id).removeMetadata x.id) where
  rows := fun row hrow => h.rows row (mem_delete.mp hrow).1
  parts := (h.removeData hx hexpired).parts
  covered := by
    intro part hpart row hrow hid
    refine mem_delete.mpr ⟨(h.removeData hx hexpired).covered part hpart row hrow hid, fun heq => ?_⟩
    exact (mem_delete.mp hpart).2 (hid.symm.trans heq)
  kept := by
    intro row hrow hlive
    obtain ⟨hkept, hparts⟩ := (h.removeData hx hexpired).kept row hrow hlive
    exact ⟨mem_delete.mpr ⟨hkept, ne_of_expired hx hexpired hrow hlive⟩, hparts⟩

end

def removals (row : UploadSession) : List (Disk → Disk) := [(·.removeData row.id), (·.removeMetadata row.id)]

theorem Swept.take {expired : List UploadSession} (h : Swept now busy old new)
    (hexpired : ∀ x ∈ expired, x ∈ old.rows ∧ Disk.expired now busy x = true) (k : ℕ) :
    Swept now busy old (applyAll ((expired.flatMap removals).take k) new) := by
  induction expired generalizing new k with
  | nil => simpa using h
  | cons x rest ih =>
    obtain ⟨hx, hxe⟩ := hexpired x mem_cons_self
    have hrest : ∀ y ∈ rest, y ∈ old.rows ∧ Disk.expired now busy y = true := fun y hy => hexpired y (mem_cons_of_mem x hy)
    match k with
    | 0 => exact h
    | 1 => exact h.removeData hx hxe
    | k + 2 => exact ih (h.removeBoth hx hxe) hrest k

theorem swept_take (k : ℕ) : Swept now busy disk (applyAll ((disk.cleanupWrites now busy).take k) disk) :=
  (Swept.refl now busy disk).take (fun _ hx => mem_filter.mp hx) k

theorem swept_cleanup : Swept now busy disk (disk.cleanup now busy) := by
  have h : Swept now busy disk (applyAll ((disk.cleanupWrites now busy).take (disk.cleanupWrites now busy).length) disk) :=
    swept_take _
  rw [take_length] at h
  exact h

theorem removals_keep (expired : List UploadSession) (disk : Disk) :
    (∀ row ∈ (applyAll (expired.flatMap removals) disk).rows, row ∈ disk.rows) ∧
      ∀ part ∈ (applyAll (expired.flatMap removals) disk).parts, part ∈ disk.parts := by
  induction expired generalizing disk with
  | nil => exact ⟨fun _ h => h, fun _ h => h⟩
  | cons x _ ih =>
    obtain ⟨hrows, hparts⟩ := ih ((disk.removeData x.id).removeMetadata x.id)
    exact ⟨fun row hrow => (mem_delete.mp (hrows row hrow)).1, fun part hpart => (mem_delete.mp (hparts part hpart)).1⟩

theorem removals_remove {expired : List UploadSession} {x : UploadSession} (hx : x ∈ expired) :
    (∀ row ∈ (applyAll (expired.flatMap removals) disk).rows, row.id ≠ x.id) ∧
      ∀ part ∈ (applyAll (expired.flatMap removals) disk).parts, part.id ≠ x.id := by
  induction expired generalizing disk with
  | nil => cases hx
  | cons _ rest ih =>
    rcases mem_cons.mp hx with rfl | hx
    · obtain ⟨hrows, hparts⟩ := removals_keep rest ((disk.removeData x.id).removeMetadata x.id)
      exact ⟨fun row hrow => (mem_delete.mp (hrows row hrow)).2, fun part hpart => (mem_delete.mp (hparts part hpart)).2⟩
    · exact ih hx

theorem cleanup_removes {x : UploadSession} (hx : x ∈ disk.rows) (hexpired : Disk.expired now busy x = true) :
    (∀ row ∈ (disk.cleanup now busy).rows, row.id ≠ x.id) ∧ ∀ part ∈ (disk.cleanup now busy).parts, part.id ≠ x.id :=
  removals_remove (mem_filter.mpr ⟨hx, hexpired⟩)

end Swept

theorem bytes_isSome : (w.bytes id).isSome ↔ ∃ part ∈ w.disk.parts, part.id = id := by
  rw [Option.isSome_iff_exists]
  simp only [bytes_eq_some]
  constructor
  · rintro ⟨-, part, hpart, hid, -⟩
    exact ⟨part, hpart, hid⟩
  · rintro ⟨part, hpart, hid⟩
    exact ⟨part.bytes, part, hpart, hid, rfl⟩

section

variable (h : Indexed validate w)
include h

theorem Indexed.swept (hseen : now ∈ w.seen) (hs : Swept now w.busy w.disk disk) :
    Indexed validate (w.withDisk disk) where
  drawn := fun row hrow => h.drawn row (hs.rows row hrow)
  parts := by
    intro part hpart
    obtain ⟨row, hrow, hid⟩ := h.parts part (hs.parts part hpart)
    exact ⟨row, hs.covered part hpart row hrow hid, hid⟩
  data := by
    intro row hrow
    rcases h.data row (hs.rows row hrow) with hsome | hbytes | hidle
    · exact .inl hsome
    · cases hexpired : Disk.expired now w.busy row with
      | true =>
        have hboth := of_decide_eq_true hexpired
        have hidle : w.busy row.id = false := by simpa using hboth.2
        exact .inr (.inr ⟨hidle, now, hseen, hboth.1⟩)
      | false =>
        obtain ⟨part, hpart, hid⟩ := bytes_isSome.mp hbytes
        exact .inr (.inl (bytes_isSome.mpr ⟨part, (hs.kept row (hs.rows row hrow) hexpired).2 part hpart hid, hid⟩))
    · exact .inr (.inr hidle)
  valid := fun row hrow => h.valid row (hs.rows row hrow)
  tasks := by
    intro task htask
    obtain ⟨row, hrow, heq⟩ := h.tasks task htask
    refine ⟨row, (hs.kept row hrow ?_).1, heq⟩
    have hbusy : w.busy row.id = true := by
      refine busy_eq_true.mpr ⟨task, htask, ?_⟩
      change task.row.id = row.id
      rw [heq]
    simp [Disk.expired, hbusy]

theorem Indexed.fewer {tasks : Table Task.id} (htasks : ∀ task ∈ tasks, task ∈ w.tasks) :
    Indexed validate { w with tasks := tasks } :=
  { h with
    data := by
      intro row hrow
      rcases h.data row hrow with hsome | hbytes | ⟨hidle, hpast⟩
      · exact .inl hsome
      · exact .inr (.inl hbytes)
      · refine .inr (.inr ⟨busy_eq_false.mpr (fun x hx => ?_), hpast⟩)
        exact busy_eq_false.mp hidle x (htasks x hx)
    tasks := fun task htask => h.tasks task (htasks task htask) }

theorem Indexed.release (task : Task) : Indexed validate (w.release task) :=
  h.fewer (fun _ hx => (mem_delete.mp hx).1)

theorem Indexed.dead : Indexed validate w.dead :=
  h.fewer forall_mem_empty

theorem Indexed.recorded {drawn : List UUID} {seen : List Instant} (hdrawn : ∀ id ∈ w.drawn, id ∈ drawn)
    (hseen : ∀ past ∈ w.seen, past ∈ seen) : Indexed validate { w with drawn := drawn, seen := seen } :=
  { h with
    drawn := fun row hrow => hdrawn row.id (h.drawn row hrow)
    data := by
      intro row hrow
      rcases h.data row hrow with hsome | hbytes | ⟨hidle, past, hpast, hlate⟩
      · exact .inl hsome
      · exact .inr (.inl hbytes)
      · exact .inr (.inr ⟨hidle, past, hseen past hpast, hlate⟩) }

theorem Indexed.save (hidle : w.busy row.id = false) (hdrawn : row.id ∈ w.drawn)
    (hdata : row.completed.isSome ∨ (w.bytes row.id).isSome) (hvalid : validate row.workspaceId row.path = true) :
    Indexed validate (w.withDisk (w.disk.save row)) where
  drawn := forall_mem_set hdrawn h.drawn
  parts := by
    intro part hpart
    obtain ⟨x, hx, hid⟩ := h.parts part hpart
    by_cases heq : x.id = row.id
    · exact ⟨row, Table.mem_set.mpr (.inl rfl), heq.symm.trans hid⟩
    · exact ⟨x, Table.mem_set.mpr (.inr ⟨hx, heq⟩), hid⟩
  data := forall_mem_set (hdata.elim .inl (fun hbytes => .inr (.inl hbytes))) h.data
  valid := forall_mem_set hvalid h.valid
  tasks := by
    intro task htask
    obtain ⟨x, hx, heq⟩ := h.tasks task htask
    refine ⟨x, Table.mem_set.mpr (.inr ⟨hx, fun hid => ?_⟩), heq⟩
    refine busy_eq_false.mp hidle task htask (Eq.trans ?_ hid)
    change task.row.id = x.id
    rw [heq]

theorem Indexed.removeData (hdone : ∀ row ∈ w.disk.rows, row.id = id → row.completed.isSome) :
    Indexed validate (w.withDisk (w.disk.removeData id)) :=
  { h with
    parts := fun part hpart => h.parts part (mem_delete.mp hpart).1
    data := by
      intro row hrow
      by_cases hid : row.id = id
      · exact .inl (hdone row hrow hid)
      · rw [bytes_removeData_of_ne w w.disk hid]
        exact h.data row hrow }

theorem Indexed.removeBoth (hidle : w.busy id = false) :
    Indexed validate (w.withDisk ((w.disk.removeData id).removeMetadata id)) where
  drawn := fun row hrow => h.drawn row (mem_delete.mp hrow).1
  parts := by
    intro part hpart
    obtain ⟨hold, hne⟩ := mem_delete.mp hpart
    obtain ⟨row, hrow, hid⟩ := h.parts part hold
    exact ⟨row, mem_delete.mpr ⟨hrow, fun heq => hne (hid.symm.trans heq)⟩, hid⟩
  data := by
    intro row hrow
    obtain ⟨hold, hne⟩ := mem_delete.mp hrow
    change _ ∨ ((w.withDisk (w.disk.removeData id)).bytes row.id).isSome ∨ _
    rw [bytes_removeData_of_ne w w.disk hne]
    exact h.data row hold
  valid := fun row hrow => h.valid row (mem_delete.mp hrow).1
  tasks := by
    intro task htask
    obtain ⟨row, hrow, heq⟩ := h.tasks task htask
    refine ⟨row, mem_delete.mpr ⟨hrow, fun hid => ?_⟩, heq⟩
    refine busy_eq_false.mp hidle task htask (Eq.trans ?_ hid)
    change task.row.id = row.id
    rw [heq]

theorem Indexed.move {phase : Phase} (htask : task ∈ w.tasks) (hrows : disk.rows = w.disk.rows)
    (hparts : ∀ id, (∃ part ∈ disk.parts, part.id = id) ↔ ∃ part ∈ w.disk.parts, part.id = id) :
    Indexed validate ((w.withDisk disk).withPhase task phase) where
  drawn := fun row hrow => h.drawn row (hrows ▸ hrow)
  parts := by
    intro part hpart
    obtain ⟨old, hold, hid⟩ := (hparts part.id).mp ⟨part, hpart, rfl⟩
    obtain ⟨row, hrow, hrid⟩ := h.parts old hold
    exact ⟨row, hrows.symm ▸ hrow, hrid.trans hid⟩
  data := by
    intro row hrow
    rcases h.data row (hrows ▸ hrow) with hsome | hbytes | ⟨hidle, hpast⟩
    · exact .inl hsome
    · exact .inr (.inl (bytes_isSome.mpr ((hparts row.id).mpr (bytes_isSome.mp hbytes))))
    · refine .inr (.inr ⟨busy_eq_false.mpr (fun x hx => ?_), hpast⟩)
      rcases Table.mem_set.mp hx with rfl | ⟨hx, -⟩
      · exact busy_eq_false.mp hidle task htask
      · exact busy_eq_false.mp hidle x hx
  valid := fun row hrow => h.valid row (hrows ▸ hrow)
  tasks := by
    intro x hx
    have hold : ∃ y ∈ w.tasks, y.row = x.row := by
      rcases Table.mem_set.mp hx with rfl | ⟨hx, -⟩
      · exact ⟨task, htask, rfl⟩
      · exact ⟨x, hx, rfl⟩
    obtain ⟨y, hy, hyx⟩ := hold
    obtain ⟨row, hrow, heq⟩ := h.tasks y hy
    exact ⟨row, hrows.symm ▸ hrow, hyx ▸ heq⟩

theorem Indexed.phase {phase : Phase} (htask : task ∈ w.tasks) : Indexed validate (w.withPhase task phase) :=
  h.move htask rfl (fun _ => Iff.rfl)

theorem Indexed.write {phase : Phase} {bytes : Bytes} (htask : task ∈ w.tasks) :
    Indexed validate (w.write task bytes phase) := by
  refine h.move htask rfl (fun id => ?_)
  have hnew : (∃ part ∈ (w.withDisk (w.disk.setBytes task.id bytes)).disk.parts, part.id = id) ↔
      ((w.withDisk (w.disk.setBytes task.id bytes)).bytes id).isSome := bytes_isSome.symm
  refine hnew.trans ?_
  rw [← bytes_isSome, bytes_setBytes]
  split
  · rw [Option.isSome_map]
  · exact Iff.rfl

theorem Indexed.begin {workspaceId : String} {phase : Phase}
    (hget : w.disk.get validate workspaceId id = .ok row) : Indexed validate { w with tasks := w.tasks.set ⟨row, phase⟩ } := by
  obtain ⟨stored, hstored, rfl, -, hrow⟩ := get_eq_ok hget
  have hmeta : row = { stored with offset := row.offset } := by
    rcases hrow with ⟨-, rfl⟩ | ⟨-, -, part, -, rfl⟩ <;> rfl
  refine ⟨h.drawn, h.parts, ?_, h.valid, ?_⟩
  · intro x hx
    rcases h.data x hx with hsome | hbytes | ⟨hidle, hpast⟩
    · exact .inl hsome
    · exact .inr (.inl hbytes)
    · by_cases hid : x.id = stored.id
      · obtain rfl := eq_of_key hx hstored hid
        rcases hrow with ⟨hsome, -⟩ | ⟨-, -, part, hpart, -⟩
        · exact .inl hsome
        · obtain ⟨hmem, hkey⟩ := find?_eq_some.mp hpart
          exact .inr (.inl (bytes_isSome.mpr ⟨part, hmem, hkey⟩))
      · refine .inr (.inr ⟨busy_eq_false.mpr (fun y hy => ?_), hpast⟩)
        rcases Table.mem_set.mp hy with rfl | ⟨hy, -⟩
        · intro heq
          apply hid
          rw [← heq]
          change row.id = stored.id
          rw [hmeta]
        · exact busy_eq_false.mp hidle y hy
  · exact forall_mem_set ⟨stored, hstored, hmeta⟩ h.tasks

theorem Indexed.create {input : UploadInput} {workspaceId : String} (hfresh : id ∉ w.drawn)
    (hvalid : validate workspaceId input.path = true) :
    Indexed validate { w with disk := (w.disk.addPart id).save (input.row id workspaceId now), drawn := id :: w.drawn } := by
  have hidle : ∀ task ∈ w.tasks, task.id ≠ id := by
    rintro task htask rfl
    obtain ⟨row, hrow, heq⟩ := h.tasks task htask
    apply hfresh
    have hid : task.id = row.id := by
      change task.row.id = row.id
      rw [heq]
    exact hid ▸ h.drawn row hrow
  have hnew : ∀ row ∈ w.disk.rows, row.id ≠ id := by
    rintro row hrow rfl
    exact hfresh (h.drawn row hrow)
  have hpart : (⟨id, []⟩ : Part) ∈ (w.disk.addPart id).parts := by
    refine mem_insertOrIgnore.mpr (.inr ⟨rfl, ?_⟩)
    refine Table.find?_eq_none.mpr (fun part hpart hid => ?_)
    obtain ⟨row, hrow, hrid⟩ := h.parts part hpart
    exact hnew row hrow (hrid.trans hid)
  refine ⟨?_, ?_, ?_, ?_, ?_⟩
  · intro row hrow
    rcases Table.mem_set.mp hrow with rfl | ⟨hold, -⟩
    · exact mem_cons_self
    · exact mem_cons_of_mem _ (h.drawn row hold)
  · intro part hpart
    rcases mem_insertOrIgnore.mp hpart with hold | ⟨rfl, -⟩
    · obtain ⟨row, hrow, hid⟩ := h.parts part hold
      exact ⟨row, Table.mem_set.mpr (.inr ⟨hrow, hnew row hrow⟩), hid⟩
    · exact ⟨_, Table.mem_set.mpr (.inl rfl), rfl⟩
  · intro row hrow
    rcases Table.mem_set.mp hrow with rfl | ⟨hold, -⟩
    · exact .inr (.inl (bytes_isSome.mpr ⟨_, hpart, rfl⟩))
    · rcases h.data row hold with hsome | hbytes | hidle
      · exact .inl hsome
      · obtain ⟨part, hpart, hid⟩ := bytes_isSome.mp hbytes
        exact .inr (.inl (bytes_isSome.mpr ⟨part, mem_insertOrIgnore.mpr (.inl hpart), hid⟩))
      · exact .inr (.inr hidle)
  · exact forall_mem_set hvalid h.valid
  · intro task htask
    obtain ⟨row, hrow, heq⟩ := h.tasks task htask
    exact ⟨row, Table.mem_set.mpr (.inr ⟨hrow, hnew row hrow⟩), heq⟩

end

theorem createWrites_take {input : UploadInput} {workspaceId : String} {k : ℕ}
    (hwhole : (w.createWrites validate now id workspaceId input).length ≤ k ∨ k ≠ (w.disk.cleanupWrites now w.busy).length + 1) :
    (∃ n, (w.createWrites validate now id workspaceId input).take k = (w.disk.cleanupWrites now w.busy).take n) ∨
      (validate workspaceId input.path = true ∧ (w.createWrites validate now id workspaceId input).take k =
        w.disk.cleanupWrites now w.busy ++ [(·.addPart id), (·.save (input.row id workspaceId now))]) := by
  unfold World.createWrites at hwhole ⊢
  split
  · exact .inl ⟨0, take_nil⟩
  · rename_i haccepted
    split
    · exact .inl ⟨k, by rw [append_nil]⟩
    · rename_i hroom
      rw [if_neg haccepted, if_neg hroom, length_append] at hwhole
      by_cases hk : k ≤ (w.disk.cleanupWrites now w.busy).length
      · exact .inl ⟨k, take_append_of_le_length hk⟩
      · refine .inr ⟨by simpa using fun hbad => haccepted (.inr (.inr hbad)), take_of_length_le ?_⟩
        rw [length_append]
        simp only [length_cons, length_nil] at hwhole ⊢
        omega

theorem Indexed.created {input : UploadInput} {workspaceId : String} {k : ℕ} (h : Indexed validate w) (hfresh : id ∉ w.drawn)
    (hwhole : (w.createWrites validate now id workspaceId input).length ≤ k ∨ k ≠ (w.disk.cleanupWrites now w.busy).length + 1) :
    Indexed validate { w with
      disk := applyAll ((w.createWrites validate now id workspaceId input).take k) w.disk
      drawn := id :: w.drawn
      seen := now :: w.seen } := by
  have hseen : Indexed validate { w with seen := now :: w.seen } :=
    h.recorded (fun _ hid => hid) (fun _ hpast => mem_cons_of_mem _ hpast)
  rcases createWrites_take hwhole with ⟨n, heq⟩ | ⟨hvalid, heq⟩
  · rw [heq]
    have hswept : Indexed validate { w with
        disk := applyAll ((w.disk.cleanupWrites now w.busy).take n) w.disk, seen := now :: w.seen } :=
      hseen.swept mem_cons_self (swept_take n)
    exact hswept.recorded (fun _ hid => mem_cons_of_mem _ hid) (fun _ hpast => hpast)
  · rw [heq, applyAll_append]
    have hswept : Indexed validate { w with disk := w.disk.cleanup now w.busy, seen := now :: w.seen } :=
      hseen.swept mem_cons_self swept_cleanup
    exact hswept.create hfresh hvalid

theorem Indexed.cancelled {workspaceId : String} {k : ℕ} (h : Indexed validate w)
    (hwhole : (w.cancelWrites validate workspaceId id).length ≤ k ∨ k ≠ 1) :
    Indexed validate (w.withDisk (applyAll ((w.cancelWrites validate workspaceId id).take k) w.disk)) := by
  unfold World.cancelWrites at hwhole ⊢
  split
  · rw [take_nil]
    exact h
  · rename_i hbusy
    have hidle : w.busy id = false := by simpa using hbusy
    rw [if_neg hbusy] at hwhole
    cases hget : w.disk.get validate workspaceId id with
    | error =>
      simp only [take_nil]
      exact h
    | ok =>
      simp only [hget] at hwhole
      match k with
      | 0 => exact h
      | 1 => simp at hwhole
      | k + 2 =>
        dsimp only
        rw [take_succ_cons, take_succ_cons, take_nil]
        exact h.removeBoth hidle

theorem Indexed.called {call : Call} {k : ℕ} (h : Indexed validate w) (hfresh : ∀ id ∈ call.drawn, id ∉ w.drawn)
    (hwhole : w.whole validate call k) : Indexed validate (w.after call ((w.writes validate call).take k)) := by
  cases call with
  | create _ id => exact h.created (hfresh id mem_cons_self) hwhole
  | list now workspaceId =>
    have hseen : Indexed validate { w with seen := now :: w.seen } :=
      h.recorded (fun _ hid => hid) (fun _ hpast => mem_cons_of_mem _ hpast)
    have hwrites : ∃ n, (w.writes validate (.list now workspaceId)).take k = (w.disk.cleanupWrites now w.busy).take n := by
      dsimp only [World.writes]
      split
      · exact ⟨k, rfl⟩
      · exact ⟨0, take_nil⟩
    obtain ⟨n, heq⟩ := hwrites
    rw [heq]
    exact hseen.swept mem_cons_self (swept_take n)
  | cancel => exact h.cancelled hwhole
  | cleanup now =>
    have hseen : Indexed validate { w with seen := now :: w.seen } :=
      h.recorded (fun _ hid => hid) (fun _ hpast => mem_cons_of_mem _ hpast)
    exact hseen.swept mem_cons_self (swept_take k)

theorem release_idle (w : World) (task : Task) : (w.release task).busy task.id = false :=
  busy_eq_false.mpr (fun _ hx => (mem_delete.mp hx).2)

theorem Indexed.saves {offset : ℕ} {completed : Option WorkspaceEntry} (h : Indexed validate w) (htask : task ∈ w.tasks)
    (hcompleted : completed.isSome ∨ completed = task.row.completed) :
    Indexed validate ((w.withDisk (w.disk.save
      { task.row with offset := offset, updatedAt := now, completed := completed })).release task) := by
  obtain ⟨row, hrow, heq⟩ := h.tasks task htask
  have hid : row.id = task.id := by
    change row.id = task.row.id
    rw [heq]
  refine (h.release task).save (release_idle w task) ?_ ?_ ?_
  · change task.id ∈ w.drawn
    exact hid ▸ h.drawn row hrow
  · rcases hcompleted with hsome | rfl
    · exact .inl hsome
    · rcases h.data row hrow with hsome | hbytes | ⟨hidle, -⟩
      · rw [heq]
        exact .inl hsome
      · refine .inr ?_
        change (w.bytes task.id).isSome
        exact hid ▸ hbytes
      · exact absurd hid.symm (busy_eq_false.mp hidle task htask)
  · rw [heq]
    exact h.valid row hrow

theorem Indexed.receipted {entry : WorkspaceEntry} {k : ℕ} (h : Indexed validate w) (htask : task ∈ w.tasks)
    (hwhole : keepReceipts = true ∨ k ≠ 1) :
    Indexed validate ((w.withDisk (applyAll ((receiptWrites keepReceipts task.row entry now).take k) w.disk)).release task) := by
  have hsaved : Indexed validate ((w.withDisk (w.disk.save
      { task.row with completed := some entry, updatedAt := now })).release task) :=
    h.saves htask (.inl rfl)
  cases keepReceipts with
  | true =>
    match k with
    | 0 => exact h.release task
    | 1 => exact hsaved
    | k + 2 =>
      dsimp only [receiptWrites]
      rw [if_pos rfl, take_succ_cons, take_succ_cons, take_nil]
      refine hsaved.removeData (fun row hrow hid => ?_)
      rcases Table.mem_set.mp hrow with rfl | ⟨-, hne⟩
      · rfl
      · exact absurd hid hne
  | false =>
    match k with
    | 0 => exact h.release task
    | 1 => simp at hwhole
    | k + 2 =>
      dsimp only [receiptWrites]
      rw [if_neg Bool.false_ne_true, take_succ_cons, take_succ_cons, take_nil]
      exact (h.release task).removeBoth (release_idle w task)

theorem Indexed.step (h : Indexed validate w) (hstep : WholeStep validate keepReceipts w e t) : Indexed validate t := by
  obtain ⟨hstep, hwhole⟩ := hstep
  cases hstep with
  | call _ _ hfresh => exact h.called hfresh hwhole
  | callDies _ _ hfresh => exact (h.called hfresh hwhole).dead
  | died => exact h.dead
  | startAppend _ _ _ _ _ hget | startFinish _ _ _ _ hget => exact h.begin hget
  | opened _ htask | chunk _ htask | sourceFails _ htask | sourceEnds _ htask | synced _ htask | syncFails _ htask
  | truncateFails _ htask | read _ htask => exact h.phase htask
  | openFails task | closed task | closeOrSaveFails task | commitFails task | commitFailsLate task => exact h.release task
  | wrote _ htask | writeFails _ htask | truncated _ htask => exact h.write htask
  | saved _ htask => exact h.saves htask (.inr rfl)
  | published _ htask => exact h.move htask rfl (fun _ => Iff.rfl)
  | finished task htask entry now =>
    have hended : Indexed validate ((w.withDisk (applyAll ((receiptWrites keepReceipts task.row entry now).take 2) w.disk)).release task) :=
      h.receipted htask (.inr (by decide))
    have hlength : (receiptWrites keepReceipts task.row entry now).length = 2 := by
      cases keepReceipts <;> rfl
    rw [take_of_length_le hlength.le] at hended
    exact hended
  | finishFails _ htask => exact h.receipted htask hwhole
  | finishDies _ htask => exact (h.receipted htask hwhole).dead

/-- What the index of the uploads answers, and that the limit of parts is not used up for good. -/
structure Surviving (validate : String → String → Bool) (w : World) : Prop where
  lists : ∀ now workspaceId, (∀ past ∈ w.seen, past ≤ now) → validate workspaceId "" = true →
    ∃ sessions, w.list validate now workspaceId = .ok sessions ∧
      ∀ row ∈ w.disk.rows, row.workspaceId = workspaceId → row.completed = none → Disk.expired now w.busy row = false →
        ∃ b, w.bytes row.id = some b ∧ { row with offset := b.length } ∈ sessions
  parts : ∀ part ∈ w.disk.parts, ∃ row ∈ w.disk.rows, row.id = part.id ∧
    ∀ now, Disk.expired now w.busy row = true → part ∉ (w.disk.cleanup now w.busy).parts
  creates : ∀ now workspaceId input, w.tasks = .empty → (∀ row ∈ w.disk.rows, lifetime < now - row.updatedAt) →
    input.accepted = true → input.size ≤ maxUploadBytes → validate workspaceId input.path = true →
    w.creates validate now workspaceId input = true

theorem mapM_ok {α β : Type} {f : α → Except String β} {xs : List α} (h : ∀ x ∈ xs, ∃ y, f x = .ok y) :
    ∃ ys, xs.mapM f = .ok ys ∧ ∀ x ∈ xs, ∀ y, f x = .ok y → y ∈ ys := by
  induction xs with
  | nil => exact ⟨[], rfl, fun x hx => by cases hx⟩
  | cons x _ ih =>
    obtain ⟨y, hy⟩ := h x mem_cons_self
    obtain ⟨ys, hys, hall⟩ := ih (fun z hz => h z (mem_cons_of_mem x hz))
    refine ⟨y :: ys, ?_, ?_⟩
    · rw [mapM_cons, hy, hys]
      rfl
    · intro z hz a ha
      rcases mem_cons.mp hz with rfl | hz
      · obtain rfl := Except.ok.inj (hy.symm.trans ha)
        exact mem_cons_self
      · exact mem_cons_of_mem y (hall z hz a ha)

theorem Indexed.bytes_of_live (h : Indexed validate w) (hclock : ∀ past ∈ w.seen, past ≤ now) (hrow : row ∈ w.disk.rows)
    (hunfinished : row.completed = none) (hlive : Disk.expired now w.busy row = false) :
    ∃ part ∈ w.disk.parts, part.id = row.id := by
  rcases h.data row hrow with hsome | hbytes | ⟨hidle, past, hpast, hlate⟩
  · rw [hunfinished] at hsome
    cases hsome
  · exact bytes_isSome.mp hbytes
  · have hexpired : Disk.expired now w.busy row = true := by
      have hnow := hclock past hpast
      refine decide_eq_true ⟨lt_of_lt_of_le hlate (Int.sub_le_sub_right hnow row.updatedAt), ?_⟩
      rw [hidle]
      exact Bool.false_ne_true
    rw [hexpired] at hlive
    cases hlive

theorem get_of_live {workspaceId : String} {part : Part} (hrow : row ∈ disk.rows) (hworkspace : row.workspaceId = workspaceId)
    (hunfinished : row.completed = none) (hvalid : validate workspaceId row.path = true) (hpart : part ∈ disk.parts)
    (hid : part.id = row.id) : disk.get validate workspaceId row.id = .ok { row with offset := part.bytes.length } := by
  have hfind : disk.rows.find? row.id = some row := find?_of_mem hrow
  have hdata : disk.parts.find? row.id = some part := find?_eq_some.mpr ⟨hpart, hid⟩
  unfold Disk.get
  simp [hfind, hworkspace, hunfinished, hvalid, hdata]
  rfl

theorem Indexed.lists {workspaceId : String} (h : Indexed validate w) (hclock : ∀ past ∈ w.seen, past ≤ now)
    (hvalid : validate workspaceId "" = true) :
    ∃ sessions, w.list validate now workspaceId = .ok sessions ∧
      ∀ row ∈ w.disk.rows, row.workspaceId = workspaceId → row.completed = none → Disk.expired now w.busy row = false →
        ∃ b, w.bytes row.id = some b ∧ { row with offset := b.length } ∈ sessions := by
  have hswept : Swept now w.busy w.disk (w.disk.cleanup now w.busy) := swept_cleanup
  have hget : ∀ row ∈ w.disk.rows, row.workspaceId = workspaceId → row.completed = none → Disk.expired now w.busy row = false →
      ∃ b, w.bytes row.id = some b ∧
        (w.disk.cleanup now w.busy).get validate workspaceId row.id = .ok { row with offset := b.length } := by
    intro row hrow hworkspace hunfinished hlive
    obtain ⟨part, hpart, hid⟩ := h.bytes_of_live hclock hrow hunfinished hlive
    obtain ⟨hkept, hparts⟩ := hswept.kept row hrow hlive
    refine ⟨part.bytes, bytes_eq_some.mpr ⟨part, hpart, hid, rfl⟩, ?_⟩
    exact get_of_live hkept hworkspace hunfinished (hworkspace ▸ h.valid row hrow) (hparts part hpart hid) hid
  have hlisted : ∀ row ∈ (w.disk.cleanup now w.busy).rows.rows.filter (fun row => row.workspaceId = workspaceId ∧ row.completed = none),
      row ∈ w.disk.rows ∧ row.workspaceId = workspaceId ∧ row.completed = none ∧ Disk.expired now w.busy row = false := by
    intro row hrow
    obtain ⟨hmem, hboth⟩ := mem_filter.mp hrow
    have hboth := of_decide_eq_true hboth
    refine ⟨hswept.rows row hmem, hboth.1, hboth.2, ?_⟩
    by_contra hexpired
    exact (cleanup_removes (hswept.rows row hmem) (by simpa using hexpired)).1 row hmem rfl
  have hall : ∀ row ∈ (w.disk.cleanup now w.busy).rows.rows.filter (fun row => row.workspaceId = workspaceId ∧ row.completed = none),
      ∃ session, (w.disk.cleanup now w.busy).get validate workspaceId row.id = .ok session := by
    intro row hrow
    obtain ⟨hold, hworkspace, hunfinished, hlive⟩ := hlisted row hrow
    obtain ⟨b, -, hok⟩ := hget row hold hworkspace hunfinished hlive
    exact ⟨_, hok⟩
  obtain ⟨sessions, hsessions, hmem⟩ := mapM_ok hall
  refine ⟨sessions, ?_, ?_⟩
  · unfold World.list
    rw [if_pos hvalid]
    exact hsessions
  · intro row hrow hworkspace hunfinished hlive
    obtain ⟨b, hb, hok⟩ := hget row hrow hworkspace hunfinished hlive
    refine ⟨b, hb, hmem row (mem_filter.mpr ⟨(hswept.kept row hrow hlive).1, ?_⟩) _ hok⟩
    exact decide_eq_true ⟨hworkspace, hunfinished⟩

theorem Indexed.surviving (h : Indexed validate w) : Surviving validate w where
  lists := fun _ _ hclock hvalid => h.lists hclock hvalid
  parts := by
    intro part hpart
    obtain ⟨row, hrow, hid⟩ := h.parts part hpart
    exact ⟨row, hrow, hid, fun now hexpired hkept => (cleanup_removes hrow hexpired).2 part hkept hid.symm⟩
  creates := by
    intro now _ _ htasks hlate haccepted hsize hvalid
    have hnone : (w.disk.cleanup now w.busy).parts.rows = [] := by
      refine eq_nil_iff_forall_not_mem.mpr (fun part hpart => ?_)
      have hswept : Swept now w.busy w.disk (w.disk.cleanup now w.busy) := swept_cleanup
      obtain ⟨row, hrow, hid⟩ := h.parts part (hswept.parts part hpart)
      have hidle : w.busy row.id = false := by
        rw [busy_eq_false, htasks]
        exact forall_mem_empty
      have hexpired : Disk.expired now w.busy row = true := by
        refine decide_eq_true ⟨hlate row hrow, ?_⟩
        rw [hidle]
        exact Bool.false_ne_true
      exact (cleanup_removes hrow hexpired).2 part hpart hid.symm
    refine decide_eq_true ⟨haccepted, hsize, hvalid, ?_⟩
    rw [hnone]
    decide

/-- In every run whose steps leave no upload with one of its two files, the index answers for all
unfinished uploads, and every part is removed in the end. -/
theorem upload_index_survives (validate : String → String → Bool) (keepReceipts : Bool) (es : List Event) (w : World)
    (h : Execution (WholeStep validate keepReceipts) .start es w) : Surviving validate w := by
  refine (h.invariant (I := Indexed validate) ?_ (fun _ _ _ hs hstep => hs.step hstep)).surviving
  exact ⟨forall_mem_empty, forall_mem_empty,
    forall_mem_empty, forall_mem_empty,
    forall_mem_empty⟩

namespace CancelExample

def first : UUID := ⟨"00000000-0000-4000-8000-000000000011", rfl⟩

def second : UUID := ⟨"00000000-0000-4000-8000-000000000012", rfl⟩

def anywhere (_ _ : String) : Bool := true

def creation (id : UUID) : Call := .create 0 id "w" ⟨"report.txt", "report.txt", 2, 0, false⟩

def created : World := World.start.after (creation first) ((World.start.writes anywhere (creation first)).take 2)

def both : World := created.after (creation second) ((created.writes anywhere (creation second)).take 2)

theorem created_both : Execution (WholeStep anywhere true) .start [.called (creation first) 2, .called (creation second) 2] both := by
  have h : Execution (WholeStep anywhere true) .start [.called (creation first) 2] created :=
    .single ⟨.call (creation first) 2 (by simp [World.start]), .inl (by decide)⟩
  exact h.step ⟨.call (creation second) 2 (by decide), .inl (by decide)⟩

theorem both_survive : Surviving anywhere both := upload_index_survives anywhere true _ _ created_both

/-- The process dies in a `cancel` of the first upload, and no upload is listed any more. -/
theorem cancel_hides : ¬ ∀ validate keepReceipts es w, Execution (Step validate keepReceipts) .start es w →
    Surviving validate w := by
  intro hall
  have h : Execution (Step anywhere true) .start _ both := created_both.mono (fun _ _ _ h => h.1)
  have h : Execution (Step anywhere true) .start _ (both.after (.cancel "w" first)
      ((both.writes anywhere (.cancel "w" first)).take 1)).dead :=
    h.step (.callDies (.cancel "w" first) 1 (fun id hid => by cases hid))
  obtain ⟨_, hsessions, -⟩ := (hall anywhere true _ _ h).lists 0 "w" (by decide) rfl
  have hthrows : (((both.after (.cancel "w" first) ((both.writes anywhere (.cancel "w" first)).take 1)).dead.list anywhere 0 "w").map
      List.length) = .error "ENOENT" := by decide
  rw [hsessions] at hthrows
  cases hthrows

end CancelExample

end WorkAgent.Harness.Uploads
