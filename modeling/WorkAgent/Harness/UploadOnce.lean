import WorkAgent.Harness.UploadRuns

namespace WorkAgent.Harness.Uploads

open Library Table

variable {validate : String → String → Bool} {keepReceipts : Bool} {w t : World} {e : Event} {es : List Event} {id : UUID}

theorem Intact.start : Intact [] .start where
  drawnRows := forall_mem_empty
  drawnParts := fun _ _ hb => by cases hb
  fresh := fun _ _ => ⟨rfl, rfl⟩
  idle := fun _ _ _ hb => by cases hb
  sized := forall_mem_empty
  completed := forall_mem_empty
  tasks := forall_mem_empty
  once := fun _ => Nat.zero_le 1
  spent := forall_mem_empty

theorem Intact.run {fs : List Event} (h : Intact es w) (hrun : Execution (CarefulStep validate keepReceipts) w fs t) :
    Intact (es ++ fs) t := by
  induction hrun with
  | start =>
    rw [List.append_nil]
    exact h
  | step _ hlast ih =>
    rw [← List.append_assoc]
    exact ih.step hlast

structure Integrity (S : World → Event → World → Prop) (es : List Event) (w : World) : Prop where
  idle : ∀ row ∈ w.disk.rows, w.busy row.id = false → ∀ b, w.bytes row.id = some b → b = contents row.id es
  appending : ∀ task ∈ w.tasks, ∀ b, w.bytes task.id = some b →
    ∃ more, more <+: task.phase.received ∧ b = contents task.id es ++ more
  crash : ∀ left lost cut t, S w (.crashed left lost cut) t →
    ∀ id, left id = [] ∨ ∃ task ∈ w.tasks, task.id = id ∧ left id <+: task.phase.received
  sized : ∀ row ∈ w.disk.rows, ∀ b, w.bytes row.id = some b → b.length ≤ row.size
  failed : ∀ fs t id b b', Execution S w fs t → (∀ e ∈ fs, e.bytesOf id = []) → w.busy id = false → t.busy id = false →
    w.bytes id = some b → t.bytes id = some b' → b' = b
  published : ∀ id file t, S w (.published id file) t →
    file.bytes = contents id es ∧ ∃ row ∈ w.disk.rows, row.id = id ∧ file.bytes.length = row.size
  once : ∀ id, es.countP (Event.publishes id) ≤ 1

theorem contents_append (fs : List Event) : contents id (es ++ fs) = contents id es ++ contents id fs := List.flatMap_append

theorem contents_eq_nil {fs : List Event} (h : ∀ e ∈ fs, e.bytesOf id = []) : contents id fs = [] :=
  List.flatMap_eq_nil_iff.mpr h

section

variable (h : Intact es w)
include h

theorem Intact.left_initial (id : UUID) :
    w.left id = [] ∨ ∃ task ∈ w.tasks, task.id = id ∧ w.left id <+: task.phase.received := by
  cases hbusy : w.busy id with
  | false => exact .inl (left_of_idle hbusy)
  | true =>
    obtain ⟨task, htask, rfl⟩ := busy_eq_true.mp hbusy
    exact .inr ⟨task, htask, rfl, ((h.tasks task htask).left htask).1⟩

theorem Intact.crash {left : UUID → Bytes} {lost : UUID → Bool} {cut : Cut}
    (hstep : Step validate keepReceipts w (.crashed left lost cut) t) (id : UUID) :
    left id = [] ∨ ∃ task ∈ w.tasks, task.id = id ∧ left id <+: task.phase.received := by
  generalize he : Event.crashed left lost cut = e at hstep
  cases hstep with
  | callDies | died | finishDies =>
    obtain ⟨rfl, -⟩ := Event.crashed.inj he
    exact h.left_initial id
  | _ => cases he

theorem Intact.publishes {file : Published} (hstep : Step validate keepReceipts w (.published id file) t) :
    file.bytes = contents id es ∧ ∃ row ∈ w.disk.rows, row.id = id ∧ file.bytes.length = row.size := by
  generalize he : Event.published id file = e at hstep
  cases hstep with
  | published task htask _ _ _ hphase hbytes hend hpath hfree =>
    obtain ⟨rfl, rfl⟩ := Event.published.inj he
    obtain ⟨hcopied, hsize, -⟩ := h.published htask hphase hbytes hend hpath hfree
    obtain ⟨row, hrow, hid⟩ := (h.tasks task htask).exists_row
    refine ⟨hcopied, row, hrow, hid, ?_⟩
    rw [(h.tasks task htask).row_of hrow hid] at hsize
    exact hsize
  | _ => cases he

theorem Intact.bytes_le {row : UploadSession} (hrow : row ∈ w.disk.rows) {b : Bytes} (hb : w.bytes row.id = some b) :
    b.length ≤ row.size := by
  cases hbusy : w.busy row.id with
  | false =>
    rw [h.idle row.id b hbusy hb]
    exact h.sized row hrow
  | true =>
    obtain ⟨task, htask, hid⟩ := busy_eq_true.mp hbusy
    have hrun := h.tasks task htask
    obtain ⟨hinitial, hbytes⟩ := hrun.left htask
    have hfits := hrun.fits
    have hoffset := hrun.offset
    have hlength := hinitial.length_le
    have hsize : task.row.size = row.size := by rw [hrun.row_of hrow hid.symm]
    rw [hbytes b (hid ▸ hb), List.length_append]
    omega

theorem Intact.integrity : Integrity (CarefulStep validate keepReceipts) es w where
  idle := fun row _ hbusy b hb => h.idle row.id b hbusy hb
  appending := by
    intro task htask b hb
    obtain ⟨hinitial, hbytes⟩ := (h.tasks task htask).left htask
    exact ⟨w.left task.id, hinitial, hbytes b hb⟩
  crash := fun _ _ _ _ hstep id => h.crash hstep.1 id
  sized := fun _ hrow _ hb => h.bytes_le hrow hb
  failed := by
    intro fs t id b b' hrun hfs hbusy hbusy' hb hb'
    have hcontents : contents id (es ++ fs) = contents id es := by
      rw [contents_append, contents_eq_nil hfs, List.append_nil]
    rw [h.idle id b hbusy hb, (h.run hrun).idle id b' hbusy' hb', hcontents]
  published := fun _ _ _ hstep => h.publishes hstep.1
  once := h.once

end

/-- In every run of careful steps the uploads keep their bytes, and each publishes one file at most. -/
theorem uploads_keep_integrity (validate : String → String → Bool) (keepReceipts : Bool) (es : List Event) (w : World)
    (h : Execution (CarefulStep validate keepReceipts) .start es w) : Integrity (CarefulStep validate keepReceipts) es w := by
  have hintact : Intact ([] ++ es) w := Intact.start.run h
  exact hintact.integrity

namespace RenameExample

def upload : UUID := ⟨"00000000-0000-4000-8000-000000000010", rfl⟩

def input : UploadInput := ⟨"report.txt", "report.txt", 2, 0, true⟩

def anywhere (_ _ : String) : Bool := true

def row : UploadSession := input.row upload "w" 0

def full : UploadSession := { row with offset := 2, updatedAt := 1 }

def creation : Call := .create 0 upload "w" input

def created : World := World.start.after creation ((World.start.writes anywhere creation).take 2)

def opening : World := { created with tasks := created.tasks.set ⟨row, .opening⟩ }

def streaming : World := opening.withPhase ⟨row, .opening⟩ (.streaming [])

def writing : World := streaming.withPhase ⟨row, .streaming []⟩ (.arrived row [] [104, 105])

def written : World :=
  writing.write ⟨row, .writing [] [104, 105] 0⟩ (overwrite [] (0 + 0 + 0) (([104, 105].drop 0).take 2)) (.afterWrite [] [104, 105] (0 + 2))

def syncing : World := written.withPhase ⟨row, .streaming [104, 105]⟩ (.syncing [104, 105])

def closing : World := syncing.withPhase ⟨row, .syncing [104, 105]⟩ (.closing (some [104, 105]))

def saved : World :=
  (closing.withDisk (closing.disk.save { row with offset := 0 + 2, updatedAt := 1 })).release ⟨row, .closing (some [104, 105])⟩

def committing (w : World) : World := { w with tasks := w.tasks.set ⟨full, .committing []⟩ }

def copied (w : World) : World := (committing w).withPhase ⟨full, .committing []⟩ (.committing ([] ++ ([104, 105].drop 0).take 2))

def linked (path : String) (w : World) : World :=
  ((copied w).withDisk { (copied w).disk with files := (copied w).disk.files ++ [⟨"w", path, [104, 105]⟩] }).withPhase
    ⟨full, .committing [104, 105]⟩ (.published ⟨path, 2⟩)

def appendEvents : List Event := [.called creation 2, .quiet, .quiet, .quiet, .quiet, .quiet, .quiet, .appended upload [104, 105]]

def finishEvents (path : String) : List Event := [.quiet, .quiet, .published upload ⟨"w", path, [104, 105]⟩]

theorem appended : Execution (CarefulStep anywhere true) .start appendEvents saved := by
  have h : Execution (CarefulStep anywhere true) .start [.called creation 2] created :=
    .single ⟨.call creation 2 (by simp [World.start]), trivial⟩
  have h : Execution (CarefulStep anywhere true) .start _ opening := h.step ⟨.startAppend "w" upload 0 row rfl rfl rfl, trivial⟩
  have h : Execution (CarefulStep anywhere true) .start _ streaming :=
    h.step ⟨.opened _ (mem_set.mpr (.inl rfl)) [] rfl rfl, trivial⟩
  have h : Execution (CarefulStep anywhere true) .start _ writing :=
    h.step ⟨.chunk _ (mem_set.mpr (.inl rfl)) [] [104, 105] rfl, trivial⟩
  have h : Execution (CarefulStep anywhere true) .start _ written :=
    h.step ⟨.wrote _ (mem_set.mpr (.inl rfl)) [] [104, 105] [] 0 2 rfl (by decide) rfl, trivial⟩
  have h : Execution (CarefulStep anywhere true) .start _ syncing :=
    h.step ⟨.sourceEnds _ (mem_set.mpr (.inl rfl)) [104, 105] rfl, trivial⟩
  have h : Execution (CarefulStep anywhere true) .start _ closing :=
    h.step ⟨.synced _ (mem_set.mpr (.inl rfl)) [104, 105] rfl, trivial⟩
  exact h.step ⟨.saved ⟨row, .closing (some [104, 105])⟩ (mem_set.mpr (.inl rfl)) [104, 105] 1 rfl, trivial⟩

theorem finishes {w : World} (path : String) (hbusy : w.busy upload = false) (hget : w.disk.get anywhere "w" upload = .ok full)
    (hbytes : w.bytes upload = some [104, 105]) (hfree : ∀ file ∈ w.disk.files, file.path ≠ path) :
    Execution (CarefulStep anywhere true) w (finishEvents path) (linked path w) := by
  have h : Execution (CarefulStep anywhere true) w [.quiet] (committing w) :=
    .single ⟨.startFinish "w" upload full hbusy hget rfl rfl, trivial⟩
  have h : Execution (CarefulStep anywhere true) w _ (copied w) :=
    h.step ⟨.read _ (mem_set.mpr (.inl rfl)) [] [104, 105] 2 rfl hbytes, trivial⟩
  exact h.step ⟨.published ⟨full, .committing [104, 105]⟩ (mem_set.mpr (.inl rfl)) [104, 105] [104, 105] path rfl hbytes (by decide) (.inr rfl)
    (fun file hfile hboth => hfree file hfile hboth.2), trivial⟩

theorem uploaded_once : Integrity (CarefulStep anywhere true) (appendEvents ++ finishEvents "report.txt") (linked "report.txt" saved) :=
  uploads_keep_integrity anywhere true _ _
    (appended.trans (finishes "report.txt" rfl rfl rfl (fun _ hfile => absurd hfile List.not_mem_nil)))

/-- The process dies before the receipt, and the `finish` after the restart publishes a second file. -/
theorem renamed_twice : ¬ ∀ validate keepReceipts es w, Execution (Step validate keepReceipts) .start es w →
    Integrity (Step validate keepReceipts) es w := by
  intro hall
  have h : Execution (Step anywhere true) .start _ (linked "report.txt" saved) :=
    (appended.trans (finishes "report.txt" rfl rfl rfl (fun _ hfile => absurd hfile List.not_mem_nil))).mono (fun _ _ _ h => h.1)
  have h : Execution (Step anywhere true) .start _ (linked "report.txt" saved).dead := h.step .died
  have hfree : ∀ file ∈ (linked "report.txt" saved).dead.disk.files, file.path ≠ "report (1).txt" := by decide
  have hagain := (finishes "report (1).txt" rfl rfl rfl hfree).mono (fun _ _ _ h => h.1)
  have htwice := (hall anywhere true _ _ (h.trans hagain)).once upload
  revert htwice
  decide

end RenameExample

end WorkAgent.Harness.Uploads
