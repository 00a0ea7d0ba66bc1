import WorkAgent.SkillRuntime.Store

namespace WorkAgent.SkillRuntime

open Library Script Function

variable {Tree : Type} {lower : Char → Char} {w t : World Tree} {op : Op Tree} {r row : Entry Tree} {c d : Call Tree}
  {log : List (Call Tree × Bool)} {answer : Option Answer} {directory bin name : String} {died : Prop}

def Entry.content (r : Entry Tree) : Node Tree :=
  match r.package with
  | some tree => .package tree
  | none => .link r.referenceDirectory

structure Housed (w : World Tree) : Prop where
  holds : ∀ r ∈ w.rows, w.node r.path.directory r.path.bundle = some r.content
  apart : ∀ r ∈ w.rows, ∀ r' ∈ w.rows, fold r.path.directory = fold r'.path.directory → r = r'

def Op.Concerns : Op Tree → Entry Tree → Prop
  | .install input, r => r.id = input.id
  | .installMarket _ _ input, r | .installManaged _ _ input, r => r.id = input.id ∨ sameName r.name (trimSpace input.name)
  | .reference input, r => r.id = input.id
  | .setEnabled id _, r | .revokeMarket id _ _, r | .remove id _, r => r.id = id

structure Lawful (op : Op Tree) (w : World Tree) (answer : Option Answer) (w' : World Tree) : Prop where
  housed : Housed w'
  kept : answer = some .failed → w' = w
  others : ∀ r ∈ w.rows, ¬ op.Concerns r → r ∈ w'.rows ∧ w'.disk (fold r.path.directory) = w.disk (fold r.path.directory)
  disabled : ∀ id ∈ w.revoked, (∀ r ∈ w.rows, r.id = id → r.enabled = false) →
    id ∈ w'.revoked ∧ ∀ r ∈ w'.rows, r.id = id → r.enabled = false

def Call.Alters (w : World Tree) : Call Tree → Prop
  | .insert _ | .replace _ _ | .delete _ | .unlink _ _ | .link _ _ _ | .upsert _ => True
  | .enable id enabled => ∃ r ∈ w.rows, r.id = id ∧ r.enabled ≠ enabled
  | .revoke id => id ∉ w.revoked
  | .makeDirectory directory => w.disk (fold directory) = none
  | .native path => path ∉ w.native
  | _ => False

def Call.Settles : Call Tree → Prop
  | .replace _ _ | .delete _ | .restore _ _ => True
  | _ => False

def Op.Enables (w : World Tree) : Op Tree → String → Prop
  | .install input, id | .installManaged _ _ input, id => input.id = id ∧ input.enabled = true
  | .reference input, id => input.id = id ∧ input.enabled = true ∧ ∀ r ∈ w.rows, r.id ≠ id
  | _, _ => False

/-- The condition on an operation, on which of its steps fail and on where the process dies. -/
structure Careful (lower : Char → Char) (w : World Tree) (op : Op Tree) (log : List (Call Tree × Bool)) (died : Prop) : Prop where
  restored : ∀ bin directory, (Call.restore bin directory, false) ∉ log
  discarded : ∀ directory, (Call.discard directory, false) ∉ log
  whole : ∀ c, (c, false) ∈ log → ∀ d, (d, true) ∈ log → ¬ d.Alters w
  archived : died → ∀ directory bin, (Call.archive directory bin, true) ∈ log → ∃ c, c.Settles ∧ (c, true) ∈ log
  linked : died → ∀ directory name, (Call.unlink directory name, true) ∈ log →
    (∀ r ∈ w.rows, r.id ≠ directory) ∨ ∃ row, (Call.upsert row, true) ∈ log
  separate : ∀ input, op = .reference input → ∀ r ∈ w.rows, r.id ≠ input.id → fold r.path.directory ≠ fold input.id
  bundle : ∀ input, op = .reference input → ∀ r ∈ w.rows, r.id = input.id →
    r.path.bundle = safeSegment lower input.name ∨ input.directory = some r.referenceDirectory
  revoked : ∀ id ∈ w.revoked, ¬ op.Enables w id

def CarefulStep (lower : Char → Char) (w : World Tree) (e : Event Tree) (w' : World Tree) : Prop :=
  Step lower w e w' ∧ Careful lower w e.op (e.outcome lower w).log ((e.outcome lower w).answer = none)

structure Sound (w : World Tree) : Prop where
  housed : Housed w
  plain : ∀ r ∈ w.rows, r.package.isSome → r.referenceDirectory = ""
  home : ∀ r ∈ w.rows, r.package = none → r.path.directory = r.id

def Fair (lower : Char → Char) (w : World Tree) (op : Op Tree) (log : List (Call Tree × Bool)) (answer : Option Answer) (t : World Tree) : Prop :=
  Careful lower w op log (answer = none) → Sound t ∧ Lawful op w answer t

section Worlds

theorem disk_withDisk_ne {x : Option (Directory Tree)} {other : String} (h : fold other ≠ fold directory) :
    (w.withDisk directory x).disk (fold other) = w.disk (fold other) := by
  rw [World.disk_withDisk, update_of_ne h]

theorem withDisk_back {x : Option (Directory Tree)} (h : w.disk (fold directory) = none) :
    (w.withDisk directory x).withDisk directory none = w := by
  have hdisk : update (update w.disk (fold directory) x) (fold directory) none = w.disk := by
    rw [update_idem, ← h, update_eq_self]
  refine World.ext ?_ ?_ ?_ ?_ ?_
  all_goals simp [hdisk]

end Worlds

section Laws

theorem Sound.occupied (h : Sound w) (hr : r ∈ w.rows) : ∃ d, w.disk (fold r.path.directory) = some d := by
  have hholds := h.housed.holds r hr
  unfold World.node at hholds
  obtain ⟨d, hd, -⟩ := Option.bind_eq_some_iff.mp hholds
  exact ⟨d, hd⟩

theorem Sound.free (h : Sound w) (hfree : w.disk (fold directory) = none) (hr : r ∈ w.rows) : fold r.path.directory ≠ fold directory := by
  intro hsame
  obtain ⟨d, hd⟩ := h.occupied hr
  rw [hsame, hfree] at hd
  cases hd

theorem fair_same (h : Sound w) : Fair lower w op log answer w := by
  intro _
  exact ⟨h, h.housed, fun _ => rfl, fun r hr _ => ⟨hr, rfl⟩, fun id hid hoff => ⟨hid, hoff⟩⟩

theorem fair_failed (hfailed : (c, false) ∈ log) (hdone : (d, true) ∈ log) (halters : d.Alters w) : Fair lower w op log answer t :=
  fun hcareful => absurd halters (hcareful.whole c hfailed d hdone)

theorem Sound.rehouse (row : Entry Tree) (h : Sound w) (hrows : ∀ r ∈ t.rows, r = row ∨ (r ∈ w.rows ∧ fold r.path.directory ≠ fold row.path.directory ∧
      t.disk (fold r.path.directory) = w.disk (fold r.path.directory)))
    (hcontent : row ∈ t.rows → t.node row.path.directory row.path.bundle = some row.content)
    (hplain : row.package.isSome → row.referenceDirectory = "") (hhome : row.package = none → row.path.directory = row.id) : Sound t := by
  refine ⟨⟨?_, ?_⟩, ?_, ?_⟩
  · intro r hr
    rcases hrows r hr with rfl | ⟨hold, -, hsame⟩
    · exact hcontent hr
    · rw [World.node, hsame]
      exact h.housed.holds r hold
  · intro r hr r' hr' hsame
    rcases hrows r hr with rfl | ⟨hold, hne, -⟩
    · rcases hrows r' hr' with rfl | ⟨-, hne', -⟩
      · rfl
      · exact absurd hsame.symm hne'
    · rcases hrows r' hr' with rfl | ⟨hold', -, -⟩
      · exact absurd hsame hne
      · exact h.housed.apart r hold r' hold' hsame
  · intro r hr
    rcases hrows r hr with rfl | ⟨hold, -, -⟩
    · exact hplain
    · exact h.plain r hold
  · intro r hr
    rcases hrows r hr with rfl | ⟨hold, -, -⟩
    · exact hhome
    · exact h.home r hold

theorem Sound.fewer (h : Sound w) (hrows : ∀ r ∈ t.rows, r ∈ w.rows ∧ t.disk (fold r.path.directory) = w.disk (fold r.path.directory)) :
    Sound t := by
  refine ⟨⟨?_, ?_⟩, fun r hr => h.plain r (hrows r hr).1, fun r hr => h.home r (hrows r hr).1⟩
  · intro r hr
    rw [World.node, (hrows r hr).2]
    exact h.housed.holds r (hrows r hr).1
  · exact fun r hr r' hr' => h.housed.apart r (hrows r hr).1 r' (hrows r' hr').1

theorem fair_orphan (h : Sound w) {x : Option (Directory Tree)} (hfree : w.disk (fold directory) = none) (hanswer : answer ≠ some .failed) :
    Fair lower w op log answer (w.withDisk directory x) := by
  intro _
  have hsame (r : Entry Tree) (hr : r ∈ w.rows) : (w.withDisk directory x).disk (fold r.path.directory) = w.disk (fold r.path.directory) :=
    disk_withDisk_ne (h.free hfree hr)
  have hrows (r : Entry Tree) : r ∈ (w.withDisk directory x).rows ↔ r ∈ w.rows := by rw [World.rows_withDisk]
  have hsound : Sound (w.withDisk directory x) := h.fewer fun r hr => ⟨(hrows r).mp hr, hsame r ((hrows r).mp hr)⟩
  refine ⟨hsound, hsound.housed, fun hfailed => absurd hfailed hanswer, fun r hr _ => ⟨(hrows r).mpr hr, hsame r hr⟩, ?_⟩
  intro _ hid hoff
  rw [World.revoked_withDisk]
  exact ⟨hid, fun r hr => hoff r ((hrows r).mp hr)⟩

end Laws

section Rows

variable {rows rows' : Table (@Entry.id Tree)}

theorem insertRow_eq (h : insertRow rows row = some rows') : (∀ r ∈ rows, r.id ≠ row.id ∧ ¬ sameName r.name row.name) ∧
    ∀ r, r ∈ rows' ↔ r ∈ rows ∨ r = row := by
  unfold insertRow at h
  split at h
  · rename_i hfits
    obtain ⟨hnone, rfl⟩ := Table.insert?_eq_some.mp h
    refine ⟨fun r hr => ⟨Table.find?_eq_none.mp hnone r hr, (hfits r hr).1⟩, ?_⟩
    intro r
    rw [Table.mem_insertOrIgnore]
    constructor
    · rintro (hr | ⟨rfl, -⟩)
      · exact .inl hr
      · exact .inr rfl
    · rintro (hr | rfl)
      · exact .inl hr
      · exact .inr ⟨rfl, hnone⟩
  · cases h

end Rows

end WorkAgent.SkillRuntime
