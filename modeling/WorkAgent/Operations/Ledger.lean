import WorkAgent.Library.Executions
import WorkAgent.Library.Layers
import WorkAgent.Operations.Store

namespace WorkAgent.Operations

open Library List Option Table
open Prod (fst)
open Quota (Time)

variable {db db' : Database} {a b : Activation} {c : Component} {v version : String} {id : ℕ} {now : Time}

def Activation.components (a : Activation) : List Component := a.previous.map Prod.fst

def Activation.before (a : Activation) (c : Component) : Option String := (a.previous.lookup c).filter (· ≠ "")

def ledger : Layering Activation Component String ℕ where
  rank := Activation.id
  covers a c := c ∈ a.components
  value := Activation.version
  before := Activation.before

namespace Database

def committed (db : Database) : Set Activation := {a | a ∈ db.activationJournal ∧ a.state = .committed}

theorem mem_running : v ∈ db.running ↔ ∃ c, db.active c = some v := by
  unfold running active
  rw [List.mem_map]
  constructor
  · rintro ⟨r, hr, rfl⟩
    refine ⟨r.component, ?_⟩
    rw [find?_of_mem hr, map_some]
  · rintro ⟨c, hc⟩
    obtain ⟨r, hr, rfl⟩ := map_eq_some_iff.mp hc
    exact ⟨r, (find?_eq_some.mp hr).1, rfl⟩

section Refresh

@[simp] theorem activationJournal_refreshReleaseStates : db.refreshReleaseStates.activationJournal = db.activationJournal := rfl

def refreshed (db : Database) (r : ReleaseRow) : ReleaseState :=
  if r.version ∈ db.running then .active else if r.state = .active then .superseded else r.state

theorem mem_refreshReleaseStates {r : ReleaseRow} :
    r ∈ db.refreshReleaseStates.releases ↔ ∃ r' ∈ db.releases, r = { r' with state := db.refreshed r' } := by
  unfold refreshReleaseStates
  simp only [mem_update]
  constructor
  · rintro ⟨-, ⟨r', hr', rfl⟩, rfl⟩
    refine ⟨r', hr', ?_⟩
    unfold refreshed
    by_cases hrun : r'.version ∈ db.running <;> by_cases hactive : r'.state = .active <;> simp [hrun, hactive, supersede, setActive]
  · rintro ⟨r', hr', rfl⟩
    refine ⟨_, ⟨r', hr', rfl⟩, ?_⟩
    unfold refreshed
    by_cases hrun : r'.version ∈ db.running <;> by_cases hactive : r'.state = .active <;> simp [hrun, hactive, supersede, setActive]

end Refresh

section Activate

theorem find?_activateComponents {components : List Component} :
    ((db.activateComponents version now id components).find? c).map (·.version) =
      if c ∈ components then some version else db.active c := by
  unfold activateComponents active
  generalize db.activeComponents = t
  induction components generalizing t with
  | nil => simp
  | cons d rest ih =>
    rw [foldl_cons, ih, find?_upsert]
    by_cases hrest : c ∈ rest
    · simp [hrest]
    · by_cases hd : d = c
      · subst hd
        cases t.find? d <;> simp
      · have hcd : ¬ c = d := fun h => hd h.symm
        simp [hrest, hd, hcd]

theorem checkActivation_ok {verifies : Bool} {manifest : ReleaseManifest} (h : db.checkActivation version verifies now = .ok manifest) :
    ∃ r ∈ db.releases, r.version = version ∧ r.manifest = manifest := by
  unfold checkActivation status at h
  simp only [bind_eq_ok, orError_eq_ok, require_eq_ok, pure_eq_ok] at h
  obtain ⟨_, ⟨row, hrow, rfl⟩, -, -, -, -, -, -, -, -, -, -, -, -, rfl⟩ := h
  obtain ⟨hmem, rfl⟩ := find?_eq_some.mp hrow
  exact ⟨row, hmem, rfl, rfl⟩

end Activate

section Restore

variable {t u : Table ActiveRow.component} {entries : List (Component × String)}

theorem restore_ok {entry : Component × String} (h : restore a now t entry = .ok u) :
    (t.find? entry.1).map (·.version) = some a.version ∧ ∀ c, (u.find? c).map (·.version) =
      if c = entry.1 then (some entry.2).filter (· ≠ "") else (t.find? c).map (·.version) := by
  unfold restore at h
  simp only [bind_eq_ok, require_eq_ok, pure_eq_ok] at h
  obtain ⟨-, hany, rfl⟩ := h
  obtain ⟨r, hr, hversion⟩ : ∃ r, t.find? entry.1 = some r ∧ r.version = a.version := by
    simpa [Option.any_eq_true] using hany
  refine ⟨by rw [hr, map_some, hversion], ?_⟩
  intro c
  by_cases hempty : entry.2 = ""
  · rw [if_pos hempty, find?_delete]
    by_cases hc : c = entry.1
    · subst hc
      obtain ⟨-, hcomponent⟩ := find?_eq_some.mp hr
      simp [hr, hcomponent, hempty, filter_some]
    · rw [if_neg hc]
      cases hfind : t.find? c with
      | none => rfl
      | some =>
        obtain ⟨-, rfl⟩ := find?_eq_some.mp hfind
        simp [hc, filter_some]
  · rw [if_neg hempty, find?_update]
    by_cases hc : c = entry.1
    · subst hc
      obtain ⟨-, hcomponent⟩ := find?_eq_some.mp hr
      simp [hr, hcomponent, hempty, filter_some]
    · rw [if_neg hc]
      cases hfind : t.find? c with
      | none => rfl
      | some =>
        obtain ⟨-, rfl⟩ := find?_eq_some.mp hfind
        simp [hc]

theorem foldlM_restore (hnodup : (entries.map fst).Nodup) (h : entries.foldlM (restore a now) t = .ok u) :
    (∀ c ∈ entries.map fst, (t.find? c).map (·.version) = some a.version) ∧ ∀ c, (u.find? c).map (·.version) =
      if c ∈ entries.map fst then (entries.lookup c).filter (· ≠ "") else (t.find? c).map (·.version) := by
  induction entries generalizing t with
  | nil =>
    cases h
    simp
  | cons entry rest ih =>
    obtain ⟨d, _⟩ := entry
    rw [foldlM_cons, bind_eq_ok] at h
    obtain ⟨_, hentry, hrest⟩ := h
    rw [map_cons, nodup_cons] at hnodup
    obtain ⟨hnew, hnodup⟩ := hnodup
    obtain ⟨hhead, hstep⟩ := restore_ok hentry
    obtain ⟨htail, hlater⟩ := ih hnodup hrest
    constructor
    · intro c hc
      rw [map_cons, mem_cons] at hc
      rcases hc with rfl | hc
      · exact hhead
      · have hne : c ≠ d := by
          rintro rfl
          exact hnew hc
        rw [← htail c hc, hstep c, if_neg hne]
    · intro c
      rw [hlater c, hstep c]
      simp only [map_cons, mem_cons, lookup_cons]
      by_cases hc : c = d
      · subst hc
        simp [hnew]
      · have hbeq : (c == d) = false := beq_eq_false_iff_ne.mpr hc
        by_cases hmem : c ∈ rest.map fst
        · rw [if_pos hmem, if_pos (.inr hmem), hbeq]
        · rw [if_neg hmem, if_neg hc, if_neg (not_or.mpr ⟨hc, hmem⟩)]

theorem exists_foldlM_restore (hnodup : (entries.map fst).Nodup)
    (h : ∀ c ∈ entries.map fst, (t.find? c).map (·.version) = some a.version) :
    ∃ u, entries.foldlM (restore a now) t = .ok u := by
  induction entries generalizing t with
  | nil => exact ⟨t, rfl⟩
  | cons entry rest ih =>
    rw [map_cons, nodup_cons] at hnodup
    obtain ⟨hnew, hnodup⟩ := hnodup
    obtain ⟨r, hr, hversion⟩ := map_eq_some_iff.mp (h entry.1 (by simp))
    obtain ⟨t', ht'⟩ : ∃ t', restore a now t entry = .ok t' := by
      unfold restore
      simp only [bind_eq_ok, require_eq_ok, pure_eq_ok]
      exact ⟨_, (), by simp [hr, hversion], rfl⟩
    obtain ⟨-, hstep⟩ := restore_ok ht'
    obtain ⟨u, hu⟩ : ∃ u, rest.foldlM (restore a now) t' = .ok u := by
      apply ih hnodup
      intro c hc
      have hne : c ≠ entry.1 := by
        rintro rfl
        exact hnew hc
      rw [hstep c, if_neg hne]
      exact h c (by simp [hc])
    refine ⟨u, ?_⟩
    rw [foldlM_cons, bind_eq_ok]
    exact ⟨t', ht', hu⟩

end Restore

section Sorted

variable {l : List (Component × String)}

theorem perm_sortedPrevious : (sortedPrevious l).Perm l := mergeSort_perm _ _

theorem mem_sortedPrevious : c ∈ (sortedPrevious l).map fst ↔ c ∈ l.map fst := (perm_sortedPrevious.map _).mem_iff

theorem lookup_eq_some (hnodup : (l.map fst).Nodup) {s : String} : l.lookup c = some s ↔ (c, s) ∈ l := by
  induction l with
  | nil => simp
  | cons entry _ ih =>
    obtain ⟨d, old⟩ := entry
    rw [map_cons, nodup_cons] at hnodup
    obtain ⟨hnew, hnodup⟩ := hnodup
    rw [lookup_cons, mem_cons]
    by_cases hc : c = d
    · subst hc
      constructor
      · intro h
        have hs : old = s := by simpa using h
        exact .inl (by rw [← hs])
      · rintro (hhead | hmem)
        · cases hhead
          simp
        · exact absurd (List.mem_map_of_mem hmem) hnew
    · have hne : (c, s) ≠ (d, old) := by
        intro h
        cases h
        exact hc rfl
      have hbeq : (c == d) = false := beq_eq_false_iff_ne.mpr hc
      simp [hbeq, hne, ih hnodup]

theorem lookup_sortedPrevious (hnodup : (l.map fst).Nodup) : (sortedPrevious l).lookup c = l.lookup c := by
  have hsorted : ((sortedPrevious l).map fst).Nodup := (perm_sortedPrevious.map _).nodup_iff.mpr hnodup
  ext s
  rw [lookup_eq_some hsorted, lookup_eq_some hnodup, perm_sortedPrevious.mem_iff]

end Sorted

section Outcomes

structure Activated (db : Database) (a : Activation) (db' : Database) : Prop where
  release : ∃ r ∈ db.releases, r.version = a.version ∧ a.components = r.manifest.includedComponents
  id : a.id = db.lastActivation + 1
  last : db'.lastActivation = db.lastActivation + 1
  state : a.state = .committed
  previous : a.previous = a.components.map fun c => (c, (db.active c).getD "")
  active : ∀ c, db'.active c = if c ∈ a.components then some a.version else db.active c
  journal : ∀ x, x ∈ db'.activationJournal ↔ x = a ∨ x ∈ db.activationJournal
  releases : ∀ r, r ∈ db'.releases ↔ ∃ r' ∈ db.releases, r = { r' with state := db'.refreshed r' }

theorem activate_ok {verifies : Bool} (hids : ∀ x ∈ db.activationJournal, x.id ≤ db.lastActivation)
    (h : db.activate version verifies now = .ok (a, db')) : Activated db a db' := by
  unfold activate at h
  simp only [bind_eq_ok, pure_eq_ok, Prod.mk.injEq] at h
  obtain ⟨_, hcheck, rfl, rfl⟩ := h
  obtain ⟨r, hr, hversion, rfl⟩ := checkActivation_ok hcheck
  have hcomponents : ∀ f : Component → String, (r.manifest.includedComponents.map fun c => (c, f c)).map fst =
      r.manifest.includedComponents := by
    intro f
    rw [List.map_map]
    exact List.map_id _
  have hfresh : db.activationJournal.find? (db.lastActivation + 1) = none := by
    rw [Table.find?_eq_none]
    intro x hx _
    have hle := hids x hx
    omega
  constructor
  case release => exact ⟨r, hr, hversion, hcomponents _⟩
  case id => rfl
  case last => rfl
  case state => rfl
  case previous =>
    unfold Activation.components
    rw [hcomponents]
  case active =>
    intro c
    unfold Activation.components
    rw [hcomponents]
    exact find?_activateComponents
  case journal =>
    intro x
    simp only [mem_update, activationJournal_refreshReleaseStates, mem_insertOrIgnore]
    constructor
    · rintro ⟨y, hy | ⟨rfl, -⟩, rfl⟩
      · have hle := hids y hy
        rw [if_neg (by omega)]
        exact .inr hy
      · exact .inl (if_pos rfl)
    · rintro (rfl | hx)
      · exact ⟨_, .inr ⟨rfl, hfresh⟩, (if_pos rfl).symm⟩
      · have hle := hids x hx
        exact ⟨x, .inl hx, (if_neg (by omega)).symm⟩
  case releases => exact fun r => mem_refreshReleaseStates

structure RolledBack (db : Database) (a : Activation) (now : Time) (db' : Database) : Prop where
  committed : a ∈ db.committed
  runs : ∀ c ∈ a.components, db.active c = some a.version
  active : ∀ c, db'.active c = if c ∈ a.components then a.before c else db.active c
  last : db'.lastActivation = db.lastActivation
  journal : ∀ x, x ∈ db'.activationJournal ↔
    x = { a with state := .rolledBack, completedAt := some now.unixMilli } ∨ (x ∈ db.activationJournal ∧ x ≠ a)
  releases : ∀ r, r ∈ db'.releases ↔ ∃ r' ∈ db.releases, r = { r' with state := db'.refreshed r' }

theorem rollback_ok (hnodup : ∀ x ∈ db.activationJournal, x.components.Nodup) (h : db.rollback id now = .ok (b, db')) :
    ∃ a, a.id = id ∧ b = { a with state := .rolledBack, completedAt := some now.unixMilli } ∧ RolledBack db a now db' := by
  unfold rollback at h
  simp only [bind_eq_ok, orError_eq_ok, require_eq_ok, pure_eq_ok, Prod.mk.injEq] at h
  obtain ⟨a, hfind, -, hstate, _, hrestore, rfl, rfl⟩ := h
  obtain ⟨ha, rfl⟩ := find?_eq_some.mp hfind
  have hsorted : ((sortedPrevious a.previous).map fst).Nodup := (perm_sortedPrevious.map _).nodup_iff.mpr (hnodup a ha)
  obtain ⟨hruns, hactive⟩ := foldlM_restore hsorted hrestore
  refine ⟨a, rfl, rfl, ?_⟩
  constructor
  case committed => exact ⟨ha, hstate⟩
  case runs =>
    intro c hc
    exact hruns c (mem_sortedPrevious.mpr hc)
  case active =>
    intro c
    refine (hactive c).trans ?_
    rw [lookup_sortedPrevious (hnodup a ha)]
    by_cases hc : c ∈ a.components
    · rw [if_pos hc, if_pos (mem_sortedPrevious.mpr hc)]
      rfl
    · rw [if_neg hc, if_neg (mem_sortedPrevious.not.mpr hc)]
      rfl
  case last => rfl
  case journal =>
    intro x
    simp only [activationJournal_refreshReleaseStates, mem_update]
    constructor
    · rintro ⟨y, hy, rfl⟩
      by_cases hid : y.id = a.id
      · obtain rfl := eq_of_key hy ha hid
        exact .inl (if_pos rfl)
      · rw [if_neg hid]
        refine .inr ⟨hy, ?_⟩
        rintro rfl
        exact hid rfl
    · rintro (rfl | ⟨hx, hne⟩)
      · exact ⟨a, ha, (if_pos rfl).symm⟩
      · have hid : x.id ≠ a.id := fun hid => hne (eq_of_key hx ha hid)
        exact ⟨x, hx, (if_neg hid).symm⟩
  case releases => exact fun r => mem_refreshReleaseStates

theorem exists_rollback (hnodup : a.components.Nodup) (ha : a ∈ db.committed) (hruns : ∀ c ∈ a.components, db.active c = some a.version) :
    ∃ db', db.rollback a.id now = .ok ({ a with state := .rolledBack, completedAt := some now.unixMilli }, db') := by
  obtain ⟨hmem, hstate⟩ := ha
  have hsorted : ((sortedPrevious a.previous).map fst).Nodup := (perm_sortedPrevious.map _).nodup_iff.mpr hnodup
  obtain ⟨u, hu⟩ : ∃ u, (sortedPrevious a.previous).foldlM (restore a now) db.activeComponents = .ok u := by
    apply exists_foldlM_restore hsorted
    intro c hc
    exact hruns c (mem_sortedPrevious.mp hc)
  unfold rollback
  simp only [bind_eq_ok, orError_eq_ok, require_eq_ok, pure_eq_ok, Prod.mk.injEq]
  exact ⟨_, a, find?_of_mem hmem, (), hstate, u, hu, rfl, rfl⟩

end Outcomes

end Database

end WorkAgent.Operations
