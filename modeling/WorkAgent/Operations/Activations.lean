import WorkAgent.Operations.Ledger

namespace WorkAgent.Operations

open Library Layering
open Quota (Time)

inductive Request
  | install (files : Files) (manifest : ReleaseManifest) (installedAt : Time)
  | publishUpgrade (version : String) (publishes : Bool) (publishedAt : Time)
  | recordReadiness (version : String) (readiness : Readiness) (now : Time)
  | activate (version : String) (verifies : Bool) (now : Time)
  | rollback (id : ℕ) (now : Time)
  deriving DecidableEq

inductive Answer
  | done
  | installed (status : ReleaseStatus)
  | activated (activation : Activation)
  | rolledBack (activation : Activation)
  | refused (error : Error)
  deriving DecidableEq

inductive Event
  | called (request : Request) (answer : Answer)
  | failed (request : Request)
  deriving DecidableEq

def answer {α : Type} (db : Database) (answered : α → Answer) (result : Except Error (α × Database)) : Answer × Database :=
  match result with
  | .ok (a, db') => (answered a, db')
  | .error e => (.refused e, db)

def Request.run (db : Database) : Request → Answer × Database
  | .install files manifest installedAt =>
    let (result, db') := db.install files manifest installedAt
    match result with
    | .ok status => (.installed status, db')
    | .error e => (.refused e, db')
  | .publishUpgrade version publishes publishedAt =>
    answer db (fun () => .done) ((db.publishUpgrade version publishes publishedAt).map ((), ·))
  | .recordReadiness version readiness now => answer db (fun () => .done) ((db.recordReadiness version readiness now).map ((), ·))
  | .activate version verifies now => answer db .activated (db.activate version verifies now)
  | .rollback id now => answer db .rolledBack (db.rollback id now)

inductive Step (db : Database) : Event → Database → Prop
  | called (request : Request) : Step db (.called request (request.run db).1) (request.run db).2
  | failed (request : Request) : Step db (.failed request) db
  /-- The record of the installed release was made and could not be read back. -/
  | interrupted (files : Files) (manifest : ReleaseManifest) (installedAt : Time) :
      Step db (.failed (.install files manifest installedAt)) (db.install files manifest installedAt).2

variable {db db' : Database} {a b : Activation} {c : Component} {v version : String} {id : ℕ} {now : Time} {e : Event}
  {x : Answer} {es : List Event}

def Database.Repeated (db : Database) (id : ℕ) : Prop :=
  ∃ a ∈ db.committed, a.id = id ∧ (∀ c ∈ a.components, ledger.Shows db.committed c a.version) ∧
    ∃ c ∈ a.components, ∃ b ∈ db.committed, c ∈ b.components ∧ id < b.id

def Careful (db : Database) : Event → Prop
  | .called (.rollback id _) _ => ¬ db.Repeated id
  | _ => True

def CarefulStep (db : Database) (e : Event) (db' : Database) : Prop := Step db e db' ∧ Careful db e

namespace Database

structure Sound (db : Database) : Prop where
  named : ∀ r ∈ db.releases, r.version ≠ ""
  components : ∀ r ∈ db.releases, r.manifest.includedComponents.Nodup
  ids : ∀ a ∈ db.activationJournal, a.id ≤ db.lastActivation
  nodup : ∀ a ∈ db.activationJournal, a.components.Nodup
  installed : ∀ a ∈ db.activationJournal, ∃ r ∈ db.releases, r.version = a.version
  stacked : ledger.Stacked db.committed
  shows : ∀ c v, db.active c = some v ↔ ledger.Shows db.committed c v
  states : ∀ r ∈ db.releases, r.state = .active ↔ r.version ∈ db.running

theorem Sound.released (h : db.Sound) (hc : db.active c = some v) : ∃ r ∈ db.releases, r.version = v := by
  obtain ⟨a, ⟨⟨ha, -⟩, -⟩, rfl⟩ := (h.shows c v).mp hc
  exact h.installed a ha.1

theorem Sound.of_releases (h : db.Sound) (hactive : db'.activeComponents = db.activeComponents)
    (hjournal : db'.activationJournal = db.activationJournal) (hlast : db'.lastActivation = db.lastActivation)
    (hold : ∀ r ∈ db.releases, ∃ r' ∈ db'.releases, r'.version = r.version)
    (hnew : ∀ r ∈ db'.releases, r.version ≠ "" ∧ r.manifest.includedComponents.Nodup ∧ (r.state = .active ↔ r.version ∈ db'.running)) :
    db'.Sound := by
  have hcommitted : db'.committed = db.committed := by
    unfold committed
    rw [hjournal]
  have hsame : db'.active = db.active := by
    unfold active
    rw [hactive]
  constructor
  case named => exact fun r hr => (hnew r hr).1
  case components => exact fun r hr => (hnew r hr).2.1
  case ids =>
    rw [hjournal, hlast]
    exact h.ids
  case nodup =>
    rw [hjournal]
    exact h.nodup
  case installed =>
    intro a ha
    rw [hjournal] at ha
    obtain ⟨r, hr, hversion⟩ := h.installed a ha
    rw [← hversion]
    exact hold r hr
  case stacked =>
    rw [hcommitted]
    exact h.stacked
  case shows =>
    rw [hsame, hcommitted]
    exact h.shows
  case states => exact fun r hr => (hnew r hr).2.2

theorem sound_empty : empty.Sound := by
  constructor <;> simp [empty, committed, active, Stacked, Shows, Layering.Top]

theorem install_cases (files : Files) (manifest : ReleaseManifest) (installedAt : Time) :
    (db.install files manifest installedAt).2 = db ∨ (manifest.version ≠ "" ∧ manifest.includedComponents.Nodup ∧
      (db.install files manifest installedAt).2 = db.registerCandidate manifest installedAt) := by
  unfold install
  cases hcheck : (do manifest.validate; require files.sourceVerifies .integrity : Except Error Unit) with
  | error => exact .inl rfl
  | ok u =>
    obtain ⟨u, hvalid, -⟩ := bind_eq_ok.mp hcheck
    obtain ⟨hversion, hnodup⟩ := ReleaseManifest.of_validate hvalid
    cases files.destination with
    | unreadable => exact .inl rfl
    | found installed verifies =>
      by_cases hsame : installed.any (sameManifest · manifest)
      · by_cases hverifies : verifies
        · refine .inr ⟨hversion, hnodup, ?_⟩
          simp [hsame, hverifies]
        · simp [hsame, hverifies]
      · simp [hsame]
    | absent =>
      by_cases hcopies : files.copies
      · refine .inr ⟨hversion, hnodup, ?_⟩
        simp [hcopies]
      · simp [hcopies]

theorem Sound.register (h : db.Sound) {manifest : ReleaseManifest} {installedAt : Time} (hversion : manifest.version ≠ "")
    (hnodup : manifest.includedComponents.Nodup) : (db.registerCandidate manifest installedAt).Sound := by
  refine h.of_releases (by rfl) (by rfl) (by rfl) ?_ ?_
  · intro r hr
    exact ⟨r, Table.mem_insertOrIgnore.mpr (.inl hr), rfl⟩
  · intro r hr
    rcases Table.mem_insertOrIgnore.mp hr with hr | ⟨rfl, hnone⟩
    · exact ⟨h.named r hr, h.components r hr, h.states r hr⟩
    · refine ⟨hversion, hnodup, ?_⟩
      constructor
      · intro hstate
        cases hstate
      · intro hrun
        obtain ⟨c, hc⟩ := mem_running.mp hrun
        obtain ⟨r', hr', heq⟩ := h.released hc
        exact absurd heq (Table.find?_eq_none.mp hnone r' hr')

theorem Sound.install (h : db.Sound) (files : Files) (manifest : ReleaseManifest) (installedAt : Time) :
    (db.install files manifest installedAt).2.Sound := by
  rcases install_cases files manifest installedAt with hsame | ⟨hversion, hnodup, hregistered⟩
  · rw [hsame]
    exact h
  · rw [hregistered]
    exact h.register hversion hnodup

theorem publishUpgrade_ok {publishes : Bool} (h : db.publishUpgrade version publishes now = .ok db') :
    db' = { db with releases := db.releases.update (·.version = version) (fun r => { r with notifiedAt := some now.unixMilli }) } := by
  unfold publishUpgrade at h
  simp only [bind_eq_ok, require_eq_ok, pure_eq_ok] at h
  obtain ⟨-, -, -, -, -, -, rfl⟩ := h
  rfl

theorem Sound.publishUpgrade (h : db.Sound) {publishes : Bool} (hrun : db.publishUpgrade version publishes now = .ok db') :
    db'.Sound := by
  rw [publishUpgrade_ok hrun]
  refine h.of_releases (by rfl) (by rfl) (by rfl) ?_ ?_
  · intro r hr
    exact Table.exists_key_update ⟨r, hr, rfl⟩
  · intro r hr
    simp only [Table.mem_update] at hr
    obtain ⟨r', hr', rfl⟩ := hr
    split
    · exact ⟨h.named r' hr', h.components r' hr', h.states r' hr'⟩
    · exact ⟨h.named r' hr', h.components r' hr', h.states r' hr'⟩

theorem recordReadiness_ok {readiness : Readiness} (h : db.recordReadiness version readiness now = .ok db') :
    ∃ table last, db' = { db with releaseReadiness := table, lastReadiness := last } := by
  unfold recordReadiness at h
  simp only [bind_eq_ok, pure_eq_ok] at h
  obtain ⟨-, -, -, -, rfl⟩ := h
  exact ⟨_, _, rfl⟩

theorem Sound.recordReadiness (h : db.Sound) {readiness : Readiness} (hrun : db.recordReadiness version readiness now = .ok db') :
    db'.Sound := by
  obtain ⟨_, _, rfl⟩ := recordReadiness_ok hrun
  refine h.of_releases (by rfl) (by rfl) (by rfl) ?_ ?_
  · exact fun r hr => ⟨r, hr, rfl⟩
  · exact fun r hr => ⟨h.named r hr, h.components r hr, h.states r hr⟩

theorem states_refreshed {r r' : ReleaseRow} (hr : r = { r' with state := db.refreshed r' }) :
    r.state = .active ↔ r.version ∈ db.running := by
  subst hr
  change db.refreshed r' = .active ↔ r'.version ∈ db.running
  unfold refreshed
  by_cases hrun : r'.version ∈ db.running
  · simp [hrun]
  · by_cases hactive : r'.state = .active <;> simp [hrun, hactive]

theorem Sound.active_ne_empty (h : db.Sound) : db.active c ≠ some "" := by
  intro hc
  obtain ⟨r, hr, hversion⟩ := h.released hc
  exact h.named r hr hversion

theorem Activated.committed_eq (h : Activated db a db') : db'.committed = insert a db.committed := by
  ext x
  constructor
  · rintro ⟨hx, hstate⟩
    rcases (h.journal x).mp hx with rfl | hx
    · exact .inl rfl
    · exact .inr ⟨hx, hstate⟩
  · rintro (rfl | ⟨hx, hstate⟩)
    · exact ⟨(h.journal x).mpr (.inl rfl), h.state⟩
    · exact ⟨(h.journal x).mpr (.inr hx), hstate⟩

theorem Activated.newest (h : Activated db a db') (hs : db.Sound) : ∀ b ∈ db.committed, b.id < a.id := by
  rintro b ⟨hb, -⟩
  have hle := hs.ids b hb
  have hid := h.id
  omega

theorem Activated.before_eq (h : Activated db a db') (hs : db.Sound) (hc : c ∈ a.components) : a.before c = db.active c := by
  have hlookup : a.previous.lookup c = some ((db.active c).getD "") := by
    rw [h.previous]
    generalize a.components = l at hc
    induction l with
    | nil => cases hc
    | cons d _ ih =>
      rw [List.map_cons, List.lookup_cons]
      by_cases hd : c = d
      · subst hd
        simp
      · have hbeq : (c == d) = false := beq_eq_false_iff_ne.mpr hd
        rw [hbeq]
        exact ih ((List.mem_cons.mp hc).resolve_left hd)
  unfold Activation.before
  rw [hlookup]
  cases hactive : db.active c with
  | none => rfl
  | some v =>
    have hne : v ≠ "" := by
      rintro rfl
      exact hs.active_ne_empty hactive
    simp [Option.filter_some, hne]

theorem Sound.activated (h : db.Sound) (hrun : Activated db a db') : db'.Sound := by
  obtain ⟨r₀, hr₀, hversion, hcomponents⟩ := hrun.release
  have hnew := hrun.newest h
  constructor
  case named =>
    intro r hr
    obtain ⟨r', hr', rfl⟩ := (hrun.releases r).mp hr
    exact h.named r' hr'
  case components =>
    intro r hr
    obtain ⟨r', hr', rfl⟩ := (hrun.releases r).mp hr
    exact h.components r' hr'
  case ids =>
    intro x hx
    rw [hrun.last]
    rcases (hrun.journal x).mp hx with rfl | hx
    · exact hrun.id.le
    · exact (h.ids x hx).trans (Nat.le_succ _)
  case nodup =>
    intro x hx
    rcases (hrun.journal x).mp hx with rfl | hx
    · rw [hcomponents]
      exact h.components r₀ hr₀
    · exact h.nodup x hx
  case installed =>
    have hold : ∀ r ∈ db.releases, ∃ r' ∈ db'.releases, r'.version = r.version :=
      fun r hr => ⟨_, (hrun.releases _).mpr ⟨r, hr, rfl⟩, rfl⟩
    intro x hx
    rcases (hrun.journal x).mp hx with rfl | hx
    · rw [← hversion]
      exact hold r₀ hr₀
    · obtain ⟨r, hr, hrx⟩ := h.installed x hx
      rw [← hrx]
      exact hold r hr
  case stacked =>
    rw [hrun.committed_eq]
    apply h.stacked.push hnew
    intro c hc v
    change a.before c = some v ↔ _
    rw [hrun.before_eq h hc]
    exact h.shows c v
  case shows =>
    intro c v
    rw [hrun.committed_eq, shows_push hnew, hrun.active c]
    change _ ↔ (c ∈ a.components ∧ a.version = v) ∨ (c ∉ a.components ∧ _)
    by_cases hc : c ∈ a.components
    · simp [hc]
    · simp [hc, h.shows c v]
  case states =>
    intro r hr
    obtain ⟨_, -, hr'⟩ := (hrun.releases r).mp hr
    exact states_refreshed hr'

section RolledBack

variable (hrun : RolledBack db a now db')
include hrun

theorem RolledBack.committed_eq : db'.committed = db.committed \ {a} := by
  ext x
  constructor
  · rintro ⟨hx, hstate⟩
    rcases (hrun.journal x).mp hx with rfl | ⟨hx, hne⟩
    · cases hstate
    · exact ⟨⟨hx, hstate⟩, hne⟩
  · rintro ⟨⟨hx, hstate⟩, hne⟩
    exact ⟨(hrun.journal x).mpr (.inr ⟨hx, hne⟩), hstate⟩

theorem RolledBack.shows (h : db.Sound) (hc : c ∈ a.components) : ledger.Shows db.committed c a.version :=
  (h.shows c _).mp (hrun.runs c hc)

theorem RolledBack.top (h : db.Sound) (hcareful : ¬ db.Repeated a.id) (hc : c ∈ a.components) : ledger.Top db.committed c a := by
  refine ⟨⟨hrun.committed, hc⟩, ?_⟩
  intro b hb hbc
  by_contra hlt
  apply hcareful
  refine ⟨a, hrun.committed, rfl, fun d hd => hrun.shows h hd, c, hc, b, hb, hbc, ?_⟩
  exact not_le.mp hlt

theorem Sound.rolledBack (h : db.Sound) (hcareful : ¬ db.Repeated a.id) : db'.Sound := by
  have htop : ∀ c, ledger.covers a c → ledger.Top db.committed c a := fun c hc => hrun.top h hcareful hc
  have hinj : ∀ b ∈ db.committed, b.id = a.id → b = a := fun b hb hid => Table.eq_of_key hb.1 hrun.committed.1 hid
  have hshows (c : Component) (v : String) : db'.active c = some v ↔ ledger.Shows db'.committed c v := by
    rw [hrun.committed_eq, hrun.active c]
    by_cases hc : c ∈ a.components
    · rw [if_pos hc]
      exact (shows_pop htop h.stacked hinj hc).symm
    · rw [if_neg hc, h.shows c v]
      exact (shows_pop_other hc).symm
  have hold : ∀ r ∈ db.releases, ∃ r' ∈ db'.releases, r'.version = r.version :=
    fun r hr => ⟨_, (hrun.releases _).mpr ⟨r, hr, rfl⟩, rfl⟩
  constructor
  case named =>
    intro r hr
    obtain ⟨r', hr', rfl⟩ := (hrun.releases r).mp hr
    exact h.named r' hr'
  case components =>
    intro r hr
    obtain ⟨r', hr', rfl⟩ := (hrun.releases r).mp hr
    exact h.components r' hr'
  case ids =>
    intro x hx
    rw [hrun.last]
    rcases (hrun.journal x).mp hx with rfl | ⟨hx, -⟩
    · exact h.ids a hrun.committed.1
    · exact h.ids x hx
  case nodup =>
    intro x hx
    rcases (hrun.journal x).mp hx with rfl | ⟨hx, -⟩
    · exact h.nodup a hrun.committed.1
    · exact h.nodup x hx
  case installed =>
    intro x hx
    rcases (hrun.journal x).mp hx with rfl | ⟨hx, -⟩
    · obtain ⟨r, hr, hra⟩ := h.installed a hrun.committed.1
      rw [← hra]
      exact hold r hr
    · obtain ⟨r, hr, hrx⟩ := h.installed x hx
      rw [← hrx]
      exact hold r hr
  case stacked =>
    rw [hrun.committed_eq]
    exact h.stacked.pop htop
  case shows => exact hshows
  case states =>
    intro r hr
    obtain ⟨_, -, hr'⟩ := (hrun.releases r).mp hr
    exact states_refreshed hr'

end RolledBack

end Database

open Database

section Steps

structure Kept (db db' : Database) : Prop where
  sound : db'.Sound
  active : db'.active = db.active
  committed : db'.committed = db.committed
  releases : ∀ r ∈ db.releases, ∃ r' ∈ db'.releases, r'.version = r.version ∧ r'.state = r.state

theorem Kept.refl (h : db.Sound) : Kept db db := ⟨h, rfl, rfl, fun r hr => ⟨r, hr, rfl, rfl⟩⟩

def Event.Quiet : Event → Prop
  | .called (.activate _ _ _) answer => ∃ error, answer = .refused error
  | .called (.rollback _ _) answer => ∃ error, answer = .refused error
  | _ => True

def Event.Rewrites : Event → Prop
  | .called (.activate _ _ _) _ => True
  | .called (.rollback _ _) _ => True
  | _ => False

theorem kept_install (h : db.Sound) (files : Files) (manifest : ReleaseManifest) (installedAt : Time) :
    Kept db (db.install files manifest installedAt).2 := by
  have hsound := h.install files manifest installedAt
  rcases install_cases files manifest installedAt with hsame | ⟨-, -, hregistered⟩
  · rw [hsame]
    exact .refl h
  · rw [hregistered] at hsound ⊢
    refine ⟨hsound, rfl, rfl, ?_⟩
    intro r hr
    exact ⟨r, Table.mem_insertOrIgnore.mpr (.inl hr), rfl, rfl⟩

theorem kept_publishUpgrade (h : db.Sound) {publishes : Bool} (hrun : db.publishUpgrade version publishes now = .ok db') :
    Kept db db' := by
  have hsound := h.publishUpgrade hrun
  rw [publishUpgrade_ok hrun] at hsound ⊢
  refine ⟨hsound, rfl, rfl, ?_⟩
  intro r hr
  simp only [Table.mem_update]
  refine ⟨_, ⟨r, hr, rfl⟩, ?_⟩
  split <;> exact ⟨rfl, rfl⟩

theorem kept_recordReadiness (h : db.Sound) {readiness : Readiness} (hrun : db.recordReadiness version readiness now = .ok db') :
    Kept db db' := by
  have hsound := h.recordReadiness hrun
  obtain ⟨_, _, rfl⟩ := recordReadiness_ok hrun
  exact ⟨hsound, rfl, rfl, fun r hr => ⟨r, hr, rfl, rfl⟩⟩

theorem answer_cases {α : Type} (answered : α → Answer) (result : Except Error (α × Database)) :
    (∃ error, answer db answered result = (.refused error, db)) ∨
      ∃ x db', result = .ok (x, db') ∧ answer db answered result = (answered x, db') := by
  cases result with
  | error e => exact .inl ⟨e, rfl⟩
  | ok p => exact .inr ⟨p.1, p.2, rfl, rfl⟩

theorem map_ok {result : Except Error Database} {x : Unit} (h : result.map ((), ·) = .ok (x, db')) : result = .ok db' := by
  cases result with
  | error => cases h
  | ok =>
    cases h
    rfl

open Request (run)

theorem step_cases (h : db.Sound) (hstep : Step db e db') :
    (db' = db ∧ e.Quiet) ∨ (Kept db db' ∧ ¬ e.Rewrites) ∨
    (∃ version verifies now a, e = .called (.activate version verifies now) (.activated a) ∧ Activated db a db') ∨
    (∃ now a b, e = .called (.rollback a.id now) (.rolledBack b) ∧ b.id = a.id ∧ b.components = a.components ∧
      RolledBack db a now db') := by
  cases hstep with
  | failed => exact .inr (.inl ⟨.refl h, id⟩)
  | interrupted files manifest installedAt => exact .inr (.inl ⟨kept_install h files manifest installedAt, id⟩)
  | called request =>
    cases request with
    | install files manifest installedAt =>
      refine .inr (.inl ⟨?_, id⟩)
      have hdb : (run db (.install files manifest installedAt)).2 = (db.install files manifest installedAt).2 := by
        simp only [run]
        cases (db.install files manifest installedAt).1 <;> rfl
      rw [hdb]
      exact kept_install h files manifest installedAt
    | publishUpgrade version publishes publishedAt =>
      refine .inr (.inl ⟨?_, id⟩)
      simp only [run]
      obtain ⟨error, hanswer⟩ | ⟨x, db', hok, hanswer⟩ :=
        answer_cases (fun () => .done) ((db.publishUpgrade version publishes publishedAt).map ((), ·))
      · rw [hanswer]
        exact .refl h
      · rw [hanswer]
        exact kept_publishUpgrade h (map_ok hok)
    | recordReadiness version readiness now =>
      refine .inr (.inl ⟨?_, id⟩)
      simp only [run]
      obtain ⟨error, hanswer⟩ | ⟨x, db', hok, hanswer⟩ :=
        answer_cases (fun () => .done) ((db.recordReadiness version readiness now).map ((), ·))
      · rw [hanswer]
        exact .refl h
      · rw [hanswer]
        exact kept_recordReadiness h (map_ok hok)
    | activate version verifies now =>
      simp only [run]
      obtain ⟨error, hanswer⟩ | ⟨a, db', hok, hanswer⟩ := answer_cases .activated (db.activate version verifies now)
      · rw [hanswer]
        exact .inl ⟨rfl, error, rfl⟩
      · rw [hanswer]
        exact .inr (.inr (.inl ⟨version, verifies, now, a, rfl, activate_ok h.ids hok⟩))
    | rollback id now =>
      simp only [run]
      obtain ⟨error, hanswer⟩ | ⟨b, _, hok, hanswer⟩ := answer_cases .rolledBack (db.rollback id now)
      · rw [hanswer]
        exact .inl ⟨rfl, error, rfl⟩
      · rw [hanswer]
        obtain ⟨a, rfl, rfl, hrolled⟩ := rollback_ok h.nodup hok
        exact .inr (.inr (.inr ⟨now, a, _, rfl, rfl, rfl, hrolled⟩))

theorem sound_step (h : db.Sound) (hstep : CarefulStep db e db') : db'.Sound := by
  obtain ⟨hstep, hcareful⟩ := hstep
  obtain ⟨rfl, -⟩ | ⟨hkept, -⟩ | ⟨-, -, -, a, -, hactivated⟩ | ⟨_, a, b, rfl, -, -, hrolled⟩ := step_cases h hstep
  · exact h
  · exact hkept.sound
  · exact h.activated hactivated
  · exact h.rolledBack hrolled hcareful

theorem promoted_step (h : db.Sound) (hstep : Step db e db') {r : ReleaseRow} (hr : r ∈ db.releases) (hstate : r.state ≠ .candidate) :
    ∃ r' ∈ db'.releases, r'.version = r.version ∧ r'.state ≠ .candidate := by
  have hrefreshed (db₀ : Database) : db₀.refreshed r ≠ .candidate := by
    unfold refreshed
    by_cases hrun : r.version ∈ db₀.running <;> by_cases hactive : r.state = .active <;> simp [hrun, hactive, hstate]
  obtain ⟨rfl, -⟩ | ⟨hkept, -⟩ | ⟨-, -, -, a, -, hactivated⟩ | ⟨_, a, b, -, -, -, hrolled⟩ := step_cases h hstep
  · exact ⟨r, hr, rfl, hstate⟩
  · obtain ⟨r', hr', hversion, hsame⟩ := hkept.releases r hr
    refine ⟨r', hr', hversion, ?_⟩
    rw [hsame]
    exact hstate
  · exact ⟨_, (hactivated.releases _).mpr ⟨r, hr, rfl⟩, rfl, hrefreshed db'⟩
  · exact ⟨_, (hrolled.releases _).mpr ⟨r, hr, rfl⟩, rfl, hrefreshed db'⟩

end Steps

section Runs

open Execution

def ActivatedFrom (es : List Event) (db : Database) (a : Activation) (ran : Component → Option String) : Prop :=
  ∃ version verifies now, Crosses CarefulStep Database.empty es db (.called (.activate version verifies now) (.activated a))
    (fun before => ∀ c ∈ a.components, before.active c = ran c)

structure Ledger (es : List Event) (db : Database) : Prop where
  active : ∀ c v, db.active c = some v ↔ ledger.Shows db.committed c v
  states : ∀ r ∈ db.releases, r.state = .active ↔ ∃ c, db.active c = some r.version
  candidates : ∀ r ∈ db.releases, r.state = .candidate → ¬ Passes CarefulStep Database.empty es db
    (fun s => ∃ r' ∈ s.releases, r'.version = r.version ∧ r'.state = .active)

def Lawful (es : List Event) (db : Database) (e : Event) (db' : Database) : Prop :=
  match e with
  | .called (.activate _ _ _) (.refused _) => db' = db
  | .called (.rollback _ _) (.refused _) => db' = db
  | .called (.rollback id _) (.rolledBack b) =>
    (∀ x ∈ db.committed, (∃ c ∈ x.components, c ∈ b.components) → x.id ≤ id) ∧
      (∀ c, c ∉ b.components → db'.active c = db.active c) ∧
      ∃ a ∈ db.committed, a.id = id ∧ a.components = b.components ∧ ActivatedFrom es db a db'.active
  | _ => True

section

variable (h : Execution CarefulStep Database.empty es db)
include h

theorem sound_of_execution : db.Sound :=
  h.invariant sound_empty fun _ _ _ hs hstep => sound_step hs hstep

theorem activatedFrom_before : ∀ a ∈ db.committed, ActivatedFrom es db a a.before := by
  refine h.history (J := fun es db => ∀ a ∈ db.committed, ActivatedFrom es db a a.before) ?_ ?_
  · rintro a ⟨ha, -⟩
    exact absurd ha (Table.not_mem_empty a)
  · intro es db e db' hbefore hrecorded hstep a ha
    have hsound := sound_of_execution hbefore
    have hold : a ∈ db.committed → ActivatedFrom (es ++ [e]) db' a a.before := by
      intro hmem
      obtain ⟨version, verifies, now, hcross⟩ := hrecorded a hmem
      exact ⟨version, verifies, now, hcross.step hstep⟩
    obtain ⟨rfl, -⟩ | ⟨hkept, -⟩ | ⟨version, verifies, now, b, rfl, hactivated⟩ | ⟨now, b, -, -, -, -, hrolled⟩ :=
      step_cases hsound hstep.1
    · exact hold ha
    · rw [hkept.committed] at ha
      exact hold ha
    · rw [hactivated.committed_eq] at ha
      rcases ha with rfl | ha
      · exact ⟨version, verifies, now, crosses_now hbefore (fun c hc => (hactivated.before_eq hsound hc).symm) hstep⟩
      · exact hold ha
    · rw [hrolled.committed_eq] at ha
      exact hold ha.1

theorem ledger_of_execution : Ledger es db := by
  have hsound := sound_of_execution h
  refine ⟨hsound.shows, ?_, ?_⟩
  · intro r hr
    rw [hsound.states r hr, mem_running]
  · rintro r hr hcandidate ⟨_, _, s, rfl, hbefore, hafter, r', hr', hversion, hactive⟩
    have hpromoted : db.Sound ∧ ∃ x ∈ db.releases, x.version = r.version ∧ x.state ≠ .candidate := by
      refine hafter.invariant (I := fun s => s.Sound ∧ ∃ x ∈ s.releases, x.version = r.version ∧ x.state ≠ .candidate) ?_ ?_
      · refine ⟨sound_of_execution hbefore, r', hr', hversion, ?_⟩
        rw [hactive]
        decide
      · rintro s e t ⟨hs, x, hx, hxversion, hxstate⟩ hstep
        obtain ⟨y, hy, hyversion, hystate⟩ := promoted_step hs hstep.1 hx hxstate
        exact ⟨sound_step hs hstep, y, hy, hyversion.trans hxversion, hystate⟩
    obtain ⟨-, x, hx, hxversion, hxstate⟩ := hpromoted
    rw [Table.eq_of_key hx hr hxversion] at hxstate
    exact hxstate hcandidate

theorem lawful_rollback (hrolled : RolledBack db a now db')
    (hcomponents : b.components = a.components) (hcareful : ¬ db.Repeated a.id) :
    Lawful es db (.called (.rollback a.id now) (.rolledBack b)) db' := by
  have hsound := sound_of_execution h
  refine ⟨?_, ?_, a, hrolled.committed, rfl, hcomponents.symm, ?_⟩
  · rintro x hx ⟨c, hcx, hcb⟩
    rw [hcomponents] at hcb
    exact (hrolled.top hsound hcareful hcb).2 x hx hcx
  · intro c hc
    rw [hcomponents] at hc
    rw [hrolled.active c, if_neg hc]
  · obtain ⟨version, verifies, earlier, hcross⟩ := activatedFrom_before h a hrolled.committed
    refine ⟨version, verifies, earlier, ?_⟩
    obtain ⟨es', fs, s, t, rfl, hbefore, hstep, hafter, hran⟩ := hcross
    refine ⟨es', fs, s, t, rfl, hbefore, hstep, hafter, ?_⟩
    intro c hc
    rw [hran c hc, hrolled.active c, if_pos hc]

end

theorem not_lawful_of_repeated (hsound : db.Sound) (hrepeated : db.Repeated id)
    (hstep : Step db (.called (.rollback id now) x) db') : ¬ Lawful es db (.called (.rollback id now) x) db' := by
  obtain ⟨a, ha, rfl, hshows, c, hc, b, hb, hbc, _⟩ := hrepeated
  have hruns : ∀ c ∈ a.components, db.active c = some a.version := fun c hc => (hsound.shows c _).mpr (hshows c hc)
  obtain ⟨u, hrun⟩ : ∃ u, db.rollback a.id now = .ok (_, u) := exists_rollback (hsound.nodup a ha.1) ha hruns
  cases hstep with
  | called =>
    simp only [Request.run, hrun, answer]
    rintro ⟨hnewest, -⟩
    have hle := hnewest b hb ⟨c, hbc, hc⟩
    omega

theorem lawful_of_quiet (hquiet : e.Quiet) : Lawful es db e db := by
  cases e with
  | failed => trivial
  | called request =>
    cases request with
    | activate =>
      obtain ⟨error, rfl⟩ := hquiet
      rfl
    | rollback =>
      obtain ⟨_, rfl⟩ := hquiet
      rfl
    | _ => trivial

theorem lawful_of_not_rewrites (hrewrites : ¬ e.Rewrites) : Lawful es db e db' := by
  cases e with
  | failed => trivial
  | called request =>
    cases request with
    | activate | rollback => exact absurd trivial hrewrites
    | _ => trivial

/-- After a run in which no rollback named a repeated version the ledger is right, and the next answer is right just
where it is no success of a rollback that names one. -/
theorem activations_lawful (h : Execution CarefulStep Database.empty es db) :
    Ledger es db ∧ ∀ e db', Step db e db' → (Lawful es db e db' ↔ Careful db e) := by
  have hsound := sound_of_execution h
  refine ⟨ledger_of_execution h, ?_⟩
  intro e _ hstep
  constructor
  · intro hlawful
    cases e with
    | failed => trivial
    | called request =>
      cases request with
      | rollback => exact fun hrepeated => not_lawful_of_repeated hsound hrepeated hstep hlawful
      | _ => trivial
  · intro hcareful
    obtain ⟨rfl, hquiet⟩ | ⟨-, hrewrites⟩ | ⟨_, _, _, a, rfl, -⟩ | ⟨_, a, b, rfl, -, hcomponents, hrolled⟩ :=
      step_cases hsound hstep
    · exact lawful_of_quiet hquiet
    · exact lawful_of_not_rewrites hrewrites
    · trivial
    · exact lawful_rollback h hrolled hcomponents hcareful

end Runs

namespace Example

def manifest : ReleaseManifest :=
  ⟨1, "1.0.0", [.web], [⟨.web, "components/web.zip", 7, "5feceb66ffc86f38d952786c6d696c79c2dbc239dd4e91b46729d73a27fb57e9"⟩]⟩

def instant (seconds : ℤ) : Time := ⟨seconds * Time.second⟩

def probe (engine : String) : Probe := ⟨true, engine, "1.0.0", "readiness-run-0001", instant 20, "pass", true⟩

def prepared : List Request := [
  .install ⟨true, .absent, true⟩ manifest (instant 5),
  .publishUpgrade "1.0.0" true (instant 10),
  .recordReadiness "1.0.0" ⟨instant 20, probe "harness", probe "codex", probe "kimi", probe "cliproxy"⟩ (instant 21),
  .activate "1.0.0" true (instant 80)]

def after (requests : List Request) : Database := requests.foldl (fun db request => (request.run db).2) Database.empty

theorem exists_execution (requests : List Request) : ∃ es, Execution Step Database.empty es (after requests) := by
  unfold after
  have hfold (db : Database) (es : List Event) (h : Execution Step Database.empty es db) :
      ∃ es, Execution Step Database.empty es (requests.foldl (fun db request => (request.run db).2) db) := by
    induction requests generalizing db es with
    | nil => exact ⟨es, h⟩
    | cons request _ ih => exact ih _ _ (h.step (.called request))
  exact hfold _ _ .start

def twice : List Request := prepared ++ [.activate "1.0.0" true (instant 90), .rollback 1 (instant 95)]

/-- The release is activated twice, the first activation is rolled back, and no version is active. -/
theorem ledger_lost : ∃ es db, Execution Step Database.empty es db ∧ ¬ Ledger es db := by
  obtain ⟨es, h⟩ := exists_execution twice
  refine ⟨es, _, h, ?_⟩
  intro hledger
  have hnone : (after twice).active .web = none := by decide +kernel
  have hsecond : ∃ a ∈ (after twice).activationJournal.rows, a.state = .committed ∧ .web ∈ a.components ∧
      ∀ b ∈ (after twice).activationJournal.rows, b.id ≤ a.id := by decide +kernel
  obtain ⟨a, ha, hstate, hcovers, hlast⟩ := hsecond
  have hshows : ledger.Shows (after twice).committed .web a.version :=
    ⟨a, ⟨⟨⟨ha, hstate⟩, hcovers⟩, fun b hb _ => hlast b hb.1⟩, rfl⟩
  rw [← hledger.active, hnone] at hshows
  cases hshows

theorem exists_careful (requests : List Request) (hcareful : ∀ request ∈ requests, ∀ id now, request ≠ .rollback id now) :
    ∃ es, Execution CarefulStep Database.empty es (after requests) := by
  unfold after
  have hfold (db : Database) (es : List Event) (h : Execution CarefulStep Database.empty es db) :
      ∃ es, Execution CarefulStep Database.empty es (requests.foldl (fun db request => (request.run db).2) db) := by
    induction requests generalizing db es with
    | nil => exact ⟨es, h⟩
    | cons request _ ih =>
      have hstep : CarefulStep db (.called request (request.run db).1) (request.run db).2 := by
        refine ⟨.called request, ?_⟩
        cases request with
        | rollback id now => exact absurd rfl (hcareful _ (by simp) id now)
        | _ => trivial
      exact ih (fun r hr => hcareful r (by simp [hr])) _ _ (h.step hstep)
  exact hfold _ _ .start

theorem prepared_lawful : ∃ es, (after prepared).active .web = some "1.0.0" ∧ Ledger es (after prepared) ∧
    ∀ e db', Step (after prepared) e db' → (Lawful es (after prepared) e db' ↔ Careful (after prepared) e) := by
  obtain ⟨es, h⟩ := exists_careful prepared (by simp [prepared])
  refine ⟨es, by decide, ?_⟩
  exact activations_lawful h

end Example

end WorkAgent.Operations
