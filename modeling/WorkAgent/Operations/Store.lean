import WorkAgent.Operations.Release

namespace WorkAgent.Operations

open Library
open Quota (Time)

inductive ReleaseState
  | candidate
  | active
  | superseded
  deriving DecidableEq

inductive JournalState
  | prepared
  | committed
  | rolledBack
  deriving DecidableEq

structure ReleaseRow where
  version : String
  manifest : ReleaseManifest
  state : ReleaseState
  installedAt : ℤ
  notifiedAt : Option ℤ
  deriving DecidableEq

structure ActiveRow where
  component : Component
  version : String
  activatedAt : ℤ
  activationID : ℕ
  deriving DecidableEq

structure Activation where
  id : ℕ
  version : String
  previous : List (Component × String)
  state : JournalState
  createdAt : ℤ
  completedAt : Option ℤ
  deriving DecidableEq

structure ReadinessRow where
  id : ℕ
  version : String
  readiness : Readiness
  recordedAt : ℤ
  deriving DecidableEq

structure Database where
  releases : Table ReleaseRow.version
  activeComponents : Table ActiveRow.component
  activationJournal : Table Activation.id
  releaseReadiness : Table ReadinessRow.id
  lastActivation : ℕ
  lastReadiness : ℕ

def Database.empty : Database := ⟨.empty, .empty, .empty, .empty, 0, 0⟩

structure ReleaseStatus where
  version : String
  state : ReleaseState
  manifest : ReleaseManifest
  installed : Time
  notifiedAt : Option Time
  readiness : Option Readiness
  deriving DecidableEq

def unixMilli (ms : ℤ) : Time := ⟨ms * 1000000⟩

inductive Destination
  | absent
  | unreadable
  | found (installed : Option ReleaseManifest) (verifies : Bool)
  deriving DecidableEq

structure Files where
  sourceVerifies : Bool
  destination : Destination
  copies : Bool
  deriving DecidableEq

namespace Database

variable (db : Database)

def active (c : Component) : Option String := (db.activeComponents.find? c).map (·.version)

def running : List String := db.activeComponents.rows.map (·.version)

def status (version : String) : Except Error ReleaseStatus := do
  let row ← orError (db.releases.find? version) .unknownVersion
  let latest := pick (fun b a => a.id < b.id) (db.releaseReadiness.rows.filter (·.version = version))
  return {
    version := row.version
    state := row.state
    manifest := row.manifest
    installed := unixMilli row.installedAt
    notifiedAt := row.notifiedAt.map unixMilli
    readiness := latest.map (·.readiness) }

def registerCandidate (manifest : ReleaseManifest) (installedAt : Time) : Database :=
  { db with releases := db.releases.insertOrIgnore ⟨manifest.version, manifest, .candidate, installedAt.unixMilli, none⟩ }

def install (files : Files) (manifest : ReleaseManifest) (installedAt : Time) : Except Error ReleaseStatus × Database :=
  let checked : Except Error Unit := do
    manifest.validate
    require files.sourceVerifies .integrity
  match checked with
  | .error e => (.error e, db)
  | .ok () =>
    let registered := db.registerCandidate manifest installedAt
    match files.destination with
    | .unreadable => (.error .copying, db)
    | .found installed verifies =>
      if ¬ installed.any (sameManifest · manifest) then (.error (.immutable manifest.version), db)
      else if ¬ verifies then (.error .integrity, db)
      else
        let recorded : Except Error ReleaseStatus := do
          let status ← registered.status manifest.version
          require (sameManifest status.manifest manifest) .conflict
          return status
        (recorded, registered)
    | .absent =>
      if files.copies then
        (.ok ⟨manifest.version, .candidate, manifest, installedAt, none, none⟩, registered)
      else (.error .copying, db)

def publishUpgrade (version : String) (publishes : Bool) (publishedAt : Time) : Except Error Database := do
  let status ← db.status version
  validateComponents status.manifest.includedComponents
  require publishes .publish
  return { db with releases := db.releases.update (·.version = version) (fun r => { r with notifiedAt := some publishedAt.unixMilli }) }

def recordReadiness (version : String) (readiness : Readiness) (now : Time) : Except Error Database := do
  let _ ← db.status version
  verifyReadiness version readiness
  let id := db.lastReadiness + 1
  return { db with
    releaseReadiness := db.releaseReadiness.insertOrIgnore ⟨id, version, readiness, now.unixMilli⟩
    lastReadiness := id }

def supersede (r : ReleaseRow) : ReleaseRow := { r with state := .superseded }

def setActive (r : ReleaseRow) : ReleaseRow := { r with state := .active }

def refreshReleaseStates : Database :=
  let superseded := db.releases.update (fun r => r.state = .active ∧ r.version ∉ db.running) supersede
  { db with releases := superseded.update (fun r => r.version ∈ db.running) setActive }

def minimumNotificationAge : ℤ := 60 * Time.second

def activateComponents (version : String) (now : Time) (id : ℕ) (components : List Component) : Table ActiveRow.component :=
  components.foldl (fun t c => t.upsert ⟨c, version, now.unixMilli, id⟩
    (fun r => { r with version := version, activatedAt := now.unixMilli, activationID := id })) db.activeComponents

def checkActivation (version : String) (verifies : Bool) (now : Time) : Except Error ReleaseManifest := do
  let status ← db.status version
  let notifiedAt ← orError status.notifiedAt .notice
  require (minimumNotificationAge ≤ now.ns - notifiedAt.ns) .notice
  let readiness ← orError status.readiness .freshReadiness
  require (notifiedAt.ns ≤ readiness.checkedAt.ns ∧ readiness.checkedAt.ns ≤ now.ns) .freshReadiness
  verifyReadiness status.version readiness
  require verifies .integrity
  return status.manifest

/-- `verifies` tells whether the artifacts in the release root have the sizes and digests of the manifest. -/
def activate (version : String) (verifies : Bool) (now : Time) : Except Error (Activation × Database) := do
  let manifest ← db.checkActivation version verifies now
  let previous := manifest.includedComponents.map fun c => (c, (db.active c).getD "")
  let id := db.lastActivation + 1
  let prepared : Activation := ⟨id, version, previous, .prepared, now.unixMilli, none⟩
  let activated := { db with
    activationJournal := db.activationJournal.insertOrIgnore prepared
    activeComponents := db.activateComponents version now id manifest.includedComponents
    lastActivation := id }
  let refreshed := activated.refreshReleaseStates
  return ({ prepared with state := .committed, completedAt := some now.unixMilli }, { refreshed with
    activationJournal := refreshed.activationJournal.update (·.id = id)
      (fun a => { a with state := .committed, completedAt := some now.unixMilli }) })

def restore (activation : Activation) (now : Time) (t : Table ActiveRow.component) (entry : Component × String) :
    Except Error (Table ActiveRow.component) := do
  require ((t.find? entry.1).any (·.version = activation.version)) (.stale entry.1)
  return if entry.2 = "" then t.delete (·.component = entry.1)
    else t.update (·.component = entry.1)
      (fun r => { r with version := entry.2, activatedAt := now.unixMilli, activationID := activation.id })

def sortedPrevious (previous : List (Component × String)) : List (Component × String) :=
  previous.mergeSort fun a b => a.1.name ≤ b.1.name

def rollback (id : ℕ) (now : Time) : Except Error (Activation × Database) := do
  let activation ← orError (db.activationJournal.find? id) .unknownActivation
  require (activation.state = .committed) .notCommitted
  let restored ← (sortedPrevious activation.previous).foldlM (restore activation now) db.activeComponents
  let rolledBack := { db with
    activeComponents := restored
    activationJournal := db.activationJournal.update (·.id = id)
      (fun a => { a with state := .rolledBack, completedAt := some now.unixMilli }) }
  return ({ activation with state := .rolledBack, completedAt := some now.unixMilli }, rolledBack.refreshReleaseStates)

end Database

end WorkAgent.Operations
