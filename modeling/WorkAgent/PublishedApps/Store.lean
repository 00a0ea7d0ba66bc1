import WorkAgent.Library.Table
import WorkAgent.Library.Text
import WorkAgent.Quota.Calendar

namespace WorkAgent.PublishedApps

open Library
open Quota (Time)

inductive Error
  | notFound
  | invalid
  | ports
  | employeePorts
  | versionConflict
  | database
  deriving DecidableEq

structure App where
  id : String
  ownerSID : String
  ownerID : ℤ
  workspaceID : String
  name : String
  kind : String
  entry : String
  allowedOrigins : List String
  access : String
  members : List ℤ
  version : String
  previewVersion : String
  versions : List String
  port : ℤ
  previewPort : ℤ
  enabled : Bool
  shareToken : String
  password : String
  expiresAt : Time
  revision : ℤ
  createdAt : Time
  deriving DecidableEq

def defaultMaxEmployeePorts : ℤ := 3

def defaultValidity : ℤ := 5 * 24 * 3600 * Time.second

def App.marshal (a : App) : App := { a with ownerSID := "" }

structure AppRow where
  id : String
  ownerSID : String
  payload : App
  deleted : Bool
  deriving DecidableEq

def AppRow.app (row : AppRow) : App := { row.payload with ownerSID := row.ownerSID }

structure PortRow where
  port : ℤ
  appID : String
  preview : Bool
  deriving DecidableEq

structure URL where
  scheme : String
  user : Option String
  hostname : String
  path : String
  rawQuery : String
  fragment : String

structure Database where
  apps : Table AppRow.id
  ports : Table PortRow.port
  savedRange : Option (ℤ × ℤ)
  savedMax : Option ℤ

def Database.empty : Database := ⟨.empty, .empty, none, none⟩

structure Limits where
  first : ℤ
  last : ℤ
  maxPerEmployee : ℤ
  deriving DecidableEq

structure Store where
  db : Database
  limits : Limits

def validRange (first last : ℤ) : Bool := 1024 ≤ first && last ≤ 65535 && 1 ≤ last - first

def validAccess (access : String) : Bool :=
  access ∈ ["owner", "members", "authenticated", "token", "password", "public"]

namespace App

variable (a : App)

def validate (parse : String → Option URL) : Bool :=
  a.name ≠ "" && a.name.utf8ByteSize ≤ 120 && a.workspaceID ≠ "" && a.workspaceID.utf8ByteSize ≤ 160 &&
  (a.kind = "static" || a.kind = "node" || a.kind = "python") &&
  !(a.entry = "" || a.entry.toList.any (fun c => c = '\\' || c = ':' || c = '\x00') || "/".toList.isPrefixOf a.entry.toList ||
    clean a.entry ≠ a.entry || a.entry = ".." || "../".toList.isPrefixOf a.entry.toList) &&
  a.allowedOrigins.length ≤ 32 &&
  a.allowedOrigins.all fun raw => match parse raw with
    | none => false
    | some u => u.hostname ≠ "" && (u.scheme = "http" || u.scheme = "https") && u.user = none && u.rawQuery = "" && u.fragment = "" &&
      (u.path = "" || u.path = "/")

def expired (now : Time) : Bool := !(a.expiresAt = .zero) && a.expiresAt.ns ≤ now.ns

def allows (now : Time) (userID : ℤ) (preview : Bool) : Bool :=
  if preview then userID ≠ 0 && userID = a.ownerID
  else if !a.enabled || a.expired now then false
  else if a.access = "public" then true
  else if userID = 0 then false
  else if userID = a.ownerID || a.access = "authenticated" then true
  else a.access = "members" && userID ∈ a.members

def created (id : String) (port : ℤ) (now : Time) : App :=
  { a with
    id := id
    port := port
    previewPort := port + 1
    access := "owner"
    members := []
    versions := []
    version := ""
    previewVersion := ""
    enabled := false
    revision := 1
    createdAt := now }

def portRows : List PortRow := [⟨a.port, a.id, false⟩, ⟨a.previewPort, a.id, true⟩]

end App

namespace Database

variable (db : Database)

def live : List AppRow := db.apps.rows.filter fun row => !row.deleted

def held (ownerSID : String) : ℕ :=
  db.ports.rows.countP fun p => !p.preview &&
    db.apps.rows.any fun existing => existing.id = p.appID && !existing.deleted && existing.ownerSID = ownerSID

def reserve (a : App) : Except Error Database :=
  match db.ports.insert? ⟨a.port, a.id, false⟩ with
  | none => .error .database
  | some ports =>
    match ports.insert? ⟨a.previewPort, a.id, true⟩ with
    | none => .error .database
    | some ports => .ok { db with ports := ports }

def write (a : App) : Database := { db with apps := db.apps.update (fun row => row.id = a.id) fun row => { row with payload := a.marshal } }

def clear : Database := { db with ports := .empty }

def remap (db : Database) (port : ℤ) : List App → Except Error (List String × Database)
  | [] => .ok ([], db)
  | a :: rest => do
    let moved : App := { a with port := port, previewPort := port + 1 }
    let next ← (db.write moved).reserve moved
    let (changed, last) ← next.remap (port + 2) rest
    return (if a.port ≠ port ∨ a.previewPort ≠ port + 1 then a.id :: changed else changed, last)

def remove (id ownerSID : String) : Database :=
  { db with
    apps := db.apps.update (fun row => row.id = id ∧ row.ownerSID = ownerSID ∧ row.deleted = false) fun row => { row with deleted := true }
    ports := db.ports.delete fun p => p.appID = id }

def get (id : String) : Except Error App :=
  match db.apps.find? id with
  | none => .error .notFound
  | some row => if row.deleted then .error .notFound else .ok row.app

def loadRange (defaults : Limits) : Except Error (Bool × Limits) :=
  match db.savedRange with
  | none => .ok (false, defaults)
  | some (first, last) =>
    if validRange first last then .ok (true, { defaults with first := first, last := last }) else .error .invalid

def loadMax (limits : Limits) : Except Error Limits :=
  match db.savedMax with
  | none => .ok limits
  | some max => if max < 1 then .error .invalid else .ok { limits with maxPerEmployee := max }

def loadSettings (defaults : Limits) : Except Error (Bool × Limits) := do
  let (saved, limits) ← db.loadRange defaults
  let limits ← db.loadMax limits
  return (saved, limits)

end Database

namespace Store

variable (s : Store)

def setRange (first last : ℤ) : Except Error (List String × Store) :=
  if ¬ validRange first last then .error .invalid
  else if last - first + 1 < 2 * s.db.live.length then .error .ports
  else do
    let (changed, db) ← s.db.clear.remap first (s.db.live.map AppRow.payload)
    return (changed, ⟨{ db with savedRange := some (first, last) }, { s.limits with first := first, last := last }⟩)

def setMaxEmployeePorts (max : ℤ) : Except Error Store :=
  if max < 1 then .error .invalid
  else .ok ⟨{ s.db with savedMax := some max }, { s.limits with maxPerEmployee := max }⟩

def candidates : List ℤ := (List.range (s.limits.last - s.limits.first).toNat).map fun i : ℕ => s.limits.first + i

def free (port : ℤ) : Bool := !s.db.ports.has port && !s.db.ports.has (port + 1)

def create (parse : String → Option URL) (a : App) (id : String) (now : Time) : Except Error (App × Store) :=
  if ¬ a.validate parse then .error .invalid
  else if s.limits.maxPerEmployee ≤ s.db.held a.ownerSID then .error .employeePorts
  else match s.candidates.find? s.free with
    | none => .error .ports
    | some port =>
      let created := a.created id port now
      match s.db.apps.insert? ⟨id, a.ownerSID, created.marshal, false⟩ with
      | none => .error .database
      | some apps => do
        let db ← Database.reserve { s.db with apps := apps } created
        return (created, { s with db := db })

def update (a : App) (expected : ℤ) : Except Error (App × Store) :=
  if ¬ validAccess a.access ∨ 1000 < a.members.length then .error .invalid
  else do
    let current ← s.db.get a.id
    if current.revision ≠ expected ∨ current.ownerSID ≠ a.ownerSID then .error .versionConflict
    else
      let updated : App := { a with revision := expected + 1 }
      return (updated, { s with db := s.db.write updated })

def delete (id ownerSID : String) : Except Error Store :=
  if s.db.apps.count (fun row => row.id = id ∧ row.ownerSID = ownerSID ∧ row.deleted = false) = 0 then .error .notFound
  else .ok { s with db := s.db.remove id ownerSID }

end Store

def Database.start (db : Database) (first last max : ℤ) : Except Error Store :=
  if ¬ validRange first last then .error .invalid
  else do
    let max := if max < 1 then defaultMaxEmployeePorts else max
    let (saved, limits) ← db.loadSettings ⟨first, last, max⟩
    if saved then return ⟨db, limits⟩
    else
      let (_, s) ← Store.setRange ⟨db, limits⟩ first last
      s.setMaxEmployeePorts max

inductive Call
  | create (a : App) (id : String) (now : Time)
  | get (id : String)
  | update (a : App) (expected : ℤ)
  | delete (id ownerSID : String)
  | setRange (first last : ℤ)
  | setMaxEmployeePorts (max : ℤ)
  deriving DecidableEq

inductive Answer
  | done
  | app (a : App)
  | changed (ids : List String)
  | failed (error : Error)
  deriving DecidableEq

namespace Store

def call (parse : String → Option URL) (s : Store) : Call → Answer × Store
  | .create a id now =>
    match s.create parse a id now with
    | .ok (created, s') => (.app created, s')
    | .error error => (.failed error, s)
  | .get id =>
    match s.db.get id with
    | .ok a => (.app a, s)
    | .error error => (.failed error, s)
  | .update a expected =>
    match s.update a expected with
    | .ok (updated, s') => (.app updated, s')
    | .error error => (.failed error, s)
  | .delete id ownerSID =>
    match s.delete id ownerSID with
    | .ok s' => (.done, s')
    | .error error => (.failed error, s)
  | .setRange first last =>
    match s.setRange first last with
    | .ok (changed, s') => (.changed changed, s')
    | .error error => (.failed error, s)
  | .setMaxEmployeePorts max =>
    match s.setMaxEmployeePorts max with
    | .ok s' => (.done, s')
    | .error error => (.failed error, s)

end Store

/-- The database, what the open store holds in memory, and the apps that `Get` has returned. -/
structure World where
  db : Database
  limits : Option Limits
  reads : List App

def World.start : World := ⟨.empty, none, []⟩

structure App.Edited (read a : App) : Prop where
  id : a.id = read.id
  ownerSID : a.ownerSID = read.ownerSID
  port : a.port = read.port
  previewPort : a.previewPort = read.previewPort

def Call.Made (reads : List App) : Call → Prop
  | .update a expected => ∃ read ∈ reads, read.Edited a ∧ expected = read.revision
  | _ => True

def Call.read : Call → Answer → List App
  | .get _, .app a => [a]
  | _, _ => []

inductive Event
  | called (call : Call) (answer : Answer)
  | opened (first last max : ℤ)
  | closed
  deriving DecidableEq

variable (parse : String → Option URL)

inductive Step : World → Event → World → Prop
  | calls {db : Database} {limits : Limits} {reads : List App} (call : Call) (h : call.Made reads) :
      Step ⟨db, some limits, reads⟩ (.called call (Store.call parse ⟨db, limits⟩ call).1)
        ⟨(Store.call parse ⟨db, limits⟩ call).2.db, some (Store.call parse ⟨db, limits⟩ call).2.limits,
          reads ++ call.read (Store.call parse ⟨db, limits⟩ call).1⟩
  | fails {w : World} (call : Call) : Step w (.called call (.failed .database)) w
  | opens {db : Database} {reads : List App} {first last max : ℤ} {s : Store} (h : db.start first last max = .ok s) :
      Step ⟨db, none, reads⟩ (.opened first last max) ⟨s.db, some s.limits, reads⟩
  | breaks {db : Database} {reads : List App} {first last max : ℤ} {limits : Limits} {changed : List String} {s : Store}
      (hload : db.loadSettings ⟨first, last, max⟩ = .ok (false, limits))
      (hrange : Store.setRange ⟨db, limits⟩ first last = .ok (changed, s)) :
      Step ⟨db, none, reads⟩ .closed ⟨s.db, none, reads⟩
  | closes {db : Database} {limits : Option Limits} {reads : List App} : Step ⟨db, limits, reads⟩ .closed ⟨db, none, reads⟩

end WorkAgent.PublishedApps
