import WorkAgent.Library.Table
import Mathlib.Data.Option.Basic

namespace WorkAgent.Harness.SessionIndex

open Library

inductive Engine
  | harness
  | codex
  | kimi
  | acp
  deriving DecidableEq

inductive PermissionMode
  | readOnly
  | workspaceWrite
  | fullAccess
  deriving DecidableEq

structure CreationInput where
  engine : Engine
  acpCatalogID : Option String
  title : String
  workspace : String
  presetID : String
  modelID : Option String
  thinkingEffort : Option String
  permissionMode : Option PermissionMode
  deriving DecidableEq

structure Creation where
  operationID : String
  input : CreationInput
  deriving DecidableEq

/-- A session as the index keeps it; `rest` is all that neither the index nor its callers look at. -/
structure StoredSession where
  id : String
  creation : Option Creation
  updatedAt : ℤ
  rest : String
  deriving DecidableEq

structure Index where
  sessions : Table StoredSession.id
  cancelled : List String

def Index.empty : Index := ⟨.empty, []⟩

inductive Failure
  | operationDeleted
  | operationConflict
  | write
  deriving DecidableEq

inductive State
  | ready
  | deleting
  | deleted
  deriving DecidableEq

namespace StoredSession

variable (session : StoredSession)

def operationID : Option String := session.creation.map Creation.operationID

def cancelledIn (cancelled : List String) : Bool := session.operationID.any fun id => decide (id ∈ cancelled)

end StoredSession

namespace Index

variable (x : Index)

def list : List StoredSession :=
  (x.sessions.rows.filter fun session => !session.cancelledIn x.cancelled).mergeSort fun left right => decide (right.updatedAt ≤ left.updatedAt)

def find (operationID : String) : Option StoredSession := x.sessions.rows.find? fun session => session.operationID = some operationID

def operation (creation : Creation) : Except Failure (Option StoredSession) :=
  if creation.operationID ∈ x.cancelled then .error .operationDeleted
  else match x.find creation.operationID with
    | none => .ok none
    | some existing =>
      if existing.creation.map Creation.input ≠ some creation.input then .error .operationConflict else .ok (some existing)

def lookupOperation (operationID : String) : Option (Option StoredSession × State) :=
  match x.find operationID with
  | none => if operationID ∈ x.cancelled then some (none, .deleted) else none
  | some session => some (some session, if operationID ∈ x.cancelled then .deleting else .ready)

end Index

structure Store where
  memory : Index
  disk : Index

namespace Store

variable (s : Store)

def cancelOperation (operationID : String) (writes : Bool) : Except Failure Store :=
  if operationID ∈ s.memory.cancelled then .ok s
  else if writes then
    .ok ⟨{ s.memory with cancelled := s.memory.cancelled ++ [operationID] }, { s.disk with cancelled := s.memory.cancelled ++ [operationID] }⟩
  else .error .write

def set (session : StoredSession) (writes : Bool) : Except Failure Store :=
  if writes then
    .ok ⟨{ s.memory with sessions := s.memory.sessions.set session }, { s.disk with sessions := s.memory.sessions.set session }⟩
  else .error .write

def createOnce (session : StoredSession) (creation : Creation) (writes : Bool) : Except Failure (StoredSession × Store) :=
  match s.memory.operation creation with
  | .error failure => .error failure
  | .ok (some existing) => .ok (existing, s)
  | .ok none =>
    match s.set session writes with
    | .error failure => .error failure
    | .ok s' => .ok (session, s')

def cancelFor (session : StoredSession) (writes : Bool) : Except Failure Store :=
  match session.creation with
  | none => .ok s
  | some creation => s.cancelOperation creation.operationID writes

def delete (id : String) (writesOperation writesSessions : Bool) : Option Failure × Store :=
  match s.memory.sessions.find? id with
  | none => (none, s)
  | some session =>
    match s.cancelFor session writesOperation with
    | .error failure => (some failure, s)
    | .ok s =>
      if writesSessions then
        (none, ⟨{ s.memory with sessions := s.memory.sessions.delete fun row => row.id = id },
          { s.disk with sessions := s.memory.sessions.delete fun row => row.id = id }⟩)
      else (some .write, s)

end Store

structure Deletion where
  id : String
  record : StoredSession

structure Running where
  memory : Index
  live : Table StoredSession.id
  deletions : Table Deletion.id
  creations : List Creation

def Running.start (disk : Index) : Running :=
  ⟨disk, disk.list.foldl Table.insertOrIgnore .empty, .empty, []⟩

def sessionOf (operationID : String) : String := "session-op-" ++ operationID

def Running.deleteSession (r : Running) (disk : Index) (record : StoredSession) (writes : Bool) : Except Failure (Index × Running) :=
  if r.deletions.has record.id then .ok (disk, r)
  else match Store.cancelFor ⟨r.memory, disk⟩ record writes with
    | .error failure => .error failure
    | .ok s => .ok (s.disk, { r with
        memory := s.memory
        live := r.live.delete fun row => row.id = record.id
        deletions := r.deletions.insertOrIgnore ⟨record.id, record⟩ })

structure World where
  disk : Index
  running : Option Running

def World.start : World := ⟨.empty, none⟩

inductive Event
  | booted
  | crashed
  | begun (creation : Creation)
  | created (creation : Creation) (id : String)
  | rejected (creation : Creation) (failure : Failure)
  | abandoned (creation : Creation)
  | cancelled (operationID : String)
  | deleting (id : String)
  | deleted (id : String)
  | stored (id : String)
  | failed
  deriving DecidableEq

inductive Step : World → Event → World → Prop
  | boots {disk : Index} : Step ⟨disk, none⟩ .booted ⟨disk, some (.start disk)⟩
  | crashes {disk : Index} {r : Running} : Step ⟨disk, some r⟩ .crashed ⟨disk, none⟩
  -- a creation is checked, waits for its preset and its configuration, and is stored
  | finds {disk : Index} {r : Running} {creation : Creation} {existing : StoredSession} (h : r.memory.operation creation = .ok (some existing)) :
      Step ⟨disk, some r⟩ (.created creation existing.id) ⟨disk, some r⟩
  | refuses {disk : Index} {r : Running} {creation : Creation} {failure : Failure} (h : r.memory.operation creation = .error failure) :
      Step ⟨disk, some r⟩ (.rejected creation failure) ⟨disk, some r⟩
  | begins {disk : Index} {r : Running} {creation : Creation} (h : r.memory.operation creation = .ok none) :
      Step ⟨disk, some r⟩ (.begun creation) ⟨disk, some { r with creations := r.creations ++ [creation] }⟩
  | abandons {disk : Index} {r : Running} {creation : Creation} (h : creation ∈ r.creations) :
      Step ⟨disk, some r⟩ (.abandoned creation) ⟨disk, some { r with creations := r.creations.erase creation }⟩
  | commits {disk : Index} {r : Running} {creation : Creation} {updatedAt : ℤ} {rest : String} {writes : Bool} {frozen stored : StoredSession}
      {s s' : Store} (h : creation ∈ r.creations)
      (honce : Store.createOnce ⟨r.memory, disk⟩ ⟨sessionOf creation.operationID, some creation, updatedAt, rest⟩ creation writes = .ok (stored, s))
      (hfrozen : frozen = { (r.live.find? (sessionOf creation.operationID)).getD stored with id := sessionOf creation.operationID })
      (hset : s.set frozen true = .ok s') :
      Step ⟨disk, some r⟩ (.created creation (sessionOf creation.operationID))
        ⟨s'.disk, some { r with memory := s'.memory, live := r.live.set frozen, creations := r.creations.erase creation }⟩
  | persistFails {disk : Index} {r : Running} {creation : Creation} {updatedAt : ℤ} {rest : String} {writes : Bool} {frozen stored : StoredSession}
      {s : Store} (h : creation ∈ r.creations)
      (honce : Store.createOnce ⟨r.memory, disk⟩ ⟨sessionOf creation.operationID, some creation, updatedAt, rest⟩ creation writes = .ok (stored, s))
      (hfrozen : frozen = { (r.live.find? (sessionOf creation.operationID)).getD stored with id := sessionOf creation.operationID }) :
      Step ⟨disk, some r⟩ (.rejected creation .write)
        ⟨s.disk, some { r with memory := s.memory, live := r.live.set frozen, creations := r.creations.erase creation }⟩
  | commitFails {disk : Index} {r : Running} {creation : Creation} {updatedAt : ℤ} {rest : String} {writes : Bool} {failure : Failure}
      (h : creation ∈ r.creations)
      (honce : Store.createOnce ⟨r.memory, disk⟩ ⟨sessionOf creation.operationID, some creation, updatedAt, rest⟩ creation writes = .error failure) :
      Step ⟨disk, some r⟩ (.rejected creation failure) ⟨disk, some { r with creations := r.creations.erase creation }⟩
  | diesCreating {disk : Index} {r : Running} {creation : Creation} {updatedAt : ℤ} {rest : String} {writes : Bool} {stored : StoredSession}
      {s : Store} (h : creation ∈ r.creations)
      (honce : Store.createOnce ⟨r.memory, disk⟩ ⟨sessionOf creation.operationID, some creation, updatedAt, rest⟩ creation writes = .ok (stored, s)) :
      Step ⟨disk, some r⟩ .crashed ⟨s.disk, none⟩
  -- a session without an operation, under an ID of its own
  | plain {disk : Index} {r : Running} {session : StoredSession} {s : Store} (hcreation : session.creation = none)
      (hid : ∀ operationID, session.id ≠ sessionOf operationID) (hlive : r.live.find? session.id = none)
      (hdeletions : r.deletions.find? session.id = none) (hset : Store.set ⟨r.memory, disk⟩ session true = .ok s) :
      Step ⟨disk, some r⟩ (.stored session.id) ⟨s.disk, some { r with memory := s.memory, live := r.live.set session }⟩
  | plainFails {disk : Index} {r : Running} {session : StoredSession} (hcreation : session.creation = none)
      (hid : ∀ operationID, session.id ≠ sessionOf operationID) (hlive : r.live.find? session.id = none)
      (hdeletions : r.deletions.find? session.id = none) : Step ⟨disk, some r⟩ .failed ⟨disk, some { r with live := r.live.set session }⟩
  -- `#persist` of a session that is live, whose record has changed
  | persists {disk : Index} {r : Running} {record : StoredSession} {updatedAt : ℤ} {rest : String} {s : Store} (hlive : record ∈ r.live)
      (hset : Store.set ⟨r.memory, disk⟩ { record with updatedAt := updatedAt, rest := rest } true = .ok s) :
      Step ⟨disk, some r⟩ (.stored record.id)
        ⟨s.disk, some { r with memory := s.memory, live := r.live.set { record with updatedAt := updatedAt, rest := rest } }⟩
  | loses {disk : Index} {r : Running} {record : StoredSession} {updatedAt : ℤ} {rest : String} (hlive : record ∈ r.live) :
      Step ⟨disk, some r⟩ .failed ⟨disk, some { r with live := r.live.set { record with updatedAt := updatedAt, rest := rest } }⟩
  -- an operation is cancelled, and its session, where it has one, begins to be deleted
  | cancels {disk : Index} {r : Running} {operationID : String} {writes : Bool} {s : Store}
      (hcancel : Store.cancelOperation ⟨r.memory, disk⟩ operationID writes = .ok s) (hnone : s.memory.find operationID = none) :
      Step ⟨disk, some r⟩ (.cancelled operationID) ⟨s.disk, some { r with memory := s.memory }⟩
  | cancelsStored {disk disk' : Index} {r r' : Running} {operationID : String} {writes again : Bool} {s : Store} {stored : StoredSession}
      (hcancel : Store.cancelOperation ⟨r.memory, disk⟩ operationID writes = .ok s) (hstored : s.memory.find operationID = some stored)
      (hdelete : Running.deleteSession { r with memory := s.memory } s.disk ((r.live.find? stored.id).getD stored) again = .ok (disk', r')) :
      Step ⟨disk, some r⟩ (.cancelled operationID) ⟨disk', some r'⟩
  | cancelFails {disk : Index} {r : Running} {operationID : String} {writes : Bool} {failure : Failure}
      (hcancel : Store.cancelOperation ⟨r.memory, disk⟩ operationID writes = .error failure) : Step ⟨disk, some r⟩ .failed ⟨disk, some r⟩
  | deletes {disk disk' : Index} {r r' : Running} {record : StoredSession} {writes : Bool} (hlive : record ∈ r.live)
      (hdelete : r.deleteSession disk record writes = .ok (disk', r')) : Step ⟨disk, some r⟩ (.deleting record.id) ⟨disk', some r'⟩
  | deleteFails {disk : Index} {r : Running} {record : StoredSession} {writes : Bool} {failure : Failure} (hlive : record ∈ r.live)
      (hdelete : r.deleteSession disk record writes = .error failure) : Step ⟨disk, some r⟩ .failed ⟨disk, some r⟩
  -- what a deletion closes and removes besides its row may fail, as the writes of the index may
  | finishes {disk : Index} {r : Running} {deletion : Deletion} {writesOperation writesSessions : Bool} {s : Store} (h : deletion ∈ r.deletions)
      (hdelete : Store.delete ⟨r.memory, disk⟩ deletion.id writesOperation writesSessions = (none, s)) :
      Step ⟨disk, some r⟩ (.deleted deletion.id)
        ⟨s.disk, some { r with memory := s.memory, deletions := r.deletions.delete fun row => row.id = deletion.id }⟩
  | restores {disk : Index} {r : Running} {deletion : Deletion} {writesOperation writesSessions : Bool} {failure : Failure} {s : Store}
      (h : deletion ∈ r.deletions)
      (hdelete : Store.delete ⟨r.memory, disk⟩ deletion.id writesOperation writesSessions = (some failure, s)) :
      Step ⟨disk, some r⟩ .failed ⟨s.disk, some { r with
        memory := s.memory
        live := r.live.set deletion.record
        deletions := r.deletions.delete fun row => row.id = deletion.id }⟩
  | closeFails {disk : Index} {r : Running} {deletion : Deletion} (h : deletion ∈ r.deletions) :
      Step ⟨disk, some r⟩ .failed ⟨disk, some { r with
        live := r.live.set deletion.record
        deletions := r.deletions.delete fun row => row.id = deletion.id }⟩
  | diesDeleting {disk : Index} {r : Running} {deletion : Deletion} {failure : Failure} {s : Store} (h : deletion ∈ r.deletions)
      (hdelete : Store.delete ⟨r.memory, disk⟩ deletion.id true false = (some failure, s)) : Step ⟨disk, some r⟩ .crashed ⟨s.disk, none⟩

end WorkAgent.Harness.SessionIndex
