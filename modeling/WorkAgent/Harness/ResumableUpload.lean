import WorkAgent.Library.Table
import WorkAgent.Library.Executions
import WorkAgent.Library.Cuts
import WorkAgent.Harness.Strings

namespace WorkAgent.Harness.Uploads

open Library

abbrev Bytes := List UInt8

abbrev Instant := ℤ

structure WorkspaceEntry where
  path : String
  size : ℕ
  deriving DecidableEq

structure UploadInput where
  path : String
  name : String
  size : ℕ
  lastModified : ℕ
  conflict : Bool

structure UploadSession where
  id : UUID
  workspaceId : String
  path : String
  name : String
  size : ℕ
  lastModified : ℕ
  offset : ℕ
  createdAt : Instant
  updatedAt : Instant
  completed : Option WorkspaceEntry
  conflict : Bool
  deriving DecidableEq

structure Part where
  id : UUID
  bytes : Bytes
  deriving DecidableEq

structure Published where
  workspaceId : String
  path : String
  bytes : Bytes
  deriving DecidableEq

structure Disk where
  parts : Table Part.id
  rows : Table UploadSession.id
  files : List Published

def chunkLimit : ℕ := 8 * 1024 * 1024

def lifetime : Instant := 7 * 24 * 60 * 60 * 1000

def maxUploadBytes : ℕ := 5 * 1024 * 1024 * 1024

def maxSafeInteger : ℕ := 2 ^ 53 - 1

namespace Disk

def empty : Disk := ⟨.empty, .empty, []⟩

variable (disk : Disk)

def removeData (id : UUID) : Disk := { disk with parts := disk.parts.delete (fun part => part.id = id) }

def removeMetadata (id : UUID) : Disk := { disk with rows := disk.rows.delete (fun row => row.id = id) }

def save (row : UploadSession) : Disk := { disk with rows := disk.rows.set row }

def addPart (id : UUID) : Disk := { disk with parts := disk.parts.insertOrIgnore ⟨id, []⟩ }

def setBytes (id : UUID) (bytes : Bytes) : Disk :=
  { disk with parts := disk.parts.update (fun part => part.id = id) (fun part => { part with bytes := bytes }) }

def expired (now : Instant) (busy : UUID → Bool) (row : UploadSession) : Bool :=
  now - row.updatedAt > lifetime ∧ ¬ busy row.id

def cleanupWrites (now : Instant) (busy : UUID → Bool) : List (Disk → Disk) :=
  (disk.rows.rows.filter (expired now busy)).flatMap fun row => [(·.removeData row.id), (·.removeMetadata row.id)]

def cleanup (now : Instant) (busy : UUID → Bool) : Disk := applyAll (disk.cleanupWrites now busy) disk

def get (validate : String → String → Bool) (workspaceId : String) (id : UUID) : Except String UploadSession :=
  match disk.rows.find? id with
  | none => throw "upload_not_found"
  | some row =>
    if row.workspaceId ≠ workspaceId then throw "upload_not_found"
    else if row.completed.isSome then
      if validate workspaceId "" then return row else throw "invalid_relative_path"
    else if ¬ validate workspaceId row.path then throw "invalid_relative_path"
    else match disk.parts.find? id with
      | none => throw "ENOENT"
      | some part => return { row with offset := part.bytes.length }

def listed (validate : String → String → Bool) (workspaceId : String) : Except String (List UploadSession) :=
  (disk.rows.rows.filter fun row => row.workspaceId = workspaceId ∧ row.completed = none).mapM fun row =>
    disk.get validate workspaceId row.id

end Disk

def UploadInput.accepted (input : UploadInput) : Bool :=
  input.path ≠ "" ∧ codeUnits input.name ≤ 255 ∧ input.size ≤ maxSafeInteger ∧ input.lastModified ≤ maxSafeInteger

def UploadInput.row (input : UploadInput) (id : UUID) (workspaceId : String) (now : Instant) : UploadSession where
  id := id
  workspaceId := workspaceId
  path := input.path
  name := input.name
  size := input.size
  lastModified := input.lastModified
  offset := 0
  createdAt := now
  updatedAt := now
  completed := none
  conflict := input.conflict

/-- What an `append` or a `finish` waits for. A chunk is added to `received` when it arrives. -/
inductive Phase
  | opening
  | streaming (received : Bytes)
  | writing (received value : Bytes) (position : ℕ)
  | syncing (received : Bytes)
  | truncating (received : Bytes)
  | closing (appended : Option Bytes)
  | committing (copied : Bytes)
  | published (entry : WorkspaceEntry)
  deriving DecidableEq

structure Task where
  row : UploadSession
  phase : Phase
  deriving DecidableEq

def Task.id (task : Task) : UUID := task.row.id

structure World where
  disk : Disk
  tasks : Table Task.id
  drawn : List UUID
  seen : List Instant

def World.start : World := ⟨.empty, .empty, [], []⟩

inductive Call
  | create (now : Instant) (id : UUID) (workspaceId : String) (input : UploadInput)
  | list (now : Instant) (workspaceId : String)
  | cancel (workspaceId : String) (id : UUID)
  | cleanup (now : Instant)

def Call.drawn : Call → List UUID
  | create _ id _ _ => [id]
  | _ => []

def Call.seen : Call → List Instant
  | create now _ _ _ => [now]
  | list now _ => [now]
  | cancel _ _ => []
  | cleanup now => [now]

namespace World

variable (validate : String → String → Bool) (w : World)

def busy (id : UUID) : Bool := (w.tasks.find? id).isSome

def createWrites (now : Instant) (id : UUID) (workspaceId : String) (input : UploadInput) : List (Disk → Disk) :=
  if ¬ input.accepted ∨ maxUploadBytes < input.size ∨ ¬ validate workspaceId input.path then []
  else w.disk.cleanupWrites now w.busy ++
    if 32 ≤ (w.disk.cleanup now w.busy).parts.rows.length then []
    else [(·.addPart id), (·.save (input.row id workspaceId now))]

def cancelWrites (workspaceId : String) (id : UUID) : List (Disk → Disk) :=
  if w.busy id then []
  else match w.disk.get validate workspaceId id with
    | .error _ => []
    | .ok _ => [(·.removeData id), (·.removeMetadata id)]

def writes : Call → List (Disk → Disk)
  | .create now id workspaceId input => w.createWrites validate now id workspaceId input
  | .list now workspaceId => if validate workspaceId "" then w.disk.cleanupWrites now w.busy else []
  | .cancel workspaceId id => w.cancelWrites validate workspaceId id
  | .cleanup now => w.disk.cleanupWrites now w.busy

def list (now : Instant) (workspaceId : String) : Except String (List UploadSession) :=
  if validate workspaceId "" then (w.disk.cleanup now w.busy).listed validate workspaceId
  else throw "invalid_relative_path"

def creates (now : Instant) (workspaceId : String) (input : UploadInput) : Bool :=
  input.accepted ∧ input.size ≤ maxUploadBytes ∧ validate workspaceId input.path ∧
    (w.disk.cleanup now w.busy).parts.rows.length < 32

def withPhase (task : Task) (phase : Phase) : World := { w with tasks := w.tasks.set { task with phase := phase } }

def release (task : Task) : World := { w with tasks := w.tasks.delete (fun t => t.id = task.id) }

def withDisk (disk : Disk) : World := { w with disk := disk }

def bytes (id : UUID) : Option Bytes := (w.disk.parts.find? id).map Part.bytes

def dead : World := { w with tasks := .empty }

end World

def overwrite (bytes : Bytes) (position : ℕ) (value : Bytes) : Bytes :=
  bytes.take position ++ List.replicate (position - bytes.length) 0 ++ value ++ bytes.drop (position + value.length)

def Phase.afterWrite (received value : Bytes) (position : ℕ) : Phase :=
  if position < value.length then .writing received value position else .streaming (received ++ value)

def receiptWrites (keepReceipts : Bool) (row : UploadSession) (entry : WorkspaceEntry) (now : Instant) :
    List (Disk → Disk) :=
  if keepReceipts then
    [(·.save { row with completed := some entry, updatedAt := now }), (·.removeData row.id)]
  else [(·.removeData row.id), (·.removeMetadata row.id)]

inductive Cut
  | none
  | call (call : Call) (k : ℕ)
  | finish (k : ℕ)

/-- What the steps tell of the uploads. A crash leaves some bytes of the running appends, and takes
the receipts of the uploads that have been published but not recorded. -/
inductive Event
  | quiet
  | called (call : Call) (k : ℕ)
  | appended (id : UUID) (bytes : Bytes)
  | refused (id : UUID)
  | untruncated (id : UUID)
  | unsaved (id : UUID)
  | published (id : UUID) (file : Published)
  | unfinished (id : UUID) (k : ℕ)
  | crashed (left : UUID → Bytes) (lost : UUID → Bool) (cut : Cut)

def Phase.isPublished : Phase → Bool
  | .published _ => true
  | _ => false

namespace World

variable (w : World)

def left (id : UUID) : Bytes :=
  (w.tasks.find? id).elim [] fun task => ((w.bytes id).getD []).drop task.row.offset

def unreceipted (id : UUID) : Bool := (w.tasks.find? id).any fun task => task.phase.isPublished

def after (call : Call) (writes : List (Disk → Disk)) : World :=
  { w with disk := applyAll writes w.disk, drawn := call.drawn ++ w.drawn, seen := call.seen ++ w.seen }

def write (task : Task) (bytes : Bytes) (phase : Phase) : World :=
  (w.withDisk (w.disk.setBytes task.id bytes)).withPhase task phase

end World

def Phase.arrived (row : UploadSession) (received value : Bytes) : Phase :=
  if chunkLimit < received.length + value.length ∨ row.size < row.offset + received.length + value.length then
    .truncating received
  else .afterWrite received value 0

/-- The steps of the uploads, of one process after the other. A step of a task is a stretch between
two awaits, or what the system does for it meanwhile; a system call may fail. A call makes all of
its writes, or some when one of them fails. -/
inductive Step (validate : String → String → Bool) (keepReceipts : Bool) (w : World) : Event → World → Prop
  | call (call : Call) (k : ℕ) (hfresh : ∀ id ∈ call.drawn, id ∉ w.drawn) :
      Step validate keepReceipts w (.called call k) (w.after call ((w.writes validate call).take k))
  | callDies (call : Call) (k : ℕ) (hfresh : ∀ id ∈ call.drawn, id ∉ w.drawn) :
      Step validate keepReceipts w (.crashed w.left w.unreceipted (.call call k))
        (w.after call ((w.writes validate call).take k)).dead
  | died : Step validate keepReceipts w (.crashed w.left w.unreceipted .none) w.dead
  | startAppend (workspaceId : String) (id : UUID) (offset : ℕ) (row : UploadSession) (hbusy : w.busy id = false)
      (hget : w.disk.get validate workspaceId id = .ok row) (hoffset : offset = row.offset) :
      Step validate keepReceipts w .quiet { w with tasks := w.tasks.set ⟨row, .opening⟩ }
  | opened (task : Task) (htask : task ∈ w.tasks) (bytes : Bytes) (hphase : task.phase = .opening)
      (hbytes : w.bytes task.id = some bytes) :
      Step validate keepReceipts w .quiet (w.withPhase task (.streaming []))
  | openFails (task : Task) (htask : task ∈ w.tasks) (hphase : task.phase = .opening) :
      Step validate keepReceipts w (.refused task.id) (w.release task)
  | chunk (task : Task) (htask : task ∈ w.tasks) (received value : Bytes) (hphase : task.phase = .streaming received) :
      Step validate keepReceipts w .quiet (w.withPhase task (.arrived task.row received value))
  | wrote (task : Task) (htask : task ∈ w.tasks) (received value bytes : Bytes) (position n : ℕ)
      (hphase : task.phase = .writing received value position) (hn : position + n ≤ value.length)
      (hbytes : w.bytes task.id = some bytes) :
      Step validate keepReceipts w .quiet
        (w.write task (overwrite bytes (task.row.offset + received.length + position) ((value.drop position).take n))
          (.afterWrite received value (position + n)))
  | writeFails (task : Task) (htask : task ∈ w.tasks) (received value bytes : Bytes) (position n : ℕ)
      (hphase : task.phase = .writing received value position) (hn : position + n ≤ value.length)
      (hbytes : w.bytes task.id = some bytes) :
      Step validate keepReceipts w .quiet
        (w.write task (overwrite bytes (task.row.offset + received.length + position) ((value.drop position).take n))
          (.truncating (received ++ value)))
  | sourceFails (task : Task) (htask : task ∈ w.tasks) (received : Bytes) (hphase : task.phase = .streaming received) :
      Step validate keepReceipts w .quiet (w.withPhase task (.truncating received))
  | sourceEnds (task : Task) (htask : task ∈ w.tasks) (received : Bytes) (hphase : task.phase = .streaming received) :
      Step validate keepReceipts w .quiet (w.withPhase task (.syncing received))
  | synced (task : Task) (htask : task ∈ w.tasks) (received : Bytes) (hphase : task.phase = .syncing received) :
      Step validate keepReceipts w .quiet (w.withPhase task (.closing (some received)))
  | syncFails (task : Task) (htask : task ∈ w.tasks) (received : Bytes) (hphase : task.phase = .syncing received) :
      Step validate keepReceipts w .quiet (w.withPhase task (.truncating received))
  | truncated (task : Task) (htask : task ∈ w.tasks) (received bytes : Bytes) (hphase : task.phase = .truncating received)
      (hbytes : w.bytes task.id = some bytes) :
      Step validate keepReceipts w .quiet (w.write task (bytes.take task.row.offset) (.closing none))
  | truncateFails (task : Task) (htask : task ∈ w.tasks) (received : Bytes) (hphase : task.phase = .truncating received) :
      Step validate keepReceipts w (.untruncated task.id) (w.withPhase task (.closing none))
  | closed (task : Task) (htask : task ∈ w.tasks) (hphase : task.phase = .closing none) :
      Step validate keepReceipts w (.refused task.id) (w.release task)
  | saved (task : Task) (htask : task ∈ w.tasks) (received : Bytes) (now : Instant)
      (hphase : task.phase = .closing (some received)) :
      Step validate keepReceipts w (.appended task.id received)
        ((w.withDisk (w.disk.save { task.row with offset := task.row.offset + received.length, updatedAt := now })).release task)
  | closeOrSaveFails (task : Task) (htask : task ∈ w.tasks) (received : Bytes)
      (hphase : task.phase = .closing (some received)) :
      Step validate keepReceipts w (.unsaved task.id) (w.release task)
  | startFinish (workspaceId : String) (id : UUID) (row : UploadSession) (hbusy : w.busy id = false)
      (hget : w.disk.get validate workspaceId id = .ok row) (hoffset : row.offset = row.size) (hcompleted : row.completed = none) :
      Step validate keepReceipts w .quiet { w with tasks := w.tasks.set ⟨row, .committing []⟩ }
  | read (task : Task) (htask : task ∈ w.tasks) (copied bytes : Bytes) (n : ℕ) (hphase : task.phase = .committing copied)
      (hbytes : w.bytes task.id = some bytes) :
      Step validate keepReceipts w .quiet
        (w.withPhase task (.committing (copied ++ (bytes.drop copied.length).take n)))
  | commitFails (task : Task) (htask : task ∈ w.tasks) (copied : Bytes) (hphase : task.phase = .committing copied) :
      Step validate keepReceipts w (.refused task.id) (w.release task)
  | published (task : Task) (htask : task ∈ w.tasks) (copied bytes : Bytes) (path : String)
      (hphase : task.phase = .committing copied) (hbytes : w.bytes task.id = some bytes) (hend : bytes.length ≤ copied.length)
      (hpath : path = task.row.path ∨ task.row.conflict = true)
      (hfree : ∀ file ∈ w.disk.files, ¬ (file.workspaceId = task.row.workspaceId ∧ file.path = path)) :
      Step validate keepReceipts w (.published task.id ⟨task.row.workspaceId, path, copied⟩)
        ((w.withDisk { w.disk with files := w.disk.files ++ [⟨task.row.workspaceId, path, copied⟩] }).withPhase task
          (.published ⟨path, copied.length⟩))
  | commitFailsLate (task : Task) (htask : task ∈ w.tasks) (entry : WorkspaceEntry) (hphase : task.phase = .published entry) :
      Step validate keepReceipts w (.unfinished task.id 0) (w.release task)
  | finished (task : Task) (htask : task ∈ w.tasks) (entry : WorkspaceEntry) (now : Instant)
      (hphase : task.phase = .published entry) :
      Step validate keepReceipts w .quiet
        ((w.withDisk (applyAll (receiptWrites keepReceipts task.row entry now) w.disk)).release task)
  | finishFails (task : Task) (htask : task ∈ w.tasks) (entry : WorkspaceEntry) (now : Instant) (k : ℕ)
      (hphase : task.phase = .published entry) :
      Step validate keepReceipts w (.unfinished task.id k)
        ((w.withDisk (applyAll ((receiptWrites keepReceipts task.row entry now).take k) w.disk)).release task)
  | finishDies (task : Task) (htask : task ∈ w.tasks) (entry : WorkspaceEntry) (now : Instant) (k : ℕ)
      (hphase : task.phase = .published entry) :
      Step validate keepReceipts w
        (.crashed w.left (fun id => if k ≠ 0 ∧ id = task.id then false else w.unreceipted id) (.finish k))
        (w.withDisk (applyAll ((receiptWrites keepReceipts task.row entry now).take k) w.disk)).dead

def Event.bytesOf (id : UUID) : Event → Bytes
  | appended upload bytes => if upload = id then bytes else []
  | crashed left _ _ => left id
  | _ => []

def contents (id : UUID) (es : List Event) : Bytes := es.flatMap (Event.bytesOf id)

def Event.publishes (id : UUID) : Event → Bool
  | published upload _ => upload = id
  | _ => false

end WorkAgent.Harness.Uploads
