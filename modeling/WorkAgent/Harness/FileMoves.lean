import WorkAgent.Library.Table
import WorkAgent.Library.Tree
import WorkAgent.Library.Executions
import WorkAgent.Harness.Strings

namespace WorkAgent.Harness.Moves

open Library

abbrev Path := List Char

abbrev Name := List Char

/-- `toLowerCase`. What it makes of a letter does not depend on what is behind a slash. -/
structure Casing where
  lower : Path → Path
  slash : ∀ a b, lower (a ++ '/' :: b) = lower a ++ '/' :: lower b

structure Identity where
  id : UUID
  workspaceId : String
  path : Path
  aliases : List Path
  deleted : Bool
  deriving DecidableEq

structure FileMove where
  source : Path
  destination : Path
  fileId : Option UUID
  deriving DecidableEq

inductive State
  | queued
  | moving
  | completed
  | failed
  | cancelled
  deriving DecidableEq

structure Operation where
  id : UUID
  workspaceId : String
  moves : List FileMove
  state : State
  applied : ℕ
  revision : Option ℕ
  error : Option String
  deriving DecidableEq

structure Lease where
  owner : String
  workspaceId : String
  path : Path
  deadline : ℤ

structure Journal where
  files : Table Identity.id
  operations : Table Operation.id
  leases : Table Lease.owner
  revision : ℕ

def Journal.empty : Journal := ⟨.empty, .empty, .empty, 0⟩

structure Asset where
  id : String
  workspaceId : String
  path : Path
  name : Name
  deriving DecidableEq

inductive Loop
  | drain (workspaceId : String) (rest : List UUID)
  | restart (rest : List UUID)
  deriving DecidableEq

inductive Phase
  | dead
  | idle
  | planning (workspaceId : String) (moves : List FileMove) (keepBoth : Bool) (planned : List FileMove)
  | looping (loop : Loop)
  | tracking (id : UUID) (todo : List Path) (loop : Loop)
  | renaming (id : UUID) (loop : Loop)
  | rewriting (id : UUID) (loop : Loop)
  | checkpoint (id : UUID) (loop : Loop)
  | ending (id : UUID) (left : Bool) (loop : Loop)
  deriving DecidableEq

structure World where
  disk : String → Tree Name ℕ
  memory : Journal
  file : Journal
  assets : List Asset
  assetFile : List Asset
  phase : Phase
  drawn : List UUID

structure Snapshot where
  disk : Tree Name ℕ
  files : List (UUID × Path)
  assets : List (String × Path)

/-- An operation has `left` the queue to be executed, or is `cancelled` there. A journal that cannot
be saved is `unsaved`, an asset index `unindexed`. -/
inductive Action
  | requested (moves : List FileMove)
  | identified (path : Path)
  | left (id : UUID) (before : Snapshot)
  | cancelled (id : UUID)
  | renamed (id : UUID) (move : FileMove) (before : Tree Name ℕ)
  | ended (operation : Operation) (after : Snapshot)
  | outside (workspaceId : String)
  | unsaved
  | unindexed

def parts (path : Path) : List Name := (path.map fun c => if c = '\\' then '/' else c).splitOn '/'

def valid (path : Path) : Bool :=
  ':' ∉ path && (parts path).all fun part => part ≠ [] && part ≠ ['.'] && part ≠ ['.', '.']

def reserved : Name := ".workagent".toList

section Paths

variable (casing : Casing)

def covers (parent child : Path) : Bool :=
  casing.lower child = casing.lower parent || (casing.lower parent ++ ['/']).isPrefixOf (casing.lower child)

def resolve (disk : Tree Name ℕ) (path : Path) (missing : Bool) : Except String (List Name) :=
  if (parts path).any fun part => reserved.isPrefixOf (casing.lower part) then .error "invalid_move"
  else if ¬ valid path then .error "invalid_relative_path"
  else if ¬ missing ∧ ¬ disk.has (parts path) then .error "file_not_found"
  else .ok (parts path)

def known (files : Table Identity.id) (workspaceId : String) (path : Path) : Option Identity :=
  files.rows.find? fun f => f.workspaceId = workspaceId && !f.deleted && casing.lower f.path = casing.lower path

def reference (files : Table Identity.id) (workspaceId : String) (path : Path) : Option UUID → Except String Path
  | some fileId =>
    match files.rows.find? fun f => f.workspaceId = workspaceId && f.id = fileId && !f.deleted with
    | none => .error "file_not_found"
    | some row => .ok row.path
  | none =>
    match files.rows.filter fun f =>
        f.workspaceId = workspaceId && f.aliases.any fun former => casing.lower former = casing.lower path with
    | [] => .ok path
    | [row] => if row.deleted then .error "file_not_found" else .ok row.path
    | _ => .error "ambiguous_file_reference"

def rewrite (workspaceId : String) (move : FileMove) (row : Identity) : Identity :=
  if row.workspaceId ≠ workspaceId ∨ row.deleted ∨ ¬ covers casing move.source row.path then row
  else { row with
    aliases := if row.path ∈ row.aliases then row.aliases else row.aliases ++ [row.path]
    path := move.destination ++ row.path.drop move.source.length }

theorem rewrite_id (workspaceId : String) (move : FileMove) (row : Identity) : (rewrite casing workspaceId move row).id = row.id := by
  unfold rewrite
  split <;> rfl

def Journal.rewrite (journal : Journal) (workspaceId : String) (move : FileMove) : Journal :=
  { journal with files := journal.files.update (fun _ => True) (Moves.rewrite casing workspaceId move) (rewrite_id casing workspaceId move) }

def Operation.blocked (operation : Operation) (lease : Lease) (now : ℤ) : Bool :=
  lease.workspaceId = operation.workspaceId && now < lease.deadline &&
    operation.moves.any fun m => covers casing m.source lease.path || covers casing m.destination lease.path

end Paths

def splitName (path : Path) : Path × Name :=
  ((path.reverse.dropWhile (· ≠ '/')).reverse, (path.reverse.takeWhile (· ≠ '/')).reverse)

def splitExtension (name : Name) : Name × Name :=
  match name.reverse.span (· ≠ '.') with
  | (_, []) => (name, [])
  | (_, ['.']) => (name, [])
  | (extension, '.' :: stem) => (stem.reverse, '.' :: extension.reverse)
  | _ => (name, [])

def candidate (destination : Path) (directory : Bool) : ℕ → Path
  | 0 => destination
  | suffix + 1 =>
    let (directories, name) := splitName destination
    let (stem, extension) := if directory then (name, []) else splitExtension name
    directories ++ stem ++ " (".toList ++ (toString (suffix + 1)).toList ++ ")".toList ++ extension

def Asset.move (asset : Asset) (workspaceId : String) (move : FileMove) : Asset :=
  if asset.workspaceId = workspaceId ∧ (asset.path = move.source ∨ (move.source ++ ['/']).isPrefixOf asset.path) then
    { asset with
      path := move.destination ++ asset.path.drop move.source.length
      name := (splitName (move.destination ++ asset.path.drop move.source.length)).2 }
  else asset

namespace Journal

variable (journal : Journal)

def modify (id : UUID) (f : Operation → Operation) (hf : ∀ operation, (f operation).id = operation.id) : Journal :=
  { journal with operations := journal.operations.update (fun operation => operation.id = id) f hf }

def setState (id : UUID) (state : State) : Journal := journal.modify id (fun operation => { operation with state := state }) fun _ => rfl

def setApplied (id : UUID) (applied : ℕ) : Journal :=
  journal.modify id (fun operation => { operation with applied := applied }) fun _ => rfl

def complete (id : UUID) : Journal :=
  { journal.modify id (fun operation => { operation with state := .completed, revision := some (journal.revision + 1) }) fun _ => rfl with
    revision := journal.revision + 1 }

def fail (operation : Operation) (error : String) : Journal :=
  if operation.applied ≠ 0 then
    { journal.modify operation.id (fun operation =>
        { operation with state := .failed, error := some error, revision := some (journal.revision + 1) }) fun _ => rfl with
      revision := journal.revision + 1 }
  else journal.modify operation.id (fun operation => { operation with state := .failed, error := some error }) fun _ => rfl

def identify (id : UUID) (workspaceId : String) (path : Path) : Journal :=
  { journal with files := journal.files.insertOrIgnore ⟨id, workspaceId, path, [], false⟩ }

def push (operation : Operation) : Journal := { journal with operations := journal.operations.insertOrIgnore operation }

def delete (p : Identity → Bool) : Journal :=
  { journal with files := journal.files.update (fun row => p row) (fun row => { row with deleted := true }) fun _ => rfl }

def cancelAll (workspaceId : String) : Journal :=
  { journal with
    operations := journal.operations.update (fun operation => operation.workspaceId = workspaceId ∧ operation.state = .queued)
      (fun operation => { operation with state := .cancelled }) fun _ => rfl }

def queued (workspaceId : String) : List Operation :=
  journal.operations.rows.filter fun operation => operation.workspaceId = workspaceId && operation.state = .queued

def moving : List Operation := journal.operations.rows.filter fun operation => operation.state = .moving

def context (workspaceId : String) (after : ℕ) : ℕ × List (Path × Path) :=
  (journal.revision, (journal.operations.rows.filter fun operation =>
    operation.workspaceId = workspaceId && operation.revision.any fun revision => revision ≠ 0 && after < revision).flatMap
      fun operation => (operation.moves.take operation.applied).map fun m => (m.source, m.destination))

end Journal

namespace World

variable (w : World)

def enter (phase : Phase) : World := { w with phase := phase }

def save (journal : Journal) : World := { w with memory := journal, file := journal }

def hold (journal : Journal) : World := { w with memory := journal }

def snapshot (workspaceId : String) : Snapshot where
  disk := w.disk workspaceId
  files := (w.memory.files.rows.filter fun row => row.workspaceId = workspaceId && !row.deleted).map fun row => (row.id, row.path)
  assets := (w.assets.filter fun asset => asset.workspaceId = workspaceId).map fun asset => (asset.id, asset.path)

def setDisk (workspaceId : String) (disk : Tree Name ℕ) : World :=
  { w with disk := fun id => if id = workspaceId then disk else w.disk id }

def draw (id : UUID) : World := { w with drawn := id :: w.drawn }

def write (journal : Journal) (saved : Bool) : World := if saved then w.save journal else w.hold journal

def dead : World := { w with memory := .empty, assets := [], phase := .dead }

def leave (saved : Bool) (loop : Loop) : World :=
  if saved then (w.save w.memory).enter (.looping loop)
  else match loop with
    | .drain _ _ => w.enter .idle
    | .restart _ => w.dead

def fails (operation : Operation) (error : String) (left : Bool) (loop : Loop) : World :=
  (w.hold (w.memory.fail operation error)).enter (.ending operation.id left loop)

def changed (workspaceId : String) (move : FileMove) : List Asset := w.assets.map fun asset => asset.move workspaceId move

end World

def recheck (casing : Casing) (disk : Tree Name ℕ) (files : Table Identity.id) (workspaceId : String) : List FileMove → Except String Unit
  | [] => .ok ()
  | m :: rest => do
    let _ ← resolve casing disk m.source false
    let path ← reference casing files workspaceId m.source m.fileId
    if path ≠ m.source then throw "file_changed"
    let dst ← resolve casing disk m.destination true
    if disk.has dst then throw "destination_exists"
    recheck casing disk files workspaceId rest

def pending (casing : Casing) (disk : Tree Name ℕ) (m : FileMove) : Except String (Option (List Name × List Name)) := do
  let src ← resolve casing disk m.source true
  let dst ← resolve casing disk m.destination true
  if disk.has src then
    if disk.has dst then throw "destination_exists"
    return some (src, dst)
  else if ¬ disk.has dst then throw "file_not_found"
  else return none

def parents (dst : List Name) : List (List Name) := dst.dropLast.inits.tail

def children (disk : Tree Name ℕ) (path : List Name) : List Name :=
  (disk.entries.filter fun e => e.path ≠ [] && e.path.dropLast = path).filterMap fun e => e.path.getLast?

def tracked (disk : Tree Name ℕ) (path : Path) : List Path :=
  if disk.isDirectory (parts path) then (children disk (parts path)).map fun child => path ++ '/' :: child else []

structure Plannable (casing : Casing) (w : World) (workspaceId : String) (moves : List FileMove) (keepBoth : Bool)
    (planned : List FileMove) (m : FileMove) (suffix : ℕ) : Prop where
  source : resolve casing (w.disk workspaceId) m.source false = .ok (parts m.source)
  file : ∀ fileId, m.fileId = some fileId → ∃ path, reference casing w.memory.files workspaceId m.source (some fileId) = .ok path ∧
    casing.lower path = casing.lower m.source
  outside : ∀ other ∈ moves, covers casing other.source m.destination = false
  apart : ∀ other ∈ moves.eraseIdx planned.length, covers casing other.source m.source = false ∧ covers casing m.source other.source = false
  destination : ∀ j ≤ suffix,
    resolve casing (w.disk workspaceId) (candidate m.destination ((w.disk workspaceId).isDirectory (parts m.source)) j) true =
      .ok (parts (candidate m.destination ((w.disk workspaceId).isDirectory (parts m.source)) j))
  taken : ∀ j ≤ suffix, (j < suffix ↔
    (w.disk workspaceId).has (parts (candidate m.destination ((w.disk workspaceId).isDirectory (parts m.source)) j)) = true ∨
      ∃ other ∈ planned, casing.lower other.destination =
        casing.lower (candidate m.destination ((w.disk workspaceId).isDirectory (parts m.source)) j))
  keepBoth : suffix = 0 ∨ keepBoth = true

def owner (text : String) : Bool :=
  8 ≤ text.length && text.length ≤ 100 && text.toList.all fun c => c.isAlphanum || c = '_' || c = '-'

def saving (saved : Bool) : List Action := if saved then [] else [.unsaved]

/-- The steps of the file moves: stretches up to the next write to the disk, the asset index or the journal. -/
inductive Step (casing : Casing) (w : World) : List Action → World → Prop
  | identifies (workspaceId : String) (path : Path) (id : UUID) (saved : Bool) (hphase : w.phase = .idle)
      (hknown : known casing w.memory.files workspaceId path = none) (hfresh : id ∉ w.drawn) :
      Step casing w (.identified path :: saving saved) ((w.write (w.memory.identify id workspaceId path) saved).draw id)
  | deletes (workspaceId : String) (path : Path) (saved : Bool) (hphase : w.phase = .idle) :
      Step casing w (saving saved)
        (w.write (w.memory.delete fun row => row.workspaceId = workspaceId && covers casing path row.path) saved)
  | removesWorkspace (workspaceId : String) (saved : Bool) (hphase : w.phase = .idle) :
      Step casing w ((w.memory.queued workspaceId).map (fun operation => .cancelled operation.id) ++ saving saved)
        (w.write ((w.memory.cancelAll workspaceId).delete fun row => row.workspaceId = workspaceId) saved)
  | leases (lease : Lease) (saved : Bool) (hphase : w.phase = .idle) (howner : owner lease.owner = true)
      (hpath : resolve casing (w.disk lease.workspaceId) lease.path false = .ok (parts lease.path)) :
      Step casing w (saving saved) (w.write { w.memory with leases := w.memory.leases.set lease } saved)
  | releases (workspaceId text : String) (saved : Bool) (hphase : w.phase = .idle) (howner : owner text = true) :
      Step casing w (saving saved) (w.write { w.memory with
        leases := w.memory.leases.delete fun lease => lease.owner = text ∧ lease.workspaceId = workspaceId } saved)
  | cancels (operation : Operation) (saved : Bool) (hphase : w.phase = .idle) (hoperation : operation ∈ w.memory.operations)
      (hqueued : operation.state = .queued) :
      Step casing w (.cancelled operation.id :: saving saved) (w.write (w.memory.setState operation.id .cancelled) saved)
  | requests (workspaceId : String) (moves : List FileMove) (keepBoth : Bool) (hphase : w.phase = .idle)
      (hlength : moves ≠ [] ∧ moves.length ≤ 500) :
      Step casing w [.requested moves] (w.enter (.planning workspaceId moves keepBoth []))
  | undoes (operation : Operation) (hphase : w.phase = .idle) (hoperation : operation ∈ w.memory.operations)
      (hcompleted : operation.state = .completed) :
      Step casing w [.requested (operation.moves.map fun m => ⟨m.destination, m.source, m.fileId⟩)]
        (w.enter (.planning operation.workspaceId (operation.moves.map fun m => ⟨m.destination, m.source, m.fileId⟩) false []))
  | plans (workspaceId : String) (moves planned : List FileMove) (keepBoth : Bool) (m : FileMove) (suffix : ℕ) (row : Identity)
      (hphase : w.phase = .planning workspaceId moves keepBoth planned) (hmove : moves[planned.length]? = some m)
      (hplannable : Plannable casing w workspaceId moves keepBoth planned m suffix)
      (hknown : known casing w.memory.files workspaceId m.source = some row) :
      Step casing w [] (w.enter (.planning workspaceId moves keepBoth (planned ++ [⟨m.source,
        candidate m.destination ((w.disk workspaceId).isDirectory (parts m.source)) suffix, some row.id⟩])))
  | plansNew (workspaceId : String) (moves planned : List FileMove) (keepBoth : Bool) (m : FileMove) (suffix : ℕ) (id : UUID)
      (hphase : w.phase = .planning workspaceId moves keepBoth planned) (hmove : moves[planned.length]? = some m)
      (hplannable : Plannable casing w workspaceId moves keepBoth planned m suffix)
      (hknown : known casing w.memory.files workspaceId m.source = none) (hfresh : id ∉ w.drawn) :
      Step casing w [.identified m.source] (((w.save (w.memory.identify id workspaceId m.source)).draw id).enter
        (.planning workspaceId moves keepBoth (planned ++ [⟨m.source,
          candidate m.destination ((w.disk workspaceId).isDirectory (parts m.source)) suffix, some id⟩])))
  | plansUnsaved (workspaceId : String) (moves planned : List FileMove) (keepBoth : Bool) (m : FileMove) (suffix : ℕ) (id : UUID)
      (hphase : w.phase = .planning workspaceId moves keepBoth planned) (hmove : moves[planned.length]? = some m)
      (hplannable : Plannable casing w workspaceId moves keepBoth planned m suffix)
      (hknown : known casing w.memory.files workspaceId m.source = none) (hfresh : id ∉ w.drawn) :
      Step casing w [.identified m.source, .unsaved]
        (((w.hold (w.memory.identify id workspaceId m.source)).draw id).enter .idle)
  | planThrows (workspaceId : String) (moves planned : List FileMove) (keepBoth : Bool)
      (hphase : w.phase = .planning workspaceId moves keepBoth planned) :
      Step casing w [] (w.enter .idle)
  | queues (workspaceId : String) (moves planned : List FileMove) (keepBoth saved busy : Bool) (id : UUID)
      (hphase : w.phase = .planning workspaceId moves keepBoth planned) (hlength : planned.length = moves.length)
      (hfresh : id ∉ w.drawn) :
      Step casing w (saving saved) (((w.write (w.memory.push ⟨id, workspaceId, planned, .queued, 0, none, none⟩) saved).draw id).enter
        (if saved ∧ ¬ busy then
          .looping (.drain workspaceId
            (((w.memory.push ⟨id, workspaceId, planned, .queued, 0, none, none⟩).queued workspaceId).map Operation.id))
        else .idle))
  | drains (workspaceId : String) (hphase : w.phase = .idle) :
      Step casing w [] (w.enter (.looping (.drain workspaceId ((w.memory.queued workspaceId).map Operation.id))))
  | drained (workspaceId : String) (hphase : w.phase = .looping (.drain workspaceId [])) : Step casing w [] (w.enter .idle)
  | restarted (hphase : w.phase = .looping (.restart [])) : Step casing w [] (w.enter .idle)
  | blocked (workspaceId : String) (operation : Operation) (rest : List UUID) (lease : Lease) (now : ℤ)
      (hphase : w.phase = .looping (.drain workspaceId (operation.id :: rest))) (hoperation : operation ∈ w.memory.operations)
      (hlease : lease ∈ w.memory.leases) (hblocked : operation.blocked casing lease now = true) :
      Step casing w [] (w.enter .idle)
  | executes (workspaceId : String) (operation : Operation) (rest : List UUID) (now : ℤ)
      (hphase : w.phase = .looping (.drain workspaceId (operation.id :: rest))) (hoperation : operation ∈ w.memory.operations)
      (hleases : ∀ lease ∈ w.memory.leases, operation.blocked casing lease now = false)
      (hrecheck : recheck casing (w.disk operation.workspaceId) w.memory.files operation.workspaceId operation.moves = .ok ()) :
      Step casing w [] (w.enter (.tracking operation.id (operation.moves.map FileMove.source) (.drain workspaceId rest)))
  | refuses (workspaceId : String) (operation : Operation) (rest : List UUID) (error : String) (now : ℤ)
      (hphase : w.phase = .looping (.drain workspaceId (operation.id :: rest))) (hoperation : operation ∈ w.memory.operations)
      (hleases : ∀ lease ∈ w.memory.leases, operation.blocked casing lease now = false)
      (hrecheck : recheck casing (w.disk operation.workspaceId) w.memory.files operation.workspaceId operation.moves = .error error) :
      Step casing w [] (w.fails operation error false (.drain workspaceId rest))
  | resumes (id : UUID) (rest : List UUID) (hphase : w.phase = .looping (.restart (id :: rest))) :
      Step casing w [] (w.enter (.renaming id (.restart rest)))
  | tracks (operation : Operation) (path : Path) (todo : List Path) (loop : Loop) (row : Identity)
      (hphase : w.phase = .tracking operation.id (path :: todo) loop) (hoperation : operation ∈ w.memory.operations)
      (hpath : resolve casing (w.disk operation.workspaceId) path false = .ok (parts path))
      (hknown : known casing w.memory.files operation.workspaceId path = some row) :
      Step casing w [] (w.enter (.tracking operation.id (tracked (w.disk operation.workspaceId) path ++ todo) loop))
  | tracksNew (operation : Operation) (path : Path) (todo : List Path) (loop : Loop) (id : UUID)
      (hphase : w.phase = .tracking operation.id (path :: todo) loop) (hoperation : operation ∈ w.memory.operations)
      (hpath : resolve casing (w.disk operation.workspaceId) path false = .ok (parts path))
      (hknown : known casing w.memory.files operation.workspaceId path = none) (hfresh : id ∉ w.drawn) :
      Step casing w [.identified path] (((w.save (w.memory.identify id operation.workspaceId path)).draw id).enter
        (.tracking operation.id (tracked (w.disk operation.workspaceId) path ++ todo) loop))
  | tracksUnsaved (operation : Operation) (path : Path) (todo : List Path) (loop : Loop) (id : UUID) (error : String)
      (hphase : w.phase = .tracking operation.id (path :: todo) loop) (hoperation : operation ∈ w.memory.operations)
      (hknown : known casing w.memory.files operation.workspaceId path = none) (hfresh : id ∉ w.drawn) :
      Step casing w [.identified path, .unsaved]
        (((w.hold (w.memory.identify id operation.workspaceId path)).draw id).fails operation error false loop)
  | trackFails (operation : Operation) (path : Path) (todo : List Path) (loop : Loop) (error : String)
      (hphase : w.phase = .tracking operation.id (path :: todo) loop) (hoperation : operation ∈ w.memory.operations)
      (hpath : resolve casing (w.disk operation.workspaceId) path false = .error error) :
      Step casing w [] (w.fails operation error false loop)
  | begins (operation : Operation) (loop : Loop) (hphase : w.phase = .tracking operation.id [] loop)
      (hoperation : operation ∈ w.memory.operations) :
      Step casing w [.left operation.id (w.snapshot operation.workspaceId)]
        ((w.save (w.memory.setState operation.id .moving)).enter (.renaming operation.id loop))
  | beginsUnsaved (operation : Operation) (loop : Loop) (error : String) (hphase : w.phase = .tracking operation.id [] loop)
      (hoperation : operation ∈ w.memory.operations) :
      Step casing w [.unsaved] (w.fails operation error false loop)
  | renames (operation : Operation) (loop : Loop) (m : FileMove) (src dst : List Name) (made disk : Tree Name ℕ)
      (hphase : w.phase = .renaming operation.id loop) (hoperation : operation ∈ w.memory.operations)
      (hmove : operation.moves[operation.applied]? = some m)
      (hpending : pending casing (w.disk operation.workspaceId) m = .ok (some (src, dst)))
      (hmade : (w.disk operation.workspaceId).mkdirs (parents dst) = some made) (hdisk : made.rename src dst = some disk) :
      Step casing w [.renamed operation.id m (w.disk operation.workspaceId)]
        ((w.setDisk operation.workspaceId disk).enter (.rewriting operation.id loop))
  | renameFails (operation : Operation) (loop : Loop) (m : FileMove) (src dst : List Name) (count : ℕ) (made : Tree Name ℕ)
      (error : String) (hphase : w.phase = .renaming operation.id loop) (hoperation : operation ∈ w.memory.operations)
      (hmove : operation.moves[operation.applied]? = some m)
      (hpending : pending casing (w.disk operation.workspaceId) m = .ok (some (src, dst)))
      (hmade : (w.disk operation.workspaceId).mkdirs ((parents dst).take count) = some made) :
      Step casing w [] ((w.setDisk operation.workspaceId made).fails operation error true loop)
  | renamed (operation : Operation) (loop : Loop) (m : FileMove) (hphase : w.phase = .renaming operation.id loop)
      (hoperation : operation ∈ w.memory.operations) (hmove : operation.moves[operation.applied]? = some m)
      (hpending : pending casing (w.disk operation.workspaceId) m = .ok none) :
      Step casing w [] (w.enter (.rewriting operation.id loop))
  | moveThrows (operation : Operation) (loop : Loop) (m : FileMove) (error : String) (hphase : w.phase = .renaming operation.id loop)
      (hoperation : operation ∈ w.memory.operations) (hmove : operation.moves[operation.applied]? = some m)
      (hpending : pending casing (w.disk operation.workspaceId) m = .error error) :
      Step casing w [] (w.fails operation error true loop)
  | rewrites (operation : Operation) (loop : Loop) (m : FileMove) (hphase : w.phase = .rewriting operation.id loop)
      (hoperation : operation ∈ w.memory.operations) (hmove : operation.moves[operation.applied]? = some m) :
      Step casing w [] { w with
        memory := (w.memory.rewrite casing operation.workspaceId m).setApplied operation.id (operation.applied + 1)
        assets := w.changed operation.workspaceId m
        assetFile := w.changed operation.workspaceId m
        phase := .checkpoint operation.id loop }
  | rewriteThrows (operation : Operation) (loop : Loop) (m : FileMove) (error : String) (hphase : w.phase = .rewriting operation.id loop)
      (hoperation : operation ∈ w.memory.operations) (hmove : operation.moves[operation.applied]? = some m) :
      Step casing w [.unindexed] ({ w with
        memory := w.memory.rewrite casing operation.workspaceId m
        assets := w.changed operation.workspaceId m }.fails operation error true loop)
  | checkpoints (id : UUID) (loop : Loop) (hphase : w.phase = .checkpoint id loop) :
      Step casing w [] ((w.save w.memory).enter (.renaming id loop))
  | checkpointFails (operation : Operation) (loop : Loop) (error : String) (hphase : w.phase = .checkpoint operation.id loop)
      (hoperation : operation ∈ w.memory.operations) :
      Step casing w [.unsaved] (w.fails operation error true loop)
  | completes (operation : Operation) (loop : Loop) (hphase : w.phase = .renaming operation.id loop)
      (hoperation : operation ∈ w.memory.operations) (hmoves : operation.moves.length ≤ operation.applied) :
      Step casing w [] ((w.hold (w.memory.complete operation.id)).enter (.ending operation.id true loop))
  | ends (operation : Operation) (left saved : Bool) (loop : Loop) (hphase : w.phase = .ending operation.id left loop)
      (hoperation : operation ∈ w.memory.operations) :
      Step casing w ((if left then [] else [.left operation.id (w.snapshot operation.workspaceId)]) ++
        .ended operation (w.snapshot operation.workspaceId) :: saving saved) (w.leave saved loop)
  | outside (workspaceId : String) (disk : Tree Name ℕ) : Step casing w [.outside workspaceId] (w.setDisk workspaceId disk)
  | dies (hphase : w.phase ≠ .dead) : Step casing w [] w.dead
  | starts (hphase : w.phase = .dead) :
      Step casing w [] { w with
        memory := w.file, assets := w.assetFile, phase := .looping (.restart (w.file.moving.map Operation.id)) }

def World.start (disk : String → Tree Name ℕ) (assets : List Asset) : World := ⟨disk, .empty, .empty, [], assets, .dead, []⟩

end WorkAgent.Harness.Moves
