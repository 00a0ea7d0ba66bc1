import Mathlib.Data.Finset.Insert
import WorkAgent.Library.Deaths
import WorkAgent.Library.Table
import WorkAgent.Library.Text

namespace WorkAgent.SkillRuntime

open Library

inductive Source
  | builtin
  | managed
  | market
  | user
  deriving DecidableEq

/-- `relative_path`: the package directory below the skill root, the bundle in it and the subdirectory of the skill in that. -/
structure Path where
  directory : String
  bundle : String
  subdirectory : String
  deriving DecidableEq

/-- A row of `skills`. `package` is no column: the tree that was installed with it, if it is no reference. -/
structure Entry (Tree : Type) where
  id : String
  name : String
  description : String
  version : String
  source : Source
  enabled : Bool
  path : Path
  requiredMCPServerIDs : List String
  requiredCommands : List String
  referenceDirectory : String
  compatibleEngines : List String
  package : Option Tree

inductive Node (Tree : Type)
  | package (tree : Tree)
  | link (target : String)

abbrev Directory (Tree : Type) := String → Option (Node Tree)

variable {Tree : Type}

/-- The catalog, `revoked_market_skills`, `native_skill_paths`, the package directories by their names in lower case, for which the disk
is insensitive, and `.trash`. -/
@[ext]
structure World (Tree : Type) where
  rows : Table (@Entry.id Tree)
  revoked : Finset String
  native : Finset String
  disk : String → Option (Directory Tree)
  trash : String → Option (Directory Tree)

/-- `package` is what the source directory holds if it is absolute and `validateSkillTree`, `skillDirectory` and `validateSkillDocument`
accept it. -/
structure InstallInput (Tree : Type) where
  id : String
  name : String
  description : String
  version : String
  source : Source
  enabled : Bool
  requiredMCPServerIDs : List String
  requiredCommands : List String
  skillSubdirectory : String
  package : Option Tree

/-- `directory` is where the reference leads, if it is absolute and its SKILL.md is valid. -/
structure ReferenceInput where
  id : String
  name : String
  description : String
  version : String
  enabled : Bool
  requiredMCPServerIDs : List String
  requiredCommands : List String
  compatibleEngines : List String
  directory : Option String

section Names

def trimFunc (cut : Char → Bool) (text : String) : String :=
  String.ofList ((text.toList.dropWhile cut).reverse.dropWhile cut).reverse

def trimSpace : String → String := trimFunc isSpace

@[irreducible] def safeSegment (lower : Char → Char) (value : String) : String :=
  let result := trimFunc (fun c => c = '-' ∨ c = '_') (String.ofList ((trimSpace value).toList.map fun c =>
    if ('a' ≤ lower c ∧ lower c ≤ 'z') ∨ ('0' ≤ lower c ∧ lower c ≤ '9') ∨ lower c = '-' ∨ lower c = '_' then lower c else '-'))
  if result = "" then "skill" else result

@[irreducible] def fold (name : String) : String := String.ofList (name.toList.map Char.toLower)

def sameName (a b : String) : Prop := fold a = fold b

instance (a b : String) : Decidable (sameName a b) := inferInstanceAs (Decidable (fold a = fold b))

def skillID (id : String) : Prop :=
  1 ≤ id.toList.length ∧ id.toList.length ≤ 128 ∧
    id.toList.all fun c => ('A' ≤ c ∧ c ≤ 'Z') ∨ ('a' ≤ c ∧ c ≤ 'z') ∨ ('0' ≤ c ∧ c ≤ '9') ∨ c = '_' ∨ c = '-'

instance (id : String) : Decidable (skillID id) := inferInstanceAs (Decidable (_ ∧ _ ∧ _))

end Names

def validateInstall (input : InstallInput Tree) : Prop :=
  skillID input.id ∧ trimSpace input.name ≠ "" ∧ trimSpace input.version ≠ "" ∧ input.description.utf8ByteSize ≤ 4000 ∧
    (∀ id ∈ input.requiredMCPServerIDs, trimSpace id ≠ "") ∧ ∀ command ∈ input.requiredCommands, skillID command

instance (input : InstallInput Tree) : Decidable (validateInstall input) := inferInstanceAs (Decidable (_ ∧ _ ∧ _ ∧ _ ∧ _ ∧ _))

def InstallInput.row (lower : Char → Char) (input : InstallInput Tree) (tree : Tree) : Entry Tree :=
  ⟨input.id, trimSpace input.name, trimSpace input.description, trimSpace input.version, input.source, input.enabled,
    ⟨safeSegment lower input.id, safeSegment lower input.name, if input.skillSubdirectory = "" then "" else clean input.skillSubdirectory⟩,
    input.requiredMCPServerIDs, input.requiredCommands, "", ["codex", "kimi", "harness"], some tree⟩

@[simp] theorem InstallInput.row_directory (lower : Char → Char) (input : InstallInput Tree) (tree : Tree) :
    (input.row lower tree).path.directory = safeSegment lower input.id := rfl

@[simp] theorem InstallInput.row_bundle (lower : Char → Char) (input : InstallInput Tree) (tree : Tree) :
    (input.row lower tree).path.bundle = safeSegment lower input.name := rfl

def ReferenceInput.row (lower : Char → Char) (input : ReferenceInput) (directory : String) : Entry Tree :=
  ⟨input.id, input.name, input.description, input.version, .user, input.enabled, ⟨input.id, safeSegment lower input.name, ""⟩,
    input.requiredMCPServerIDs, input.requiredCommands, directory,
    if input.compatibleEngines = [] then ["codex", "kimi", "harness"] else input.compatibleEngines, none⟩

def Entry.update (old new : Entry Tree) : Entry Tree :=
  { old with name := new.name, description := new.description, version := new.version, referenceDirectory := new.referenceDirectory,
             requiredMCPServerIDs := new.requiredMCPServerIDs, requiredCommands := new.requiredCommands,
             compatibleEngines := new.compatibleEngines }

/-- The steps of an operation: renames, other changes of the disk, statements. `reads` is a SELECT, a Stat or the copy into `.staging` and
`answers` the SELECT of the row with which an operation ends. -/
inductive Call (Tree : Type)
  | reads
  | answers
  | activate (directory bundle : String) (tree : Tree)
  | discard (directory : String)
  | archive (directory bin : String)
  | restore (bin directory : String)
  | insert (row : Entry Tree)
  | replace (id : String) (row : Entry Tree)
  | delete (id : String)
  | enable (id : String) (enabled : Bool)
  | revoke (id : String)
  | makeDirectory (directory : String)
  | unlink (directory name : String)
  | link (directory name target : String)
  | native (path : String)
  | upsert (row : Entry Tree)

def Fits (rows : Table (@Entry.id Tree)) (row : Entry Tree) : Prop :=
  ∀ r ∈ rows.rows, ¬ sameName r.name row.name ∧ r.path ≠ row.path

instance (rows : Table (@Entry.id Tree)) (row : Entry Tree) : Decidable (Fits rows row) :=
  inferInstanceAs (Decidable (∀ r ∈ rows.rows, _))

def insertRow (rows : Table (@Entry.id Tree)) (row : Entry Tree) : Option (Table (@Entry.id Tree)) :=
  if Fits rows row then rows.insert? row else none

def upsertRow (rows : Table (@Entry.id Tree)) (row : Entry Tree) : Option (Table (@Entry.id Tree)) :=
  if rows.has row.id then
    if ∀ r ∈ rows.rows, r.id ≠ row.id → ¬ sameName r.name row.name then
      some (rows.update (fun r => r.id = row.id) (fun r => r.update row) fun _ => rfl)
    else none
  else insertRow rows row

namespace World

variable (w : World Tree)

def withRows (rows : Table (@Entry.id Tree)) : World Tree := { w with rows := rows }

def withDisk (directory : String) (d : Option (Directory Tree)) : World Tree := { w with disk := Function.update w.disk (fold directory) d }

def withTrash (bin : String) (d : Option (Directory Tree)) : World Tree := { w with trash := Function.update w.trash bin d }

variable {directory : String} {d : Option (Directory Tree)}

@[simp] theorem rows_withDisk : (w.withDisk directory d).rows = w.rows := by
  cases w
  rfl

variable {bin : String}

@[simp] theorem rows_withTrash : (w.withTrash bin d).rows = w.rows := by
  cases w
  rfl

@[simp] theorem revoked_withDisk : (w.withDisk directory d).revoked = w.revoked := by
  cases w
  rfl

@[simp] theorem revoked_withTrash : (w.withTrash bin d).revoked = w.revoked := by
  cases w
  rfl

@[simp] theorem native_withDisk : (w.withDisk directory d).native = w.native := by
  cases w
  rfl

@[simp] theorem native_withTrash : (w.withTrash bin d).native = w.native := by
  cases w
  rfl

@[simp] theorem disk_withDisk :
    (w.withDisk directory d).disk = Function.update w.disk (fold directory) d := by
  cases w
  rfl

@[simp] theorem disk_withTrash : (w.withTrash bin d).disk = w.disk := by
  cases w
  rfl

@[simp] theorem trash_withDisk : (w.withDisk directory d).trash = w.trash := by
  cases w
  rfl

@[simp] theorem trash_withTrash :
    (w.withTrash bin d).trash = Function.update w.trash bin d := by
  cases w
  rfl

@[simp] theorem disk_withRows {rows : Table (@Entry.id Tree)} : (w.withRows rows).disk = w.disk := by
  cases w
  rfl

@[simp] theorem trash_withRows {rows : Table (@Entry.id Tree)} : (w.withRows rows).trash = w.trash := by
  cases w
  rfl

@[simp] theorem rows_withRows {rows : Table (@Entry.id Tree)} : (w.withRows rows).rows = rows := by
  cases w
  rfl

@[simp] theorem revoked_withRows {rows : Table (@Entry.id Tree)} : (w.withRows rows).revoked = w.revoked := by
  cases w
  rfl

def empty : World Tree := ⟨Table.empty, ∅, ∅, fun _ => none, fun _ => none⟩

def node (directory name : String) : Option (Node Tree) := (w.disk (fold directory)).bind (· name)

end World

def effect : Call Tree → World Tree → Option (World Tree)
  | .reads, w | .answers, w => some w
  | .activate directory bundle tree, w =>
    match w.disk (fold directory) with
    | none => some (w.withDisk directory (some fun name => if name = bundle then some (.package tree) else none))
    | some _ => none
  | .discard directory, w => some (w.withDisk directory none)
  | .archive directory bin, w =>
    match w.disk (fold directory), w.trash bin with
    | some d, none => some ((w.withDisk directory none).withTrash bin (some d))
    | _, _ => none
  | .restore bin directory, w =>
    match w.trash bin, w.disk (fold directory) with
    | some d, none => some ((w.withDisk directory (some d)).withTrash bin none)
    | _, _ => none
  | .insert row, w => (insertRow w.rows row).map w.withRows
  | .replace id row, w => (insertRow (w.rows.delete fun r => r.id = id) row).map w.withRows
  | .delete id, w => some (w.withRows (w.rows.delete fun r => r.id = id))
  | .enable id enabled, w =>
    if w.rows.has id then some (w.withRows (w.rows.update (fun r => r.id = id) (fun r => { r with enabled := enabled }) fun _ => rfl)) else none
  | .revoke id, w => some { w with revoked := insert id w.revoked }
  | .makeDirectory directory, w =>
    match w.disk (fold directory) with
    | none => some (w.withDisk directory (some fun _ => none))
    | some _ => some w
  | .unlink directory name, w => (w.disk (fold directory)).map fun d => w.withDisk directory (some (Function.update d name none))
  | .link directory name target, w =>
    (w.disk (fold directory)).map fun d => w.withDisk directory (some (Function.update d name (some (.link target))))
  | .native path, w => some { w with native := insert path w.native }
  | .upsert row, w => (upsertRow w.rows row).map w.withRows

inductive Answer
  | failed
  | succeeded
  deriving DecidableEq

abbrev Procedure (Tree : Type) := Script (World Tree) (Call Tree) Answer

open Script

variable (lower : Char → Char)

def Install (input : InstallInput Tree) : Procedure Tree :=
  if ¬ validateInstall input then done .failed
  else
    match input.package with
    | none => done .failed
    | some tree =>
      let destination := safeSegment lower input.id
      attempt .reads (done .failed) <|
      look fun w =>
        if (w.disk (fold destination)).isSome then done .failed
        else
          attempt (.activate destination (safeSegment lower input.name) tree) (done .failed) <|
          attempt (.insert (input.row lower tree)) (ignoring (.discard destination) (done .failed)) <|
          attempt .answers (done .failed) (done .succeeded)

/-- The row of the SELECT with LIMIT 1; where the id and the name are those of two rows, `byName` tells which one it is. -/
def World.existing (w : World Tree) (byName : Bool) (input : InstallInput Tree) : Option (Entry Tree) :=
  let ofID := w.rows.find? input.id
  let ofName := w.rows.rows.find? fun r => sameName r.name (trimSpace input.name)
  if byName then ofName.or ofID else ofID.or ofName

def upgradeBin (id : String) (now : ℕ) : String := safeSegment lower id ++ "-upgrade-" ++ toString now

def removeBin (id : String) (now : ℕ) : String := safeSegment lower id ++ "-" ++ toString now

def restoreOld (bin oldDirectory : String) : Procedure Tree := ignoring (.restore bin oldDirectory) (done .failed)

def activateNew (existing : Entry Tree) (bin : String) (input : InstallInput Tree) (tree : Tree) : Procedure Tree :=
  attempt (.activate (safeSegment lower input.id) (safeSegment lower input.name) tree) (restoreOld bin existing.path.directory) <|
  attempt (.replace existing.id (input.row lower tree))
    (ignoring (.discard (safeSegment lower input.id)) (restoreOld bin existing.path.directory)) <|
  attempt .answers (done .failed) (done .succeeded)

def installOrReplace (byName : Bool) (now : ℕ) (input : InstallInput Tree) (replaceSource : Source) : Procedure Tree :=
  attempt .reads (done .failed) <|
  look fun w =>
    match w.existing byName input with
    | none => Install lower input
    | some existing =>
      if existing.source ≠ replaceSource then done .failed
      else if ¬ validateInstall input then done .failed
      else
        match input.package with
        | none => done .failed
        | some tree =>
          attempt .reads (done .failed) <|
          attempt (.archive existing.path.directory (upgradeBin lower existing.id now)) (done .failed) <|
          if safeSegment lower input.id = existing.path.directory then activateNew lower existing (upgradeBin lower existing.id now) input tree
          else
            attempt .reads (restoreOld (upgradeBin lower existing.id now) existing.path.directory) <|
            look fun w =>
              if (w.disk (fold (safeSegment lower input.id))).isSome then
                restoreOld (upgradeBin lower existing.id now) existing.path.directory
              else activateNew lower existing (upgradeBin lower existing.id now) input tree

def InstallMarket (byName : Bool) (now : ℕ) (input : InstallInput Tree) : Procedure Tree :=
  attempt .reads (done .failed) <|
  look fun w =>
    if input.id ∈ w.revoked then done .failed
    else if input.source ≠ .market then done .failed
    else installOrReplace lower byName now input .market

def InstallManaged (byName : Bool) (now : ℕ) (input : InstallInput Tree) : Procedure Tree :=
  if input.source ≠ .managed ∧ input.source ≠ .builtin then done .failed else installOrReplace lower byName now input input.source

def SetEnabled (id : String) (enabled : Bool) : Procedure Tree :=
  let update := attempt (.enable id enabled) (done .failed) <| attempt .answers (done .failed) (done .succeeded)
  if enabled then attempt .reads (done .failed) <| look fun w => if id ∈ w.revoked then done .failed else update
  else update

def Remove (id : String) (now : ℕ) : Procedure Tree :=
  attempt .reads (done .failed) <|
  look fun w =>
    match w.rows.find? id with
    | none => done .failed
    | some entry =>
      attempt (.archive entry.path.directory (removeBin lower id now)) (done .failed) <|
      attempt (.delete id) (restoreOld (removeBin lower id now) entry.path.directory) (done .succeeded)

def RevokeMarket (id : String) (remove : Bool) (now : ℕ) : Procedure Tree :=
  attempt .reads (done .failed) <|
  look fun w =>
    match w.rows.find? id with
    | none => done .succeeded
    | some entry =>
      if entry.source ≠ .market then done .failed
      else
        attempt (.revoke id) (done .failed) <|
        (SetEnabled id false).bind fun
          | .failed => done .failed
          | .succeeded => if remove then Remove lower id now else done .succeeded

def EnsureDirectoryReference (directory name target : String) (next : Procedure Tree) : Procedure Tree :=
  attempt .reads (done .failed) <|
  look fun w =>
    let create := attempt (.makeDirectory directory) (done .failed) <| attempt (.link directory name target) (done .failed) next
    match w.node directory name with
    | none => create
    | some (.package _) => done .failed
    | some (.link current) => if current = target then next else attempt (.unlink directory name) (done .failed) create

def Reference (input : ReferenceInput) : Procedure Tree :=
  match input.directory with
  | none => done .failed
  | some directory =>
    if ¬ skillID input.id ∨ input.name = "" then done .failed
    else
      attempt .reads (done .failed) <|
      look fun w =>
        if ((w.rows.find? input.id).any fun previous => previous.referenceDirectory = "") = true then done .failed
        else
          attempt .reads (done .failed) <|
          look fun w =>
            if ((w.rows.rows.find? fun r => sameName r.name (trimSpace input.name)).any fun r => r.id ≠ input.id) = true then done .failed
            else
              EnsureDirectoryReference input.id (safeSegment lower input.name) directory <|
              attempt (.native (directory ++ "\\SKILL.md")) (done .failed) <|
              attempt (.upsert (input.row lower directory)) (done .failed) <|
              attempt .answers (done .failed) (done .succeeded)

inductive Op (Tree : Type)
  | install (input : InstallInput Tree)
  | installMarket (byName : Bool) (now : ℕ) (input : InstallInput Tree)
  | installManaged (byName : Bool) (now : ℕ) (input : InstallInput Tree)
  | reference (input : ReferenceInput)
  | setEnabled (id : String) (enabled : Bool)
  | revokeMarket (id : String) (remove : Bool) (now : ℕ)
  | remove (id : String) (now : ℕ)

def Op.procedure : Op Tree → Procedure Tree
  | .install input => Install lower input
  | .installMarket byName now input => InstallMarket lower byName now input
  | .installManaged byName now input => InstallManaged lower byName now input
  | .reference input => Reference lower input
  | .setEnabled id enabled => SetEnabled id enabled
  | .revokeMarket id drop now => RevokeMarket lower id drop now
  | .remove id now => Remove lower id now

structure Event (Tree : Type) where
  op : Op Tree
  faults : List Fault
  atomic : .after ∉ faults

def Event.outcome (e : Event Tree) (w : World Tree) : Outcome (World Tree) (Call Tree) Answer :=
  (e.op.procedure lower).run effect w e.faults

def Step (w : World Tree) (e : Event Tree) (w' : World Tree) : Prop := (e.outcome lower w).state = w'

end WorkAgent.SkillRuntime
