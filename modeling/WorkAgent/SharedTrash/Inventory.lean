import Mathlib

namespace WorkAgent.SharedTrash

inductive Fault
  | notExist
  | invalid
  | unavailable

abbrev Answer (α : Type) := Except Fault α

inductive Phase
  | settled
  | recycling
  | restoring
  | purging
  | other
  deriving DecidableEq

inductive Kind
  | file
  | directory
  | other
  deriving DecidableEq

structure Metadata where
  version : ℤ
  projectID : List Char
  id : List Char
  order : Int64
  phase : Phase
  name : List Char
  path : List Char
  kind : Kind
  size : Int64
  deletedAt : ℤ
  expiresAt : ℤ

def retention : ℤ := 7 * 24 * 3600 * 1000000000

def zeroTime : ℤ := -62135596800 * 1000000000

structure Bytes where
  count : Int64
  nonneg : 0 ≤ count.toInt

structure StoredEntry extends Metadata where
  order_pos : 0 < order.toInt
  size_nonneg : 0 ≤ size.toInt
  expires_eq : expiresAt = deletedAt + retention

structure Item where
  name : List Char
  isDir : Bool
  directory : Answer Kind
  journal : Answer Kind
  content : Answer (Option Metadata)
  payload : Answer Kind
  treeSize : Answer Bytes

structure Project where
  name : List Char
  isDir : Bool
  directory : Answer Kind
  items : Answer (List Item)

structure Inventory where
  items : List StoredEntry
  incomplete : Bool

section Reading

variable (toLower : Char → Char)

def isTokenChar (c : Char) : Bool := c.isAlphanum || c == '_' || c == '-'

def projectPattern (name : List Char) : Bool := 16 ≤ name.length && name.length ≤ 128 && name.all isTokenChar

def entryPattern (name : List Char) : Bool := 24 ≤ name.length && name.length ≤ 64 && name.all isTokenChar

def reservedPart (part : List Char) : Bool :=
  part == [] || part == ['.'] || part == ['.', '.'] || ".workagent".toList.isPrefixOf (part.map toLower) ||
    part.getLast? == some '.' || part.getLast? == some ' ' || part.any fun c => c ∈ "<>\"|?*".toList

def withoutScheme (projectID value : List Char) : Answer (List Char) :=
  let scheme := "shared://".toList ++ projectID ++ ['/']
  if "shared://".toList.isPrefixOf value then
    if scheme.isPrefixOf value then .ok (value.drop scheme.length) else .error .invalid
  else .ok value

def relativePath (projectID value : List Char) : Answer (List Char) := do
  let value ← withoutScheme projectID (value.map fun c => if c = '\\' then '/' else c)
  -- `filepath.IsAbs` adds nothing: a drive needs a colon, a share two slashes in front
  if value == [] || value.head? == some '/' || value.contains ':' || value.contains '\x00' then .error .invalid
  else if (value.splitOn '/').any (reservedPart toLower) then .error .invalid
  else .ok value

def base (path : List Char) : List Char :=
  if path = [] then ['.']
  else
    let last := ((path.reverse.dropWhile (· == '/')).takeWhile (· != '/')).reverse
    if last = [] then ['/'] else last

def normal (wanted : Kind) (answer : Answer Kind) : Answer Unit := do
  if (← answer) = wanted then .ok () else .error .invalid

def readMetadata (projectID : List Char) (disk : Item) : Answer StoredEntry := do
  normal .directory disk.directory
  normal .file disk.journal
  match ← disk.content with
  | none => .error .invalid
  | some item =>
    if h : 0 < item.order.toInt ∧ 0 ≤ item.size.toInt ∧ item.expiresAt = item.deletedAt + retention then
      if item.version ≠ 1 ∨ item.projectID ≠ projectID ∨ item.id ≠ disk.name ∨ item.deletedAt = zeroTime then .error .invalid
      else
        match relativePath toLower projectID item.path with
        | .error _ => .error .invalid
        | .ok _ =>
          if base item.path ≠ item.name then .error .invalid
          else .ok ⟨item, h.1, h.2.1, h.2.2⟩
    else .error .invalid

def readEntry (projectID : List Char) (disk : Item) : Answer StoredEntry := do
  let item ← readMetadata toLower projectID disk
  if item.phase = .other then .error .invalid
  else
    let info ← disk.payload
    if (item.kind ≠ .directory ∨ info ≠ .directory) ∧ (item.kind ≠ .file ∨ info ≠ .file) then .error .invalid
    else if item.phase = .settled then .ok item
    else
      -- a cleanup that failed still occupies the pool with the bytes that remain
      let remaining ← disk.treeSize
      .ok { item with size := remaining.count, size_nonneg := remaining.nonneg }

def Inventory.add (inventory : Inventory) : Answer StoredEntry → Inventory
  | .ok entry => { inventory with items := inventory.items ++ [entry] }
  | .error .notExist => inventory
  | .error _ => { inventory with incomplete := true }

def readItems (projectID : List Char) (inventory : Inventory) (items : List Item) : Inventory :=
  items.foldl
    (fun inventory disk =>
      if disk.isDir && entryPattern disk.name then inventory.add (readEntry toLower projectID disk) else inventory)
    inventory

def readProject (inventory : Inventory) (project : Project) : Inventory :=
  if project.isDir && projectPattern project.name then
    match normal .directory project.directory, project.items with
    | .ok _, .ok items => readItems toLower project.name inventory items
    | _, _ => { inventory with incomplete := true }
  else inventory

def StoredEntry.less (a b : StoredEntry) : Bool :=
  if a.deletedAt = b.deletedAt then a.order < b.order else a.deletedAt < b.deletedAt

structure SliceSort where
  sort : List StoredEntry → List StoredEntry
  perm : ∀ items, (sort items).Perm items
  ordered : ∀ items, (sort items).Pairwise fun a b => b.less a = false

def entries (slice : SliceSort) (root : Answer (List Project)) : Answer Inventory := do
  let found := (← root).foldl (readProject toLower) ⟨[], false⟩
  .ok { found with items := slice.sort found.items }

end Reading

theorem less_iff {a b : StoredEntry} :
    a.less b = true ↔ a.deletedAt < b.deletedAt ∨ a.deletedAt = b.deletedAt ∧ a.order.toInt < b.order.toInt := by
  unfold StoredEntry.less
  by_cases h : a.deletedAt = b.deletedAt
  · simp [h, Int64.lt_iff_toInt_lt]
  · simp [h]

theorem less_irrefl (a : StoredEntry) : a.less a = false := by
  simp [StoredEntry.less]

theorem expires_le {a b : StoredEntry} (h : b.less a = false) : a.expiresAt ≤ b.expiresAt := by
  have hless : ¬ b.less a = true := by simp [h]
  rw [less_iff] at hless
  rw [a.expires_eq, b.expires_eq]
  omega

theorem entries_ordered {toLower : Char → Char} {slice : SliceSort} {root : Answer (List Project)} {inventory : Inventory}
    (h : entries toLower slice root = .ok inventory) : inventory.items.Pairwise fun a b => b.less a = false := by
  cases root with
  | error => simp [entries, bind, Except.bind] at h
  | ok =>
    simp only [entries, bind, Except.bind, Except.ok.injEq] at h
    subst h
    exact slice.ordered _

end WorkAgent.SharedTrash
