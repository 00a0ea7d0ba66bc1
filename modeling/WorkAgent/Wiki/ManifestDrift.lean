import Mathlib
import WorkAgent.Library.Json
import WorkAgent.Library.Text

namespace WorkAgent.Wiki.Drift

open Library List

abbrev Text := List Char

local instance : LawfulBEq Text := inferInstance

abbrev Path := List Text

abbrev Value (ν : Type) := Json Text ν

abbrev Fields (ν : Type) := List (Text × Value ν)

/-- Python's part in the two commands and the reader of the frontmatter; `none` where they raise. -/
structure Python (ν : Type) where
  str : Value ν → Text
  strip : Text → Text
  lower : Text → Text
  nonzero : ν → Bool
  fromisoformat : Text → Option ℤ
  sha256 : Text → Text
  readFrontmatter : Text → Option (Fields ν)

inductive Entry
  | file (content : Text)
  | directory
  deriving DecidableEq

def Named (name : Text) : Prop := '/' ∉ name ∧ name ≠ [] ∧ name ≠ ['.'] ∧ name ≠ ['.', '.']

instance (name : Text) : Decidable (Named name) := inferInstanceAs (Decidable (_ ∧ _))

/-- The entries of the disk below the root, the workspace among them, and the `pages` of the manifest. -/
structure Project (ν : Type) where
  workspace : Path
  entries : List (Path × Entry)
  pages : Fields ν
  named : ∀ p ∈ workspace :: entries.map Prod.fst, ∀ name ∈ p, Named name

inductive Item
  | page (p : Path)
  | entry (key : Text)

inductive Issue
  | notRecorded
  | hash
  | deadline (field : String)
  | missing

inductive Code
  | pageHashDrift
  | deadlineDrift
  | pageNotInManifest
  | pageRecordType
  | pageMissing

variable {ν : Type}

/-- `fields.get(field)`, where a missing key and null are both `None`. -/
def get (fields : Fields ν) (field : String) : Value ν := (fields.lookup field.toList).getD .null

def object : Value ν → Option (Fields ν)
  | .object fields => some fields
  | _ => none

def deadlines : List String := ["stale_after", "valid_until", "purge_after"]

/-- The record holds the hash as a text. -/
def hashed (r : Fields ν) (digest : Text) : Bool :=
  match get r "sha256" with
  | .string expected => expected = digest
  | _ => false

namespace Python

variable (py : Python ν)

def truthy : Value ν → Bool
  | .null => false
  | .bool b => b
  | .number n => py.nonzero n
  | .string s => s ≠ []
  | .array items => !items.isEmpty
  | .object fields => !fields.isEmpty

def parseTime (value : Value ν) : Option (Option ℤ) :=
  if value.isNull then some none
  else
    let text := py.strip (py.str value)
    if text = [] ∨ py.lower text ∈ ["null".toList, "none".toList, "~".toList] then some none
    else (py.fromisoformat (text.flatMap fun c => if c = 'Z' then "+00:00".toList else [c])).map some

/-- Both values read as deadlines, and not as the same. -/
def differ (a b : Value ν) : Bool :=
  match py.parseTime a, py.parseTime b with
  | some x, some y => x ≠ y
  | _, _ => false

end Python

/-- A page with these fields has drifted from a record otherwise than in its first deadline. -/
def Elsewhere (py : Python ν) (fields : Fields ν) (digest : Text) (r : Fields ν) : Prop :=
  hashed r digest = false ∨ py.differ (get fields "valid_until") (get r "valid_until") ∨ py.differ (get fields "purge_after") (get r "purge_after")

def Drifts (py : Python ν) (fields : Fields ν) (digest : Text) (r : Fields ν) (stale : Value ν) : Prop :=
  py.differ (get fields "stale_after") stale ∨ Elsewhere py fields digest r

/-- `check_after` says no more than its absence: it is no deadline where the page has none, and another one where it has one. -/
def Idle (py : Python ν) (fields r : Fields ν) : Prop :=
  ∀ x, py.parseTime (get fields "stale_after") = some x → if x = none then ∀ y, py.parseTime (get r "check_after") = some y → y = none
    else ∃ y, py.parseTime (get r "check_after") = some y ∧ x ≠ y

def relativePosix (p : Path) : Text := if p = [] then ['.'] else ['/'].intercalate p

/-- What a command reports in its turns of the two loops, over the pages and over the entries of the manifest. -/
def report {γ : Type} (pages : List Path) (keys : List Text) (onPage : Path → List γ) (onEntry : Text → List γ) : List (Item × γ) :=
  pages.flatMap (fun p => (onPage p).map (Prod.mk (.page p))) ++ keys.flatMap fun key => (onEntry key).map (Prod.mk (.entry key))

/-- How `pathlib` splits a path. -/
def parts (t : Text) : Path := (t.splitOn '/').filter fun name => name ≠ [] ∧ name ≠ ['.']

def confined (t : Text) : Option Path := if t.head? = some '/' ∨ ['.', '.'] ∈ parts t then none else some (parts t)

def below (front path : Text) : Text := if front <+: path then path.drop front.length else path

def slashed (key : Text) : Text := key.map fun c => if c = '\\' then '/' else c

namespace Project

variable (project : Project ν) (py : Python ν)

def keys : List Text := project.pages.map Prod.fst

def entry (p : Path) : Option Entry := if p = [] then some .directory else project.entries.lookup p

def IsReserved (p : Path) : Prop :=
  py.lower (p.getLastD []) = "index.md".toList ∨ p.dropLast = project.workspace ∧ py.lower (p.getLastD []) = "log.md".toList

instance (p : Path) : Decidable (project.IsReserved py p) := inferInstanceAs (Decidable (_ ∨ _))

def conceptPages : List Path :=
  if project.entry project.workspace = some .directory then
    (project.entries.map Prod.fst).filter fun p => project.workspace <+: p ∧ p ≠ project.workspace ∧ ".md".toList <:+ p.getLastD [] ∧
      ¬ project.IsReserved py p
  else []

def manifestPageRecord (workspaceRelative pageRelative : Text) : Text × Option (Fields ν) :=
  let key := below (workspaceRelative.rdropWhile (· = '/') ++ ['/']) pageRelative
  (key, ((project.pages.lookup key).or (project.pages.lookup pageRelative)).bind object)

def recordOf (p : Path) : Text × Option (Fields ν) := project.manifestPageRecord (relativePosix project.workspace) (relativePosix p)

def readFrontmatter (p : Path) : Option (Fields ν × Text) :=
  match project.entry p with
  | some (.file content) => (py.readFrontmatter content).map fun fields => (fields, py.sha256 content)
  | _ => none

/-- The deadline that the status takes from a record. -/
def checked (r : Fields ν) (field : String) : Value ν :=
  if field = "stale_after" ∧ (get r field).isNull then get r "check_after" else get r field

def statusPage (p : Path) : List Issue :=
  match project.readFrontmatter py p with
  | none => []
  | some (fields, digest) =>
    if py.truthy (get fields "type") = false then []
    else
      match (project.recordOf p).2 with
      | none => [.notRecorded]
      | some r => (if hashed r digest then [] else [.hash]) ++
          (deadlines.filter fun field => py.differ (get fields field) (checked r field)).map .deadline

def front : Text := relativePosix project.workspace ++ ['/']

def normalized (key : Text) : Text := below project.front (slashed key)

def statusEntry (key : Text) : List Issue :=
  if project.normalized key ∈ (project.conceptPages py).map fun p => (project.recordOf p).1 then [] else [.missing]

def computeStatus : List (Item × Issue) := report (project.conceptPages py) project.keys (project.statusPage py) (project.statusEntry py)

def lintPage (p : Path) : List Code :=
  match project.readFrontmatter py p with
  | none => []
  | some (fields, digest) =>
    match (project.pages.lookup (below project.front (relativePosix p))).or (project.pages.lookup (relativePosix p)) with
    | none => [.pageNotInManifest]
    | some value =>
      let r := (object value).getD []
      (if (object value).isNone then [.pageRecordType] else []) ++ (if hashed r digest then [] else [.pageHashDrift]) ++
        (deadlines.filter fun field => py.differ (get fields field) (get r field)).map fun _ => .deadlineDrift

/-- The file that an entry of the manifest names; `none` where `confined` raises. -/
def located (key : Text) : Option Path :=
  confined (if project.front <+: slashed key then slashed key else project.front ++ slashed key)

def lintEntry (key : Text) : List Code :=
  match (project.located key).bind project.entry with
  | some (.file _) => []
  | _ => [.pageMissing]

/-- A path that `confined` refuses raises out of the whole lint. -/
def lintWorkspace : Option (List (Item × Code)) :=
  if ∃ key ∈ project.keys, project.located key = none then none
  else some (report (project.conceptPages py) project.keys (project.lintPage py) project.lintEntry)

def StatusReports (item : Item) : Prop := ∃ issue, (item, issue) ∈ project.computeStatus py

def LintReports (item : Item) : Prop := ∃ found, project.lintWorkspace py = some found ∧ ∃ code, (item, code) ∈ found

/-- Some entry of the manifest leads upwards. -/
def Refused : Prop := ∃ key ∈ project.keys, ['.', '.'] ∈ parts (project.normalized key)

instance : Decidable project.Refused := inferInstanceAs (Decidable (∃ _ ∈ _, _))

/-- The key spells the path of a concept page, whether it is there or not. -/
def Spells (key : Text) : Prop :=
  project.entry project.workspace = some .directory ∧ ['/'].intercalate (parts key) = key ∧ parts key ≠ [] ∧
    ".md".toList <:+ (project.workspace ++ parts key).getLastD [] ∧ ¬ project.IsReserved py (project.workspace ++ parts key)

/-- The two commands see an entry alike: what stands where it leads is a file just if the key spells a page. -/
def EntryAgrees (key : Text) : Prop :=
  if project.Refused then project.Spells py key ∧ (project.entry (project.workspace ++ parts key)).isSome = true
  else ∀ found, project.entry (project.workspace ++ parts key) = some found → (found ≠ .directory ↔ project.Spells py key)

/-- The two commands see a page alike. -/
def PageAgrees (p : Path) (fields : Fields ν) (digest : Text) : Prop :=
  if project.Refused then py.truthy (get fields "type") = true →
    ∃ r, (project.recordOf p).2 = some r ∧ ¬ Drifts py fields digest r (checked r "stale_after")
  else if py.truthy (get fields "type") = true then ∀ r, (project.recordOf p).2 = some r →
    (get r "stale_after").isNull = true → Idle py fields r ∨ Elsewhere py fields digest r
  else ∃ r, (project.recordOf p).2 = some r ∧ ¬ Drifts py fields digest r (get r "stale_after")

end Project

section Reports

variable {γ : Type} {pages : List Path} {keys : List Text} {onPage : Path → List γ} {onEntry : Text → List γ}

theorem reported_page {p : Path} (hp : p ∈ pages) : (∃ x, (Item.page p, x) ∈ report pages keys onPage onEntry) ↔ onPage p ≠ [] := by
  rw [ne_eq, eq_nil_iff_forall_not_mem]
  simp [report]
  tauto

theorem reported_entry {key : Text} (hkey : key ∈ keys) : (∃ x, (Item.entry key, x) ∈ report pages keys onPage onEntry) ↔ onEntry key ≠ [] := by
  rw [ne_eq, eq_nil_iff_forall_not_mem]
  simp [report]
  tauto

end Reports

section Spelling

variable {p : Path}

theorem splitOn_relative (hp : ∀ name ∈ p, Named name) : [] ∉ (relativePosix p).splitOn '/' := by
  unfold relativePosix
  split
  · decide
  · rename_i hne
    rw [splitOn_intercalate _ (fun name hname => (hp name hname).1) hne]
    exact fun hmem => (hp [] hmem).2.1 rfl

theorem parts_joined (hp : ∀ name ∈ p, Named name) (hne : p ≠ []) : parts (['/'].intercalate p) = p := by
  rw [parts, splitOn_intercalate _ (fun name hname => (hp name hname).1) hne, filter_eq_self]
  intro name hname
  simp [(hp name hname).2.1, (hp name hname).2.2.1]

theorem parts_relative (hp : ∀ name ∈ p, Named name) : parts (relativePosix p) = p := by
  unfold relativePosix
  split
  · rename_i hempty
    subst hempty
    decide
  · exact parts_joined hp ‹_›

theorem parts_append (a b : Text) : parts (a ++ '/' :: b) = parts a ++ parts b := by
  rw [parts, splitOn_append_cons_self, filter_append]
  rfl

theorem rstrip_relative (hp : ∀ name ∈ p, Named name) : (relativePosix p).rdropWhile (· = '/') = relativePosix p := by
  rw [rdropWhile_eq_self_iff]
  intro hne hlast
  apply splitOn_relative hp
  rw [← dropLast_append_getLast hne, of_decide_eq_true hlast, splitOn_append_cons_self]
  simp

theorem head_relative (hp : ∀ name ∈ p, Named name) (rest : Text) : (relativePosix p ++ rest).head? ≠ some '/' := by
  cases hrelative : relativePosix p with
  | nil =>
    have hparts := splitOn_relative hp
    rw [hrelative] at hparts
    exact absurd (mem_singleton.mpr rfl) hparts
  | cons c text =>
    rintro hhead
    obtain rfl := Option.some.inj hhead
    apply splitOn_relative hp
    rw [hrelative, ← nil_append ('/' :: text), splitOn_append_cons_self]
    simp

end Spelling

namespace Project

variable {project : Project ν} {py : Python ν} {p rest : Path} {key : Text}

theorem named_workspace (project : Project ν) : ∀ name ∈ project.workspace, Named name := project.named _ mem_cons_self

/-- The key of a page is its spelling below the workspace. -/
theorem key_below (hnamed : ∀ name ∈ project.workspace ++ rest, Named name) (hrest : rest ≠ []) :
    below project.front (relativePosix (project.workspace ++ rest)) = ['/'].intercalate rest := by
  unfold below front
  by_cases hroot : project.workspace = []
  · rw [hroot, nil_append] at hnamed ⊢
    have hfree : ¬ relativePosix [] ++ ['/'] <+: relativePosix rest := by
      rintro ⟨text, htext⟩
      have hsplit : ['.'] ∈ (relativePosix rest).splitOn '/' := by
        have hfront : relativePosix [] ++ ['/'] ++ text = ['.'] ++ '/' :: text := rfl
        rw [← htext, hfront, splitOn_append_cons_self]
        exact mem_append_left _ (mem_singleton.mpr rfl)
      rw [relativePosix, if_neg hrest, splitOn_intercalate _ (fun name hname => (hnamed name hname).1) hrest] at hsplit
      exact (hnamed _ hsplit).2.2.1 rfl
    rw [if_neg hfree, relativePosix, if_neg hrest]
  · have hwhole : relativePosix (project.workspace ++ rest) = relativePosix project.workspace ++ ['/'] ++ ['/'].intercalate rest := by
      rw [relativePosix, if_neg (append_ne_nil_of_left_ne_nil hroot rest), relativePosix, if_neg hroot,
        intercalate_append '/' hroot hrest, append_assoc, singleton_append]
    rw [hwhole, if_pos (prefix_append _ _), drop_left]

theorem located_eq (key : Text) : project.located key = if ['.', '.'] ∈ parts (project.normalized key) then none
    else some (project.workspace ++ parts (project.normalized key)) := by
  have hrelative : project.located key = confined (relativePosix project.workspace ++ '/' :: project.normalized key) := by
    unfold located normalized below
    by_cases hfront : project.front <+: slashed key
    · obtain ⟨text, htext⟩ := hfront
      rw [if_pos ⟨text, htext⟩, if_pos ⟨text, htext⟩, ← htext, drop_left, front, append_assoc, singleton_append]
    · rw [if_neg hfront, if_neg hfront, front, append_assoc, singleton_append]
  have hplain : ['.', '.'] ∉ project.workspace := fun hmem => (project.named_workspace _ hmem).2.2.2 rfl
  rw [hrelative, confined, parts_append, parts_relative project.named_workspace]
  simp only [head_relative project.named_workspace, false_or, mem_append, hplain]

theorem recordOf_eq (p : Path) : project.recordOf p = (below project.front (relativePosix p),
    ((project.pages.lookup (below project.front (relativePosix p))).or (project.pages.lookup (relativePosix p))).bind object) := by
  rw [recordOf, manifestPageRecord, rstrip_relative project.named_workspace, front]

theorem mem_conceptPages : p ∈ project.conceptPages py ↔ project.entry project.workspace = some .directory ∧ p ∈ project.entries.map Prod.fst ∧
    project.workspace <+: p ∧ p ≠ project.workspace ∧ ".md".toList <:+ p.getLastD [] ∧ ¬ project.IsReserved py p := by
  unfold conceptPages
  split
  · rename_i hdir
    rw [mem_filter, decide_eq_true_iff]
    exact (and_iff_right hdir).symm
  · rename_i hdir
    exact iff_of_false not_mem_nil (fun h => hdir h.1)

theorem isSome_entry (hp : p ≠ []) : (project.entry p).isSome = true ↔ p ∈ project.entries.map Prod.fst := by
  rw [entry, if_neg hp, lookup_isSome_iff, mem_map]
  exact ⟨fun ⟨e, he, hkey⟩ => ⟨e, he, (eq_of_beq hkey).symm⟩, fun ⟨e, he, hkey⟩ => ⟨e, he, beq_iff_eq.mpr hkey.symm⟩⟩

theorem mem_pageKeys : key ∈ (project.conceptPages py).map (fun p => (project.recordOf p).1) ↔
    project.Spells py key ∧ (project.entry (project.workspace ++ parts key)).isSome = true := by
  constructor
  · intro hkey
    obtain ⟨p, hp, hpkey⟩ := mem_map.mp hkey
    obtain ⟨hdir, hfound, ⟨rest, rfl⟩, hbelow, hmarkdown, hreserved⟩ := mem_conceptPages.mp hp
    have hrest : rest ≠ [] := fun hempty => hbelow (by rw [hempty, append_nil])
    have hnamed := project.named _ (mem_cons_of_mem _ hfound)
    rw [recordOf_eq] at hpkey
    obtain rfl := (key_below hnamed hrest).symm.trans hpkey
    rw [parts_joined (fun name hname => hnamed name (mem_append_right _ hname)) hrest]
    have hparts := parts_joined (fun name hname => hnamed name (mem_append_right _ hname)) hrest
    refine ⟨⟨hdir, ?_, ?_, ?_, ?_⟩, (isSome_entry (append_ne_nil_of_right_ne_nil _ hrest)).mpr hfound⟩ <;> rw [hparts] <;> assumption
  · rintro ⟨⟨hdir, hjoined, hparts, hmarkdown, hreserved⟩, hfound⟩
    have hmem := (isSome_entry (append_ne_nil_of_right_ne_nil _ hparts)).mp hfound
    refine mem_map.mpr ⟨_, mem_conceptPages.mpr ⟨hdir, hmem, prefix_append _ _, fun hsame => hparts ?_, hmarkdown, hreserved⟩, ?_⟩
    · exact append_right_eq_self.mp hsame
    · rw [recordOf_eq]
      exact (key_below (project.named _ (mem_cons_of_mem _ hmem)) hparts).trans hjoined

theorem statusReports_entry (hkey : key ∈ project.keys) : project.StatusReports py (.entry key) ↔
    ¬ (project.Spells py (project.normalized key) ∧ (project.entry (project.workspace ++ parts (project.normalized key))).isSome = true) := by
  rw [StatusReports, computeStatus, reported_entry hkey, statusEntry, ← mem_pageKeys]
  split <;> simp [*]

theorem lintReports_iff (item : Item) : project.LintReports py item ↔
    ¬ project.Refused ∧ ∃ code, (item, code) ∈ report (project.conceptPages py) project.keys (project.lintPage py) project.lintEntry := by
  have hrefused : (∃ key ∈ project.keys, project.located key = none) ↔ project.Refused := by
    simp only [located_eq, Refused, ite_eq_left_iff, reduceCtorEq, imp_false, not_not]
  unfold LintReports lintWorkspace
  split <;> simp_all

theorem lintReports_entry (hkey : key ∈ project.keys) : project.LintReports py (.entry key) ↔ ¬ project.Refused ∧
    ∀ content, project.entry (project.workspace ++ parts (project.normalized key)) ≠ some (.file content) := by
  rw [lintReports_iff, reported_entry hkey]
  refine and_congr_right fun hrefused => ?_
  rw [lintEntry, located_eq, if_neg fun hdots => hrefused ⟨key, hkey, hdots⟩, Option.bind_some]
  rcases project.entry _ with _ | content | _ <;> simp

theorem exists_deadline {P : String → Prop} : (∃ field ∈ deadlines, P field) ↔ P "stale_after" ∨ P "valid_until" ∨ P "purge_after" := by
  simp only [deadlines, mem_cons, not_mem_nil, or_false, exists_eq_or_imp, exists_eq_left]

theorem statusPage_ne_nil {fields : Fields ν} {digest : Text} (hread : project.readFrontmatter py p = some (fields, digest)) :
    project.statusPage py p ≠ [] ↔ py.truthy (get fields "type") = true ∧
      ∀ r, (project.recordOf p).2 = some r → Drifts py fields digest r (checked r "stale_after") := by
  rw [statusPage, hread]
  cases htype : py.truthy (get fields "type") with
  | false => simp [htype]
  | true =>
    cases hrecord : (project.recordOf p).2 with
    | none => simp [htype]
    | some r =>
      cases hhash : hashed r digest with
      | false => simp [htype, hhash, Drifts, Elsewhere]
      | true =>
        have hvalid : checked r "valid_until" = get r "valid_until" := by simp [checked]
        have hpurge : checked r "purge_after" = get r "purge_after" := by simp [checked]
        simp [htype, hhash, Drifts, Elsewhere, exists_deadline, hvalid, hpurge]

theorem lintPage_ne_nil {fields : Fields ν} {digest : Text} (hread : project.readFrontmatter py p = some (fields, digest)) :
    project.lintPage py p ≠ [] ↔ ∀ r, (project.recordOf p).2 = some r → Drifts py fields digest r (get r "stale_after") := by
  rw [lintPage, hread, recordOf_eq]
  cases (project.pages.lookup (below project.front (relativePosix p))).or (project.pages.lookup (relativePosix p)) with
  | none => simp
  | some value =>
    cases hobject : object value with
    | none => simp [hobject]
    | some r =>
      cases hhash : hashed r digest with
      | false => simp [hobject, hhash, Drifts, Elsewhere]
      | true => simp [hobject, hhash, Drifts, Elsewhere, exists_deadline]

/-- The legacy deadline, which only the status reads, goes unseen just if it is idle. -/
theorem differ_iff_idle {fields r : Fields ν} (hnull : (get r "stale_after").isNull = true) :
    (py.differ (get fields "stale_after") (get r "check_after") ↔ py.differ (get fields "stale_after") (get r "stale_after")) ↔ Idle py fields r := by
  have hnone : py.parseTime (get r "stale_after") = some none := if_pos hnull
  simp only [Python.differ, Idle, hnone]
  cases hpage : py.parseTime (get fields "stale_after") with
  | none => simp
  | some x =>
    cases py.parseTime (get r "check_after") with
    | none => cases x <;> simp
    | some y => cases x <;> cases y <;> simp

theorem pageAgrees_iff {fields : Fields ν} {digest : Text} (hp : p ∈ project.conceptPages py)
    (hread : project.readFrontmatter py p = some (fields, digest)) :
    (project.StatusReports py (.page p) ↔ project.LintReports py (.page p)) ↔ project.PageAgrees py p fields digest := by
  rw [StatusReports, computeStatus, reported_page hp, lintReports_iff, reported_page hp, statusPage_ne_nil hread, lintPage_ne_nil hread, PageAgrees]
  by_cases hrefused : project.Refused
  · simp only [hrefused, not_true_eq_false, false_and, iff_false, not_and, not_forall, exists_prop, if_true]
  · cases htype : py.truthy (get fields "type") with
    | false => simp [hrefused]
    | true =>
      cases hrecord : (project.recordOf p).2 with
      | none => simp [hrefused]
      | some r =>
        simp only [hrefused, not_false_eq_true, true_and, if_false, if_true, Option.some.injEq, forall_eq', Drifts]
        by_cases helse : Elsewhere py fields digest r
        · simp [helse]
        · cases hnull : (get r "stale_after").isNull with
          | false => simp [checked, hnull]
          | true => simp [helse, checked, hnull, differ_iff_idle hnull]

theorem entryAgrees_iff (hkey : key ∈ project.keys) : (project.StatusReports py (.entry key) ↔ project.LintReports py (.entry key)) ↔
    project.EntryAgrees py (project.normalized key) := by
  rw [statusReports_entry hkey, lintReports_entry hkey, EntryAgrees]
  by_cases hrefused : project.Refused
  · simp only [hrefused, not_true_eq_false, false_and, iff_false, not_not, if_true]
  · rw [if_neg hrefused]
    rcases project.entry (project.workspace ++ parts (project.normalized key)) with _ | content | _ <;> simp [hrefused]

end Project

/-- Status and lint agree on a page or an entry of the manifest just where their readings of it do. -/
theorem agree_iff (py : Python ν) (project : Project ν) :
    (∀ p ∈ project.conceptPages py, ∀ fields digest, project.readFrontmatter py p = some (fields, digest) →
      ((project.StatusReports py (.page p) ↔ project.LintReports py (.page p)) ↔ project.PageAgrees py p fields digest)) ∧
    ∀ key ∈ project.keys, (project.StatusReports py (.entry key) ↔ project.LintReports py (.entry key)) ↔
      project.EntryAgrees py (project.normalized key) :=
  ⟨fun _ hp _ _ hread => Project.pageAgrees_iff hp hread, fun _ hkey => Project.entryAgrees_iff hkey⟩

section LegacyExample

def text : Text := "---\ntype: Concept\nstale_after: 2026-01-01\n---\n".toList

def digest : Text := "cf853e02f55acd00920b1254a7a910441c3d719bbd46fa7abbdcc19d1d9124e7".toList

def date : Value Unit := .string "2026-01-01".toList

def fields : Fields Unit := [("type".toList, .string "Concept".toList), ("stale_after".toList, date)]

def cpython : Python Unit where
  str := fun value => match value with
    | .string s => s
    | _ => []
  strip := id
  lower := List.map Char.toLower
  nonzero := fun _ => false
  fromisoformat := fun text => if text = "2026-01-01".toList then some 1767225600000000 else none
  sha256 := fun content => if content = text then digest else []
  readFrontmatter := fun content => if content = text then some fields else some []

def page : Path := ["wiki-llm".toList, "a.md".toList]

/-- A page whose record holds its deadline under the legacy name. -/
def legacy : Project Unit where
  workspace := ["wiki-llm".toList]
  entries := [(["wiki-llm".toList], .directory), (page, .file text)]
  pages := [("a.md".toList, .object [("sha256".toList, .string digest), ("check_after".toList, date)])]
  named := by decide

theorem legacy_page : page ∈ legacy.conceptPages cpython ∧ legacy.readFrontmatter cpython page = some (fields, digest) := by
  constructor
  · decide
  · rfl

theorem legacy_agrees_iff : (legacy.StatusReports cpython (.page page) ↔ legacy.LintReports cpython (.page page)) ↔
    legacy.PageAgrees cpython page fields digest :=
  (agree_iff cpython legacy).1 page legacy_page.1 fields digest legacy_page.2

/-- The status takes the legacy deadline for the page's own; the lint misses it. -/
theorem legacy_drifts_for_lint : page ∈ legacy.conceptPages cpython ∧ legacy.readFrontmatter cpython page = some (fields, digest) ∧
    ¬ legacy.StatusReports cpython (.page page) ∧ legacy.LintReports cpython (.page page) := by
  have hclean : legacy.computeStatus cpython = [] := rfl
  have hdrift : legacy.lintWorkspace cpython = some [(.page page, .deadlineDrift)] := rfl
  refine ⟨legacy_page.1, legacy_page.2, ?_, ⟨_, hdrift, .deadlineDrift, mem_singleton.mpr rfl⟩⟩
  rintro ⟨issue, hissue⟩
  rw [hclean] at hissue
  cases hissue

end LegacyExample

end WorkAgent.Wiki.Drift
