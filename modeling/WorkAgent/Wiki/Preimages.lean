import Mathlib
import WorkAgent.Library.Executions

namespace WorkAgent.Wiki.Preimage

open Library List Option

abbrev Path := List String

structure Record where
  path : Path
  sha256 : Option String
  existed : Bool
  deriving DecidableEq

/-- The text of a file; `json` is a text that reads as an object, with its `paths` and all else it holds. -/
inductive Content
  | text (s : String)
  | json (rest : String) (paths : Path → Option Record)

inductive Node
  | file (content : Content)
  | directory

/-- What is found at a path of the project; `other` exists and is no file. -/
inductive Source
  | absent
  | file (content : Content)
  | other

/-- An item of `sorted(set(paths))` as `pathlib` splits it; `breaks` is what a copy of it that breaks off leaves behind. -/
structure Item where
  absolute : Bool
  parts : Path
  breaks : Option Content

/-- The project during a call: `resolve` follows the links, `source` is given the path below the root. -/
structure Call where
  root : Path
  resolve : Path → Path
  source : Path → Source
  leaf : ∀ p q c, source p = .file c → p <+: q → p ≠ q → ∀ d, source q ≠ .file d
  items : List Item
  captured : String
  saved : Bool

abbrev Tree := Path → Option Node

def descriptor : Path := ["snapshot.json"]

def Call.confined (call : Call) (item : Item) : Except String Path :=
  if item.absolute ∨ ".." ∈ item.parts then .error "path must be project-relative"
  else
    let target := call.resolve (call.root ++ item.parts)
    if call.root <+: target then .ok target else .error "path escapes project root"

def Call.relativePosix (call : Call) (item : Item) : Except String Path :=
  (call.confined item).map (List.drop call.root.length)

/-- `target.parent.mkdir` fails on a file above the target. -/
def blocked (tree : Tree) (p : Path) : Bool := p.inits.any fun q => q ≠ p && (tree q matches some (.file _))

def copy (tree : Tree) (p : Path) (content : Content) : Tree := fun q =>
  if q = p then some (.file content) else if q <+: p ∧ (tree q).isNone then some .directory else tree q

def readJson : Option Node → Except String (Path → Option Record)
  | none => .ok fun _ => none
  | some (.file (.json _ paths)) => .ok paths
  | some _ => .error "invalid JSON file"

def Call.found (call : Call) (p : Path) : Option Content :=
  match call.source p with
  | .file content => some content
  | _ => none

def Call.Named (call : Call) (p : Path) : Prop := ∃ item ∈ call.items, call.relativePosix item = .ok p

structure World where
  tree : Tree
  first : Path → Option (Option Content)

def World.start : World := ⟨fun _ => none, fun _ => none⟩

section Snapshot

variable (digest : Content → String) (call : Call)

def Record.of (p : Path) (content : Option Content) : Record := ⟨p, content.map digest, content.isSome⟩

/-- The checks of the loop of `snapshot`, with the path and what is found there. -/
def check (item : Item) (tree : Tree) : Except String (Path × Option Content) :=
  match call.relativePosix item with
  | .error e => .error e
  | .ok p =>
    match call.source p with
    | .absent => .ok (p, none)
    | .other => .error "snapshot target is not a file"
    | .file content =>
      match tree p with
      | some .directory => .error "is a directory"
      | some (.file stored) =>
        if digest stored = digest content then .ok (p, some content) else .error "preimage already exists with different content"
      | none => if blocked tree p then .error "not a directory" else .ok (p, some content)

def snapshotItem (item : Item) (tree : Tree) : Except String Record × Tree :=
  match check digest call item tree with
  | .error e => (.error e, tree)
  | .ok (p, found) =>
    match found, tree p with
    | some content, none =>
      match item.breaks with
      | some rest => (.error "ENOSPC", copy tree p rest)
      | none => (.ok (.of digest p found), copy tree p content)
    | _, _ => (.ok (.of digest p found), tree)

def snapshotItems : List Item → Tree → Except String (List Record) × Tree
  | [], tree => (.ok [], tree)
  | item :: items, tree =>
    match snapshotItem digest call item tree with
    | (.error e, tree) => (.error e, tree)
    | (.ok record, tree) =>
      match snapshotItems items tree with
      | (.error e, tree) => (.error e, tree)
      | (.ok records, tree) => (.ok (record :: records), tree)

def update (paths : Path → Option Record) (records : List Record) : Path → Option Record :=
  records.foldl (fun paths record => Function.update paths record.path (some record)) paths

def snapshot (tree : Tree) : Except String (List Record) × Tree :=
  match snapshotItems digest call call.items tree with
  | (.error e, tree) => (.error e, tree)
  | (.ok records, tree) =>
    match readJson (tree descriptor) with
    | .error e => (.error e, tree)
    | .ok existing =>
      if call.saved then (.ok records, Function.update tree descriptor (some (.file (.json call.captured (update existing records)))))
      else (.error "EIO", tree)

/-- What the calls that succeed have found at the paths that they were the first to name. -/
def World.merge (w : World) (names : List Path) (p : Path) : Option (Option Content) :=
  (w.first p).or (if p ∈ names then some (call.found p) else none)

def World.next (w : World) : Except String (List Record) × World :=
  match snapshot digest call w.tree with
  | (.error e, tree) => (.error e, { w with tree })
  | (.ok records, tree) => (.ok records, ⟨tree, w.merge call (records.map Record.path)⟩)

end Snapshot

namespace World

variable (w : World) (digest : Content → String) (call : Call)

def recorded (p : Path) : Option Record := (readJson (w.tree descriptor)).toOption.bind (· p)

def stored (p : Path) : Option Content :=
  match w.tree p with
  | some (.file content) => some content
  | _ => none

def Fresh (item : Item) : Prop := ∃ p c, check digest call item w.tree = .ok (p, some c) ∧ w.tree p = none

def Refused (item : Item) : Prop := (∃ e, check digest call item w.tree = .error e) ∨ (w.Fresh digest call item ∧ item.breaks ≠ none)

/-- No item before it is refused. -/
def Reached (items : List Item) (item : Item) : Prop :=
  ∃ before after, items = before ++ item :: after ∧ ∀ x ∈ before, ¬ w.Refused digest call x

def Fails : Prop := (∃ item ∈ call.items, w.Refused digest call item) ∨ call.saved = false

/-- A call that fails comes to no file without a stored copy; any other finds each path that is recorded as the record says, and no file
at or below `snapshot.json`. -/
structure Careful : Prop where
  failed : w.Fails digest call → ∀ item, w.Reached digest call call.items item → ¬ w.Fresh digest call item
  agrees : ¬ w.Fails digest call → ∀ p, call.Named p →
    (∀ record, w.recorded p = some record → record.existed = (call.found p).isSome) ∧ (descriptor <+: p → call.found p = none)

/-- The preimages are the first states, and a call that fails leaves them alone. -/
structure Lawful : Prop where
  recorded : ∀ p, w.recorded p = (w.first p).map (.of digest p)
  stored : ∀ p c, w.first p = some (some c) → w.stored p = some c
  only : ∀ p c, p ≠ descriptor → w.stored p = some c → w.first p = some (some c)
  failing : ∀ call e t, w.Careful digest call → w.next digest call = (.error e, t) →
    (∀ p, t.recorded p = w.recorded p) ∧ (∀ p, t.stored p = w.stored p) ∧ t.first = w.first

end World

def Step (digest : Content → String) (w : World) (call : Call) (t : World) : Prop := t = (w.next digest call).2

def CarefulStep (digest : Content → String) (w : World) (call : Call) (t : World) : Prop := w.Careful digest call ∧ Step digest w call t

section Items

variable {w : World} {digest : Content → String} {call : Call} {item : Item} {items : List Item} {tree u v : Tree} {p q : Path}
  {c : Content} {o : Option Content}

theorem found_eq_some : call.found p = some c ↔ call.source p = .file c := by
  unfold Call.found
  cases call.source p <;> simp

theorem blocked_eq_true : blocked tree p = true ↔ ∃ q c, q <+: p ∧ q ≠ p ∧ tree q = some (.file c) := by
  unfold blocked
  rw [List.any_eq_true]
  constructor
  · rintro ⟨q, hq, h⟩
    rw [Bool.and_eq_true, decide_eq_true_eq] at h
    obtain ⟨hne, hfile⟩ := h
    split at hfile
    · exact ⟨q, _, (mem_inits q p).mp hq, hne, ‹_›⟩
    · cases hfile
  · rintro ⟨q, c, hq, hne, hfile⟩
    refine ⟨q, (mem_inits q p).mpr hq, ?_⟩
    simp [hne, hfile]

theorem check_eq_ok : check digest call item tree = .ok (p, o) ↔ call.relativePosix item = .ok p ∧ (o = none ∧ call.source p = .absent ∨
    ∃ c, o = some c ∧ call.source p = .file c ∧
      ((∃ d, tree p = some (.file d) ∧ digest d = digest c) ∨ (tree p = none ∧ blocked tree p = false))) := by
  unfold check
  cases call.relativePosix item with
  | error e => simp
  | ok q =>
    constructor
    · intro h
      cases hsource : call.source q with
      | absent =>
        simp only [hsource] at h
        cases h
        exact ⟨rfl, .inl ⟨rfl, hsource⟩⟩
      | other => simp [hsource] at h
      | file c =>
        simp only [hsource] at h
        split at h
        · cases h
        · split at h <;> cases h
          exact ⟨rfl, .inr ⟨c, rfl, hsource, .inl ⟨_, ‹_›, ‹_›⟩⟩⟩
        · split at h <;> cases h
          exact ⟨rfl, .inr ⟨c, rfl, hsource, .inr ⟨‹_›, eq_false_of_ne_true ‹_›⟩⟩⟩
    · rintro ⟨⟨⟩, ⟨rfl, hsource⟩ | ⟨c, rfl, hsource, ⟨d, hd, hdigest⟩ | ⟨hnone, hblocked⟩⟩⟩
      · simp [hsource]
      · simp [hsource, hd, hdigest]
      · simp [hsource, hnone, hblocked]

theorem found_of_check (h : check digest call item tree = .ok (p, o)) : call.found p = o := by
  obtain ⟨-, ⟨rfl, hsource⟩ | ⟨c, rfl, hsource, -⟩⟩ := check_eq_ok.mp h
  · simp [Call.found, hsource]
  · exact found_eq_some.mpr hsource

theorem snapshotItem_ok (h : check digest call item u = .ok (p, o)) (hbreaks : ∀ c, o = some c → u p = none → item.breaks = none) :
    ∃ v, snapshotItem digest call item u = (.ok (.of digest p o), v) ∧
      (v = u ∨ ∃ c, o = some c ∧ u p = none ∧ v = copy u p c) ∧ ∀ c, o = some c → ∃ d, v p = some (.file d) ∧ digest d = digest c := by
  unfold snapshotItem
  rw [h]
  obtain ⟨-, ⟨rfl, -⟩ | ⟨c, rfl, -, ⟨d, hd, hdigest⟩ | ⟨hnone, -⟩⟩⟩ := check_eq_ok.mp h
  · exact ⟨u, rfl, .inl rfl, by simp⟩
  · refine ⟨u, by simp [hd], .inl rfl, ?_⟩
    rintro _ ⟨⟩
    exact ⟨d, hd, hdigest⟩
  · refine ⟨copy u p c, by simp [hnone, hbreaks], .inr ⟨c, rfl, hnone, rfl⟩, ?_⟩
    rintro _ ⟨⟩
    exact ⟨c, if_pos rfl, rfl⟩

theorem snapshotItem_same (h : ¬ w.Fresh digest call item) : (snapshotItem digest call item w.tree).2 = w.tree := by
  unfold snapshotItem
  split
  · rfl
  · split
    · exact absurd ⟨_, _, ‹_›, ‹_›⟩ h
    · rfl

theorem snapshotItem_refused (h : w.Refused digest call item) : ∃ e, (snapshotItem digest call item w.tree).1 = .error e := by
  unfold snapshotItem
  obtain ⟨e, he⟩ | ⟨⟨p, c, hc, hnone⟩, hbreaks⟩ := h
  · exact ⟨e, by rw [he]⟩
  · obtain ⟨rest, hrest⟩ := ne_none_iff_exists'.mp hbreaks
    simp [hc, hnone, hrest]

/-- The copies that a call has added to the stored files. -/
structure Grown (call : Call) (tree u : Tree) : Prop where
  keeps : ∀ q, tree q ≠ none → u q = tree q
  file : ∀ q c, tree q = none → u q = some (.file c) → call.source q = .file c ∧ call.Named q
  directory : ∀ q, tree q = none → u q = some .directory → ∃ p c, q <+: p ∧ q ≠ p ∧ call.source p = .file c ∧ call.Named p

theorem copy_keeps (hnone : u p = none) (hq : u q ≠ none) : copy u p c q = u q := by
  have hne : q ≠ p := fun heq => hq (heq ▸ hnone)
  simp [copy, hne, hq]

theorem Grown.copied (h : Grown call tree u) (hp : call.Named p) (hsource : call.source p = .file c) (hnone : u p = none) :
    Grown call tree (copy u p c) := by
  refine ⟨?_, ?_, ?_⟩
  · intro q hq
    have hsame := h.keeps q hq
    rw [copy_keeps hnone (hsame ▸ hq), hsame]
  · intro q d hq hd
    by_cases hnew : u q = none
    · unfold copy at hd
      split at hd
      · obtain rfl := ‹q = p›
        cases hd
        exact ⟨hsource, hp⟩
      · split at hd
        · cases hd
        · cases hnew.symm.trans hd
    · exact h.file q d hq (copy_keeps hnone hnew ▸ hd)
  · intro q hq hd
    by_cases hnew : u q = none
    · unfold copy at hd
      split at hd
      · cases hd
      · split at hd
        · rename_i hne hprefix
          exact ⟨p, c, hprefix.1, hne, hsource, hp⟩
        · cases hnew.symm.trans hd
    · exact h.directory q hq (copy_keeps hnone hnew ▸ hd)

theorem check_grown (hu : Grown call tree u) (h : check digest call item tree = .ok (p, o)) : check digest call item u = .ok (p, o) := by
  obtain ⟨hp, ⟨rfl, hsource⟩ | ⟨c, rfl, hsource, h⟩⟩ := check_eq_ok.mp h
  · exact check_eq_ok.mpr ⟨hp, .inl ⟨rfl, hsource⟩⟩
  · refine check_eq_ok.mpr ⟨hp, .inr ⟨c, rfl, hsource, ?_⟩⟩
    rcases h with ⟨d, hd, hdigest⟩ | ⟨hnone, hblocked⟩
    · exact .inl ⟨d, (hu.keeps p (by simp [hd])).trans hd, hdigest⟩
    · cases hnode : u p with
      | some node =>
        cases node with
        | directory =>
          obtain ⟨q, d, hprefix, hne, hd, -⟩ := hu.directory p hnone hnode
          exact absurd hd (call.leaf p q c hsource hprefix hne d)
        | file d =>
          cases hsource.symm.trans (hu.file p d hnone hnode).1
          exact .inl ⟨c, rfl, rfl⟩
      | none =>
        refine .inr ⟨rfl, eq_false_of_ne_true fun hblocks => ?_⟩
        obtain ⟨q, d, hprefix, hne, hd⟩ := blocked_eq_true.mp hblocks
        by_cases hq : tree q = none
        · exact call.leaf q p d (hu.file q d hq hd).1 hprefix hne c hsource
        · rw [blocked_eq_true.mpr ⟨q, d, hprefix, hne, (hu.keeps q hq).symm.trans hd⟩] at hblocked
          cases hblocked

/-- Where nothing new is copied on the way, the stored files stay as they are. -/
theorem snapshotItems_same (h : ∀ item, w.Reached digest call items item → ¬ w.Fresh digest call item) :
    (snapshotItems digest call items w.tree).2 = w.tree ∧ ∀ records, (snapshotItems digest call items w.tree).1 = .ok records →
      ∀ item ∈ items, ¬ w.Refused digest call item := by
  induction items with
  | nil => exact ⟨rfl, by simp⟩
  | cons item items ih =>
    have hsame := snapshotItem_same (h item ⟨[], items, rfl, by simp⟩)
    unfold snapshotItems
    split
    · rename_i heq
      rw [heq] at hsame
      exact ⟨hsame, by simp⟩
    · rename_i record v heq
      rw [heq] at hsame
      obtain rfl : v = w.tree := hsame
      have hitem : ¬ w.Refused digest call item := by
        intro hrefused
        obtain ⟨e, he⟩ := snapshotItem_refused hrefused
        rw [heq] at he
        cases he
      have ih := ih ?_
      · split
        · rename_i heq'
          rw [heq'] at ih
          exact ⟨ih.1, by simp⟩
        · rename_i records v heq'
          rw [heq'] at ih
          refine ⟨ih.1, fun _ _ => ?_⟩
          exact forall_mem_cons.mpr ⟨hitem, ih.2 records rfl⟩
      · rintro x ⟨before, after, rfl, hbefore⟩
        exact h x ⟨item :: before, after, rfl, forall_mem_cons.mpr ⟨hitem, hbefore⟩⟩

/-- What a loop has made that has come to its end. -/
structure Done (digest : Content → String) (call : Call) (items : List Item) (names : List Path) (u : Tree) : Prop where
  names : items.map call.relativePosix = names.map .ok
  stored : ∀ item ∈ items, ∀ p c, call.relativePosix item = .ok p → call.source p = .file c →
    ∃ d, u p = some (.file d) ∧ digest d = digest c

theorem snapshotItems_done (hu : Grown call w.tree u) (hmem : ∀ item ∈ items, item ∈ call.items)
    (h : ∀ item ∈ items, ¬ w.Refused digest call item) :
    ∃ names v, snapshotItems digest call items u = (.ok (names.map fun p => .of digest p (call.found p)), v) ∧ Grown call w.tree v ∧
      (∀ q, u q ≠ none → v q = u q) ∧ Done digest call items names v := by
  induction items generalizing u with
  | nil => exact ⟨[], u, rfl, hu, fun _ _ => rfl, rfl, by simp⟩
  | cons item items ih =>
    obtain ⟨hitem, hitems⟩ := forall_mem_cons.mp hmem
    obtain ⟨hfine, hrest⟩ := forall_mem_cons.mp h
    obtain ⟨p, o, hcheck⟩ : ∃ p o, check digest call item w.tree = .ok (p, o) := by
      cases hcheck : check digest call item w.tree with
      | error e => exact absurd (.inl ⟨e, hcheck⟩) hfine
      | ok x => exact ⟨x.1, x.2, rfl⟩
    have hp := (check_eq_ok.mp hcheck).1
    have hfound := found_of_check hcheck
    obtain ⟨v, hone, hv, hd⟩ := snapshotItem_ok (check_grown hu hcheck) (by
      rintro c rfl hnone
      by_contra hbreaks
      refine hfine (.inr ⟨⟨p, c, hcheck, ?_⟩, hbreaks⟩)
      by_contra hsome
      exact hsome ((hu.keeps p hsome).symm.trans hnone))
    have hgrown : Grown call w.tree v ∧ ∀ q, u q ≠ none → v q = u q := by
      rcases hv with rfl | ⟨c, rfl, hnone, rfl⟩
      · exact ⟨hu, fun _ _ => rfl⟩
      · exact ⟨hu.copied ⟨item, hitem, hp⟩ (found_eq_some.mp hfound) hnone, fun _ => copy_keeps hnone⟩
    obtain ⟨names, v', hloop, hgrown', hkeeps, hdone⟩ := ih hgrown.1 hitems hrest
    refine ⟨p :: names, v', by simp [snapshotItems, hone, hloop, hfound], hgrown', ?_, by simp [hp, hdone.names], ?_⟩
    · intro q hq
      have hsame := hgrown.2 q hq
      rw [hkeeps q (hsame ▸ hq), hsame]
    · refine forall_mem_cons.mpr ⟨?_, hdone.stored⟩
      intro p' c hp' hsource
      cases hp.symm.trans hp'
      obtain ⟨d, hfile, hdigest⟩ := hd c (hfound.symm.trans (found_eq_some.mpr hsource))
      exact ⟨d, (hkeeps p (by simp [hfile])).trans hfile, hdigest⟩

theorem update_map (f : Path → Record) (hf : ∀ p, (f p).path = p) (paths : Path → Option Record) (names : List Path) (p : Path) :
    update paths (names.map f) p = if p ∈ names then some (f p) else paths p := by
  induction names generalizing paths with
  | nil => rfl
  | cons q names ih =>
    refine (ih _).trans ?_
    by_cases hq : p = q
    · simp [hf, hq]
    · simp [hf, hq]

end Items

section Laws

variable {w t : World} {digest : Content → String} {call : Call} {p : Path} {c : Content}

structure Sound (digest : Content → String) (w : World) : Prop where
  readable : ∃ paths, readJson (w.tree descriptor) = .ok paths ∧ ∀ p, paths p = (w.first p).map (.of digest p)
  stored : ∀ p c, p ≠ descriptor → (w.tree p = some (.file c) ↔ w.first p = some (some c))
  free : ∀ c, w.first descriptor ≠ some (some c)

theorem stored_eq_some : w.stored p = some c ↔ w.tree p = some (.file c) := by
  unfold World.stored
  cases w.tree p with
  | none => simp
  | some node => cases node <;> simp

theorem Sound.recorded (h : Sound digest w) (p : Path) : w.recorded p = (w.first p).map (.of digest p) := by
  obtain ⟨paths, hpaths, hfind⟩ := h.readable
  rw [← hfind, World.recorded, hpaths]
  rfl

/-- The loop of a careful call that does not fail. -/
structure Passed (digest : Content → String) (w : World) (call : Call) (names : List Path) (u : Tree) : Prop
    extends Grown call w.tree u, Done digest call call.items names u where
  sound : Sound digest w
  agrees : ∀ p, call.Named p → (∀ record, w.recorded p = some record → record.existed = (call.found p).isSome) ∧
    (descriptor <+: p → call.found p = none)

variable {names : List Path} {u : Tree}

namespace Passed

section

variable (h : Passed digest w call names u)
include h

theorem at_descriptor : u descriptor = w.tree descriptor := by
  by_cases hnone : w.tree descriptor = none
  · rw [hnone]
    have hfree : ∀ p d, descriptor <+: p → call.source p = .file d → ¬ call.Named p := by
      intro p d hprefix hsource hname
      have hfound := (h.agrees p hname).2 hprefix
      rw [found_eq_some.mpr hsource] at hfound
      cases hfound
    cases hnode : u descriptor with
    | none => rfl
    | some node =>
      exfalso
      cases node with
      | file d =>
        obtain ⟨hsource, hname⟩ := h.file _ d hnone hnode
        exact hfree _ d prefix_rfl hsource hname
      | directory =>
        obtain ⟨p, d, hprefix, -, hsource, hname⟩ := h.directory _ hnone hnode
        exact hfree p d hprefix hsource hname
  · exact h.keeps _ hnone

theorem mem_names : p ∈ names ↔ call.Named p := by
  have hmem : (.ok p : Except String Path) ∈ call.items.map call.relativePosix ↔ p ∈ names := by simp [h.toDone.names]
  rw [← hmem, List.mem_map]
  rfl

theorem isSome_eq (hp : call.Named p) {o : Option Content} (hfirst : w.first p = some o) :
    o.isSome = (call.found p).isSome := by
  refine (h.agrees p hp).1 (.of digest p o) ?_
  rw [h.sound.recorded, hfirst]
  rfl

/-- A path named once more is recorded as before. -/
theorem again (hp : call.Named p) {o : Option Content} (hfirst : w.first p = some o) :
    Record.of digest p (call.found p) = .of digest p o := by
  have hsome := h.isSome_eq hp hfirst
  cases o with
  | none =>
    rw [isSome_none, eq_comm, isSome_eq_false_iff, isNone_iff_eq_none] at hsome
    rw [hsome]
  | some d =>
    obtain ⟨c, hc⟩ := isSome_iff_exists.mp hsome.symm
    have hne : p ≠ descriptor := by
      rintro rfl
      exact h.sound.free d hfirst
    have hold := (h.sound.stored p d hne).mpr hfirst
    obtain ⟨item, hitem, hitem'⟩ := hp
    obtain ⟨d', hd', hdigest⟩ := h.stored item hitem p c hitem' (found_eq_some.mp hc)
    rw [h.keeps p (by simp [hold]), hold] at hd'
    cases hd'
    simp [hc, Record.of, hdigest]

theorem updated {paths : Path → Option Record}
    (hpaths : ∀ p, paths p = (w.first p).map (.of digest p)) (p : Path) :
    update paths (names.map fun p => .of digest p (call.found p)) p = (w.merge call names p).map (.of digest p) := by
  rw [update_map _ fun _ => rfl, World.merge, hpaths]
  by_cases hp : p ∈ names
  · rw [if_pos hp, if_pos hp]
    cases hfirst : w.first p with
    | none => rfl
    | some o => exact congrArg some (h.again (h.mem_names.mp hp) hfirst)
  · rw [if_neg hp, if_neg hp, or_none]

theorem stored_iff (hne : p ≠ descriptor) :
    u p = some (.file c) ↔ w.merge call names p = some (some c) := by
  have hstored := h.sound.stored p
  unfold World.merge
  cases hfirst : w.first p with
  | some o =>
    cases o with
    | some d =>
      have hold := (hstored d hne).mpr hfirst
      rw [h.keeps p (by simp [hold]), hold]
      simp
    | none =>
      simp only [some_or, some_inj, reduceCtorEq, iff_false]
      intro hc
      by_cases hnone : w.tree p = none
      · obtain ⟨hsource, hname⟩ := h.file p c hnone hc
        have hsome := h.isSome_eq hname hfirst
        rw [found_eq_some.mpr hsource] at hsome
        cases hsome
      · have hold := (hstored c hne).mp ((h.keeps p hnone).symm.trans hc)
        cases hfirst.symm.trans hold
  | none =>
    have hnew : ∀ d, u p = some (.file d) → call.source p = .file d ∧ call.Named p := by
      intro d hd
      by_cases hnone : w.tree p = none
      · exact h.file p d hnone hd
      · cases hfirst.symm.trans ((hstored d hne).mp ((h.keeps p hnone).symm.trans hd))
    rw [none_or]
    constructor
    · intro hc
      obtain ⟨hsource, hname⟩ := hnew c hc
      rw [if_pos (h.mem_names.mpr hname), found_eq_some.mpr hsource]
    · intro hc
      split at hc
      · obtain ⟨item, hitem, hp⟩ := h.mem_names.mp ‹_›
        have hsource := found_eq_some.mp (Option.some.inj hc)
        obtain ⟨d, hd, -⟩ := h.stored item hitem p c hp hsource
        cases hsource.symm.trans (hnew d hd).1
        exact hd
      · cases hc

theorem merge_descriptor : w.merge call names descriptor ≠ some (some c) := by
  intro hc
  unfold World.merge at hc
  cases hfirst : w.first descriptor with
  | some o =>
    rw [hfirst] at hc
    exact h.sound.free c (hfirst.trans hc)
  | none =>
    rw [hfirst, none_or] at hc
    split at hc
    · rw [(h.agrees _ (h.mem_names.mp ‹_›)).2 prefix_rfl] at hc
      cases hc
    · cases hc

end

end Passed

theorem Sound.passed (h : Sound digest w) (hcareful : w.Careful digest call) (hfails : ¬ w.Fails digest call) :
    ∃ records, (w.next digest call).1 = .ok records ∧ Sound digest (w.next digest call).2 := by
  obtain ⟨hrefused, hsaved⟩ := not_or.mp hfails
  have hrefused : ∀ item ∈ call.items, ¬ w.Refused digest call item := fun item hitem hr => hrefused ⟨item, hitem, hr⟩
  have hgrown : Grown call w.tree w.tree := ⟨fun _ _ => rfl, by simp_all, by simp_all⟩
  obtain ⟨names, u, hloop, hgrown, -, hdone⟩ := snapshotItems_done hgrown (fun _ hitem => hitem) hrefused
  have hp : Passed digest w call names u := ⟨hgrown, hdone, h, hcareful.agrees hfails⟩
  obtain ⟨paths, hpaths, hfind⟩ := h.readable
  have hnames : (names.map fun p => Record.of digest p (call.found p)).map Record.path = names := by
    rw [List.map_map]
    exact List.map_id' names
  have hnext : w.next digest call = (.ok (names.map fun p => .of digest p (call.found p)), ⟨Function.update u descriptor
      (some (.file (.json call.captured (update paths (names.map fun p => .of digest p (call.found p)))))), w.merge call names⟩) := by
    simp only [World.next, snapshot, hloop, hp.at_descriptor, hpaths, hsaved, if_true, hnames]
  rw [hnext]
  refine ⟨_, rfl, ⟨_, by simp only [Function.update_self]; rfl, hp.updated hfind⟩, ?_, fun _ => hp.merge_descriptor⟩
  intro p c hne
  rw [← hp.stored_iff hne]
  simp [hne]

theorem same_of_fails (hcareful : w.Careful digest call) (hfails : w.Fails digest call) : ∃ e, w.next digest call = (.error e, w) := by
  obtain ⟨hsame, hfine⟩ := snapshotItems_same (hcareful.failed hfails)
  unfold World.next snapshot
  cases hloop : snapshotItems digest call call.items w.tree with
  | mk result u =>
    rw [hloop] at hsame hfine
    obtain rfl : u = w.tree := hsame
    cases result with
    | error e => exact ⟨e, rfl⟩
    | ok records =>
      dsimp only
      have hsaved : call.saved = false := hfails.resolve_left fun ⟨item, hitem, hr⟩ => hfine records rfl item hitem hr
      cases readJson (w.tree descriptor) with
      | error e => exact ⟨e, rfl⟩
      | ok existing =>
        simp only [hsaved]
        exact ⟨_, rfl⟩

theorem Sound.next (h : Sound digest w) (hcareful : w.Careful digest call) : Sound digest (w.next digest call).2 := by
  by_cases hfails : w.Fails digest call
  · obtain ⟨e, he⟩ := same_of_fails hcareful hfails
    rw [he]
    exact h
  · obtain ⟨-, -, hs⟩ := h.passed hcareful hfails
    exact hs

theorem Sound.lawful (h : Sound digest w) : w.Lawful digest where
  recorded := h.recorded
  stored p c hfirst := by
    apply stored_eq_some.mpr
    refine (h.stored p c ?_).mpr hfirst
    rintro rfl
    exact h.free c hfirst
  only p c hne hstored := (h.stored p c hne).mp (stored_eq_some.mp hstored)
  failing call e t hcareful hnext := by
    by_cases hfails : w.Fails digest call
    · obtain ⟨e', he⟩ := same_of_fails hcareful hfails
      cases hnext.symm.trans he
      exact ⟨fun _ => rfl, fun _ => rfl, rfl⟩
    · obtain ⟨records, hok, -⟩ := h.passed hcareful hfails
      rw [hnext] at hok
      cases hok

theorem Sound.start : Sound digest .start := by
  refine ⟨⟨_, rfl, fun _ => rfl⟩, ?_, ?_⟩
  · simp [World.start]
  · simp [World.start]

theorem preimages_of_careful {calls : List Call} (h : Execution (CarefulStep digest) .start calls w) : w.Lawful digest := by
  have hsound : Sound digest w := h.invariant .start fun _ _ _ hs hstep => hstep.2 ▸ hs.next hstep.1
  exact hsound.lawful

end Laws

namespace PreimageExample

def digest : Content → String
  | .text s => s
  | .json rest _ => rest

/-- A call that names `page` alone. -/
def names (page : Source) : Call where
  root := ["project"]
  resolve := id
  source p := if p = ["page"] then page else .absent
  leaf p q c hp _ hne d hq := by
    split at hp
    · split at hq
      · exact hne (‹p = _›.trans ‹q = _›.symm)
      · cases hq
    · cases hp
  items := [⟨false, ["page"], none⟩]
  captured := "now"
  saved := true

def written : Call := names (.file (.text "x"))

theorem execution (calls : List Call) (w : World) : Execution (Step digest) w calls (calls.foldl (fun w call => (w.next digest call).2) w) := by
  induction calls generalizing w with
  | nil => exact .start
  | cons call _ ih => exact (Execution.single rfl).trans (ih _)

theorem careful_written : World.start.Careful digest written := by
  have hfine : ¬ World.start.Fails digest written := by
    rintro (⟨item, hitem, hrefused⟩ | hsaved)
    · obtain rfl := mem_singleton.mp hitem
      obtain ⟨e, he⟩ := snapshotItem_refused hrefused
      cases he
    · cases hsaved
  refine ⟨fun hfails => absurd hfails hfine, fun _ p hp => ?_⟩
  obtain ⟨item, hitem, hp⟩ := hp
  obtain rfl := mem_singleton.mp hitem
  cases hp
  constructor
  · rintro record ⟨⟩
  · decide

theorem preimage_kept : ∃ w : World, w.Lawful digest ∧ w.stored ["page"] = some (.text "x") :=
  ⟨_, preimages_of_careful (.single ⟨careful_written, rfl⟩), rfl⟩

set_option maxRecDepth 100000 in
theorem preimage_replaced : ¬ ∀ calls (w : World), Execution (Step digest) .start calls w → w.Lawful digest := by
  intro hall
  have hrecord := (hall _ _ (execution [names .absent, written] .start)).recorded ["page"]
  revert hrecord
  decide

end PreimageExample

end WorkAgent.Wiki.Preimage
