import WorkAgent.Harness.FileMovePaths

namespace WorkAgent.Harness.Moves

open Library List Tree

variable {casing : Casing} {moves : List FileMove} {m : FileMove} {disk before made : Tree Name ℕ} {d : ℕ} {workspaceId : String}

structure Planned (moves : List FileMove) : Prop where
  nonempty : moves ≠ []
  spelled : ∀ m ∈ moves, Spelled m.source ∧ Spelled m.destination
  outside : ∀ m ∈ moves, ∀ n ∈ moves, ¬ parts m.source <+: parts n.destination
  apart : moves.Pairwise fun m n => ¬ parts m.source <+: parts n.source ∧ ¬ parts n.source <+: parts m.source

structure Checked (casing : Casing) (disk : Tree Name ℕ) (moves : List FileMove) : Prop where
  resolved : ∀ m ∈ moves, ∀ disk, resolve casing disk m.source true = .ok (parts m.source) ∧
    resolve casing disk m.destination true = .ok (parts m.destination)
  source : ∀ m ∈ moves, disk.has (parts m.source) = true
  destination : ∀ m ∈ moves, disk.has (parts m.destination) = false

theorem resolve_ok {path : Path} {missing : Bool} {found : List Name} (h : resolve casing disk path missing = .ok found) :
    found = parts path ∧ (missing = false → disk.has (parts path) = true) ∧
      ∀ disk, resolve casing disk path true = .ok (parts path) := by
  unfold resolve at h
  split at h
  · cases h
  · rename_i hreserved
    split at h
    · cases h
    · rename_i hvalid
      split at h
      · cases h
      · rename_i hmissing
        refine ⟨(Except.ok.inj h).symm, fun hfalse => ?_, fun disk => ?_⟩
        · rw [hfalse] at hmissing
          simpa using hmissing
        · rw [resolve, if_neg hreserved, if_neg hvalid, if_neg (by simp)]

theorem Checked.cons (h : Checked casing disk moves)
    (hresolved : ∀ disk, resolve casing disk m.source true = .ok (parts m.source) ∧
      resolve casing disk m.destination true = .ok (parts m.destination))
    (hsource : disk.has (parts m.source) = true) (hdestination : disk.has (parts m.destination) = false) :
    Checked casing disk (m :: moves) where
  resolved := forall_mem_cons.mpr ⟨hresolved, h.resolved⟩
  source := forall_mem_cons.mpr ⟨hsource, h.source⟩
  destination := forall_mem_cons.mpr ⟨hdestination, h.destination⟩

theorem checked_of_recheck {files : Table Identity.id} (h : recheck casing disk files workspaceId moves = .ok ()) :
    Checked casing disk moves := by
  induction moves with
  | nil => exact ⟨forall_mem_nil _, forall_mem_nil _, forall_mem_nil _⟩
  | cons m _ ih =>
    unfold recheck at h
    cases hsource : resolve casing disk m.source false with
    | error => simp [hsource, bind, Except.bind] at h
    | ok =>
      cases hreference : reference casing files workspaceId m.source m.fileId with
      | error => simp [hsource, hreference, bind, Except.bind] at h
      | ok path =>
        cases hdestination : resolve casing disk m.destination true with
        | error =>
          by_cases hpath : path = m.source <;>
            simp [hsource, hreference, hdestination, hpath, bind, Except.bind, throw, throwThe, MonadExceptOf.throw] at h
        | ok =>
          obtain ⟨-, hexists, hsources⟩ := resolve_ok hsource
          obtain ⟨rfl, -, hdestinations⟩ := resolve_ok hdestination
          by_cases hpath : path = m.source
          · by_cases hfree : disk.has (parts m.destination) = true
            · simp [hsource, hreference, hdestination, hpath, hfree, bind, Except.bind, throw, throwThe, MonadExceptOf.throw] at h
            · simp [hsource, hreference, hdestination, hpath, hfree, bind, Except.bind] at h
              exact (ih h).cons (fun disk => ⟨hsources disk, hdestinations disk⟩) (hexists rfl) (by simpa using hfree)
          · simp [hsource, hreference, hpath, bind, Except.bind, throw, throwThe, MonadExceptOf.throw] at h

theorem pending_eq (h : Checked casing before moves) (hm : m ∈ moves) (disk : Tree Name ℕ) : pending casing disk m =
    if disk.has (parts m.source) then
      if disk.has (parts m.destination) then .error "destination_exists" else .ok (some (parts m.source, parts m.destination))
    else if disk.has (parts m.destination) then .ok none else .error "file_not_found" := by
  obtain ⟨hsource, hdestination⟩ := h.resolved m hm disk
  unfold pending
  rw [hsource, hdestination]
  simp only [bind, Except.bind]
  cases disk.has (parts m.source) <;> cases disk.has (parts m.destination) <;> rfl

def moved (moves : List FileMove) (path : List Name) : List Name :=
  moves.foldl (fun path m => relocate (parts m.source) (parts m.destination) path) path

def followed (moves : List FileMove) (path : Path) : Path := moves.foldl (fun path m => m.follow path) path

theorem moved_concat (path : List Name) : moved (moves ++ [m]) path = relocate (parts m.source) (parts m.destination) (moved moves path) := by
  simp [moved]

theorem followed_concat (path : Path) : followed (moves ++ [m]) path = m.follow (followed moves path) := by
  simp [followed]

theorem take_succ_of_getElem? (h : moves[d]? = some m) : moves.take (d + 1) = moves.take d ++ [m] := by
  rw [take_add_one, h]
  rfl

theorem moved_eq_self {path : List Name} (h : ∀ m ∈ moves, ¬ parts m.source <+: path) : moved moves path = path := by
  induction moves with
  | nil => rfl
  | cons m rest ih =>
    obtain ⟨hfirst, hrest⟩ := forall_mem_cons.mp h
    change moved rest (relocate (parts m.source) (parts m.destination) path) = path
    rw [relocate_of_not hfirst]
    exact ih hrest

theorem Planned.mem_take_apart (h : Planned moves) (hm : moves[d]? = some m) :
    ∀ n ∈ moves.take d, ¬ parts n.source <+: parts m.source ∧ ¬ parts m.source <+: parts n.source := by
  have hpair := h.apart.sublist (take_sublist (d + 1) moves)
  rw [take_succ_of_getElem? hm, pairwise_append] at hpair
  exact fun n hn => hpair.2.2 n hn m (mem_singleton.mpr rfl)

theorem Checked.not_above (h : Checked casing disk moves) {n : FileMove} (hm : m ∈ moves) (hn : n ∈ moves) :
    ¬ parts m.destination <+: parts n.source := by
  intro habove
  obtain ⟨e, he, hpath⟩ := mem_of_has (h.source n hn) (parts_ne_nil _)
  have hhas := has_above he (hpath ▸ habove)
  rw [h.destination m hm] at hhas
  cases hhas

/-- What the first `d` moves make of a disk, apart from the directories made for the destinations. -/
structure DiskAt (before : Tree Name ℕ) (moves : List FileMove) (d : ℕ) (disk : Tree Name ℕ) : Prop where
  kept : ∀ e ∈ before.entries, ∃ e' ∈ disk.entries, e'.file = e.file ∧ e'.path = moved (moves.take d) e.path
  made : ∀ e' ∈ disk.entries, (∃ e ∈ before.entries, e'.file = e.file ∧ e'.path = moved (moves.take d) e.path) ∨
    (e'.file = none ∧ ∃ m ∈ moves, e'.path <+: parts m.destination)

theorem DiskAt.refl (before : Tree Name ℕ) (moves : List FileMove) : DiskAt before moves 0 before where
  kept := fun e he => ⟨e, he, rfl, rfl⟩
  made := fun e he => .inl ⟨e, he, rfl, rfl⟩

theorem mem_parents {dst path : List Name} (h : path ∈ parents dst) : path <+: dst := by
  have hmem : path ∈ dst.dropLast.inits := mem_of_mem_tail h
  exact ((mem_inits _ _).mp hmem).trans ( dropLast_prefix dst)

section

variable (h : DiskAt before moves d disk)
include h

theorem DiskAt.grow {paths : List (List Name)} (hm : m ∈ moves)
    (hpaths : ∀ path ∈ paths, path ∈ parents (parts m.destination)) (hmade : disk.mkdirs paths = some made) :
    DiskAt before moves d made := by
  have hgrows := mkdirs_grows hmade
  constructor
  · intro e he
    obtain ⟨e', he', hsame⟩ := h.kept e he
    exact ⟨e', hgrows.kept e' he', hsame⟩
  · intro e' he'
    rcases hgrows.made e' he' with hold | ⟨hfile, hpath⟩
    · exact h.made e' hold
    · exact .inr ⟨hfile, m, hm, mem_parents (hpaths _ hpath)⟩

theorem DiskAt.rename (hplanned : Planned moves) (hm : moves[d]? = some m)
    (hmade : disk.rename (parts m.source) (parts m.destination) = some made) : DiskAt before moves (d + 1) made := by
  obtain ⟨hentries, -, -⟩ := rename_eq_some hmade
  have hmem := mem_of_getElem? hm
  constructor
  · intro e he
    obtain ⟨e', he', hfile, hpath⟩ := h.kept e he
    refine ⟨{ e' with path := relocate (parts m.source) (parts m.destination) e'.path }, ?_, hfile, ?_⟩
    · rw [hentries]
      exact mem_map_of_mem he'
    · rw [take_succ_of_getElem? hm, moved_concat, ← hpath]
  · intro _ he'
    rw [hentries] at he'
    obtain ⟨x, hx, rfl⟩ := mem_map.mp he'
    rcases h.made x hx with ⟨e, he, hfile, hpath⟩ | ⟨hfile, n, hn, hpath⟩
    · refine .inl ⟨e, he, hfile, ?_⟩
      rw [take_succ_of_getElem? hm, moved_concat, ← hpath]
    · refine .inr ⟨hfile, n, hn, ?_⟩
      change relocate (parts m.source) (parts m.destination) x.path <+: _
      rw [relocate_of_not (fun hbelow => hplanned.outside m hmem n hn (hbelow.trans hpath))]
      exact hpath

theorem DiskAt.has_source (hplanned : Planned moves) (hchecked : Checked casing before moves)
    (hm : moves[d]? = some m) : disk.has (parts m.source) = true := by
  obtain ⟨e, he, hpath⟩ := mem_of_has (hchecked.source m (mem_of_getElem? hm)) (parts_ne_nil _)
  obtain ⟨_, he', -, hpath'⟩ := h.kept e he
  rw [hpath, moved_eq_self (fun n hn => (hplanned.mem_take_apart hm n hn).1)] at hpath'
  rw [← hpath']
  exact has_of_mem he'

end

section

variable (h : DiskAt before moves (d + 1) disk) (hplanned : Planned moves) (hchecked : Checked casing before moves)
  (hm : moves[d]? = some m)
include h hplanned hchecked hm

theorem DiskAt.has_destination : disk.has (parts m.destination) = true := by
  obtain ⟨e, he, hpath⟩ := mem_of_has (hchecked.source m (mem_of_getElem? hm)) (parts_ne_nil _)
  obtain ⟨_, he', -, hpath'⟩ := h.kept e he
  rw [hpath, take_succ_of_getElem? hm, moved_concat, moved_eq_self (fun n hn => (hplanned.mem_take_apart hm n hn).1)] at hpath'
  have hself : relocate (parts m.source) (parts m.destination) (parts m.source) = parts m.destination := by
    simpa using relocate_of_append (parts m.source) (parts m.destination) []
  rw [← hself, ← hpath']
  exact has_of_mem he'

theorem DiskAt.not_source : disk.has (parts m.source) = false := by
  have hmem := mem_of_getElem? hm
  by_contra hhas
  obtain ⟨e', he', hpath⟩ := mem_of_has (by simpa using hhas) (parts_ne_nil _)
  rcases h.made e' he' with ⟨e, -, -, hpath'⟩ | ⟨-, n, hn, hsub⟩
  · rw [hpath, take_succ_of_getElem? hm, moved_concat] at hpath'
    by_cases hsource : parts m.source <+: moved (moves.take d) e.path
    · obtain ⟨rest, hrest⟩ := hsource
      rw [← hrest, relocate_of_append] at hpath'
      exact hchecked.not_above hmem hmem ⟨rest, hpath'.symm⟩
    · rw [relocate_of_not hsource] at hpath'
      exact hsource ⟨[], by rw [append_nil, hpath']⟩
  · rw [hpath] at hsub
    exact hplanned.outside m hmem n hn hsub

end

end WorkAgent.Harness.Moves
