import Mathlib.Data.List.Infix
import Mathlib.Data.List.Nodup
import Mathlib.Tactic.Common

namespace WorkAgent.Library

open List

variable {ν φ : Type} [DecidableEq ν]

structure Entry (ν φ : Type) where
  path : List ν
  file : Option φ

structure Tree (ν φ : Type) where
  entries : List (Entry ν φ)
  nodup : (entries.map Entry.path).Nodup
  rooted : ∀ e ∈ entries, e.path ≠ []
  closed : ∀ e ∈ entries, e.path.dropLast = [] ∨ ∃ d ∈ entries, d.path = e.path.dropLast ∧ d.file = none

def relocate (src dst path : List ν) : List ν := if src <+: path then dst ++ path.drop src.length else path

theorem relocate_of_append (src dst rest : List ν) : relocate src dst (src ++ rest) = dst ++ rest := by
  rw [relocate, if_pos (prefix_append src rest), drop_left]

theorem relocate_of_not {src dst path : List ν} (h : ¬ src <+: path) : relocate src dst path = path := if_neg h

omit [DecidableEq ν] in
theorem not_prefix_append {src dst rest : List ν} (h : ¬ src <+: dst) (h' : ¬ dst <+: src) : ¬ src <+: dst ++ rest := by
  intro hsrc
  rcases prefix_or_prefix_of_prefix hsrc (prefix_append dst rest) with hsrc | hdst
  · exact h hsrc
  · exact h' hdst

namespace Tree

variable {t u : Tree ν φ} {src dst path : List ν} {e : Entry ν φ}

def empty : Tree ν φ := ⟨[], nodup_nil, forall_mem_nil _, forall_mem_nil _⟩

def has (t : Tree ν φ) (path : List ν) : Bool := path = [] || t.entries.any (fun e => e.path = path)

def isDirectory (t : Tree ν φ) (path : List ν) : Bool := path = [] || t.entries.any (fun e => e.path = path && e.file.isNone)

theorem has_of_mem (h : e ∈ t.entries) : t.has e.path = true := by
  simp only [has, Bool.or_eq_true, any_eq_true, decide_eq_true_eq]
  exact .inr ⟨e, h, rfl⟩

theorem mem_of_has (h : t.has path = true) (hpath : path ≠ []) : ∃ e ∈ t.entries, e.path = path := by
  simpa [has, hpath] using h

theorem mem_of_isDirectory (h : t.isDirectory path = true) : path = [] ∨ ∃ e ∈ t.entries, e.path = path ∧ e.file = none := by
  simpa [isDirectory] using h

theorem isDirectory_of_mem (h : e ∈ t.entries) (hfile : e.file = none) : t.isDirectory e.path = true := by
  simp only [isDirectory, Bool.or_eq_true, any_eq_true, Bool.and_eq_true, decide_eq_true_eq]
  exact .inr ⟨e, h, rfl, by rw [hfile]; rfl⟩

theorem isDirectory_of_append {rest : List ν} (h : e ∈ t.entries) (hpath : e.path = path ++ rest) (hrest : rest ≠ []) :
    t.isDirectory path = true := by
  induction hlength : rest.length generalizing e rest with
  | zero => exact absurd (length_eq_zero_iff.mp hlength) hrest
  | succ _ ih =>
    have hlast : e.path.dropLast = path ++ rest.dropLast := by
      rw [hpath, dropLast_append_of_ne_nil hrest]
    rcases t.closed e h with hnil | ⟨d, hd, hdpath, hfile⟩
    · rw [hlast, append_eq_nil_iff] at hnil
      rw [hnil.1]
      rfl
    · rw [hlast] at hdpath
      by_cases hempty : rest.dropLast = []
      · rw [hempty, append_nil] at hdpath
        rw [← hdpath]
        exact isDirectory_of_mem hd hfile
      · apply ih hd hdpath hempty
        rw [length_dropLast, hlength]
        rfl

theorem has_above (h : e ∈ t.entries) (hpath : path <+: e.path) : t.has path = true := by
  obtain ⟨rest, hrest⟩ := hpath
  by_cases hempty : rest = []
  · rw [hempty, append_nil] at hrest
    rw [hrest]
    exact has_of_mem h
  · rcases mem_of_isDirectory (isDirectory_of_append h hrest.symm hempty) with rfl | ⟨d, hd, hdpath, -⟩
    · simp [has]
    · rw [← hdpath]
      exact has_of_mem hd

theorem relocate_inj {p q : List ν} (hp : ¬ dst <+: p) (hq : ¬ dst <+: q) (h : relocate src dst p = relocate src dst q) : p = q := by
  by_cases hsrcp : src <+: p
  · obtain ⟨rest, rfl⟩ := hsrcp
    rw [relocate_of_append] at h
    by_cases hsrcq : src <+: q
    · obtain ⟨other, rfl⟩ := hsrcq
      rw [relocate_of_append] at h
      rw [append_cancel_left h]
    · rw [relocate_of_not hsrcq] at h
      exact absurd ⟨rest, h⟩ hq
  · rw [relocate_of_not hsrcp] at h
    by_cases hsrcq : src <+: q
    · obtain ⟨other, rfl⟩ := hsrcq
      rw [relocate_of_append] at h
      exact absurd ⟨other, h.symm⟩ hp
    · rw [relocate_of_not hsrcq] at h
      exact h

def mkdir (t : Tree ν φ) (path : List ν) : Option (Tree ν φ) :=
  if t.isDirectory path then some t
  else if h : t.has path = false ∧ t.isDirectory path.dropLast then
    some {
      entries := t.entries ++ [⟨path, none⟩]
      nodup := by
        rw [map_append, nodup_append]
        refine ⟨t.nodup, by simp, ?_⟩
        intro p hp q hq heq
        obtain ⟨e, he, rfl⟩ := mem_map.mp hp
        obtain rfl : q = path := by simpa using hq
        rw [← heq, has_of_mem he] at h
        cases h.1
      rooted := by
        intro e he
        rcases mem_append.mp he with he | he
        · exact t.rooted e he
        · obtain rfl := mem_singleton.mp he
          rintro rfl
          cases h.1
      closed := by
        have hold : ∀ p : List ν, t.isDirectory p = true → p = [] ∨ ∃ d ∈ t.entries ++ [⟨path, none⟩], d.path = p ∧ d.file = none := by
          intro p hp
          rcases mem_of_isDirectory hp with hnil | ⟨d, hd, hdir⟩
          · exact .inl hnil
          · exact .inr ⟨d, mem_append_left _ hd, hdir⟩
        intro e he
        apply hold
        rcases mem_append.mp he with he | he
        · rcases t.closed e he with hnil | ⟨d, hd, hpath, hfile⟩
          · rw [hnil]
            rfl
          · rw [← hpath]
            exact isDirectory_of_mem hd hfile
        · obtain rfl := mem_singleton.mp he
          exact h.2 }
  else none

def mkdirs (t : Tree ν φ) : List (List ν) → Option (Tree ν φ)
  | [] => some t
  | path :: rest => (t.mkdir path).bind fun t => t.mkdirs rest

theorem closed_relocate (hout : ¬ src <+: dst) (hparent : t.isDirectory dst.dropLast = true) (h : e ∈ t.entries) :
    ∃ path, t.isDirectory path = true ∧ relocate src dst path = (relocate src dst e.path).dropLast := by
  have habove : t.isDirectory e.path.dropLast = true := by
    rcases t.closed e h with hnil | ⟨d, hd, hpath, hfile⟩
    · rw [hnil]
      rfl
    · rw [← hpath]
      exact isDirectory_of_mem hd hfile
  by_cases hmoved : src <+: e.path
  · obtain ⟨rest, hrest⟩ := hmoved
    rw [← hrest, relocate_of_append]
    by_cases hempty : rest = []
    · refine ⟨dst.dropLast, hparent, ?_⟩
      rw [hempty, append_nil]
      exact relocate_of_not (fun hbelow => hout (hbelow.trans ( dropLast_prefix dst)))
    · refine ⟨src ++ rest.dropLast, ?_, ?_⟩
      · rw [← dropLast_append_of_ne_nil hempty, hrest]
        exact habove
      · rw [relocate_of_append, dropLast_append_of_ne_nil hempty]
  · refine ⟨e.path.dropLast, habove, ?_⟩
    rw [relocate_of_not hmoved]
    exact relocate_of_not (fun hbelow => hmoved (hbelow.trans ( dropLast_prefix e.path)))

def rename (t : Tree ν φ) (src dst : List ν) : Option (Tree ν φ) :=
  if h : (t.has src = true ∧ src ≠ []) ∧ (t.has dst = false ∧ ¬ src <+: dst) ∧ t.isDirectory dst.dropLast = true then
    some {
      entries := t.entries.map fun e => { e with path := relocate src dst e.path }
      nodup := by
        obtain ⟨-, ⟨hfree, -⟩, -⟩ := h
        have hbelow : ∀ e ∈ t.entries, ¬ dst <+: e.path := by
          intro e he hdst
          rw [has_above he hdst] at hfree
          cases hfree
        rw [map_map]
        apply List.Nodup.map_on _ t.nodup.of_map
        intro e he e' he' heq
        exact inj_on_of_nodup_map t.nodup he he' (relocate_inj (hbelow e he) (hbelow e' he') heq)
      rooted := by
        intro e he
        obtain ⟨d, hd, rfl⟩ := mem_map.mp he
        change relocate src dst d.path ≠ []
        by_cases hmoved : src <+: d.path
        · obtain ⟨_, hrest⟩ := hmoved
          rw [← hrest, relocate_of_append]
          intro hnil
          rw [(append_eq_nil_iff.mp hnil).1] at h
          cases h.2.1.1
        · rw [relocate_of_not hmoved]
          exact t.rooted d hd
      closed := by
        obtain ⟨⟨-, hsrc⟩, ⟨-, hout⟩, hparent⟩ := h
        intro e he
        obtain ⟨d, hd, rfl⟩ := mem_map.mp he
        obtain ⟨_, hdir, hpath⟩ := closed_relocate hout hparent hd
        change (relocate src dst d.path).dropLast = [] ∨ _
        rw [← hpath]
        rcases mem_of_isDirectory hdir with rfl | ⟨_, habove, rfl, hfile⟩
        · exact .inl (relocate_of_not (fun hbelow => hsrc (prefix_nil.mp hbelow)))
        · exact .inr ⟨_, mem_map_of_mem habove, rfl, hfile⟩ }
  else none

theorem rename_eq_some (h : t.rename src dst = some u) :
    u.entries = t.entries.map (fun e => { e with path := relocate src dst e.path }) ∧ t.has src = true ∧ t.has dst = false := by
  unfold rename at h
  split at h
  · rename_i hchecks
    cases h
    exact ⟨rfl, hchecks.1.1, hchecks.2.1.1⟩
  · cases h

structure Grows (t u : Tree ν φ) (paths : List (List ν)) : Prop where
  kept : ∀ e ∈ t.entries, e ∈ u.entries
  made : ∀ e ∈ u.entries, e ∈ t.entries ∨ (e.file = none ∧ e.path ∈ paths)

theorem mkdir_grows (h : t.mkdir path = some u) : Grows t u [path] := by
  unfold mkdir at h
  split at h
  · cases h
    exact ⟨fun _ he => he, fun _ he => .inl he⟩
  · split at h
    · cases h
      refine ⟨fun _ he => mem_append_left _ he, fun e he => ?_⟩
      rcases mem_append.mp he with he | he
      · exact .inl he
      · obtain rfl := mem_singleton.mp he
        exact .inr ⟨rfl, mem_singleton.mpr rfl⟩
    · cases h

theorem mkdirs_grows {paths : List (List ν)} (h : t.mkdirs paths = some u) : Grows t u paths := by
  induction paths generalizing t with
  | nil =>
    cases h
    exact ⟨fun _ he => he, fun _ he => .inl he⟩
  | cons _ _ ih =>
    obtain ⟨v, hfirst, hrest⟩ := Option.bind_eq_some_iff.mp h
    have hone := mkdir_grows hfirst
    have hmany := ih hrest
    refine ⟨fun e he => hmany.kept e (hone.kept e he), fun e he => ?_⟩
    rcases hmany.made e he with he | ⟨hfile, hpath⟩
    · rcases hone.made e he with he | ⟨hfile, hpath⟩
      · exact .inl he
      · exact .inr ⟨hfile, mem_cons.mpr (.inl (mem_singleton.mp hpath))⟩
    · exact .inr ⟨hfile, mem_cons_of_mem _ hpath⟩

end Tree

end WorkAgent.Library
