import WorkAgent.Harness.FileMoves
import WorkAgent.Library.Text

namespace WorkAgent.Harness.Moves

open Library List

variable {casing : Casing} {parent child other path : Path}

def Spelled (path : Path) : Prop := '\\' ∉ path

def Within (parent child : Path) : Prop := child = parent ∨ (parent ++ ['/']) <+: child

instance : Decidable (Within parent child) := inferInstanceAs (Decidable (_ ∨ _))

theorem within_iff : Within parent child ↔ ∃ rest, child = parent ++ rest ∧ (rest = [] ∨ ∃ below, rest = '/' :: below) := by
  constructor
  · rintro (rfl | ⟨below, rfl⟩)
    · exact ⟨[], (append_nil _).symm, .inl rfl⟩
    · exact ⟨'/' :: below, by simp, .inr ⟨below, rfl⟩⟩
  · rintro ⟨_, rfl, rfl | ⟨below, rfl⟩⟩
    · exact .inl (append_nil _)
    · exact .inr ⟨below, by simp⟩

theorem within_iff_slash : Within parent child ↔ (parent ++ ['/']) <+: (child ++ ['/']) := by
  constructor
  · rintro (rfl | hbelow)
    · exact prefix_refl _
    · exact hbelow.trans (prefix_append child ['/'])
  · intro h
    rcases prefix_concat_iff.mp h with heq | hbelow
    · exact .inl (append_cancel_right heq).symm
    · exact .inr hbelow

theorem within_or_within (h : Within parent path) (h' : Within child path) : Within parent child ∨ Within child parent := by
  rw [within_iff_slash] at h h'
  rcases prefix_or_prefix_of_prefix h h' with hsub | hsub
  · exact .inl (within_iff_slash.mpr hsub)
  · exact .inr (within_iff_slash.mpr hsub)

theorem within_append {rest : Path} (h : rest = [] ∨ ∃ below, rest = '/' :: below) : Within parent (parent ++ rest) :=
  within_iff.mpr ⟨rest, rfl, h⟩

theorem parts_append (a b : Path) : parts (a ++ '/' :: b) = parts a ++ parts b := by
  unfold parts
  rw [map_append, map_cons]
  exact splitOn_append_cons_self _ _

theorem parts_ne_nil (path : Path) : parts path ≠ [] := splitOn_ne_nil _ _

theorem parts_of_within (h : Within parent child) : ∃ rest, parts child = parts parent ++ rest ∧
    ∀ other, parts (other ++ child.drop parent.length) = parts other ++ rest := by
  obtain ⟨_, rfl, rfl | ⟨below, rfl⟩⟩ := within_iff.mp h
  · exact ⟨[], by simp, by simp⟩
  · refine ⟨parts below, parts_append parent below, fun other => ?_⟩
    rw [drop_left]
    exact parts_append other below

theorem parts_above (h : Within parent child) : parts parent <+: parts child := by
  obtain ⟨rest, hrest, -⟩ := parts_of_within h
  exact ⟨rest, hrest.symm⟩

theorem parts_of_spelled (h : Spelled path) : parts path = path.splitOn '/' := by
  unfold parts
  congr 1
  refine (map_congr_left (fun c hc => ?_)).trans (map_id path)
  rw [if_neg]
  · rfl
  · rintro rfl
    exact h hc

theorem within_of_parts (hparent : Spelled parent) (hchild : Spelled child) (h : parts parent <+: parts child) :
    Within parent child := by
  rw [parts_of_spelled hparent, parts_of_spelled hchild] at h
  obtain ⟨rest, hrest⟩ := h
  have hjoin : child = ['/'].intercalate (parent.splitOn '/' ++ rest) := by
    rw [hrest, intercalate_splitOn]
  by_cases hempty : rest = []
  · rw [hempty, append_nil, intercalate_splitOn] at hjoin
    exact .inl hjoin
  · rw [intercalate_append '/' (splitOn_ne_nil _ _) hempty, intercalate_splitOn] at hjoin
    exact .inr ⟨['/'].intercalate rest, by simp [hjoin]⟩

theorem parts_inj (hparent : Spelled parent) (hchild : Spelled child) (h : parts parent = parts child) : parent = child := by
  rw [parts_of_spelled hparent, parts_of_spelled hchild] at h
  have hjoin : ['/'].intercalate (parent.splitOn '/') = parent := intercalate_splitOn '/'
  rw [← hjoin, h, intercalate_splitOn]

theorem covers_iff : covers casing parent child = true ↔ Within (casing.lower parent) (casing.lower child) := by
  unfold covers Within
  rw [Bool.or_eq_true, decide_eq_true_eq, isPrefixOf_iff_prefix]

theorem covers_of_within (h : Within parent child) : covers casing parent child = true := by
  obtain ⟨_, rfl, rfl | ⟨_, rfl⟩⟩ := within_iff.mp h
  · rw [append_nil]
    exact covers_iff.mpr (.inl rfl)
  · rw [covers_iff, casing.slash]
    exact within_append (.inr ⟨_, rfl⟩)

def FileMove.follow (m : FileMove) (path : Path) : Path :=
  if Within m.source path then m.destination ++ path.drop m.source.length else path

theorem FileMove.parts_follow {m : FileMove} (hsource : Spelled m.source) (hpath : Spelled path) :
    parts (m.follow path) = relocate (parts m.source) (parts m.destination) (parts path) := by
  unfold FileMove.follow
  split
  · rename_i hwithin
    obtain ⟨_, hrest, hother⟩ := parts_of_within hwithin
    rw [hrest, relocate_of_append]
    exact hother m.destination
  · rename_i hwithin
    exact (relocate_of_not (fun hsub => hwithin (within_of_parts hsource hpath hsub))).symm

theorem FileMove.spelled_follow {m : FileMove} (hdestination : Spelled m.destination) (hpath : Spelled path) : Spelled (m.follow path) := by
  unfold FileMove.follow
  split
  · intro hmem
    rcases mem_append.mp hmem with hmem | hmem
    · exact hdestination hmem
    · exact hpath (mem_of_mem_drop hmem)
  · exact hpath

theorem FileMove.follow_follow {m : FileMove} (h : ¬ Within m.source m.destination) (h' : ¬ Within m.destination m.source) :
    m.follow (m.follow path) = m.follow path := by
  by_cases hwithin : Within m.source path
  · have hstays : ¬ Within m.source (m.follow path) := by
      intro hsource
      have hdestination : Within m.destination (m.follow path) := by
        obtain ⟨_, rfl, hrest⟩ := within_iff.mp hwithin
        rw [FileMove.follow, if_pos hwithin, drop_left]
        exact within_append hrest
      rcases within_or_within hsource hdestination with hout | hout
      · exact h hout
      · exact h' hout
    rw [FileMove.follow, if_neg hstays]
  · have hsame : m.follow path = path := if_neg hwithin
    rw [hsame, hsame]

theorem splitName_eq (path : Path) : (splitName path).1 ++ (splitName path).2 = path := by
  unfold splitName
  rw [← reverse_append, takeWhile_append_dropWhile, reverse_reverse]

theorem not_slash_of_name {c : Char} (h : c ∈ (splitName path).2) : c ≠ '/' := by
  have hmem : c ∈ path.reverse.takeWhile (· ≠ '/') := mem_reverse.mp h
  simpa using all_eq_true.mp all_takeWhile c hmem

theorem splitName_directories (path : Path) : (splitName path).1 = [] ∨ ∃ above, (splitName path).1 = above ++ ['/'] := by
  unfold splitName
  cases hrest : path.reverse.dropWhile (· ≠ '/') with
  | nil => exact .inl rfl
  | cons c rest =>
    have hc : c = '/' := by
      have hhead := head?_dropWhile_not (fun c => decide (c ≠ '/')) path.reverse
      rw [hrest] at hhead
      simpa using hhead
    exact .inr ⟨rest.reverse, by simp [hc]⟩

theorem splitExtension_eq (name : Name) : (splitExtension name).1 ++ (splitExtension name).2 = name := by
  have hjoin : (name.reverse.span (· ≠ '.')).1 ++ (name.reverse.span (· ≠ '.')).2 = name.reverse := by
    rw [span_eq_takeWhile_dropWhile, takeWhile_append_dropWhile]
  unfold splitExtension
  split
  · exact append_nil name
  · exact append_nil name
  · rename_i extension stem _ hspan
    rw [hspan] at hjoin
    rw [← reverse_inj, ← hjoin]
    simp
  · exact append_nil name

theorem candidate_eq (destination : Path) (directory : Bool) (suffix : ℕ) : ∃ name, candidate destination directory suffix =
    (splitName destination).1 ++ name ∧ '/' ∉ name ∧ (Spelled destination → Spelled name) := by
  have hspelled : ∀ c ∈ (splitName destination).2, c ∈ destination := by
    intro c hc
    rw [← splitName_eq destination]
    exact mem_append_right _ hc
  cases suffix with
  | zero =>
    refine ⟨(splitName destination).2, (splitName_eq destination).symm, fun h => not_slash_of_name h rfl, ?_⟩
    exact fun h hmem => h (hspelled _ hmem)
  | succ suffix =>
    have hdigit : ∀ c ∈ (toString (suffix + 1)).toList, c.isDigit = true := by
      intro c hc
      exact Nat.isDigit_of_mem_toDigits (by decide) (by decide) ((Nat.toList_repr (n := suffix + 1)) ▸ hc)
    obtain ⟨stem, extension, hname, hcandidate⟩ : ∃ stem extension, stem ++ extension = (splitName destination).2 ∧
        candidate destination directory (suffix + 1) =
          (splitName destination).1 ++ stem ++ " (".toList ++ (toString (suffix + 1)).toList ++ ")".toList ++ extension := by
      cases directory with
      | true => exact ⟨(splitName destination).2, [], append_nil _, rfl⟩
      | false => exact ⟨_, _, splitExtension_eq (splitName destination).2, rfl⟩
    have hmem : ∀ c ∈ stem ++ " (".toList ++ (toString (suffix + 1)).toList ++ ")".toList ++ extension,
        c ∈ (splitName destination).2 ∨ c = ' ' ∨ c = '(' ∨ c = ')' ∨ c.isDigit = true := by
      intro c hc
      rw [← hname]
      simp only [mem_append] at hc ⊢
      rcases hc with (((hc | hc) | hc) | hc) | hc
      · exact .inl (.inl hc)
      · have hc : c ∈ [' ', '('] := hc
        simp at hc
        tauto
      · exact .inr (.inr (.inr (.inr (hdigit c hc))))
      · have hc : c ∈ [')'] := hc
        simp at hc
        tauto
      · exact .inl (.inr hc)
    refine ⟨stem ++ " (".toList ++ (toString (suffix + 1)).toList ++ ")".toList ++ extension, ?_, ?_, ?_⟩
    · rw [hcandidate]
      simp only [append_assoc]
    · intro hslash
      rcases hmem _ hslash with hc | hc | hc | hc | hc
      · exact not_slash_of_name hc rfl
      all_goals exact absurd hc (by decide)
    · intro h hslash
      rcases hmem _ hslash with hc | hc | hc | hc | hc
      · exact h (hspelled _ hc)
      all_goals exact absurd hc (by decide)

theorem spelled_candidate {destination : Path} (directory : Bool) (suffix : ℕ) (h : Spelled destination) :
    Spelled (candidate destination directory suffix) := by
  obtain ⟨_, hname, -, hspelled⟩ := candidate_eq destination directory suffix
  rw [hname]
  intro hmem
  rcases mem_append.mp hmem with hmem | hmem
  · apply h
    rw [← splitName_eq destination]
    exact mem_append_left _ hmem
  · exact hspelled h hmem

theorem parts_of_name {name : Name} (hslash : '/' ∉ name) (h : Spelled name) : parts name = [name] := by
  rw [parts_of_spelled h]
  exact splitOn_eq_singleton hslash

theorem dropLast_parts_candidate {destination : Path} (directory : Bool) (suffix : ℕ) (h : Spelled destination) :
    (parts (candidate destination directory suffix)).dropLast = (parts destination).dropLast := by
  obtain ⟨name, hname, hslash, hspelled⟩ := candidate_eq destination directory suffix
  obtain ⟨plain, hplain, hplainSlash, hplainSpelled⟩ := candidate_eq destination directory 0
  have hdrop : ∀ last : Name, '/' ∉ last → Spelled last → (parts ((splitName destination).1 ++ last)).dropLast =
      (parts ((splitName destination).1 ++ plain)).dropLast := by
    intro last hlast hlastSpelled
    rcases splitName_directories destination with hnil | ⟨above, habove⟩
    · rw [hnil, nil_append, nil_append, parts_of_name hlast hlastSpelled, parts_of_name hplainSlash (hplainSpelled h)]
      rfl
    · rw [habove, append_assoc, append_assoc]
      change (parts (above ++ '/' :: last)).dropLast = (parts (above ++ '/' :: plain)).dropLast
      rw [parts_append, parts_append, parts_of_name hlast hlastSpelled, parts_of_name hplainSlash (hplainSpelled h),
        dropLast_concat, dropLast_concat]
  rw [hname, hdrop name hslash (hspelled h), ← hplain]
  rfl

end WorkAgent.Harness.Moves
