import WorkAgent.Library.Utf16

namespace WorkAgent.Harness.NotificationParts

open Library.Utf16 List

section Code

def lineFeed : Unit16 := 0x0A

structure Parts where
  parts : List (List Unit16)
  current : List Unit16

def Parts.point (s : Parts) (point : List Unit16) : Parts :=
  let s : Parts := if 1800 < byteLength (s.current ++ point) then ⟨s.parts ++ [s.current], []⟩ else s
  ⟨s.parts, s.current ++ point⟩

def Parts.line (s : Parts) (line : List Unit16) : Parts :=
  let s : Parts := if 1800 < byteLength (s.current ++ lineFeed :: line) ∧ s.current ≠ [] then ⟨s.parts ++ [s.current], []⟩ else s
  let s : Parts := if s.current ≠ [] then ⟨s.parts, s.current ++ [lineFeed]⟩ else s
  (points line).foldl Parts.point s

def Parts.all (s : Parts) : List (List Unit16) := if s.current ≠ [] then s.parts ++ [s.current] else s.parts

def splitNotification (text : List Unit16) : List (List Unit16) := ((text.splitOn lineFeed).foldl Parts.line ⟨[], []⟩).all

end Code

section Lines

variable {line : List Unit16} {parts ps : List (List Unit16)} {current cur : List Unit16}

theorem not_joined_feed {a b : List Unit16} : ¬ CutsPoint (a ++ [lineFeed]) b := not_joined_low (by decide)

theorem not_joined_before_feed {a b : List Unit16} : ¬ CutsPoint a (lineFeed :: b) := not_joined_start (by decide)

structure Chopped (line : List Unit16) (ps : List (List Unit16)) (cur : List Unit16) : Prop where
  whole : ps.flatten ++ cur = line
  sized : ∀ p ∈ ps, p ≠ [] ∧ byteLength p ≤ 1800
  rest : byteLength cur ≤ 1800
  filled : cur = [] → line = []
  long : ps ≠ [] → 1800 < byteLength line
  cuts : ∀ before after, ps = before ++ after → ¬ CutsPoint before.flatten (after.flatten ++ cur)

variable {before after : List (List Unit16)}

theorem byteLength_point {point : List Unit16} (h : points line = before ++ point :: after) :
    byteLength point ≤ 4 := by
  have hsplit : points line = (before ++ [point]) ++ after := by rw [h, append_assoc, singleton_append]
  obtain ⟨hbefore, -⟩ := points_split hsplit
  obtain ⟨-, hpoint, -⟩ := points_split hbefore
  rw [flatten_singleton] at hpoint
  unfold byteLength
  rw [hpoint, map_singleton, sum_singleton]
  exact width_le point

theorem byteLength_before (h : points line = before ++ after) : byteLength before.flatten ≤ byteLength line := by
  obtain ⟨-, -, hjoined⟩ := points_split h
  have hline : before.flatten ++ after.flatten = line := by rw [← flatten_append, ← h, flatten_points]
  have hsum := byteLength_append hjoined
  rw [hline] at hsum
  omega

theorem chops (h : points line = before ++ after) (hwhole : ps.flatten ++ cur = before.flatten)
    (hsized : ∀ p ∈ ps, p ≠ [] ∧ byteLength p ≤ 1800) (hrest : byteLength cur ≤ 1800) (hfilled : cur = [] → before = [])
    (hlong : ps ≠ [] → 1800 < byteLength line)
    (hcuts : ∀ x y, ps = x ++ y → ∃ d d', before = d ++ d' ∧ x.flatten = d.flatten) :
    ∃ ps' cur', after.foldl Parts.point ⟨parts ++ ps, cur⟩ = ⟨parts ++ ps', cur'⟩ ∧ Chopped line ps' cur' := by
  induction after generalizing before ps cur with
  | nil =>
    rw [append_nil] at h
    refine ⟨ps, cur, rfl, ?_⟩
    have hline : before.flatten = line := h ▸ flatten_points line
    refine ⟨hwhole.trans hline, hsized, hrest, ?_, hlong, ?_⟩
    · intro hnil
      rw [← hline, hfilled hnil, flatten_nil]
    · intro x y hxy
      obtain ⟨d, d', hd, hx⟩ := hcuts x y hxy
      obtain ⟨-, -, hjoined⟩ := points_split (h.trans hd)
      have hrest : y.flatten ++ cur = d'.flatten := by
        rw [hxy, hd, flatten_append, flatten_append, append_assoc, hx] at hwhole
        exact append_cancel_left hwhole
      rw [hx, hrest]
      exact hjoined
  | cons point after ih =>
    have hnext : points line = (before ++ [point]) ++ after := by rw [h, append_assoc, singleton_append]
    have hsmall := byteLength_point h
    have hpoint : point ≠ [] := point_ne_nil (h ▸ mem_append_right _ mem_cons_self)
    rw [foldl_cons]
    by_cases hover : 1800 < byteLength (cur ++ point)
    · have hcur : cur ≠ [] := by
        rintro rfl
        rw [nil_append] at hover
        omega
      have hstep : Parts.point ⟨parts ++ ps, cur⟩ point = ⟨parts ++ (ps ++ [cur]), point⟩ := by
        simp [Parts.point, hover]
      rw [hstep]
      refine ih hnext ?_ ?_ (by omega) (fun hnil => absurd hnil hpoint) ?_ ?_
      · simp [hwhole]
      · intro p hp
        rcases mem_append.mp hp with hp | hp
        · exact hsized p hp
        · obtain rfl := mem_singleton.mp hp
          exact ⟨hcur, hrest⟩
      · intro _
        by_cases hps : ps = []
        · have hflat : (before ++ [point]).flatten = cur ++ point := by
            rw [hps, flatten_nil, nil_append] at hwhole
            simp [hwhole]
          have hle := byteLength_before hnext
          rw [hflat] at hle
          omega
        · exact hlong hps
      · intro x y hxy
        rcases eq_nil_or_concat y with rfl | ⟨y, _, rfl⟩
        · rw [append_nil] at hxy
          refine ⟨before, [point], rfl, ?_⟩
          rw [← hxy, flatten_append, flatten_singleton, hwhole]
        · rw [concat_eq_append, ← append_assoc] at hxy
          obtain ⟨d, d', hd, hx⟩ := hcuts x y (append_inj_left' hxy rfl)
          exact ⟨d, d' ++ [point], by rw [hd, append_assoc], hx⟩
    · have hstep : Parts.point ⟨parts ++ ps, cur⟩ point = ⟨parts ++ ps, cur ++ point⟩ := by
        simp [Parts.point, hover]
      rw [hstep]
      refine ih hnext ?_ hsized (by omega) ?_ hlong ?_
      · rw [← append_assoc, hwhole, flatten_append, flatten_singleton]
      · exact fun hnil => absurd (append_eq_nil_iff.mp hnil).2 hpoint
      · intro x y hxy
        obtain ⟨d, d', hd, hx⟩ := hcuts x y hxy
        exact ⟨d, d' ++ [point], by rw [hd, append_assoc], hx⟩

theorem chop (parts : List (List Unit16)) (line : List Unit16) :
    ∃ ps cur, (points line).foldl Parts.point ⟨parts, []⟩ = ⟨parts ++ ps, cur⟩ ∧ Chopped line ps cur := by
  have hstart := @chops line parts [] [] [] (points line) rfl rfl (by simp) (by simp [byteLength]) (fun _ => rfl) (fun h => absurd rfl h)
  rw [append_nil] at hstart
  refine hstart fun x y hxy => ⟨[], [], rfl, ?_⟩
  rw [(append_eq_nil_iff.mp hxy.symm).1]

theorem fits (h : points line = before ++ after) (hfits : byteLength line ≤ 1800) :
    after.foldl Parts.point ⟨parts, before.flatten⟩ = ⟨parts, line⟩ := by
  induction after generalizing before with
  | nil =>
    rw [append_nil] at h
    rw [← h, flatten_points]
    rfl
  | cons point after ih =>
    have hnext : points line = (before ++ [point]) ++ after := by rw [h, append_assoc, singleton_append]
    have hle := byteLength_before hnext
    rw [flatten_append, flatten_singleton] at hle
    have hstep : Parts.point ⟨parts, before.flatten⟩ point = ⟨parts, (before ++ [point]).flatten⟩ := by
      have hnot : ¬ 1800 < byteLength (before.flatten ++ point) := by omega
      simp [Parts.point, hnot]
    rw [foldl_cons, hstep]
    exact ih hnext

theorem line_fits (hcurrent : current ≠ []) (hfits : byteLength (current ++ lineFeed :: line) ≤ 1800) :
    Parts.line ⟨parts, current⟩ line = ⟨parts, current ++ lineFeed :: line⟩ := by
  have hnot : ¬ 1800 < byteLength (current ++ lineFeed :: line) := by omega
  have hpoints : points (current ++ lineFeed :: line) = points (current ++ [lineFeed]) ++ points line := by
    rw [← points_append not_joined_feed, append_assoc, singleton_append]
  have hrun := @fits (current ++ lineFeed :: line) parts (points (current ++ [lineFeed])) (points line) hpoints hfits
  rw [flatten_points] at hrun
  unfold Parts.line
  simp only [hnot, false_and, if_false, ne_eq, hcurrent, not_false_eq_true, if_true]
  exact hrun

theorem line_chops (hover : current ≠ [] → 1800 < byteLength (current ++ lineFeed :: line)) :
    ∃ ps cur, Parts.line ⟨parts, current⟩ line = ⟨Parts.all ⟨parts, current⟩ ++ ps, cur⟩ ∧ Chopped line ps cur := by
  obtain ⟨ps, cur, hrun, hchopped⟩ := chop (Parts.all ⟨parts, current⟩) line
  refine ⟨ps, cur, ?_, hchopped⟩
  rw [← hrun]
  unfold Parts.line Parts.all
  by_cases hcurrent : current = []
  · simp [hcurrent]
  · simp [hcurrent, hover hcurrent]

end Lines

section Weaving

structure Piece where
  feeds : ℕ
  part : List Unit16

def Piece.text (piece : Piece) : List Unit16 := List.replicate piece.feeds lineFeed ++ piece.part

def weave (pieces : List Piece) : List Unit16 := (pieces.map Piece.text).flatten

theorem weave_append (pieces pieces' : List Piece) : weave (pieces ++ pieces') = weave pieces ++ weave pieces' := by
  simp [weave]

theorem weave_snoc (pieces : List Piece) (piece : Piece) : weave (pieces ++ [piece]) = weave pieces ++ piece.text := by
  simp [weave]

def Inside (a b : List Unit16) : Prop := (∃ u ∈ a.getLast?, u ≠ lineFeed) ∧ ∃ v ∈ b.head?, v ≠ lineFeed

def lineAt (a b : List Unit16) : List Unit16 := (a.reverse.takeWhile fun u => u ≠ lineFeed).reverse ++ b.takeWhile fun u => u ≠ lineFeed

def Clean (a b : List Unit16) : Prop := ¬ CutsPoint a b ∧ (Inside a b → 1800 < byteLength (lineAt a b))

def Boundary (pieces : List Piece) (a : List Unit16) : Prop :=
  ∃ before piece after, pieces = before ++ piece :: after ∧ (a = weave before ++ List.replicate piece.feeds lineFeed ∨ a = weave before ++ piece.text)

def Adjacent (pieces : List Piece) (a : List Unit16) : Prop :=
  ∃ before piece after, pieces = before ++ piece :: after ∧ before ≠ [] ∧ piece.feeds = 0 ∧ a = weave before

structure Split (text : List Unit16) (pieces : List Piece) (rest : List Unit16) : Prop where
  whole : text = weave pieces ++ rest
  sized : ∀ piece ∈ pieces, piece.part ≠ [] ∧ byteLength piece.part ≤ 1800
  clean : ∀ a b, Boundary pieces a → text = a ++ b → Clean a b
  inside : ∀ a b, Adjacent pieces a → text = a ++ b → Inside a b

variable {text line rest : List Unit16} {pieces : List Piece} {piece : Piece} {a b : List Unit16}

theorem boundary_snoc (h : Boundary (pieces ++ [piece]) a) :
    Boundary pieces a ∨ a = weave pieces ++ List.replicate piece.feeds lineFeed ∨ a = weave pieces ++ piece.text := by
  obtain ⟨before, found, after, hpieces, ha⟩ := h
  rcases eq_nil_or_concat after with rfl | ⟨after, _, rfl⟩
  · obtain ⟨rfl, hsame⟩ := append_inj' hpieces rfl
    obtain rfl := singleton_inj.mp hsame
    exact .inr ha
  · rw [concat_eq_append, ← cons_append, ← append_assoc] at hpieces
    exact .inl ⟨before, found, after, append_inj_left' hpieces rfl, ha⟩

theorem adjacent_snoc (h : Adjacent (pieces ++ [piece]) a) : Adjacent pieces a ∨ pieces ≠ [] ∧ piece.feeds = 0 ∧ a = weave pieces := by
  obtain ⟨before, found, after, hpieces, hbefore, hfeeds, ha⟩ := h
  rcases eq_nil_or_concat after with rfl | ⟨after, _, rfl⟩
  · obtain ⟨rfl, hsame⟩ := append_inj' hpieces rfl
    obtain rfl := singleton_inj.mp hsame
    exact .inr ⟨hbefore, hfeeds, ha⟩
  · rw [concat_eq_append, ← cons_append, ← append_assoc] at hpieces
    exact .inl ⟨before, found, after, append_inj_left' hpieces rfl, hbefore, hfeeds, ha⟩

theorem boundary_prefix (h : Boundary pieces a) : a <+: weave pieces := by
  obtain ⟨_, found, after, rfl, rfl | rfl⟩ := h
  · refine ⟨found.part ++ weave after, ?_⟩
    simp [weave, Piece.text]
  · refine ⟨weave after, ?_⟩
    simp [weave]

theorem adjacent_prefix (h : Adjacent pieces a) : a <+: weave pieces := by
  obtain ⟨_, found, after, rfl, -, -, rfl⟩ := h
  exact ⟨weave (found :: after), (weave_append _ _).symm⟩

theorem Adjacent.boundary (h : Adjacent pieces a) : Boundary pieces a := by
  obtain ⟨before, found, after, hpieces, -, hfeeds, rfl⟩ := h
  exact ⟨before, found, after, hpieces, .inl (by rw [hfeeds, replicate_zero, append_nil])⟩

theorem clean_end (a : List Unit16) : Clean a [] := ⟨not_joined_nil_right a, fun h => by simp [Inside] at h⟩

theorem takeWhile_feed (b line : List Unit16) :
    (b ++ lineFeed :: line).takeWhile (fun u => u ≠ lineFeed) = b.takeWhile fun u => u ≠ lineFeed := by
  induction b with
  | nil => simp
  | cons _ _ ih =>
    rw [cons_append, takeWhile_cons, takeWhile_cons, ih]

theorem Clean.grow (h : Clean a b) (line : List Unit16) : Clean a (b ++ lineFeed :: line) := by
  cases b with
  | nil => exact ⟨not_joined_before_feed, fun hinside => by simp [Inside] at hinside⟩
  | cons =>
    refine ⟨fun hjoined => h.1 (by simpa [CutsPoint] using hjoined), fun hinside => ?_⟩
    have hlong := h.2 (by simpa [Inside] using hinside)
    unfold lineAt at hlong ⊢
    rwa [takeWhile_feed]

theorem Inside.grow (h : Inside a b) (line : List Unit16) : Inside a (b ++ lineFeed :: line) := by
  obtain ⟨ha, v, hv, hne⟩ := h
  refine ⟨ha, v, ?_, hne⟩
  cases b with
  | nil => cases hv
  | cons => exact hv

theorem Split.grow (h : Split text pieces rest) (line : List Unit16) :
    Split (text ++ lineFeed :: line) pieces (rest ++ lineFeed :: line) where
  whole := by rw [h.whole, append_assoc]
  sized := h.sized
  clean := by
    intro a b hboundary htext
    obtain ⟨c, hc⟩ := boundary_prefix hboundary
    have hold : text = a ++ (c ++ rest) := by rw [h.whole, ← hc, append_assoc]
    rw [hold, append_assoc] at htext
    rw [← append_cancel_left htext]
    exact (h.clean a _ hboundary hold).grow line
  inside := by
    intro a b hadjacent htext
    obtain ⟨c, hc⟩ := adjacent_prefix hadjacent
    have hold : text = a ++ (c ++ rest) := by rw [h.whole, ← hc, append_assoc]
    rw [hold, append_assoc] at htext
    rw [← append_cancel_left htext]
    exact (h.inside a _ hadjacent hold).grow line

theorem Split.snoc (piece : Piece) (h : Split text pieces (piece.text ++ rest)) (hsized : piece.part ≠ [] ∧ byteLength piece.part ≤ 1800)
    (hstart : Clean (weave pieces ++ List.replicate piece.feeds lineFeed) (piece.part ++ rest)) (hend : Clean (weave pieces ++ piece.text) rest)
    (hinside : pieces ≠ [] → piece.feeds = 0 → Inside (weave pieces) (piece.part ++ rest)) : Split text (pieces ++ [piece]) rest where
  whole := by rw [h.whole, weave_snoc, append_assoc]
  sized := by
    intro found hfound
    rcases mem_append.mp hfound with hold | hnew
    · exact h.sized found hold
    · exact mem_singleton.mp hnew ▸ hsized
  clean := by
    intro a b hboundary htext
    rcases boundary_snoc hboundary with hold | rfl | rfl
    · exact h.clean a b hold htext
    · rw [h.whole, Piece.text, append_assoc, ← append_assoc] at htext
      rwa [← append_cancel_left htext]
    · rw [h.whole, ← append_assoc] at htext
      rwa [← append_cancel_left htext]
  inside := by
    intro a b hadjacent htext
    rcases adjacent_snoc hadjacent with hold | ⟨hne, hfeeds, rfl⟩
    · exact h.inside a b hold htext
    · rw [h.whole] at htext
      rw [← append_cancel_left htext, Piece.text, hfeeds, replicate_zero, nil_append]
      exact hinside hne hfeeds

theorem Split.unsnoc (h : Split text (pieces ++ [piece]) rest) : Split text pieces (piece.text ++ rest) where
  whole := by rw [h.whole, weave_snoc, append_assoc]
  sized found hfound := h.sized found (mem_append_left _ hfound)
  clean := by
    rintro a b ⟨before, found, after, rfl, ha⟩ htext
    exact h.clean a b ⟨before, found, after ++ [piece], by simp, ha⟩ htext
  inside := by
    rintro a b ⟨before, found, after, rfl, ha⟩ htext
    exact h.inside a b ⟨before, found, after ++ [piece], by simp, ha⟩ htext

end Weaving

section Lines

variable {text line start : List Unit16} {pieces : List Piece} {x y : List Unit16} {n : ℕ}

def LineStart (start : List Unit16) : Prop := start = [] ∨ ∃ before, start = before ++ [lineFeed]

theorem LineStart.not_joined (h : LineStart start) (y : List Unit16) : ¬ CutsPoint start y := by
  rcases h with rfl | ⟨_, rfl⟩
  · exact not_joined_nil_left y
  · exact not_joined_feed

theorem LineStart.not_inside (h : LineStart start) (y : List Unit16) : ¬ Inside start y := by
  rintro ⟨⟨u, hu, hne⟩, -⟩
  rcases h with rfl | ⟨_, rfl⟩
  · cases hu
  · simp only [getLast?_append, getLast?_singleton, Option.some_or, Option.mem_some_iff] at hu
    exact hne hu.symm

theorem takeWhile_line {l : List Unit16} (h : lineFeed ∉ l) : l.takeWhile (fun u => u ≠ lineFeed) = l := by
  induction l with
  | nil => rfl
  | cons u _ ih =>
    rw [mem_cons, not_or] at h
    have hne : u ≠ lineFeed := fun hsame => h.1 hsame.symm
    rw [takeWhile_cons_of_pos (by simpa using hne), ih h.2]

theorem lineAt_line (h : LineStart start) (hx : lineFeed ∉ x) (hy : lineFeed ∉ y) : lineAt (start ++ x) y = x ++ y := by
  have hback : ((start ++ x).reverse.takeWhile fun u => u ≠ lineFeed) = x.reverse := by
    rcases h with rfl | ⟨_, rfl⟩
    · rw [nil_append]
      exact takeWhile_line (by simpa using hx)
    · rw [append_assoc, reverse_append, singleton_append, reverse_cons, append_assoc, singleton_append,
        takeWhile_feed]
      exact takeWhile_line (by simpa using hx)
  unfold lineAt
  rw [hback, takeWhile_line hy, reverse_reverse]

theorem clean_start (h : LineStart start) (y : List Unit16) : Clean start y := ⟨h.not_joined y, fun hinside => absurd hinside (h.not_inside y)⟩

theorem clean_line (h : LineStart start) (hx : lineFeed ∉ x) (hy : lineFeed ∉ y) (hne : x ≠ []) (hcut : ¬ CutsPoint x y)
    (hlong : y ≠ [] → 1800 < byteLength (x ++ y)) : Clean (start ++ x) y := by
  refine ⟨?_, fun hinside => ?_⟩
  · rintro ⟨⟨u, hu, hhigh⟩, hlow⟩
    refine hcut ⟨⟨u, ?_, hhigh⟩, hlow⟩
    rwa [getLast?_append_of_ne_nil _ hne] at hu
  · rw [lineAt_line h hx hy]
    refine hlong ?_
    rintro rfl
    obtain ⟨-, v, hv, -⟩ := hinside
    cases hv

theorem inside_line (hx : lineFeed ∉ x) (hy : lineFeed ∉ y) (hxne : x ≠ []) (hyne : y ≠ []) : Inside (start ++ x) y := by
  constructor
  · refine ⟨x.getLast hxne, ?_, fun hsame => hx (hsame ▸ getLast_mem hxne)⟩
    rw [getLast?_append_of_ne_nil _ hxne]
    exact getLast?_eq_getLast_of_ne_nil hxne
  · refine ⟨y.head hyne, ?_, fun hsame => hy (hsame ▸ head_mem hyne)⟩
    exact head?_eq_some_head hyne

theorem Split.later (hstart : LineStart start) (hline : lineFeed ∉ line) (hlong : 1800 < byteLength line) {qs : List (List Unit16)}
    (hqs : ∀ q ∈ qs, q ≠ [] ∧ byteLength q ≤ 1800) (h : Split text pieces qs.flatten) (hx : weave pieces = start ++ x) (hne : x ≠ [])
    (hpieces : pieces ≠ []) (hwhole : x ++ qs.flatten = line) (hcuts : ∀ d d', qs = d ++ d' → ¬ CutsPoint (x ++ d.flatten) d'.flatten) :
    Split text (pieces ++ qs.map (Piece.mk 0)) [] := by
  induction qs generalizing pieces x with
  | nil => simpa using h
  | cons q qs ih =>
    obtain ⟨hq, hsize⟩ := hqs q mem_cons_self
    have hwhole' : (x ++ q) ++ qs.flatten = line := by rw [append_assoc, ← flatten_cons, hwhole]
    have hfree : lineFeed ∉ x ++ q ∧ lineFeed ∉ qs.flatten := by
      rw [← hwhole', mem_append, not_or] at hline
      exact hline
    have hfreeX : lineFeed ∉ x := fun hmem => hfree.1 (mem_append_left _ hmem)
    have hfreeQ : lineFeed ∉ q := fun hmem => hfree.1 (mem_append_right _ hmem)
    have hweave : weave pieces ++ (Piece.mk 0 q).text = start ++ (x ++ q) := by
      rw [hx, append_assoc]
      rfl
    have hmore : Split text (pieces ++ [Piece.mk 0 q]) qs.flatten := by
      refine Split.snoc ⟨0, q⟩ h ⟨hq, hsize⟩ ?_ ?_ ?_
      · have hcut := hcuts [] (q :: qs) rfl
        rw [flatten_nil, append_nil, flatten_cons] at hcut
        rw [replicate_zero, append_nil, hx]
        refine clean_line hstart hfreeX ?_ hne hcut fun _ => ?_
        · rw [mem_append, not_or]
          exact ⟨hfreeQ, hfree.2⟩
        · rwa [← append_assoc, hwhole']
      · have hcut := hcuts [q] qs rfl
        rw [flatten_singleton] at hcut
        rw [hweave]
        refine clean_line hstart hfree.1 hfree.2 (by simp [hne]) hcut fun _ => ?_
        rwa [hwhole']
      · intro _ _
        rw [hx]
        refine inside_line hfreeX ?_ hne (by simp [hq])
        rw [mem_append, not_or]
        exact ⟨hfreeQ, hfree.2⟩
    have hdone := ih (fun q' hq' => hqs q' (mem_cons_of_mem _ hq')) hmore (by rw [weave_snoc, hweave]) (by simp [hne]) (by simp) hwhole' ?_
    · simpa using hdone
    · rintro d d' rfl
      have hcut := hcuts (q :: d) d' rfl
      rwa [flatten_cons, ← append_assoc] at hcut

theorem Split.chopped (hstart : LineStart (weave pieces ++ List.replicate n lineFeed)) (hline : lineFeed ∉ line) (hn : n = 0 → pieces = [])
    {ps : List (List Unit16)} {cur : List Unit16} (hc : Chopped line ps cur) (h : Split text pieces (List.replicate n lineFeed ++ line)) :
    ∃ pieces' last, pieces'.map Piece.part = pieces.map Piece.part ++ Parts.all ⟨ps, cur⟩ ∧ Split text pieces' (List.replicate last lineFeed) ∧
      (cur ≠ [] → last = 0) := by
  by_cases hcur : cur = []
  · have hnil := hc.filled hcur
    have hps : ps = [] := by
      have hflat := hc.whole
      rw [hcur, hnil, append_nil] at hflat
      refine eq_nil_iff_forall_not_mem.mpr fun p hp => (hc.sized p hp).1 ?_
      exact flatten_eq_nil_iff.mp hflat p hp
    rw [hnil, append_nil] at h
    exact ⟨pieces, n, by simp [hcur, hps, Parts.all], h, fun hne => absurd hcur hne⟩
  · obtain ⟨q, qs, hq⟩ : ∃ q qs, ps ++ [cur] = q :: qs := exists_cons_of_ne_nil (by simp)
    have hsized : ∀ q ∈ ps ++ [cur], q ≠ [] ∧ byteLength q ≤ 1800 := by
      intro q hq
      rcases mem_append.mp hq with hq | hq
      · exact hc.sized q hq
      · obtain rfl := mem_singleton.mp hq
        exact ⟨hcur, hc.rest⟩
    have hwhole : q ++ qs.flatten = line := by
      rw [← flatten_cons, ← hq, flatten_append, flatten_singleton, hc.whole]
    have hcuts : ∀ d d', qs = d ++ d' → ¬ CutsPoint (q ++ d.flatten) d'.flatten := by
      intro d d' hqs
      rcases eq_nil_or_concat d' with rfl | ⟨d', _, rfl⟩
      · exact not_joined_nil_right _
      · rw [hqs, concat_eq_append, ← append_assoc, ← cons_append] at hq
        obtain ⟨hps, hlast⟩ := append_inj' hq rfl
        obtain rfl := singleton_inj.mp hlast
        have hcut := hc.cuts (q :: d) d' hps
        rw [flatten_cons] at hcut
        rwa [concat_eq_append, flatten_append, flatten_singleton]
    rw [hq] at hsized
    have hfree : lineFeed ∉ q ∧ lineFeed ∉ qs.flatten := by
      rw [← hwhole, mem_append, not_or] at hline
      exact hline
    have hlong : qs ≠ [] → 1800 < byteLength line := by
      intro hqs
      refine hc.long ?_
      rintro rfl
      exact hqs (cons_eq_cons.mp hq.symm).2
    have hfirst : Split text (pieces ++ [Piece.mk n q]) qs.flatten := by
      refine Split.snoc ⟨n, q⟩ ?_ (hsized q mem_cons_self) (clean_start hstart _) ?_ ?_
      · unfold Piece.text
        rwa [append_assoc, hwhole]
      · have hcut := hcuts [] qs rfl
        rw [flatten_nil, append_nil] at hcut
        unfold Piece.text
        rw [← append_assoc]
        refine clean_line hstart hfree.1 hfree.2 (hsized q mem_cons_self).1 hcut fun hne => ?_
        rw [hwhole]
        exact hlong fun hqs => hne (by rw [hqs, flatten_nil])
      · exact fun hne hzero => absurd (hn hzero) hne
    refine ⟨pieces ++ Piece.mk n q :: qs.map (Piece.mk 0), 0, ?_, ?_, fun _ => rfl⟩
    · have hparts : (qs.map (Piece.mk 0)).map Piece.part = qs := by
        rw [map_map]
        exact map_id qs
      rw [map_append, map_cons, hparts, ← hq]
      simp [Parts.all, hcur]
    · by_cases hqs : qs = []
      · subst hqs
        simpa using hfirst
      · have hall := Split.later hstart hline (hlong hqs) (fun q' hq' => hsized q' (mem_cons_of_mem _ hq')) hfirst (x := q)
          (by rw [weave_snoc, Piece.text, append_assoc]) (hsized q mem_cons_self).1 (by simp) hwhole hcuts
        simpa using hall

end Lines

section Loop

variable {text line : List Unit16} {s : Parts}

def Taken (text : List Unit16) (s : Parts) : Prop :=
  ∃ pieces last, s.all = pieces.map Piece.part ∧ Split text pieces (List.replicate last lineFeed) ∧ (s.current ≠ [] → last = 0)

theorem Split.nil (text : List Unit16) : Split text [] text where
  whole := rfl
  sized _ h := absurd h not_mem_nil
  clean := by
    rintro a b ⟨before, piece, after, hpieces, -⟩
    simp at hpieces
  inside := by
    rintro a b ⟨before, piece, after, hpieces, -⟩
    simp at hpieces

theorem all_append (parts ps : List (List Unit16)) (cur : List Unit16) : Parts.all ⟨parts ++ ps, cur⟩ = parts ++ Parts.all ⟨ps, cur⟩ := by
  unfold Parts.all
  split
  · rw [append_assoc]
  · rfl

theorem Taken.first (hline : lineFeed ∉ line) : Taken line (Parts.line ⟨[], []⟩ line) := by
  obtain ⟨_, _, hrun, hchopped⟩ := @line_chops line [] [] (fun h => absurd rfl h)
  have hstart : LineStart (weave [] ++ List.replicate 0 lineFeed) := .inl rfl
  obtain ⟨pieces, last, hparts, hsplit, hlast⟩ := Split.chopped hstart hline (fun _ => rfl) hchopped (Split.nil line)
  rw [hrun]
  exact ⟨pieces, last, hparts.symm, hsplit, hlast⟩

theorem Taken.next (h : Taken text s) (hline : lineFeed ∉ line) : Taken (text ++ lineFeed :: line) (s.line line) := by
  obtain ⟨parts, current⟩ := s
  obtain ⟨pieces, last, hparts, hsplit, hlast⟩ := h
  by_cases hfits : current ≠ [] ∧ byteLength (current ++ lineFeed :: line) ≤ 1800
  · obtain ⟨hcurrent, hfits⟩ := hfits
    obtain rfl := hlast hcurrent
    rw [line_fits hcurrent hfits]
    obtain ⟨before, piece, rfl, hbefore, hpiece⟩ : ∃ before piece, pieces = before ++ [piece] ∧ before.map Piece.part = parts ∧ piece.part = current := by
      simp only [Parts.all, ne_eq, hcurrent, not_false_eq_true, if_true] at hparts
      obtain ⟨before, _, rfl, hbefore, hrest⟩ := append_eq_map_iff.mp hparts
      obtain ⟨piece, rfl, hpiece⟩ := map_eq_singleton_iff.mp hrest
      exact ⟨before, piece, rfl, hbefore, hpiece⟩
    have hgrown := hsplit.unsnoc.grow line
    have htext : text = (weave before ++ List.replicate piece.feeds lineFeed) ++ current := by
      rw [hsplit.whole, weave_snoc, Piece.text, hpiece]
      simp
    refine ⟨before ++ [⟨piece.feeds, current ++ lineFeed :: line⟩], 0, ?_, ?_, fun _ => rfl⟩
    · simp [Parts.all, hbefore]
    · refine Split.snoc ⟨piece.feeds, current ++ lineFeed :: line⟩ ?_ ⟨by simp, hfits⟩ ?_ (clean_end _) ?_
      · have hsame : (Piece.mk piece.feeds (current ++ lineFeed :: line)).text ++ List.replicate 0 lineFeed =
            piece.text ++ List.replicate 0 lineFeed ++ lineFeed :: line := by
          simp [Piece.text, hpiece]
        rwa [hsame]
      · rw [replicate_zero, append_nil]
        exact (hsplit.clean _ _ ⟨before, piece, [], rfl, .inl rfl⟩ htext).grow line
      · intro hne hzero
        have hzero : piece.feeds = 0 := hzero
        rw [replicate_zero, append_nil]
        refine (hsplit.inside _ _ ⟨before, piece, [], rfl, hne, hzero, rfl⟩ ?_).grow line
        rw [htext, hzero, replicate_zero, append_nil]
  · have hover : current ≠ [] → 1800 < byteLength (current ++ lineFeed :: line) := fun hcurrent => by
      by_contra hle
      exact hfits ⟨hcurrent, by omega⟩
    obtain ⟨_, _, hrun, hchopped⟩ := @line_chops line parts current hover
    have hgrown := hsplit.grow line
    have hfeeds : List.replicate last lineFeed ++ lineFeed :: line = List.replicate (last + 1) lineFeed ++ line := by
      rw [replicate_succ', append_assoc, singleton_append]
    rw [hfeeds] at hgrown
    have hstart : LineStart (weave pieces ++ List.replicate (last + 1) lineFeed) :=
      .inr ⟨weave pieces ++ List.replicate last lineFeed, by rw [replicate_succ', append_assoc]⟩
    obtain ⟨pieces', last', hparts', hsplit', hlast'⟩ := Split.chopped hstart hline (fun h => by omega) hchopped hgrown
    rw [hrun]
    exact ⟨pieces', last', by rw [all_append, hparts', hparts], hsplit', hlast'⟩

theorem Taken.lines {lines : List (List Unit16)} (h : Taken text s) (hlines : ∀ line ∈ lines, lineFeed ∉ line) :
    Taken (text ++ (lines.map fun line => lineFeed :: line).flatten) (lines.foldl Parts.line s) := by
  induction lines generalizing text s with
  | nil => simpa using h
  | cons line _ ih =>
    have hmore := ih (h.next (hlines line mem_cons_self)) fun line hline => hlines line (mem_cons_of_mem _ hline)
    simpa using hmore

theorem splitOn_free (text : List Unit16) : ∀ line ∈ text.splitOn lineFeed, lineFeed ∉ line := by
  induction text with
  | nil => simp
  | cons _ text ih =>
    rw [splitOn_cons_eq_if_modifyHead]
    split
    · intro line hline
      rcases mem_cons.mp hline with rfl | hline
      · exact not_mem_nil
      · exact ih line hline
    · rename_i hne
      obtain ⟨first, _, hsplit⟩ := exists_cons_of_ne_nil (splitOn_ne_nil lineFeed text)
      rw [hsplit] at ih ⊢
      intro line hline
      rw [modifyHead_cons] at hline
      rcases mem_cons.mp hline with rfl | hline
      · rw [mem_cons, not_or]
        exact ⟨fun hsame => hne (by simp [hsame]), ih first mem_cons_self⟩
      · exact ih line (mem_cons_of_mem _ hline)

theorem intercalate_lines (first : List Unit16) (lines : List (List Unit16)) :
    [lineFeed].intercalate (first :: lines) = first ++ (lines.map fun line => lineFeed :: line).flatten := by
  induction lines generalizing first with
  | nil => simp
  | cons _ _ ih => rw [intercalate_cons_cons, ih, map_cons, flatten_cons, append_assoc, singleton_append, cons_append]

/-- The parts are the text but for line feeds between them, none is empty or longer than 1800 bytes, and only a longer line is cut, between code points. -/
theorem splitNotification_lossless (text : List Unit16) :
    ∃ pieces last, splitNotification text = pieces.map Piece.part ∧ text = weave pieces ++ List.replicate last lineFeed ∧
      (∀ piece ∈ pieces, piece.part ≠ [] ∧ byteLength piece.part ≤ 1800) ∧
      (∀ a b, Boundary pieces a → text = a ++ b → ¬ CutsPoint a b ∧ (Inside a b → 1800 < byteLength (lineAt a b))) ∧
      ∀ a b, Adjacent pieces a → text = a ++ b → Inside a b ∧ 1800 < byteLength (lineAt a b) := by
  obtain ⟨first, lines, hsplit⟩ := exists_cons_of_ne_nil (splitOn_ne_nil lineFeed text)
  have hfree := splitOn_free text
  rw [hsplit] at hfree
  have htext : text = first ++ (lines.map fun line => lineFeed :: line).flatten := by
    rw [← intercalate_lines, ← hsplit, intercalate_splitOn]
  have htaken := (Taken.first (hfree first mem_cons_self)).lines fun line hline => hfree line (mem_cons_of_mem _ hline)
  rw [← htext] at htaken
  obtain ⟨pieces, last, hparts, hdone, -⟩ := htaken
  refine ⟨pieces, last, ?_, hdone.whole, hdone.sized, hdone.clean, fun a b hadjacent hcut => ?_⟩
  · unfold splitNotification
    rw [hsplit]
    exact hparts
  · have hinside := hdone.inside a b hadjacent hcut
    exact ⟨hinside, (hdone.clean a b hadjacent.boundary hcut).2 hinside⟩

end Loop

end WorkAgent.Harness.NotificationParts
