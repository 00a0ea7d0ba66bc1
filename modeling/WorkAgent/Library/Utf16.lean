import Mathlib

namespace WorkAgent.Library.Utf16

open List

abbrev Unit16 := UInt16

def High (u : Unit16) : Prop := 0xD800 ≤ u ∧ u ≤ 0xDBFF

instance (u : Unit16) : Decidable (High u) := inferInstanceAs (Decidable (_ ∧ _))

def Low (u : Unit16) : Prop := 0xDC00 ≤ u ∧ u ≤ 0xDFFF

instance (u : Unit16) : Decidable (Low u) := inferInstanceAs (Decidable (_ ∧ _))

def points : List Unit16 → List (List Unit16)
  | [] => []
  | [u] => [[u]]
  | u :: v :: rest => if High u ∧ Low v then [u, v] :: points rest else [u] :: points (v :: rest)

def width : List Unit16 → ℕ
  | [u] => if u < 0x80 then 1 else if u < 0x800 then 2 else 3
  | _ => 4

def byteLength (text : List Unit16) : ℕ := ((points text).map width).sum

def CutsPoint (a b : List Unit16) : Prop := (∃ u ∈ a.getLast?, High u) ∧ ∃ v ∈ b.head?, Low v

theorem high_not_low {u : Unit16} (h : High u) : ¬ Low u := by
  unfold High at h
  unfold Low
  have h2 := UInt16.le_iff_toNat_le.mp h.2
  intro hlow
  have h1 := UInt16.le_iff_toNat_le.mp hlow.1
  have hd : (0xDBFF : UInt16).toNat = 0xDBFF := rfl
  have hc : (0xDC00 : UInt16).toNat = 0xDC00 := rfl
  omega

@[simp] theorem points_nil : points [] = [] := rfl

theorem points_pair {u v : Unit16} (h : High u ∧ Low v) (rest : List Unit16) : points (u :: v :: rest) = [u, v] :: points rest := by
  rw [points, if_pos h]

theorem points_single {u : Unit16} {rest : List Unit16} (h : ¬ CutsPoint [u] rest) : points (u :: rest) = [u] :: points rest := by
  cases rest with
  | nil => rfl
  | cons v =>
    have hnot : ¬ (High u ∧ Low v) := fun hboth => h ⟨⟨u, by simp, hboth.1⟩, v, by simp, hboth.2⟩
    rw [points, if_neg hnot]

@[simp] theorem not_joined_nil_left (b : List Unit16) : ¬ CutsPoint [] b := by simp [CutsPoint]

@[simp] theorem not_joined_nil_right (a : List Unit16) : ¬ CutsPoint a [] := by simp [CutsPoint]

theorem joined_cons {u v : Unit16} {a b : List Unit16} : CutsPoint (u :: v :: a) b ↔ CutsPoint (v :: a) b := by
  unfold CutsPoint
  rw [getLast?_cons_cons]

theorem not_joined_low {u : Unit16} (h : ¬ High u) {a b : List Unit16} : ¬ CutsPoint (a ++ [u]) b := by
  rintro ⟨⟨w, hw, hhigh⟩, -⟩
  simp only [getLast?_append, getLast?_singleton, Option.some_or, Option.mem_some_iff] at hw
  exact h (hw ▸ hhigh)

theorem not_joined_start {v : Unit16} (h : ¬ Low v) {a b : List Unit16} : ¬ CutsPoint a (v :: b) := by
  rintro ⟨-, w, hw, hlow⟩
  simp only [head?_cons, Option.mem_some_iff] at hw
  exact h (hw ▸ hlow)

theorem points_append {a b : List Unit16} (h : ¬ CutsPoint a b) : points (a ++ b) = points a ++ points b := by
  induction a using points.induct with
  | case1 => rfl
  | case2 => exact points_single h
  | case3 _ _ rest hboth ih =>
    have hrest : ¬ CutsPoint rest b := by
      cases rest with
      | nil => exact not_joined_nil_left b
      | cons =>
        rw [joined_cons, joined_cons] at h
        exact h
    rw [cons_append, cons_append, points_pair hboth, points_pair hboth, ih hrest, cons_append]
  | case4 _ _ _ hnot ih =>
    rw [joined_cons] at h
    rw [cons_append, cons_append, points, if_neg hnot, points, if_neg hnot, cons_append]
    congr 1
    exact ih h

theorem byteLength_append {a b : List Unit16} (h : ¬ CutsPoint a b) : byteLength (a ++ b) = byteLength a + byteLength b := by
  unfold byteLength
  rw [points_append h, map_append, sum_append]

theorem flatten_points (text : List Unit16) : (points text).flatten = text := by
  induction text using points.induct with
  | case1 => rfl
  | case2 => rfl
  | case3 _ _ _ hboth ih => rw [points_pair hboth, flatten_cons, ih, cons_append, cons_append, nil_append]
  | case4 _ _ _ hnot ih => rw [points, if_neg hnot, flatten_cons, ih, cons_append, nil_append]

theorem point_ne_nil {text point : List Unit16} (h : point ∈ points text) : point ≠ [] := by
  induction text using points.induct with
  | case1 => simp at h
  | case2 => simp_all [points]
  | case3 _ _ _ hboth ih =>
    rw [points_pair hboth] at h
    rcases mem_cons.mp h with rfl | h
    · simp
    · exact ih h
  | case4 _ _ _ hnot ih =>
    rw [points, if_neg hnot] at h
    rcases mem_cons.mp h with rfl | h
    · simp
    · exact ih h

theorem width_le (point : List Unit16) : width point ≤ 4 := by
  unfold width
  split
  · split
    · omega
    · split <;> omega
  · omega

theorem points_split {text : List Unit16} {before after : List (List Unit16)} (h : points text = before ++ after) :
    points before.flatten = before ∧ points after.flatten = after ∧ ¬ CutsPoint before.flatten after.flatten := by
  induction text using points.induct generalizing before with
  | case1 =>
    obtain ⟨rfl, rfl⟩ := append_eq_nil_iff.mp h.symm
    simp
  | case2 =>
    cases before with
    | nil =>
      rw [nil_append] at h
      subst h
      simp [points]
    | cons =>
      obtain ⟨rfl, hrest⟩ := cons_eq_cons.mp h
      obtain ⟨rfl, rfl⟩ := append_eq_nil_iff.mp hrest.symm
      simp [points]
  | case3 u _ _ hboth ih =>
    cases before with
    | nil =>
      rw [nil_append] at h
      rw [← h, flatten_points]
      simp
    | cons _ before =>
      rw [points_pair hboth] at h
      obtain ⟨rfl, hrest⟩ := cons_eq_cons.mp h
      obtain ⟨hbefore, hafter, hjoined⟩ := ih hrest
      refine ⟨?_, hafter, ?_⟩
      · rw [flatten_cons, cons_append, cons_append, nil_append, points_pair hboth, hbefore]
      · rw [flatten_cons, cons_append, cons_append, nil_append]
        cases hflat : before.flatten with
        | nil =>
          have hlast := not_joined_low (fun hhigh => high_not_low hhigh hboth.2) (a := [u]) (b := after.flatten)
          exact hlast
        | cons =>
          rw [joined_cons, joined_cons, ← hflat]
          exact hjoined
  | case4 u v rest hnot ih =>
    cases before with
    | nil =>
      rw [nil_append] at h
      rw [← h, flatten_points]
      simp
    | cons _ before =>
      rw [points, if_neg hnot] at h
      obtain ⟨rfl, hrest⟩ := cons_eq_cons.mp h
      obtain ⟨hbefore, hafter, hjoined⟩ := ih hrest
      have hflat : before.flatten ++ after.flatten = v :: rest := by
        rw [← flatten_append, show before ++ after = points (v :: rest) from hrest.symm, flatten_points]
      have hsingle : ¬ CutsPoint [u] (v :: rest) := fun h => hnot (by simpa [CutsPoint] using h)
      rw [flatten_cons, cons_append, nil_append]
      cases hcase : before.flatten with
      | nil =>
        rw [hcase, nil_append] at hflat
        rw [hcase] at hbefore
        refine ⟨?_, hafter, hflat ▸ hsingle⟩
        rw [← hbefore]
        rfl
      | cons =>
        rw [hcase, cons_append] at hflat
        obtain ⟨rfl, -⟩ := cons_eq_cons.mp hflat
        refine ⟨?_, hafter, ?_⟩
        · rw [points_single (fun h => hnot (by simpa [CutsPoint] using h)), ← hcase, hbefore]
        · rw [joined_cons, ← hcase]
          exact hjoined

end WorkAgent.Library.Utf16
