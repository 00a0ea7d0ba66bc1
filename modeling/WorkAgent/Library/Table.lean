import Mathlib.Data.List.Nodup
import Mathlib.Algebra.BigOperators.Group.List.Basic

namespace WorkAgent.Library

open List Option

variable {ρ κ : Type}

/-- A relational table: a list of rows in insertion order whose primary keys are distinct. -/
structure Table (key : ρ → κ) where
  rows : List ρ
  nodup : (rows.map key).Nodup

namespace Table

variable {key : ρ → κ} {t : Table key} {r x : ρ} {k : κ}

instance : Membership ρ (Table key) := ⟨fun t r => r ∈ t.rows⟩

theorem mem_rows : r ∈ t.rows ↔ r ∈ t := Iff.rfl

theorem ext_rows {t u : Table key} (h : t.rows = u.rows) : t = u := by
  cases t; cases u; cases h; rfl

def empty : Table key := ⟨[], by simp⟩

@[simp] theorem not_mem_empty (r : ρ) : r ∉ (empty : Table key) := not_mem_nil

theorem forall_mem_empty {p : ρ → Prop} : ∀ r ∈ (empty : Table key), p r := fun r hr => absurd hr (not_mem_empty r)

theorem eq_of_key {r r' : ρ} (h : r ∈ t) (h' : r' ∈ t) (hk : key r = key r') : r = r' :=
  inj_on_of_nodup_map t.nodup h h' hk

section Find

variable [DecidableEq κ]

def find? (t : Table key) (k : κ) : Option ρ := t.rows.find? (fun r => key r = k)

theorem find?_eq_some : t.find? k = some r ↔ r ∈ t ∧ key r = k := by
  constructor
  · intro h
    exact ⟨mem_of_find?_eq_some h, by simpa using find?_some h⟩
  · rintro ⟨hr, rfl⟩
    cases hf : t.find? (key r) with
    | none =>
      have := List.find?_eq_none.mp hf r hr
      simp at this
    | some r' =>
      have hk : key r' = key r := by simpa using find?_some hf
      rw [eq_of_key (mem_of_find?_eq_some hf) hr hk]

theorem find?_eq_none : t.find? k = none ↔ ∀ r ∈ t, key r ≠ k := by
  simp only [find?, List.find?_eq_none, decide_eq_true_eq, mem_rows]

theorem find?_of_mem (h : r ∈ t) : t.find? (key r) = some r :=
  find?_eq_some.mpr ⟨h, rfl⟩

@[simp] theorem find?_empty (k : κ) : (empty : Table key).find? k = none := rfl

def has (t : Table key) (k : κ) : Bool := (t.find? k).isSome

theorem has_eq_true : t.has k = true ↔ ∃ r ∈ t, key r = k := by
  simp only [has, isSome_iff_exists, find?_eq_some]

theorem has_eq_false : t.has k = false ↔ t.find? k = none := by
  simp [has]

def insertOrIgnore (t : Table key) (r : ρ) : Table key :=
  if h : t.find? (key r) = none then
    ⟨t.rows ++ [r], by
      rw [map_append, nodup_append]
      refine ⟨t.nodup, by simp, ?_⟩
      intro a ha b hb hab
      obtain ⟨x, hx, rfl⟩ := List.mem_map.mp ha
      obtain rfl : b = key r := by simpa using hb
      exact find?_eq_none.mp h x hx hab⟩
  else t

theorem rows_insertOrIgnore (h : t.find? (key r) = none) :
    (t.insertOrIgnore r).rows = t.rows ++ [r] := by
  simp [insertOrIgnore, h]

theorem insertOrIgnore_of_some (h : t.find? (key r) = some x) :
    t.insertOrIgnore r = t := by
  simp [insertOrIgnore, h]

theorem mem_insertOrIgnore :
    x ∈ t.insertOrIgnore r ↔ x ∈ t ∨ (x = r ∧ t.find? (key r) = none) := by
  by_cases h : t.find? (key r) = none
  · rw [← mem_rows, rows_insertOrIgnore h]
    simp [h, mem_rows]
  · simp [insertOrIgnore, h]

theorem find?_insertOrIgnore :
    (t.insertOrIgnore r).find? k = if key r = k then some ((t.find? k).getD r) else t.find? k := by
  by_cases h : t.find? (key r) = none
  · have hrows : (t.insertOrIgnore r).find? k = (t.rows ++ [r]).find? (fun x => key x = k) := by
      rw [find?, rows_insertOrIgnore h]
    rw [hrows, find?_append]
    change ((t.find? k).or _) = _
    by_cases hk : key r = k
    · subst hk; simp [h]
    · simp [hk]
  · obtain ⟨x, hx⟩ := ne_none_iff_exists'.mp h
    rw [insertOrIgnore_of_some hx]
    split
    · rename_i hk; subst hk; simp [hx]
    · rfl

theorem find?_insertOrIgnore_new (h : t.find? (key r) = none) :
    (t.insertOrIgnore r).find? (key r) = some r := by
  rw [find?_insertOrIgnore, if_pos rfl, h, getD_none]

theorem find?_insertOrIgnore_of_some (h : t.find? k = some x) :
    (t.insertOrIgnore r).find? k = some x := by
  rw [find?_insertOrIgnore, h]
  split <;> rfl

theorem find?_insertOrIgnore_ne (h : key r ≠ k) :
    (t.insertOrIgnore r).find? k = t.find? k := by
  rw [find?_insertOrIgnore, if_neg h]

def insert? (t : Table key) (r : ρ) : Option (Table key) :=
  if t.find? (key r) = none then some (t.insertOrIgnore r) else none

theorem insert?_eq_some {t u : Table key} :
    t.insert? r = some u ↔ t.find? (key r) = none ∧ u = t.insertOrIgnore r := by
  by_cases h : t.find? (key r) = none <;> simp [insert?, h, eq_comm]

end Find

section Update

def update (t : Table key) (p : ρ → Prop) [DecidablePred p] (f : ρ → ρ)
    (hf : ∀ r, key (f r) = key r := by intro r; cases r; rfl) : Table key :=
  ⟨t.rows.map (fun r => if p r then f r else r), by
    have he : key ∘ (fun r => if p r then f r else r) = key := by
      funext r
      by_cases h : p r <;> simp [h, hf]
    rw [List.map_map, he]
    exact t.nodup⟩

variable {p : ρ → Prop} [DecidablePred p] {f : ρ → ρ} {hf : ∀ r, key (f r) = key r}

@[simp] theorem rows_update (t : Table key) :
    (t.update p f hf).rows = t.rows.map (fun r => if p r then f r else r) := rfl

theorem mem_update :
    x ∈ t.update p f hf ↔ ∃ r ∈ t, x = if p r then f r else r := by
  rw [← mem_rows, rows_update, List.mem_map]
  simp only [mem_rows, eq_comm]

theorem mem_update_of_mem (h : r ∈ t) :
    (if p r then f r else r) ∈ t.update p f hf :=
  mem_update.mpr ⟨r, h, rfl⟩

theorem mem_update_of_pos (h : r ∈ t) (hp : p r)
    (hf : ∀ r, key (f r) = key r := by intro r; cases r; rfl) : f r ∈ t.update p f hf := by
  have hmem : (if p r then f r else r) ∈ t.update p f hf := mem_update_of_mem h
  rwa [if_pos hp] at hmem

theorem mem_update_of_neg (h : r ∈ t) (hp : ¬ p r)
    (hf : ∀ r, key (f r) = key r := by intro r; cases r; rfl) : r ∈ t.update p f hf := by
  have hmem : (if p r then f r else r) ∈ t.update p f hf := mem_update_of_mem h
  rwa [if_neg hp] at hmem

theorem exists_of_mem_update {hf : ∀ r, key (f r) = key r} (h : x ∈ t.update p f hf) :
    ∃ r ∈ t, key r = key x ∧ ((p r ∧ x = f r) ∨ (¬ p r ∧ x = r)) := by
  rw [mem_update] at h
  obtain ⟨r, hr, rfl⟩ := h
  by_cases hp : p r
  · rw [if_pos hp]
    exact ⟨r, hr, (hf r).symm, .inl ⟨hp, rfl⟩⟩
  · rw [if_neg hp]
    exact ⟨r, hr, rfl, .inr ⟨hp, rfl⟩⟩

theorem exists_key_update (h : ∃ r ∈ t, key r = k)
    (hf : ∀ r, key (f r) = key r := by intro r; cases r; rfl) : ∃ r ∈ t.update p f hf, key r = k := by
  obtain ⟨r, hr, rfl⟩ := h
  refine ⟨_, mem_update_of_mem hr, ?_⟩
  split
  · exact hf r
  · rfl

theorem find?_update [DecidableEq κ] :
    (t.update p f hf).find? k = (t.find? k).map (fun r => if p r then f r else r) := by
  cases h : t.find? k with
  | none =>
    rw [map_none, find?_eq_none]
    intro x hx
    obtain ⟨r, hr, rfl⟩ := mem_update.mp hx
    have := find?_eq_none.mp h r hr
    by_cases hp : p r <;> simpa [hp, hf] using this
  | some r =>
    obtain ⟨hr, rfl⟩ := find?_eq_some.mp h
    rw [map_some, find?_eq_some]
    refine ⟨mem_update_of_mem hr, ?_⟩
    by_cases hp : p r <;> simp [hp, hf]

theorem update_eq_self (h : ∀ r ∈ t, ¬ p r) : t.update p f hf = t := by
  apply ext_rows
  rw [rows_update]
  conv_rhs => rw [← List.map_id t.rows]
  exact map_congr_left (fun r hr => by simp [h r hr])

def upsert [DecidableEq κ] (t : Table key) (r : ρ) (f : ρ → ρ)
    (hf : ∀ r, key (f r) = key r := by intro r; cases r; rfl) : Table key :=
  if t.find? (key r) = none then t.insertOrIgnore r else t.update (fun x => key x = key r) f hf

theorem find?_upsert [DecidableEq κ] {f : ρ → ρ} {hf : ∀ r, key (f r) = key r} :
    (t.upsert r f hf).find? k = if key r = k then some ((t.find? k).elim r f) else t.find? k := by
  unfold upsert
  split
  · rename_i hnone
    rw [find?_insertOrIgnore]
    by_cases hk : key r = k
    · subst hk
      simp [hnone]
    · simp [hk]
  · rename_i hsome
    rw [find?_update]
    by_cases hk : key r = k
    · subst hk
      obtain ⟨x, hx⟩ := ne_none_iff_exists'.mp hsome
      obtain ⟨-, hkey⟩ := find?_eq_some.mp hx
      simp [hx, hkey]
    · rw [if_neg hk]
      cases hx : t.find? k with
      | none => rfl
      | some =>
        obtain ⟨-, rfl⟩ := find?_eq_some.mp hx
        rw [map_some, if_neg (fun h => hk h.symm)]

theorem mem_upsert_ne [DecidableEq κ] {f : ρ → ρ}
    {hf : ∀ r, key (f r) = key r} (h : key x ≠ key r) : x ∈ t.upsert r f hf ↔ x ∈ t := by
  unfold upsert
  split
  · rw [mem_insertOrIgnore]
    constructor
    · rintro (hx | ⟨rfl, -⟩)
      · exact hx
      · exact absurd rfl h
    · exact .inl
  · rw [mem_update]
    constructor
    · rintro ⟨y, _, rfl⟩
      split at h
      · rename_i hk
        exact absurd ((hf y).trans hk) h
      · rename_i hk
        rwa [if_neg hk]
    · intro hx
      exact ⟨x, hx, (if_neg h).symm⟩

def set [DecidableEq κ] (t : Table key) (r : ρ) : Table key :=
  t.upsert r (fun x => if key x = key r then r else x) (by
    intro x
    split
    · rename_i h
      exact h.symm
    · rfl)

theorem mem_set [DecidableEq κ] :
    x ∈ t.set r ↔ x = r ∨ (x ∈ t ∧ key x ≠ key r) := by
  by_cases hk : key x = key r
  · have hiff : x ∈ t.set r ↔ x = r := by
      unfold set upsert
      split
      · rename_i hnone
        rw [mem_insertOrIgnore]
        constructor
        · rintro (hx | ⟨rfl, -⟩)
          · exact absurd hk (find?_eq_none.mp hnone x hx)
          · rfl
        · rintro rfl
          exact .inr ⟨rfl, hnone⟩
      · rename_i hsome
        obtain ⟨y, hy⟩ := ne_none_iff_exists'.mp hsome
        obtain ⟨hmem, hy⟩ := find?_eq_some.mp hy
        rw [mem_update]
        constructor
        · rintro ⟨z, -, rfl⟩
          by_cases hz : key z = key r
          · rw [if_pos hz, if_pos hz]
          · rw [if_neg hz] at hk
            exact absurd hk hz
        · rintro rfl
          exact ⟨y, hmem, by rw [if_pos hy, if_pos hy]⟩
    rw [hiff]
    simp [hk]
  · rw [set, mem_upsert_ne hk]
    constructor
    · intro hx
      exact .inr ⟨hx, hk⟩
    · rintro (rfl | ⟨hx, -⟩)
      · exact absurd rfl hk
      · exact hx

theorem forall_mem_set [DecidableEq κ] {p : ρ → Prop} (hr : p r) (h : ∀ x ∈ t, p x) :
    ∀ x ∈ t.set r, p x := by
  intro x hx
  rcases mem_set.mp hx with rfl | ⟨hold, -⟩
  · exact hr
  · exact h x hold

theorem update_eq_set [DecidableEq κ] {f : ρ → ρ} {hf : ∀ r, key (f r) = key r} (h : r ∈ t) (hp : p r)
    (hone : ∀ x ∈ t, p x → x = r) : t.update p f hf = t.set (f r) := by
  have hsome : t.find? (key (f r)) ≠ none := by
    rw [hf, find?_of_mem h]
    simp
  apply ext_rows
  unfold set upsert
  rw [if_neg hsome, rows_update, rows_update]
  apply map_congr_left
  intro x hx
  by_cases hx' : p x
  · rw [hone x hx hx', if_pos hp, if_pos (hf r).symm, if_pos (hf r).symm]
  · have hk : key x ≠ key (f r) := by
      intro hk
      rw [hf] at hk
      rw [eq_of_key hx h hk] at hx'
      exact hx' hp
    rw [if_neg hx', if_neg hk]

def delete (t : Table key) (p : ρ → Prop) [DecidablePred p] : Table key :=
  ⟨t.rows.filter (fun r => ¬ p r), (filter_sublist.map key).nodup t.nodup⟩

@[simp] theorem rows_delete (t : Table key) : (t.delete p).rows = t.rows.filter (fun r => ¬ p r) := rfl

theorem mem_delete : x ∈ t.delete p ↔ x ∈ t ∧ ¬ p x := by
  rw [← mem_rows, rows_delete, mem_filter]
  simp [mem_rows]

theorem find?_delete [DecidableEq κ] : (t.delete p).find? k = (t.find? k).filter (fun r => ¬ p r) := by
  cases h : t.find? k with
  | none =>
    rw [filter_none, find?_eq_none]
    intro r hr
    exact find?_eq_none.mp h r (mem_delete.mp hr).1
  | some r =>
    obtain ⟨hr, rfl⟩ := find?_eq_some.mp h
    by_cases hp : p r
    · rw [filter_some, if_neg (by simpa using hp), find?_eq_none]
      intro x hx hkey
      obtain ⟨hmem, hx⟩ := mem_delete.mp hx
      rw [eq_of_key hmem hr hkey] at hx
      exact hx hp
    · rw [filter_some, if_pos (by simpa using hp), find?_eq_some]
      exact ⟨mem_delete.mpr ⟨hr, hp⟩, rfl⟩

theorem delete_eq_self (h : ∀ r ∈ t, ¬ p r) : t.delete p = t := by
  apply ext_rows
  rw [rows_delete, filter_eq_self]
  intro r hr
  simpa using h r hr

def count (t : Table key) (p : ρ → Prop) [DecidablePred p] : ℕ := t.rows.countP (fun r => p r)

theorem count_eq_zero : t.count p = 0 ↔ ∀ r ∈ t, ¬ p r := by
  simp [count, countP_eq_zero, mem_rows]

theorem exists_of_count_ne_zero (h : t.count p ≠ 0) : ∃ r ∈ t, p r := by
  by_contra hn
  exact h (count_eq_zero.mpr (fun r hr hp => hn ⟨r, hr, hp⟩))

theorem count_le_one (hp : ∀ r, p r → key r = k) : t.count p ≤ 1 := by
  rw [count, countP_eq_length_filter]
  have hs := ((filter_sublist (p := fun r => decide (p r))).map key).nodup t.nodup
  match h : t.rows.filter (fun r => decide (p r)), hs with
  | [], _ => simp
  | [a], _ => simp
  | a :: b :: l, hs =>
    have ha : a ∈ t.rows.filter (fun r => decide (p r)) := by rw [h]; simp
    have hb : b ∈ t.rows.filter (fun r => decide (p r)) := by rw [h]; simp
    have hka := hp a (by simpa using (mem_filter.mp ha).2)
    have hkb := hp b (by simpa using (mem_filter.mp hb).2)
    simp [hka, hkb] at hs

theorem count_eq_one (hp : ∀ r, p r → key r = k) :
    t.count p = 1 ↔ ∃ r ∈ t, p r := by
  constructor
  · intro h
    exact exists_of_count_ne_zero (by omega)
  · rintro ⟨r, hr, hpr⟩
    have hle := count_le_one (t := t) hp
    have hne : t.count p ≠ 0 := fun h0 => count_eq_zero.mp h0 r hr hpr
    omega

theorem existsUnique_of_count (h : t.count p = 1) : ∃! r, r ∈ t ∧ p r := by
  rw [count, countP_eq_length_filter, length_eq_one_iff] at h
  obtain ⟨r, hr⟩ := h
  have hiff (x : ρ) : x ∈ t ∧ p x ↔ x = r := by
    rw [← mem_singleton, ← hr, mem_filter, decide_eq_true_eq, mem_rows]
  exact ⟨r, (hiff r).mpr rfl, fun x hx => (hiff x).mp hx⟩

theorem count_delete_le (t : Table key) (q : ρ → Prop) [DecidablePred q] : (t.delete q).count p ≤ t.count p := by
  rw [count, count, rows_delete]
  exact filter_sublist.countP_le

theorem count_set [DecidableEq κ] {r r' : ρ} (h : r ∈ t) (hk : key r' = key r) :
    (t.set r').count p + (if p r then 1 else 0) = t.count p + (if p r' then 1 else 0) := by
  have hsome : t.find? (key r') ≠ none := by
    rw [hk, find?_of_mem h]
    simp
  have hrows : (t.set r').rows = t.rows.map fun x => if key x = key r then r' else x := by
    unfold set upsert
    rw [if_neg hsome, rows_update]
    apply map_congr_left
    intro x _
    rw [hk]
    split <;> rfl
  obtain ⟨before, after, hsplit⟩ := append_of_mem h
  have hother : ∀ x, x ∈ before ∨ x ∈ after → key x ≠ key r := by
    have hnodup := t.nodup
    rw [hsplit, map_append, map_cons, nodup_append, nodup_cons] at hnodup
    obtain ⟨-, ⟨hafter, -⟩, hbefore⟩ := hnodup
    rintro x (hx | hx) hsame
    · exact hbefore (key x) (List.mem_map_of_mem hx) (key r) mem_cons_self hsame
    · exact hafter (hsame ▸ List.mem_map_of_mem hx)
  have hkeep : ∀ l : List ρ, (∀ x ∈ l, key x ≠ key r) → l.map (fun x => if key x = key r then r' else x) = l := by
    intro l hl
    conv_rhs => rw [← List.map_id l]
    exact map_congr_left fun x hx => by simp [hl x hx]
  rw [count, count, hrows, hsplit, map_append, map_cons, if_pos rfl, hkeep before fun x hx => hother x (.inl hx),
    hkeep after fun x hx => hother x (.inr hx)]
  simp only [countP_append, countP_cons, decide_eq_true_eq]
  omega

theorem count_set_le [DecidableEq κ] : (t.set r).count p ≤ t.count p + (if p r then 1 else 0) := by
  cases hfind : t.find? (key r) with
  | none =>
    have hrows : (t.set r).rows = t.rows ++ [r] := by
      unfold set upsert
      rw [if_pos hfind, rows_insertOrIgnore hfind]
    rw [count, count, hrows, countP_append, countP_singleton]
    simp
  | some =>
    obtain ⟨hr, hkey⟩ := find?_eq_some.mp hfind
    have heq := count_set (p := p) hr hkey.symm
    omega

theorem count_insertOrIgnore_le [DecidableEq κ] : (t.insertOrIgnore r).count p ≤ t.count p + (if p r then 1 else 0) := by
  cases hfind : t.find? (key r) with
  | none =>
    rw [count, count, rows_insertOrIgnore hfind, countP_append, countP_singleton]
    simp
  | some =>
    rw [insertOrIgnore_of_some hfind]
    omega

theorem count_update {q : ρ → Prop} [DecidablePred q] {f : ρ → ρ} {hf : ∀ r, key (f r) = key r} (h : ∀ r, p (f r) ↔ p r) :
    (t.update q f hf).count p = t.count p := by
  rw [count, count, rows_update, countP_map]
  apply countP_congr
  intro r _
  by_cases hq : q r <;> simp [hq, h]

end Update

end Table

end WorkAgent.Library
