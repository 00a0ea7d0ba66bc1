import Mathlib

namespace WorkAgent.Library

open List

def total (l : List Int64) : ℤ := (l.map Int64.toInt).sum

@[simp] theorem total_nil : total [] = 0 := rfl

@[simp] theorem total_cons (x : Int64) (l : List Int64) : total (x :: l) = x.toInt + total l := by
  simp [total]

theorem total_nonneg {l : List Int64} (h : ∀ x ∈ l, 0 ≤ x.toInt) : 0 ≤ total l := by
  unfold total
  apply sum_nonneg
  intro a ha
  obtain ⟨x, hx, rfl⟩ := mem_map.mp ha
  exact h x hx

theorem total_append (l l' : List Int64) : total (l ++ l') = total l + total l' := by
  simp [total]

theorem total_le_of_sublist {l l' : List Int64} (h : l.Sublist l') (hn : ∀ x ∈ l', 0 ≤ x.toInt) :
    total l ≤ total l' := by
  unfold total
  apply (h.map Int64.toInt).sum_le_sum
  intro a ha
  obtain ⟨x, hx, rfl⟩ := mem_map.mp ha
  exact hn x hx

theorem toInt_add_of_lt {a b : Int64} (ha : 0 ≤ a.toInt) (hb : 0 ≤ b.toInt)
    (h : a.toInt + b.toInt < 2 ^ 63) : (a + b).toInt = a.toInt + b.toInt := by
  rw [Int64.toInt_add, Int.bmod_eq_of_le]
  · omega
  · omega

def addChecked (a b : Int64) : Option Int64 :=
  if -2 ^ 63 ≤ a.toInt + b.toInt ∧ a.toInt + b.toInt < 2 ^ 63 then some (a + b) else none

def sumChecked (l : List Int64) : Option Int64 := l.foldlM addChecked 0

theorem addChecked_eq_some {a b c : Int64} (ha : 0 ≤ a.toInt) (hb : 0 ≤ b.toInt) :
    addChecked a b = some c ↔ c.toInt = a.toInt + b.toInt := by
  unfold addChecked
  by_cases h : a.toInt + b.toInt < 2 ^ 63
  · have hsum := toInt_add_of_lt ha hb h
    rw [if_pos ⟨by omega, h⟩, Option.some_inj, ← Int64.toInt_inj, hsum]
    exact eq_comm
  · rw [if_neg (fun hc => h hc.2)]
    have := c.toInt_lt
    constructor
    · intro hc; cases hc
    · intro hc; omega

theorem foldlM_addChecked_eq_some {l : List Int64} (h : ∀ x ∈ l, 0 ≤ x.toInt) {a c : Int64}
    (ha : 0 ≤ a.toInt) : l.foldlM addChecked a = some c ↔ c.toInt = a.toInt + total l := by
  induction l generalizing a with
  | nil =>
    simp only [foldlM_nil, total_nil, add_zero, Int64.toInt_inj]
    exact ⟨fun h => (Option.some_inj.mp h).symm, fun h => h ▸ rfl⟩
  | cons x l ih =>
    have hx : 0 ≤ x.toInt := h x (by simp)
    have hl : ∀ y ∈ l, 0 ≤ y.toInt := fun y hy => h y (by simp [hy])
    rw [foldlM_cons, total_cons]
    cases hax : addChecked a x with
    | some b =>
      have hb := (addChecked_eq_some ha hx).mp hax
      change l.foldlM addChecked b = some c ↔ _
      rw [ih hl (by omega), hb]
      omega
    | none =>
      have hover : 2 ^ 63 ≤ a.toInt + x.toInt := by
        by_contra hlt
        unfold addChecked at hax
        rw [if_pos ⟨by omega, by omega⟩] at hax
        cases hax
      have := total_nonneg hl
      have := c.toInt_lt
      constructor
      · intro hc; cases hc
      · intro hc; omega

theorem sumChecked_eq_some {l : List Int64} (h : ∀ x ∈ l, 0 ≤ x.toInt) {c : Int64} :
    sumChecked l = some c ↔ c.toInt = total l := by
  have := foldlM_addChecked_eq_some h (a := 0) (c := c) (by decide)
  simpa [sumChecked] using this

def sumWrap (l : List Int64) : Int64 := l.foldl (· + ·) 0

theorem toInt_foldl_add (l : List Int64) (a : Int64) :
    (l.foldl (· + ·) a).toInt = (a.toInt + total l).bmod (2 ^ 64) := by
  induction l generalizing a with
  | nil =>
    have h₁ := a.le_toInt
    have h₂ := a.toInt_lt
    simp only [foldl_nil, total_nil, add_zero]
    rw [Int.bmod_eq_of_le] <;> omega
  | cons x l ih =>
    rw [foldl_cons, ih, Int64.toInt_add, total_cons, Int.bmod_add_bmod, add_assoc]

theorem toInt_sumWrap (l : List Int64) : (sumWrap l).toInt = (total l).bmod (2 ^ 64) := by
  have := toInt_foldl_add l 0
  simpa [sumWrap] using this

theorem sumWrap_eq_total {l : List Int64} (h : ∀ x ∈ l, 0 ≤ x.toInt) :
    (sumWrap l).toInt = total l ↔ total l < 2 ^ 63 := by
  have hn := total_nonneg h
  rw [toInt_sumWrap]
  constructor
  · intro he
    have := (sumWrap l).toInt_lt
    rw [toInt_sumWrap, he] at this
    exact this
  · intro _
    rw [Int.bmod_eq_of_le] <;> omega

theorem sumWrap_nonneg {l : List Int64} : 0 ≤ (sumWrap l).toInt ↔ total l % 2 ^ 64 < 2 ^ 63 := by
  rw [toInt_sumWrap, Int.bmod_def]
  split <;> omega

theorem sum_filter_nonzero {ρ : Type} (l : List ρ) (p q : ρ → Bool) (amount : ρ → ℤ)
    (h : ∀ r, p r = false → amount r = 0) :
    ((l.filter (fun r => p r && q r)).map amount).sum = ((l.filter q).map amount).sum := by
  induction l with
  | nil => rfl
  | cons r l ih =>
    cases hq : q r with
    | false => simp [hq, ih]
    | true =>
      cases hp : p r with
      | true => simp [hp, hq, ih]
      | false => simp [hp, hq, ih, h r hp]

theorem sum_charges {ρ κ : Type} [DecidableEq κ] (l : List ρ) (charge : ρ → κ) (amount : ρ → ℤ)
    (keys : Finset κ) (h : ∀ r ∈ l, charge r ∈ keys) :
    ∑ k ∈ keys, ((l.filter (fun r => charge r = k)).map amount).sum = (l.map amount).sum := by
  induction l with
  | nil => simp
  | cons r l ih =>
    have hl := ih (fun x hx => h x (by simp [hx]))
    have hcons (k : κ) : (((r :: l).filter (fun x => charge x = k)).map amount).sum =
        (if charge r = k then amount r else 0) + ((l.filter (fun x => charge x = k)).map amount).sum := by
      by_cases hk : charge r = k <;> simp [hk]
    rw [Finset.sum_congr rfl (fun k _ => hcons k), Finset.sum_add_distrib, hl,
      Finset.sum_ite_eq, if_pos (h r (by simp)), map_cons, sum_cons]

end WorkAgent.Library
