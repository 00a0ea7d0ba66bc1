import Mathlib

namespace WorkAgent.Library

open List

variable {α : Type}

section Bursts

variable (tick : α → ℤ)

def burstStart (g : List α) : ℤ := (g.getLast?.map tick).getD 0

theorem burstStart_cons {x : α} {g : List α} (h : g ≠ []) : burstStart tick (x :: g) = burstStart tick g := by
  unfold burstStart
  rw [getLast?_cons_of_ne_nil h]

def Spaced (limit : ℕ) (distance : ℤ) : List (List α) → Prop
  | [] => True
  | g :: rest => (g.length ≤ limit ∧ ∀ x ∈ g, burstStart tick g ≤ tick x) ∧
      (∀ g' ∈ rest.head?, burstStart tick g' + distance ≤ burstStart tick g ∧ ∀ x ∈ g', tick x < burstStart tick g) ∧
      Spaced limit distance rest

variable {tick} {limit : ℕ} {distance : ℤ}

theorem Spaced.tail {g : List α} {rest : List (List α)} (h : Spaced tick limit distance (g :: rest)) :
    Spaced tick limit distance rest := h.2.2

theorem Spaced.before {g : List α} {rest : List (List α)} (hd : 0 ≤ distance)
    (h : Spaced tick limit distance (g :: rest)) : ∀ x ∈ rest.flatten, tick x < burstStart tick g := by
  induction rest generalizing g with
  | nil =>
    intro x hx
    cases hx
  | cons b _ ih =>
    obtain ⟨_, hbefore⟩ := h.2.1 b rfl
    intro x hx
    rw [flatten_cons, mem_append] at hx
    rcases hx with hx | hx
    · exact hbefore x hx
    · have hlt := ih h.tail x hx
      omega

theorem Spaced.count_le (hd : 0 ≤ distance) (p : α → Prop) [DecidablePred p]
    (hp : ∀ x y, p x → p y → tick y ≤ tick x + distance) (gens : List (List α)) (h : Spaced tick limit distance gens) :
    (gens.flatten.filter (fun x => p x)).length ≤ 2 * limit := by
  induction gens with
  | nil => simp
  | cons g rest ih =>
    rw [flatten_cons, filter_append, length_append]
    by_cases hex : ∃ y ∈ g, p y
    · obtain ⟨y, hy, hpy⟩ := hex
      have hg : (g.filter (fun x => p x)).length ≤ limit := (length_filter_le _ _).trans h.1.1
      have hyg := h.1.2 y hy
      cases rest with
      | nil =>
        simp only [flatten_nil, filter_nil, length_nil]
        omega
      | cons b rest =>
        have hb : (b.filter (fun x => p x)).length ≤ limit := (length_filter_le _ _).trans h.tail.1.1
        have hrest : rest.flatten.filter (fun x => p x) = [] := by
          rw [filter_eq_nil_iff]
          intro z hz hpz
          have hlt := h.tail.before hd z hz
          have hstart := (h.2.1 b rfl).1
          have hle := hp z y (of_decide_eq_true hpz) hpy
          omega
        rw [flatten_cons, filter_append, hrest, append_nil]
        omega
    · have hnone : g.filter (fun x => p x) = [] := by
        rw [filter_eq_nil_iff]
        intro x hx hpx
        exact hex ⟨x, hx, of_decide_eq_true hpx⟩
      rw [hnone, length_nil, Nat.zero_add]
      exact ih h.tail

end Bursts

end WorkAgent.Library
