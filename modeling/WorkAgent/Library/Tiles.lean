import Mathlib.Data.List.Chain
import Mathlib.Data.List.Count

namespace WorkAgent.Library

structure Window where
  first : ℕ
  last : ℕ
  deriving DecidableEq

namespace Window

def Contains (w : Window) (n : ℕ) : Prop := w.first ≤ n ∧ n ≤ w.last

instance (w : Window) (n : ℕ) : Decidable (w.Contains n) := inferInstanceAs (Decidable (_ ∧ _))

end Window

/-- The windows cover the numbers from `start` up to `stop`, which is left out, one after the other. -/
def Tiles : ℕ → List Window → ℕ → Prop
  | start, [], stop => start = stop
  | start, w :: l, stop => w.first = start ∧ w.first ≤ w.last ∧ Tiles (w.last + 1) l stop

namespace Tiles

variable {start stop : ℕ} {l : List Window}

section

variable (h : Tiles start l stop)
include h

theorem le : start ≤ stop := by
  induction l generalizing start with
  | nil => exact h.le
  | cons _ _ ih =>
    obtain ⟨_, _, hrest⟩ := h
    have := ih hrest
    omega

theorem append_singleton {last : ℕ} (hlast : stop ≤ last) :
    Tiles start (l ++ [⟨stop, last⟩]) (last + 1) := by
  induction l generalizing start with
  | nil => exact ⟨h.symm, hlast, rfl⟩
  | cons _ _ ih => exact ⟨h.1, h.2.1, ih h.2.2⟩

theorem first_eq : ∀ w ∈ l.head?, w.first = start := by
  cases l with
  | nil =>
    intro w hw
    cases hw
  | cons =>
    intro w hw
    cases hw
    exact h.1

theorem start_le : ∀ w ∈ l, start ≤ w.first := by
  induction l generalizing start with
  | nil =>
    intro w hw
    cases hw
  | cons _ _ ih =>
    obtain ⟨_, _, hrest⟩ := h
    intro w hw
    rcases List.mem_cons.mp hw with rfl | hw
    · omega
    · have := ih hrest w hw
      omega

theorem chain : l.IsChain (fun w w' => w'.first = w.last + 1) := by
  induction l generalizing start with
  | nil => exact List.isChain_nil
  | cons _ _ ih =>
    rw [List.isChain_cons]
    exact ⟨h.2.2.first_eq, ih h.2.2⟩

theorem pairwise : l.Pairwise (fun w w' => w.last < w'.first) := by
  induction l generalizing start with
  | nil => exact List.Pairwise.nil
  | cons _ _ ih =>
    rw [List.pairwise_cons]
    exact ⟨fun x hx => h.2.2.start_le x hx, ih h.2.2⟩

theorem countP_contains (n : ℕ) :
    l.countP (fun w => w.Contains n) = if start ≤ n ∧ n < stop then 1 else 0 := by
  induction l generalizing start with
  | nil =>
    have hstop : start = stop := h
    rw [List.countP_nil, if_neg (by omega)]
  | cons w _ ih =>
    obtain ⟨_, _, hrest⟩ := h
    have hstop := hrest.le
    rw [List.countP_cons, ih hrest]
    simp only [decide_eq_true_eq]
    by_cases hin : w.Contains n
    · obtain ⟨_, _⟩ := id hin
      rw [if_pos hin, if_neg (by omega), if_pos (by omega)]
    · have hout : ¬ (w.first ≤ n ∧ n ≤ w.last) := hin
      rw [if_neg hin]
      by_cases htail : w.last + 1 ≤ n ∧ n < stop
      · rw [if_pos htail, if_pos (by omega)]
      · rw [if_neg htail, if_neg (by omega)]

end

end Tiles

end WorkAgent.Library
