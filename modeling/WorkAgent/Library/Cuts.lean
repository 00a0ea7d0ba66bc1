import Mathlib.Data.List.Basic

namespace WorkAgent.Library

def applyAll {σ : Type} (writes : List (σ → σ)) (s : σ) : σ := writes.foldl (fun s write => write s) s

section ApplyAll

variable {σ : Type} {writes more : List (σ → σ)} {s : σ} {I : σ → Prop}

@[simp] theorem applyAll_nil : applyAll [] s = s := rfl

@[simp] theorem applyAll_cons (write : σ → σ) : applyAll (write :: writes) s = applyAll writes (write s) := rfl

theorem applyAll_append : applyAll (writes ++ more) s = applyAll more (applyAll writes s) := by
  simp [applyAll]

theorem applyAll_keeps (h : I s) (hwrites : ∀ write ∈ writes, ∀ s, I s → I (write s)) (k : ℕ) :
    I (applyAll (writes.take k) s) := by
  induction writes generalizing s k with
  | nil => simpa using h
  | cons write _ ih =>
    cases k with
    | zero => exact h
    | succ k =>
      rw [List.take_succ_cons, applyAll_cons]
      exact ih (hwrites write List.mem_cons_self s h) (fun w hw => hwrites w (List.mem_cons_of_mem _ hw)) k

end ApplyAll

end WorkAgent.Library
