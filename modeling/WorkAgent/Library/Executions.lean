import Mathlib.Data.List.Count
import Mathlib.Tactic.Common

namespace WorkAgent.Library

/-- What a labelled step relation makes of a state, with the labels in the order of the steps. -/
inductive Execution {σ ε : Type} (Step : σ → ε → σ → Prop) (s : σ) : List ε → σ → Prop
  | start : Execution Step s [] s
  | step {es : List ε} {t u : σ} {e : ε} (h : Execution Step s es t) (hstep : Step t e u) :
      Execution Step s (es ++ [e]) u

namespace Execution

variable {σ ε : Type} {Step : σ → ε → σ → Prop} {s t u : σ} {es fs : List ε} {e : ε}

theorem single (h : Step s e t) : Execution Step s [e] t := start.step h

section

variable (h : Execution Step s es t)
include h

theorem trans (h' : Execution Step t fs u) : Execution Step s (es ++ fs) u := by
  induction h' with
  | start =>
    rw [List.append_nil]
    exact h
  | step _ hstep ih =>
    rw [← List.append_assoc]
    exact ih.step hstep

theorem mono {Step' : σ → ε → σ → Prop} (himp : ∀ s e t, Step s e t → Step' s e t) :
    Execution Step' s es t := by
  induction h with
  | start => exact start
  | step _ hlast ih => exact ih.step (himp _ _ _ hlast)

theorem invariant {I : σ → Prop} (hs : I s)
    (hstep : ∀ s e t, I s → Step s e t → I t) : I t := by
  induction h with
  | start => exact hs
  | step _ hlast ih => exact hstep _ _ _ ih hlast

theorem history {J : List ε → σ → Prop} (hs : J [] s)
    (hstep : ∀ es t e u, Execution Step s es t → J es t → Step t e u → J (es ++ [e]) u) : J es t := by
  induction h with
  | start => exact hs
  | step hbefore hlast ih => exact hstep _ _ _ _ hbefore ih hlast

theorem exists_of_ended {I A : σ → Prop} {P : ε → Prop} (hI : I s)
    (hinv : ∀ s e t, I s → Step s e t → I t)
    (hstep : ∀ s e t, I s → A s → Step s e t → ¬ P e → A t) (hs : A s) (ht : ¬ A t) : ∃ e ∈ es, P e := by
  by_contra hnone
  have hcalm : ∀ e ∈ es, ¬ P e := fun e he hp => hnone ⟨e, he, hp⟩
  clear hnone
  apply ht
  clear ht
  induction h with
  | start => exact hs
  | @step _ t u e hbefore hlast ih =>
    have ha : A t := ih (fun e he => hcalm e (by simp [he]))
    exact hstep t e u (hbefore.invariant hI hinv) ha hlast (hcalm e (by simp))

end

def Passes (Step : σ → ε → σ → Prop) (s : σ) (history : List ε) (t : σ) (P : σ → Prop) : Prop :=
  ∃ es fs u, history = es ++ fs ∧ Execution Step s es u ∧ Execution Step u fs t ∧ P u

def Crosses (Step : σ → ε → σ → Prop) (s : σ) (history : List ε) (t : σ) (e : ε) (P : σ → Prop) : Prop :=
  ∃ es fs u v, history = es ++ e :: fs ∧ Execution Step s es u ∧ Step u e v ∧ Execution Step v fs t ∧ P u

variable {P : σ → Prop} {d : ε}

theorem passes_now (h : Execution Step s es t) (hp : P t) : Passes Step s es t P := by
  refine ⟨es, [], t, ?_, h, .start, hp⟩
  simp

theorem Passes.step (h : Passes Step s es t P) (hstep : Step t e u) : Passes Step s (es ++ [e]) u P := by
  obtain ⟨es', fs, v, rfl, hbefore, hafter, hp⟩ := h
  refine ⟨es', fs ++ [e], v, ?_, hbefore, hafter.step hstep, hp⟩
  simp

theorem crosses_now (h : Execution Step s es t) (hp : P t) (hstep : Step t e u) : Crosses Step s (es ++ [e]) u e P :=
  ⟨es, [], t, u, rfl, h, hstep, .start, hp⟩

theorem Crosses.step (h : Crosses Step s es t d P) (hstep : Step t e u) : Crosses Step s (es ++ [e]) u d P := by
  obtain ⟨es', fs, v, v', rfl, hbefore, hlast, hafter, hp⟩ := h
  refine ⟨es', fs ++ [e], v, v', ?_, hbefore, hlast, hafter.step hstep, hp⟩
  simp

theorem Crosses.mem (h : Crosses Step s es t d P) : d ∈ es := by
  obtain ⟨_, _, v, _, rfl, -⟩ := h
  simp

end Execution

end WorkAgent.Library
