import WorkAgent.Library.Executions

namespace WorkAgent.Library

inductive Guarded {σ ε : Type} (Step : σ → ε → σ → Prop) (Meets : List ε → σ → ε → Prop) (s : σ) : List ε → σ → Prop
  | start : Guarded Step Meets s [] s
  | step {es : List ε} {t u : σ} {e : ε} (h : Guarded Step Meets s es t) (hmeets : Meets es t e) (hstep : Step t e u) :
      Guarded Step Meets s (es ++ [e]) u

namespace Guarded

variable {σ ε : Type} {Step : σ → ε → σ → Prop} {Meets : List ε → σ → ε → Prop} {s t : σ} {es : List ε}

theorem execution (h : Guarded Step Meets s es t) : Execution Step s es t := by
  induction h with
  | start => exact .start
  | step _ _ hstep ih => exact ih.step hstep

theorem history {J : List ε → σ → Prop} (h : Guarded Step Meets s es t) (hs : J [] s)
    (hstep : ∀ es t e u, J es t → Meets es t e → Step t e u → J (es ++ [e]) u) : J es t := by
  induction h with
  | start => exact hs
  | step _ hmeets hlast ih => exact hstep _ _ _ _ ih hmeets hlast

end Guarded

end WorkAgent.Library
