import Mathlib.Data.List.Basic

namespace WorkAgent.Library

section Feed

variable {α ι : Type} [LT ι] (num : α → ι) (P : α → Prop) {Q : α → Prop} {buffer : List α} {m x : α}

/-- Who takes what satisfies `P` out of the buffer takes nothing with a higher number before `m`. -/
def Due (buffer : List α) (m : α) : Prop :=
  ∀ before x after, buffer = before ++ x :: after → m ∉ before → x ≠ m → P x → num x < num m

variable {num P}

theorem Due.of_lt (h : ∀ y ∈ buffer, num y < num m) : Due num P buffer m := by
  intro _ x _ hsplit _ _ _
  apply h
  simp [hsplit]

theorem Due.mono (h : Due num P buffer m)
    (hQ : ∀ before x after, buffer = before ++ x :: after → m ∉ before → x ≠ m → Q x → P x ∨ num x < num m) : Due num Q buffer m := by
  intro before x after hsplit hout hne hx
  rcases hQ before x after hsplit hout hne hx with hx | hlt
  · exact h before x after hsplit hout hne hx
  · exact hlt

theorem Due.push (h : Due num P buffer m) (hx : m ∉ buffer → x ≠ m → P x → num x < num m) : Due num P (buffer ++ [x]) m := by
  intro before y after hsplit hout hne hy
  rcases List.eq_nil_or_concat after with rfl | ⟨after, z, rfl⟩
  · obtain ⟨rfl, hlast⟩ := List.append_inj' hsplit rfl
    obtain rfl := List.singleton_inj.mp hlast
    exact hx hout hne hy
  · rw [List.concat_eq_append, ← List.cons_append, ← List.append_assoc] at hsplit
    obtain ⟨rfl, -⟩ := List.append_inj' hsplit rfl
    exact h before y after rfl hout hne hy

theorem Due.next (h : Due num P (x :: buffer) m) (hne : x ≠ m) : (P x → num x < num m) ∧ Due num P buffer m := by
  constructor
  · intro hx
    exact h [] x buffer rfl (by simp) hne hx
  · intro before y after hsplit hout hy hPy
    refine h (x :: before) y after (by simp [hsplit]) ?_ hy hPy
    rw [List.mem_cons]
    rintro (rfl | hin)
    · exact hne rfl
    · exact hout hin

end Feed

end WorkAgent.Library
