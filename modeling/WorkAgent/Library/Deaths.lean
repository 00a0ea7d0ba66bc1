import WorkAgent.Library.Faults

namespace WorkAgent.Library

namespace Script

variable {σ κ α β : Type} {effect : κ → σ → Option σ} {p : Script σ κ α} {Q Q' : List (κ × Bool) → Option α → σ → Prop} {s : σ} {a : α}

def Ends (effect : κ → σ → Option σ) : Script σ κ α → (List (κ × Bool) → Option α → σ → Prop) → σ → Prop
  | done a, Q, s => Q [] (some a) s
  | look next, Q, s => (next s).Ends effect Q s
  | call c next, Q, s => Q [(c, false)] none s ∧ (next false).Ends effect (fun log => Q ((c, false) :: log)) s ∧
      ∀ s', effect c s = some s' → Q [(c, true)] none s' ∧ (next true).Ends effect (fun log => Q ((c, true) :: log)) s'

theorem Ends.sound (h : p.Ends effect Q s) (faults : List Fault) (hfaults : .after ∉ faults) :
    Q (p.run effect s faults).log (p.run effect s faults).answer (p.run effect s faults).state := by
  induction p generalizing Q s faults with
  | done => exact h
  | look _ ih => exact ih s h faults hfaults
  | call _ _ ih =>
    obtain ⟨hdies, hfails, htakes⟩ := h
    have hrest : .after ∉ faults.tail := fun hin => hfaults (List.mem_of_mem_tail hin)
    unfold run
    dsimp only
    split
    · exact hdies
    · exact ih false hfails _ hrest
    · exact ih false hfails _ hrest
    · rename_i s' _ heffect
      exact ih true (htakes s' heffect).2 _ hrest
    · rename_i s' hafter _
      exfalso
      apply hfaults
      cases faults with
      | nil => cases hafter
      | cons fault =>
        obtain rfl : fault = .after := hafter
        exact List.mem_cons_self
    · rename_i s' _ heffect
      exact (htakes s' heffect).1

theorem Ends.mono (h : p.Ends effect Q s) (himp : ∀ log a t, Q log a t → Q' log a t) : p.Ends effect Q' s := by
  induction p generalizing Q Q' s with
  | done => exact himp _ _ _ h
  | look _ ih => exact ih s h himp
  | call _ _ ih =>
    obtain ⟨hdies, hfails, htakes⟩ := h
    refine ⟨himp _ _ _ hdies, ih false hfails fun log => himp _, ?_⟩
    intro s' heffect
    exact ⟨himp _ _ _ (htakes s' heffect).1, ih true (htakes s' heffect).2 fun log => himp _⟩

theorem Ends.and (h : p.Ends effect Q s) (h' : p.Ends effect Q' s) : p.Ends effect (fun log a t => Q log a t ∧ Q' log a t) s := by
  induction p generalizing Q Q' s with
  | done => exact ⟨h, h'⟩
  | look _ ih => exact ih s h h'
  | call _ _ ih =>
    obtain ⟨hdies, hfails, htakes⟩ := h
    obtain ⟨hdies', hfails', htakes'⟩ := h'
    refine ⟨⟨hdies, hdies'⟩, ih false hfails hfails', ?_⟩
    intro s' heffect
    exact ⟨⟨(htakes s' heffect).1, (htakes' s' heffect).1⟩, ih true (htakes s' heffect).2 (htakes' s' heffect).2⟩

def Calls (P : κ → Prop) : Script σ κ α → Prop
  | done _ => True
  | look next => ∀ s, (next s).Calls P
  | call c next => P c ∧ ∀ ok, (next ok).Calls P

theorem Calls.invariant {P : κ → Prop} {I : σ → Prop} (h : p.Calls P) (hs : I s)
    (hstep : ∀ c s s', P c → effect c s = some s' → I s → I s') : p.Ends effect (fun _ _ t => I t) s := by
  induction p generalizing s with
  | done => exact hs
  | look _ ih => exact ih s (h s) hs
  | call c _ ih =>
    refine ⟨hs, ih false (h.2 false) hs, ?_⟩
    intro s' heffect
    have hs' := hstep c s s' h.1 heffect hs
    exact ⟨hs', ih true (h.2 true) hs'⟩

def Continues (effect : κ → σ → Option σ) (f : α → Script σ κ β) (Q : List (κ × Bool) → Option β → σ → Prop) (log : List (κ × Bool)) :
    Option α → σ → Prop
  | none, t => Q log none t
  | some a, t => (f a).Ends effect (fun log' => Q (log ++ log')) t

theorem ends_bind {f : α → Script σ κ β} {Q : List (κ × Bool) → Option β → σ → Prop} :
    (p.bind f).Ends effect Q s ↔ p.Ends effect (Continues effect f Q) s := by
  induction p generalizing Q s with
  | done => rfl
  | look _ ih => exact ih s
  | call _ _ ih =>
    apply and_congr Iff.rfl
    apply and_congr (ih false)
    exact forall_congr' fun s' => forall_congr' fun _ => and_congr Iff.rfl (ih true)

@[simp] theorem ends_done : (done a : Script σ κ α).Ends effect Q s ↔ Q [] (some a) s := Iff.rfl

@[simp] theorem ends_look {next : σ → Script σ κ α} : (look next).Ends effect Q s ↔ (next s).Ends effect Q s := Iff.rfl

theorem ends_attempt {c : κ} {failed next : Script σ κ α} : (attempt c failed next).Ends effect Q s ↔
    Q [(c, false)] none s ∧ failed.Ends effect (fun log => Q ((c, false) :: log)) s ∧
      ∀ s', effect c s = some s' → Q [(c, true)] none s' ∧ next.Ends effect (fun log => Q ((c, true) :: log)) s' := Iff.rfl

theorem ends_ignoring {c : κ} {next : Script σ κ α} : (ignoring c next).Ends effect Q s ↔
    Q [(c, false)] none s ∧ next.Ends effect (fun log => Q ((c, false) :: log)) s ∧
      ∀ s', effect c s = some s' → Q [(c, true)] none s' ∧ next.Ends effect (fun log => Q ((c, true) :: log)) s' := Iff.rfl

end Script

end WorkAgent.Library
