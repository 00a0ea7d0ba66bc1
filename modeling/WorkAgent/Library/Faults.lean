import Mathlib.Tactic.Common

namespace WorkAgent.Library

/-- What may go wrong at a call to the outside: it fails without its effect or with it, or the
caller dies at it. -/
inductive Fault
  | none
  | before
  | after
  | death
  | lateDeath
  deriving DecidableEq

inductive Script (σ κ α : Type)
  | done (a : α)
  | look (next : σ → Script σ κ α)
  | call (c : κ) (next : Bool → Script σ κ α)

/-- How a script went: its calls and whether they took effect, its answer unless the caller died,
and what it left. -/
structure Outcome (σ κ α : Type) where
  log : List (κ × Bool)
  answer : Option α
  state : σ
  deriving DecidableEq

def Outcome.after {σ κ α : Type} (c : κ) (took : Bool) (o : Outcome σ κ α) : Outcome σ κ α :=
  { o with log := (c, took) :: o.log }

namespace Script

variable {σ κ α β : Type} (effect : κ → σ → Option σ)

def bind (p : Script σ κ α) (f : α → Script σ κ β) : Script σ κ β :=
  match p with
  | done a => f a
  | look next => look fun s => (next s).bind f
  | call c next => call c fun ok => (next ok).bind f

def attempt (c : κ) (failed next : Script σ κ α) : Script σ κ α := call c fun ok => if ok then next else failed

def ignoring (c : κ) (next : Script σ κ α) : Script σ κ α := call c fun _ => next

/-- A script under the faults of its calls, in their order; a call refuses where it has no effect. -/
def run : Script σ κ α → σ → List Fault → Outcome σ κ α
  | done a, s, _ => ⟨[], some a, s⟩
  | look next, s, faults => (next s).run s faults
  | call c next, s, faults =>
    let rest := faults.tail
    match faults.headD .none, effect c s with
    | .death, _ => ⟨[(c, false)], none, s⟩
    | .before, _ | _, none => ((next false).run s rest).after c false
    | .none, some s' => ((next true).run s' rest).after c true
    | .after, some s' => ((next false).run s' rest).after c true
    | .lateDeath, some s' => ⟨[(c, true)], none, s'⟩

def Ensures : Script σ κ α → (List (κ × Bool) → α → σ → Prop) → σ → Prop
  | done a, Q, s => Q [] a s
  | look next, Q, s => (next s).Ensures Q s
  | call c next, Q, s => (next false).Ensures (fun log => Q ((c, false) :: log)) s ∧
      ∀ s', effect c s = some s' → ∀ ok, (next ok).Ensures (fun log => Q ((c, true) :: log)) s'

variable {effect} {p : Script σ κ α} {Q Q' : List (κ × Bool) → α → σ → Prop} {s : σ} {a : α}

theorem Ensures.sound (h : p.Ensures effect Q s) (faults : List Fault) (hanswer : (p.run effect s faults).answer = some a) :
    Q (p.run effect s faults).log a (p.run effect s faults).state := by
  induction p generalizing Q s faults with
  | done =>
    cases hanswer
    exact h
  | look _ ih => exact ih s h faults hanswer
  | call _ _ ih =>
    obtain ⟨hfails, htakes⟩ := h
    unfold run at hanswer ⊢
    dsimp only at hanswer ⊢
    split at hanswer
    · cases hanswer
    · exact ih false hfails _ hanswer
    · exact ih false hfails _ hanswer
    · rename_i s' _ heffect
      exact ih true (htakes s' heffect true) _ hanswer
    · rename_i s' _ heffect
      exact ih false (htakes s' heffect false) _ hanswer
    · cases hanswer

theorem Ensures.mono (h : p.Ensures effect Q s) (himp : ∀ log a t, Q log a t → Q' log a t) : p.Ensures effect Q' s := by
  induction p generalizing Q Q' s with
  | done => exact himp _ _ _ h
  | look _ ih => exact ih s h himp
  | call _ _ ih =>
    constructor
    · exact ih false h.1 fun log a t => himp _ a t
    · intro s' heffect ok
      exact ih ok (h.2 s' heffect ok) fun log a t => himp _ a t

theorem ensures_bind {f : α → Script σ κ β} {Q : List (κ × Bool) → β → σ → Prop} :
    (p.bind f).Ensures effect Q s ↔ p.Ensures effect (fun log a t => (f a).Ensures effect (fun log' => Q (log ++ log')) t) s := by
  induction p generalizing Q s with
  | done => rfl
  | look _ ih => exact ih s
  | call _ _ ih =>
    apply and_congr (ih false)
    exact forall_congr' fun s' => forall_congr' fun _ => forall_congr' fun ok => ih ok

@[simp] theorem ensures_look {next : σ → Script σ κ α} : (look next).Ensures effect Q s ↔ (next s).Ensures effect Q s := Iff.rfl

theorem ensures_attempt {c : κ} {failed next : Script σ κ α} : (attempt c failed next).Ensures effect Q s ↔
    failed.Ensures effect (fun log => Q ((c, false) :: log)) s ∧ ∀ s', effect c s = some s' →
      failed.Ensures effect (fun log => Q ((c, true) :: log)) s' ∧ next.Ensures effect (fun log => Q ((c, true) :: log)) s' := by
  unfold attempt
  simp [Ensures]

theorem ensures_ignoring {c : κ} {next : Script σ κ α} : (ignoring c next).Ensures effect Q s ↔
    next.Ensures effect (fun log => Q ((c, false) :: log)) s ∧ ∀ s', effect c s = some s' →
      next.Ensures effect (fun log => Q ((c, true) :: log)) s' := by
  unfold ignoring
  simp [Ensures]

section Failing

variable {bad : α → Prop} {failed next : Script σ κ α} {c : κ}

def Lenient (bad : α → Prop) (Q : List (κ × Bool) → α → σ → Prop) : Prop := ∀ log a t, bad a → Q log a t

def Failing (effect : κ → σ → Option σ) (bad : α → Prop) (p : Script σ κ α) : Prop := ∀ Q s, Lenient bad Q → p.Ensures effect Q s

theorem Lenient.cons (hQ : Lenient bad Q) (entry : κ × Bool) : Lenient bad fun log => Q (entry :: log) := fun log => hQ (entry :: log)

theorem failing_done (h : bad a) : Failing effect bad (done a) := fun _ _ hQ => hQ _ _ _ h

theorem Failing.ignoring (h : Failing effect bad p) (c : κ) : Failing effect bad (ignoring c p) := by
  intro Q s hQ
  rw [ensures_ignoring]
  exact ⟨h _ _ (hQ.cons _), fun s' _ => h _ _ (hQ.cons _)⟩

theorem Failing.attempt (hfailed : Failing effect bad failed) (hQ : Lenient bad Q)
    (h : ∀ s', effect c s = some s' → next.Ensures effect (fun log => Q ((c, true) :: log)) s') :
    (attempt c failed next).Ensures effect Q s := by
  rw [ensures_attempt]
  exact ⟨hfailed _ _ (hQ.cons _), fun s' heffect => ⟨hfailed _ _ (hQ.cons _), h s' heffect⟩⟩

end Failing

theorem run_invariant {I : σ → Prop} (hkept : ∀ c s s', I s → effect c s = some s' → I s') (p : Script σ κ α) (hs : I s)
    (faults : List Fault) : I (p.run effect s faults).state := by
  induction p generalizing s faults with
  | done => exact hs
  | look _ ih => exact ih s hs faults
  | call c _ ih =>
    unfold run
    dsimp only
    split
    · exact hs
    · exact ih false hs _
    · exact ih false hs _
    · rename_i s' _ heffect
      exact ih true (hkept c s s' hs heffect) _
    · rename_i s' _ heffect
      exact ih false (hkept c s s' hs heffect) _
    · rename_i s' _ heffect
      exact hkept c s s' hs heffect

end Script

end WorkAgent.Library
