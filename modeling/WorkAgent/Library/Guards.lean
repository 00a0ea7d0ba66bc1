import WorkAgent.Library.Interleaving
import WorkAgent.Library.Table

namespace WorkAgent.Library

variable {ε α ρ κ : Type}

def require (p : Prop) [Decidable p] (e : ε) : Except ε Unit := if p then .ok () else .error e

@[simp] theorem require_eq_ok {p : Prop} [Decidable p] {e : ε} {u : Unit} : require p e = .ok u ↔ p := by
  unfold require
  split <;> simp_all

def orError (x : Option α) (e : ε) : Except ε α := x.elim (.error e) .ok

@[simp] theorem orError_eq_ok {x : Option α} {e : ε} {a : α} : orError x e = .ok a ↔ x = some a := by
  cases x <;> simp [orError]

def pick (better : α → α → Bool) (l : List α) : Option α :=
  l.foldl (fun best a => some (best.elim a (fun b => if better a b then a else b))) none

theorem mem_of_pick {better : α → α → Bool} {l : List α} {a : α} (h : pick better l = some a) : a ∈ l := by
  have hfold (l : List α) (best : Option α) : ∀ a, l.foldl (fun best a =>
      some (best.elim a (fun b => if better a b then a else b))) best = some a → a ∈ l ∨ best = some a := by
    induction l generalizing best with
    | nil => exact fun a h => .inr h
    | cons x _ ih =>
      intro a h
      rcases ih _ a h with hmem | heq
      · exact .inl (List.mem_cons_of_mem x hmem)
      · cases best with
        | none =>
          cases heq
          exact .inl List.mem_cons_self
        | some =>
          simp only [Option.elim_some] at heq
          split at heq
          · cases heq
            exact .inl List.mem_cons_self
          · exact .inr heq
  rcases hfold l none a h with hmem | hnone
  · exact hmem
  · cases hnone

namespace Table

variable {key : ρ → κ}

def insertChecked [DecidableEq κ] (t : Table key) (p : Prop) [Decidable p] (r : ρ) (e : ε) : Except ε (Table key) :=
  if p ∧ t.find? (key r) = none then .ok (t.insertOrIgnore r) else .error e

@[simp] theorem insertChecked_eq_ok [DecidableEq κ] {t u : Table key} {p : Prop} [Decidable p] {r : ρ} {e : ε} :
    t.insertChecked p r e = .ok u ↔ p ∧ t.find? (key r) = none ∧ t.insertOrIgnore r = u := by
  unfold insertChecked
  split
  · rename_i h
    simp [h]
  · rename_i h
    constructor
    · intro h'
      cases h'
    · rintro ⟨hp, hn, -⟩
      exact absurd ⟨hp, hn⟩ h

def updateOne (t : Table key) (p : ρ → Prop) [DecidablePred p] (f : ρ → ρ) (e : ε)
    (hf : ∀ r, key (f r) = key r := by intro r; cases r; rfl) : Except ε (Table key) :=
  if t.count p = 1 then .ok (t.update p f hf) else .error e

@[simp] theorem updateOne_eq_ok {t u : Table key} {p : ρ → Prop} [DecidablePred p] {f : ρ → ρ} {e : ε}
    {hf : ∀ r, key (f r) = key r} : t.updateOne p f e hf = .ok u ↔ t.count p = 1 ∧ t.update p f hf = u := by
  unfold updateOne
  split <;> simp_all

def deleteOne (t : Table key) (p : ρ → Prop) [DecidablePred p] (e : ε) : Except ε (Table key) :=
  if t.count p = 1 then .ok (t.delete p) else .error e

@[simp] theorem deleteOne_eq_ok {t u : Table key} {p : ρ → Prop} [DecidablePred p] {e : ε} :
    t.deleteOne p e = .ok u ↔ t.count p = 1 ∧ t.delete p = u := by
  unfold deleteOne
  split <;> simp_all

end Table

end WorkAgent.Library
