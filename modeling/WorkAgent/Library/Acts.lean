import Mathlib.Order.Defs.Unbundled
import Mathlib.Tactic.Common

namespace WorkAgent.Library

def Act (σ ε α : Type) : Type := σ → Except ε α × σ

namespace Act

variable {σ ε α β : Type}

instance : Monad (Act σ ε) where
  pure a := fun s => (.ok a, s)
  bind x f := fun s =>
    match x s with
    | (.ok a, t) => f a t
    | (.error e, t) => (.error e, t)

def read : Act σ ε σ := fun s => (.ok s, s)

def modify (f : σ → σ) : Act σ ε Unit := fun s => (.ok (), f s)

def throw (e : ε) : Act σ ε α := fun s => (.error e, s)

def required (found : Option α) (e : ε) : Act σ ε α := fun s => (found.elim (.error e) .ok, s)

def forEach (f : β → Act σ ε Unit) : List β → Act σ ε Unit
  | [] => pure ()
  | x :: xs => do
    f x
    forEach f xs

def attempt (x : Act σ ε α) (handler : ε → Act σ ε α) : Act σ ε α := fun s =>
  match x s with
  | (.ok a, t) => (.ok a, t)
  | (.error e, t) => handler e t

variable {x : Act σ ε α} {f : α → Act σ ε β} {s t u : σ} {a b : α} {c : β} {e e' : ε}

section Runs

theorem bind_ok : (x >>= f) s = (.ok c, u) ↔ ∃ a t, x s = (.ok a, t) ∧ f a t = (.ok c, u) := by
  change (match x s with | (.ok a, t) => f a t | (.error e, t) => (.error e, t)) = _ ↔ _
  constructor
  · intro h
    split at h
    · rename_i a t hx
      exact ⟨a, t, hx, h⟩
    · cases h
  · rintro ⟨a, t, hx, hf⟩
    rw [hx]
    exact hf

theorem bind_error : (x >>= f) s = (.error e, u) ↔ x s = (.error e, u) ∨ ∃ a t, x s = (.ok a, t) ∧ f a t = (.error e, u) := by
  change (match x s with | (.ok a, t) => f a t | (.error e, t) => (.error e, t)) = _ ↔ _
  constructor
  · intro h
    split at h
    · rename_i a t hx
      exact .inr ⟨a, t, hx, h⟩
    · rename_i e' t hx
      cases h
      exact .inl hx
  · rintro (hx | ⟨a, t, hx, hf⟩)
    · rw [hx]
    · rw [hx]
      exact hf

theorem bind_of_ok (h : x s = (.ok a, t)) : (x >>= f) s = f a t := by
  change (match x s with | (.ok a, t) => f a t | (.error e, t) => (.error e, t)) = _
  rw [h]

theorem bind_of_error (h : x s = (.error e, t)) : (x >>= f) s = (.error e, t) := by
  change (match x s with | (.ok a, t) => f a t | (.error e, t) => (.error e, t)) = _
  rw [h]

@[simp] theorem pure_ok : (pure a : Act σ ε α) s = (.ok b, t) ↔ a = b ∧ s = t := by
  change (Except.ok a, s) = (Except.ok b, t) ↔ _
  simp

@[simp] theorem modify_ok {g : σ → σ} {r : Unit} : (modify g : Act σ ε Unit) s = (.ok r, t) ↔ g s = t := by
  change (Except.ok (), g s) = (Except.ok r, t) ↔ _
  simp

@[simp] theorem required_ok {found : Option α} : (required found e : Act σ ε α) s = (.ok a, t) ↔ found = some a ∧ s = t := by
  cases found with
  | none =>
    change (Except.error e, s) = (Except.ok a, t) ↔ _
    simp
  | some b =>
    change (Except.ok b, s) = (Except.ok a, t) ↔ _
    simp

end Runs

theorem bind_any {r : Except ε β} (h : (x >>= f) s = (r, t)) :
    (∃ e, x s = (.error e, t) ∧ r = .error e) ∨ ∃ a u, x s = (.ok a, u) ∧ f a u = (r, t) := by
  cases r with
  | ok => exact .inr (bind_ok.mp h)
  | error e =>
    rcases bind_error.mp h with hx | hx
    · exact .inl ⟨e, hx, rfl⟩
    · exact .inr hx

theorem forEach_keeps {g : β → Act σ ε Unit} {I : σ → Prop} {l : List β}
    (hg : ∀ y ∈ l, ∀ s r t, I s → g y s = (r, t) → I t) {r : Except ε Unit} (hs : I s) (h : forEach g l s = (r, t)) : I t := by
  induction l generalizing s with
  | nil =>
    obtain ⟨-, rfl⟩ := Prod.mk.inj h
    exact hs
  | cons y _ ih =>
    rcases bind_any h with ⟨e, hx, -⟩ | ⟨a, u, hx, h⟩
    · exact hg y List.mem_cons_self _ _ _ hs hx
    · exact ih (fun z hz => hg z (List.mem_cons_of_mem _ hz)) (hg y List.mem_cons_self _ _ _ hs hx) h

theorem forEach_ok {g : β → Act σ ε Unit} {I : σ → Prop} {l : List β}
    (hg : ∀ y ∈ l, ∀ s t, I s → g y s = (.ok (), t) → I t) (hs : I s) (h : forEach g l s = (.ok (), t)) : I t := by
  induction l generalizing s with
  | nil =>
    obtain ⟨-, rfl⟩ := Prod.mk.inj h
    exact hs
  | cons y _ ih =>
    obtain ⟨a, u, hx, h⟩ := bind_ok.mp h
    exact ih (fun z hz => hg z (List.mem_cons_of_mem _ hz)) (hg y List.mem_cons_self _ _ hs hx) h

section Relations

def Within (R : σ → σ → Prop) (x : Act σ ε α) : Prop := ∀ s, R s (x s).2

class Follows (R : σ → σ → Prop) (x : Act σ ε α) : Prop where
  within : Within R x

variable {R R' : σ → σ → Prop}

theorem Follows.eq [hx : Follows R x] {r : Except ε α} (h : x s = (r, t)) : R s t := by
  have hs := hx.within s
  rwa [h] at hs

theorem Follows.mono (himp : ∀ s t, R s t → R' s t) [hx : Follows R x] : Follows R' x := ⟨fun s => himp _ _ (hx.within s)⟩

class Reads (x : Act σ ε α) : Prop where
  same : ∀ s, (x s).2 = s

theorem Reads.state [hx : Reads x] {r : Except ε α} (h : x s = (r, t)) : t = s := by
  have hs := hx.same s
  rw [h] at hs
  exact hs

theorem Reads.bind_eq [Reads x] {r : Except ε β} (h : (x >>= f) s = (r, t)) :
    (∃ e, r = .error e ∧ t = s) ∨ ∃ a, x s = (.ok a, s) ∧ f a s = (r, t) := by
  cases hrun : x s with
  | mk result =>
    obtain rfl := Reads.state hrun
    cases result with
    | ok a =>
      rw [bind_of_ok hrun] at h
      exact .inr ⟨a, rfl, h⟩
    | error e =>
      rw [bind_of_error hrun] at h
      cases h
      exact .inl ⟨e, rfl, rfl⟩

instance (a : α) : Reads (pure a : Act σ ε α) := ⟨fun _ => rfl⟩

instance : Reads (read : Act σ ε σ) := ⟨fun _ => rfl⟩

instance (e : ε) : Reads (throw e : Act σ ε α) := ⟨fun _ => rfl⟩

instance (found : Option α) (e : ε) : Reads (required found e : Act σ ε α) := ⟨fun _ => rfl⟩

instance [hx : Reads x] [hf : ∀ a, Reads (f a)] : Reads (x >>= f) := by
  constructor
  intro s
  cases hrun : (x >>= f) s with
  | mk =>
    rcases Reads.bind_eq hrun with ⟨e, -, rfl⟩ | ⟨a, -, hrest⟩
    · rfl
    · exact (hf a).state hrest

instance {g : α → β} [Reads x] : Reads (g <$> x) := inferInstanceAs (Reads (x >>= fun a => pure (g a)))

instance {g : β → Act σ ε Unit} [hg : ∀ y, Reads (g y)] (l : List β) : Reads (forEach g l) := by
  induction l with
  | nil => exact inferInstanceAs (Reads (pure ()))
  | cons y l => exact inferInstanceAs (Reads (g y >>= fun _ => forEach g l))

instance {condition : Prop} [Decidable condition] {y : Act σ ε α} [hx : Reads x] [hy : Reads y] :
    Reads (if condition then x else y) := by
  split
  · exact hx
  · exact hy

instance {o : Option β} {y : Act σ ε α} {g : β → Act σ ε α} [hy : Reads y] [hg : ∀ b, Reads (g b)] : Reads (o.elim y g) := by
  cases o with
  | none => exact hy
  | some b => exact hg b

section Rules

variable [IsPreorder σ R]

instance [hx : Reads x] : Follows R x := ⟨fun s => by rw [hx.same s]; exact refl_of R s⟩

instance [hx : Follows R x] [hf : ∀ a, Follows R (f a)] : Follows R (x >>= f) := by
  refine ⟨fun s => ?_⟩
  cases hrun : (x >>= f) s with
  | mk =>
    rcases bind_any hrun with ⟨_, h, -⟩ | ⟨a, u, h, h'⟩
    · exact Follows.eq h
    · exact trans_of R (Follows.eq h) (Follows.eq h')

instance {g : α → β} [Follows R x] : Follows R (g <$> x) := inferInstanceAs (Follows R (x >>= fun a => pure (g a)))

instance {g : β → Act σ ε Unit} [hg : ∀ y, Follows R (g y)] (l : List β) : Follows R (forEach g l) := by
  induction l with
  | nil => exact inferInstanceAs (Follows R (pure ()))
  | cons y l => exact inferInstanceAs (Follows R (g y >>= fun _ => forEach g l))

instance {handler : ε → Act σ ε α} [hx : Follows R x] [hh : ∀ e, Follows R (handler e)] : Follows R (attempt x handler) := by
  refine ⟨fun s => ?_⟩
  unfold attempt
  cases hrun : x s with
  | mk r t =>
    cases r with
    | ok => exact Follows.eq hrun
    | error e => exact trans_of R (Follows.eq hrun) ((hh e).within t)

instance {condition : Prop} [Decidable condition] {y : Act σ ε α} [hx : Follows R x] [hy : Follows R y] :
    Follows R (if condition then x else y) := by
  split
  · exact hx
  · exact hy

instance {o : Option β} {y : Act σ ε α} {g : β → Act σ ε α} [hy : Follows R y] [hg : ∀ b, Follows R (g b)] : Follows R (o.elim y g) := by
  cases o with
  | none => exact hy
  | some b => exact hg b

end Rules

end Relations

end Act

end WorkAgent.Library
