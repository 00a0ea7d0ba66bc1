import Mathlib.Logic.Relation
import Mathlib.Data.List.Perm.Subperm
import Mathlib.Data.List.Count

namespace WorkAgent.Library

open List Prod

theorem bind_eq_ok {ε α β : Type} {x : Except ε α} {f : α → Except ε β} {b : β} :
    x >>= f = .ok b ↔ ∃ a, x = .ok a ∧ f a = .ok b := by
  cases x with
  | error =>
    constructor
    · intro h; cases h
    · rintro ⟨a, h, -⟩; cases h
  | ok a =>
    constructor
    · intro h; exact ⟨a, rfl, h⟩
    · rintro ⟨a', h, hf⟩; cases h; exact hf

theorem map_eq_ok {ε α β : Type} {x : Except ε α} {f : α → β} {b : β} :
    x.map f = .ok b ↔ ∃ a, x = .ok a ∧ f a = b := by
  cases x with
  | error =>
    constructor
    · intro h; cases h
    · rintro ⟨a, h, -⟩; cases h
  | ok a =>
    constructor
    · intro h; cases h; exact ⟨a, rfl, rfl⟩
    · rintro ⟨a', h, rfl⟩; cases h; rfl

theorem throw_eq_ok {ε α : Type} {e : ε} {a : α} : (throw e : Except ε α) = .ok a ↔ False :=
  ⟨fun h => (by cases h), False.elim⟩

theorem pure_eq_ok {ε α : Type} {a b : α} : (pure a : Except ε α) = .ok b ↔ a = b :=
  ⟨fun h => (by cases h; rfl), fun h => h ▸ rfl⟩

/-- A call as the sequence of its atomic stretches on a shared store: `f` changes the store and
`k` continues with what the stretch saw, which is the store before `f`. -/
inductive Prog (σ α : Type)
  | ret (a : α)
  | step (f : σ → σ) (k : σ → Prog σ α)

namespace Prog

variable {σ α β ε : Type}

def bind : Prog σ α → (α → Prog σ β) → Prog σ β
  | ret a, g => g a
  | step f k, g => step f (fun s => (k s).bind g)

@[simp] theorem bind_ret (a : α) (g : α → Prog σ β) : (ret a : Prog σ α).bind g = g a := rfl

@[simp] theorem bind_step (f : σ → σ) (k : σ → Prog σ α) (g : α → Prog σ β) :
    (step f k).bind g = step f (fun s => (k s).bind g) := rfl

def run : Prog σ α → σ → α × σ
  | ret a, s => (a, s)
  | step f k, s => (k s).run (f s)

@[simp] theorem run_ret (a : α) (s : σ) : (ret a : Prog σ α).run s = (a, s) := rfl

@[simp] theorem run_step (f : σ → σ) (k : σ → Prog σ α) (s : σ) :
    (step f k).run s = (k s).run (f s) := rfl

theorem run_bind (p : Prog σ α) (g : α → Prog σ β) (s : σ) :
    (p.bind g).run s = (g (p.run s).1).run (p.run s).2 := by
  induction p generalizing s with
  | ret => rfl
  | step f _ ih => exact ih s (f s)

def read (f : σ → α) : Prog σ α := step id (fun s => ret (f s))

def transaction (body : σ → Except ε (α × σ)) : Prog σ (Except ε α) :=
  step (fun s => match body s with
      | .ok (_, t) => t
      | .error _ => s)
    (fun s => ret (match body s with
      | .ok (a, _) => .ok a
      | .error e => .error e))

def fail (e : ε) : Prog σ (Except ε α) := ret (.error e)

def andThen (p : Prog σ (Except ε α)) (g : α → Prog σ (Except ε β)) : Prog σ (Except ε β) :=
  p.bind (fun
    | .ok a => g a
    | .error e => ret (.error e))

def Single (p : Prog σ α) : Prop := ∃ f k, p = .step f k ∧ ∀ s, ∃ a, k s = .ret a

theorem single_transaction (body : σ → Except ε (α × σ)) : (transaction body).Single :=
  ⟨_, _, rfl, fun _ => ⟨_, rfl⟩⟩

theorem Single.andThen {p : Prog σ (Except ε α)} (h : p.Single) (g : α → Except ε β) :
    (p.andThen (fun a => .ret (g a))).Single := by
  obtain ⟨f, k, rfl, hk⟩ := h
  refine ⟨f, fun s => (k s).andThen (fun a => .ret (g a)), rfl, ?_⟩
  intro s
  obtain ⟨a, ha⟩ := hk s
  simp only [ha]
  cases a with
  | error | ok => exact ⟨_, rfl⟩

theorem run_transaction_ok {body : σ → Except ε (α × σ)} {s t : σ} {a : α}
    (h : body s = .ok (a, t)) : (transaction body).run s = (.ok a, t) := by
  simp [transaction, h]

theorem run_transaction_error {body : σ → Except ε (α × σ)} {s : σ} {e : ε}
    (h : body s = .error e) : (transaction body).run s = (.error e, s) := by
  simp [transaction, h]

end Prog

variable {σ ι α β ε : Type}

/-- Calls that start, interleave by their stretches and return, over a store that a restart
reopens. `allowed` says which call may start after the calls and answers so far. -/
structure System (σ ι α : Type) where
  init : σ
  prog : ι → Prog σ α
  allowed : List ι → List (ι × α) → ι → Prop
  reopen : σ → σ → Prop

structure Config (σ ι α : Type) where
  store : σ
  running : List (ι × Prog σ α)
  started : List ι
  returned : List (ι × α)

namespace Config

def settle (c : Config σ ι α) (before after : List (ι × Prog σ α)) (i : ι) : Prog σ α → Config σ ι α
  | .ret a => { c with running := before ++ after, returned := (i, a) :: c.returned }
  | .step f k => { c with running := before ++ (i, .step f k) :: after }

variable (c : Config σ ι α) (before after : List (ι × Prog σ α)) (i : ι) (p : Prog σ α)

@[simp] theorem settle_store : (c.settle before after i p).store = c.store := by cases p <;> rfl

@[simp] theorem settle_started : (c.settle before after i p).started = c.started := by cases p <;> rfl

theorem mem_running_settle {x : ι × Prog σ α} (h : x ∈ (c.settle before after i p).running) :
    x = (i, p) ∨ x ∈ before ∨ x ∈ after := by
  cases p with
  | ret =>
    rcases mem_append.mp h with h | h
    · exact .inr (.inl h)
    · exact .inr (.inr h)
  | step =>
    rcases mem_append.mp h with h | h
    · exact .inr (.inl h)
    · rcases mem_cons.mp h with h | h
      · exact .inl h
      · exact .inr (.inr h)

theorem settle_returned : ((c.settle before after i p).returned = c.returned) ∨
    ∃ a, p = .ret a ∧ (c.settle before after i p).returned = (i, a) :: c.returned := by
  cases p with
  | ret a => exact .inr ⟨a, rfl, rfl⟩
  | step => exact .inl rfl

def calls (c : Config σ ι α) : List ι := c.running.map Prod.fst ++ c.returned.map Prod.fst

theorem calls_settle : (c.settle before after i p).calls.Perm
    (i :: (before.map fst ++ after.map fst ++ c.returned.map fst)) := by
  cases p with
  | ret =>
    simp only [calls, settle, map_append, map_cons]
    exact perm_middle
  | step =>
    simp only [calls, settle, map_append, map_cons, append_assoc, cons_append]
    exact perm_middle

end Config

namespace System

inductive Step (S : System σ ι α) : Config σ ι α → Config σ ι α → Prop
  | start (c : Config σ ι α) (i : ι) (h : S.allowed c.started c.returned i) :
      Step S c ({ c with started := i :: c.started }.settle c.running [] i (S.prog i))
  | advance (c : Config σ ι α) (before after : List (ι × Prog σ α)) (i : ι) (f : σ → σ)
      (k : σ → Prog σ α) (h : c.running = before ++ (i, .step f k) :: after) :
      Step S c ({ c with store := f c.store }.settle before after i (k c.store))
  | restart (c : Config σ ι α) (t : σ) (h : S.reopen c.store t) :
      Step S c { c with store := t, running := [] }

def Advances (S : System σ ι α) (i : ι) (c d : Config σ ι α) : Prop :=
  S.Step c d ∧ ∃ before after f k, c.running = before ++ (i, .step f k) :: after ∧
    d = { c with store := f c.store }.settle before after i (k c.store)

def Run (S : System σ ι α) : Config σ ι α → Config σ ι α → Prop := Relation.ReflTransGen S.Step

def Reachable (S : System σ ι α) (c : Config σ ι α) : Prop := S.Run ⟨S.init, [], [], []⟩ c

variable {S : System σ ι α} {c d : Config σ ι α}

theorem Reachable.run (h : S.Reachable c) (hr : S.Run c d) : S.Reachable d :=
  Relation.ReflTransGen.trans h hr

theorem Step.returned_suffix (h : S.Step c d) : c.returned <:+ d.returned := by
  have settled (e : Config σ ι α) (b a : List (ι × Prog σ α)) (i : ι) (p : Prog σ α) :
      e.returned <:+ (e.settle b a i p).returned := by
    rcases e.settle_returned b a i p with hs | ⟨x, -, hs⟩
    · exact hs.symm ▸ suffix_refl e.returned
    · exact hs.symm ▸ suffix_cons (i, x) e.returned
  cases h with
  | start i => exact settled { c with started := i :: c.started } _ _ _ _
  | advance _ _ _ f => exact settled { c with store := f c.store } _ _ _ _
  | restart => exact suffix_refl _

theorem Run.returned_suffix (h : S.Run c d) : c.returned <:+ d.returned := by
  induction h with
  | refl => exact suffix_refl _
  | tail _ hs ih => exact ih.trans hs.returned_suffix

theorem Step.started_subset (h : S.Step c d) : c.started ⊆ d.started := by
  cases h with
  | start i =>
    rw [Config.settle_started]
    exact subset_cons_self i c.started
  | advance =>
    rw [Config.settle_started]
    exact List.Subset.refl _
  | restart => exact List.Subset.refl _

section Fresh

variable (hfresh : ∀ started returned i, S.allowed started returned i → i ∉ started)
include hfresh

theorem Step.running_of_started (h : S.Step c d) {i : ι} (hold : i ∈ c.started)
    (hi : i ∈ d.running.map fst) : i ∈ c.running.map fst := by
  obtain ⟨⟨j, p⟩, hmem, rfl⟩ := mem_map.mp hi
  cases h with
  | start _ hk =>
    rcases Config.mem_running_settle _ _ _ _ _ hmem with heq | hmem | hmem
    · cases heq
      exact absurd hold (hfresh _ _ _ hk)
    · exact mem_map_of_mem hmem
    · simp at hmem
  | advance _ _ _ _ _ hk =>
    rw [hk]
    rcases Config.mem_running_settle _ _ _ _ _ hmem with heq | hmem | hmem
    · cases heq
      simp
    · exact mem_map_of_mem (mem_append_left _ hmem)
    · exact mem_map_of_mem (mem_append_right _ (mem_cons_of_mem _ hmem))
  | restart => simp at hmem

theorem Step.running_of_answered (h : S.Step c d) {i : ι} {a : α}
    (hold : i ∈ c.started) (hi : (i, a) ∈ d.returned) (hnot : (i, a) ∉ c.returned) :
    i ∈ c.running.map fst := by
  cases h with
  | start k hk =>
    rcases Config.settle_returned { c with started := k :: c.started } c.running [] k (S.prog k) with
      hret | ⟨b, -, hret⟩
    · rw [hret] at hi
      exact absurd hi hnot
    · rw [hret] at hi
      rcases mem_cons.mp hi with heq | hi
      · cases heq
        exact absurd hold (hfresh _ _ _ hk)
      · exact absurd hi hnot
  | advance b e k f g hk =>
    rcases Config.settle_returned { c with store := f c.store } b e k (g c.store) with hret | ⟨x, -, hret⟩
    · rw [hret] at hi
      exact absurd hi hnot
    · rw [hret] at hi
      rcases mem_cons.mp hi with heq | hi
      · cases heq
        rw [hk]
        simp
      · exact absurd hi hnot
  | restart => exact absurd hi hnot

end Fresh

theorem Run.started_subset (h : S.Run c d) : c.started ⊆ d.started := by
  induction h with
  | refl => exact List.Subset.refl _
  | tail _ hs ih => exact List.Subset.trans ih hs.started_subset

theorem Reachable.calls_subperm {c : Config σ ι α} (h : S.Reachable c) : c.calls.Subperm c.started := by
  induction h with
  | refl => exact List.Subperm.refl _
  | @tail _ _ _ hs ih =>
    cases hs with
    | start =>
      rw [Config.settle_started]
      refine (Config.calls_settle _ _ _ _ _).subperm.trans ?_
      simpa [Config.calls, subperm_cons] using ih
    | advance _ _ _ _ _ hk =>
      rw [Config.settle_started]
      refine (Config.calls_settle _ _ _ _ _).subperm.trans (List.Perm.subperm ?_ |>.trans ih)
      simp only [Config.calls, hk, map_append, map_cons, append_assoc, cons_append]
      exact perm_middle.symm
    | restart =>
      exact (sublist_append_right _ _).subperm.trans ih

theorem Run.stretches (p : Prog σ α) (s : σ) (i : ι) (started : List ι) (returned : List (ι × α)) :
    S.Run (Config.settle ⟨s, [], started, returned⟩ [] [] i p)
      ⟨(p.run s).2, [], started, (i, (p.run s).1) :: returned⟩ := by
  induction p generalizing s with
  | ret => exact Relation.ReflTransGen.refl
  | step f k ih =>
    have hstep := Step.advance (S := S) ⟨s, [(i, .step f k)], started, returned⟩ [] [] i f k rfl
    exact Relation.ReflTransGen.head hstep (ih s (f s))

theorem Run.call {s : σ} {i : ι} {started : List ι} {returned : List (ι × α)}
    (h : S.allowed started returned i) :
    S.Run ⟨s, [], started, returned⟩
      ⟨((S.prog i).run s).2, [], i :: started, (i, ((S.prog i).run s).1) :: returned⟩ := by
  have hstart := Step.start (S := S) ⟨s, [], started, returned⟩ i h
  exact Relation.ReflTransGen.head hstart (Run.stretches (S.prog i) s i (i :: started) returned)

def after (S : System σ ι α) (c : Config σ ι α) : List ι → Config σ ι α
  | [] => c
  | i :: l =>
    S.after ⟨((S.prog i).run c.store).2, [], i :: c.started, (i, ((S.prog i).run c.store).1) :: c.returned⟩ l

def AllowedAll (S : System σ ι α) (c : Config σ ι α) : List ι → Prop
  | [] => True
  | i :: l => S.allowed c.started c.returned i ∧
    S.AllowedAll ⟨((S.prog i).run c.store).2, [], i :: c.started, (i, ((S.prog i).run c.store).1) :: c.returned⟩ l

theorem Run.after {c : Config σ ι α} (hc : c.running = []) {l : List ι} (h : S.AllowedAll c l) :
    S.Run c (S.after c l) := by
  induction l generalizing c with
  | nil => exact Relation.ReflTransGen.refl
  | cons _ _ ih =>
    obtain ⟨_, running, _, _⟩ := c
    obtain rfl : running = [] := hc
    exact Relation.ReflTransGen.trans (Run.call h.1) (ih rfl h.2)

theorem Run.single {s : σ} {i : ι} {started : List ι} {returned : List (ι × α)}
    (h : S.allowed started returned i) (hp : (S.prog i).Single) :
    ∃ c, S.Run ⟨s, [], started, returned⟩ c ∧ c.store = s ∧ c.returned = returned ∧
      S.Step c ⟨((S.prog i).run s).2, [], i :: started, (i, ((S.prog i).run s).1) :: returned⟩ := by
  obtain ⟨f, k, hp, hk⟩ := hp
  obtain ⟨a, ha⟩ := hk s
  have hstart := Step.start (S := S) ⟨s, [], started, returned⟩ i h
  rw [hp] at hstart ⊢
  refine ⟨_, Relation.ReflTransGen.single hstart, rfl, rfl, ?_⟩
  have hstep := Step.advance (S := S) ⟨s, [(i, .step f k)], i :: started, returned⟩ [] [] i f k rfl
  rw [ha] at hstep
  rw [Prog.run_step, ha]
  exact hstep

end System

section Rely

variable (I : σ → Prop) (R G : σ → σ → Prop)

/-- The rely-guarantee reading of a call that has come from `s₀` to `s`: whatever `R` does before
each stretch, the stretch keeps `I` and does what `G` says, and the value returned satisfies `Q`
of the stores before and after the last stretch. -/
def Sound (Q : α → σ → σ → Prop) : Prog σ α → σ → σ → Prop
  | .ret a, s₀, s => Q a s₀ s
  | .step f k, _, s => ∀ t, R s t → I t → I (f t) ∧ G t (f t) ∧ Sound Q (k t) t (f t)

variable {I R G}

theorem Sound.weaken {Q Q' : α → σ → σ → Prop} (hQ : ∀ a s t, Q a s t → Q' a s t) {p : Prog σ α}
    {s₀ s : σ} (h : Sound I R G Q p s₀ s) : Sound I R G Q' p s₀ s := by
  induction p generalizing s₀ s with
  | ret => exact hQ _ _ _ h
  | step _ _ ih =>
    intro t hR hI
    obtain ⟨hf, hG, hk⟩ := h t hR hI
    exact ⟨hf, hG, ih t hk⟩

theorem Sound.bind {Q : α → σ → σ → Prop} {Q' : β → σ → σ → Prop} {p : Prog σ α}
    {g : α → Prog σ β} {s₀ s : σ} (hp : Sound I R G Q p s₀ s)
    (hg : ∀ a t₀ t, Q a t₀ t → Sound I R G Q' (g a) t₀ t) : Sound I R G Q' (p.bind g) s₀ s := by
  induction p generalizing s₀ s with
  | ret a => exact hg a _ _ hp
  | step _ _ ih =>
    intro t hR hI
    obtain ⟨hf, hG, hk⟩ := hp t hR hI
    exact ⟨hf, hG, ih t hk⟩

theorem Sound.andThen {Q : α → σ → σ → Prop} {Q' : Except ε β → σ → σ → Prop}
    {p : Prog σ (Except ε α)} {g : α → Prog σ (Except ε β)} {s₀ s : σ}
    (hp : Sound I R G (fun a t₀ t => match a with
      | .ok b => Q b t₀ t
      | .error e => Q' (.error e) t₀ t) p s₀ s)
    (hg : ∀ a t₀ t, Q a t₀ t → Sound I R G Q' (g a) t₀ t) : Sound I R G Q' (p.andThen g) s₀ s := by
  refine Sound.bind hp ?_
  rintro (e | a) t₀ t hq
  · exact hq
  · exact hg a t₀ t hq

theorem Sound.read {f : σ → α} {Q : α → σ → σ → Prop} {s₀ s : σ}
    (h : ∀ t, R s t → I t → G t t ∧ Q (f t) t t) : Sound I R G Q (Prog.read f) s₀ s := by
  intro t hR hI
  exact ⟨hI, h t hR hI⟩

theorem Sound.transaction {body : σ → Except ε (α × σ)} {Q : Except ε α → σ → σ → Prop} {s₀ s : σ}
    (hok : ∀ t a u, R s t → I t → body t = .ok (a, u) → I u ∧ G t u ∧ Q (.ok a) t u)
    (herr : ∀ t e, R s t → I t → body t = .error e → G t t ∧ Q (.error e) t t) :
    Sound I R G Q (Prog.transaction body) s₀ s := by
  intro t hR hI
  cases hb : body t with
  | ok x =>
    obtain ⟨a, u⟩ := x
    simpa [Sound, hb] using hok t a u hR hI hb
  | error e =>
    simpa [Sound, hb, hI] using herr t e hR hI hb

end Rely

structure Sequential (S : System σ ι α) (I : σ → Prop) (R : σ → σ → Prop) (G : ι → σ → σ → Prop)
    (Q : ι → α → σ → σ → Prop) : Prop where
  refl : ∀ s, R s s
  trans : ∀ s t u, R s t → R t u → R s u
  guarantee : ∀ i s t, G i s t → R s t
  init : I S.init
  reopen : ∀ s t, I s → S.reopen s t → I t ∧ R s t
  prog : ∀ started returned i s, I s →
    (∀ j a, (j, a) ∈ returned → ∃ u v, R v s ∧ Q j a u v) → S.allowed started returned i →
      Sound I R (G i) (Q i) (S.prog i) s s

namespace Sequential

variable {S : System σ ι α} {c d : Config σ ι α} {I : σ → Prop} {R : σ → σ → Prop} {G : ι → σ → σ → Prop}
  {Q : ι → α → σ → σ → Prop}

/-- What holds of a configuration: the store satisfies `I`, what is left of each running call is
sound from some earlier store, and each answer satisfied `Q` when it was given. -/
structure Holds (I : σ → Prop) (R : σ → σ → Prop) (G : ι → σ → σ → Prop) (Q : ι → α → σ → σ → Prop)
    (c : Config σ ι α) : Prop where
  store : I c.store
  running : ∀ i p, (i, p) ∈ c.running → ∃ u v, R v c.store ∧ Sound I R (G i) (Q i) p u v
  returned : ∀ i a, (i, a) ∈ c.returned → ∃ u v, R v c.store ∧ Q i a u v

section

variable (hS : Sequential S I R G Q)
include hS

theorem holds_settle {c : Config σ ι α}
    {before after : List (ι × Prog σ α)} {i : ι} {p : Prog σ α} {u : σ} (hI : I c.store)
    (hrun : ∀ j q, (j, q) ∈ before ∨ (j, q) ∈ after →
      ∃ u v, R v c.store ∧ Sound I R (G j) (Q j) q u v)
    (hret : ∀ j a, (j, a) ∈ c.returned → ∃ u v, R v c.store ∧ Q j a u v)
    (hp : Sound I R (G i) (Q i) p u c.store) : Holds I R G Q (c.settle before after i p) := by
  refine ⟨by simpa using hI, ?_, ?_⟩
  · intro j q hj
    rw [Config.settle_store]
    rcases Config.mem_running_settle _ _ _ _ _ hj with hj | hj | hj
    · cases hj; exact ⟨u, _, hS.refl _, hp⟩
    · exact hrun j q (.inl hj)
    · exact hrun j q (.inr hj)
  · intro j a hj
    rw [Config.settle_store]
    rcases c.settle_returned before after i p with hs | ⟨b, rfl, hs⟩
    · exact hret j a (hs ▸ hj)
    · rw [hs] at hj
      rcases mem_cons.mp hj with hj | hj
      · cases hj; exact ⟨u, _, hS.refl _, hp⟩
      · exact hret j a hj

theorem holds_step (hc : Holds I R G Q c)
    (h : S.Step c d) : Holds I R G Q d := by
  cases h with
  | start i hi =>
    apply hS.holds_settle (c := { c with started := i :: c.started }) hc.store
    · rintro j q (hj | hj)
      · exact hc.running j q hj
      · simp at hj
    · exact hc.returned
    · exact hS.prog _ _ i _ hc.store hc.returned hi
  | advance _ _ i f k hk =>
    have hmem : (i, Prog.step f k) ∈ c.running := by simp [hk]
    obtain ⟨u, v, hR, hp⟩ := hc.running i _ hmem
    obtain ⟨hI, hG, hp'⟩ := hp c.store hR hc.store
    have hmove := hS.guarantee i _ _ hG
    apply hS.holds_settle (c := { c with store := f c.store }) hI
    · intro j q hj
      obtain ⟨u, v, hv, hq⟩ := hc.running j q (by rw [hk]; simp; tauto)
      exact ⟨u, v, hS.trans _ _ _ hv hmove, hq⟩
    · intro j x hj
      obtain ⟨u, v, hv, hq⟩ := hc.returned j x hj
      exact ⟨u, v, hS.trans _ _ _ hv hmove, hq⟩
    · exact hp'
  | restart _ ht =>
    obtain ⟨hI, hR⟩ := hS.reopen _ _ hc.store ht
    refine ⟨hI, by simp, ?_⟩
    intro j x hj
    obtain ⟨u, v, hv, hq⟩ := hc.returned j x hj
    exact ⟨u, v, hS.trans _ _ _ hv hR, hq⟩

theorem holds_run (hc : Holds I R G Q c)
    (h : S.Run c d) : Holds I R G Q d := by
  induction h with
  | refl => exact hc
  | tail _ hs ih => exact hS.holds_step ih hs

theorem holds {c : Config σ ι α} (h : S.Reachable c) :
    Holds I R G Q c :=
  hS.holds_run ⟨hS.init, by simp, by simp⟩ h

end

inductive Moves (S : System σ ι α) (G : ι → σ → σ → Prop) (Q : ι → α → σ → σ → Prop)
    (c d : Config σ ι α) : Prop
  | silent (hstore : d.store = c.store) (hret : d.returned = c.returned)
  | stretch (i : ι) (hmem : i ∈ c.running.map Prod.fst) (h : G i c.store d.store)
      (hret : d.returned = c.returned)
  | answer (i : ι) (a : α) (h : d.store = c.store ∨ (i ∈ c.running.map Prod.fst ∧ G i c.store d.store))
      (hq : Q i a c.store d.store)
      (hret : d.returned = (i, a) :: c.returned)
  | restart (h : S.reopen c.store d.store) (hret : d.returned = c.returned)

theorem moves (hS : Sequential S I R G Q) (hc : Holds I R G Q c)
    (h : S.Step c d) : Moves S G Q c d := by
  cases h with
  | start i hi =>
    have hp := hS.prog _ _ i _ hc.store hc.returned hi
    generalize S.prog i = p at hp
    cases p with
    | ret a => exact .answer i a (.inl rfl) hp rfl
    | step => exact .silent rfl rfl
  | advance _ _ i f k hk =>
    have hmem : (i, Prog.step f k) ∈ c.running := by simp [hk]
    obtain ⟨u, v, hR, hp⟩ := hc.running i _ hmem
    obtain ⟨-, hG, hp'⟩ := hp c.store hR hc.store
    generalize k c.store = q at hp'
    cases q with
    | ret x => exact .answer i x (.inr ⟨mem_map_of_mem hmem, hG⟩) hp' rfl
    | step => exact .stretch i (mem_map_of_mem hmem) hG rfl
  | restart _ ht => exact .restart ht rfl

theorem advances (hc : Holds I R G Q c) {i : ι}
    (h : S.Advances i c d) : G i c.store d.store ∧
      ∀ a, d.returned = (i, a) :: c.returned → Q i a c.store d.store := by
  obtain ⟨-, _, _, f, k, hk, rfl⟩ := h
  have hmem : (i, Prog.step f k) ∈ c.running := by simp [hk]
  obtain ⟨u, v, hR, hp⟩ := hc.running i _ hmem
  obtain ⟨-, hG, hp'⟩ := hp c.store hR hc.store
  rw [Config.settle_store]
  refine ⟨hG, ?_⟩
  intro a ha
  generalize k c.store = q at hp' ha
  cases q with
  | ret =>
    simp only [Config.settle, List.cons.injEq, Prod.mk.injEq, true_and, and_true] at ha
    rw [← ha]
    exact hp'
  | step =>
    simp only [Config.settle] at ha
    exact absurd (congrArg List.length ha) (by simp)

theorem rely_step (hS : Sequential S I R G Q) (hc : Holds I R G Q c)
    (h : S.Step c d) : R c.store d.store := by
  rcases hS.moves hc h with ⟨hs, -⟩ | ⟨i, -, hG, -⟩ | ⟨i, a, hs | ⟨-, hG⟩, -, -⟩ | ⟨hr, -⟩
  · rw [hs]; exact hS.refl _
  · exact hS.guarantee i _ _ hG
  · rw [hs]; exact hS.refl _
  · exact hS.guarantee i _ _ hG
  · exact (hS.reopen _ _ hc.store hr).2

theorem rely_run (hS : Sequential S I R G Q) (hc : S.Reachable c)
    (h : S.Run c d) : R c.store d.store := by
  induction h with
  | refl => exact hS.refl _
  | tail hr hs ih => exact hS.trans _ _ _ ih (hS.rely_step (hS.holds (hc.run hr)) hs)

end Sequential

end WorkAgent.Library
