import WorkAgent.Library.Guards

namespace WorkAgent.Library

open Config List

variable {σ ι α β ε : Type}

section Does

variable (R N : σ → σ → Prop)

/-- What a call does that has come from `s₀` to `s`: a stretch before its last does what `N` says, and
the last one, after which it returns, what `Q` says of the answer. -/
def Does (Q : α → σ → σ → Prop) : Prog σ α → σ → σ → Prop
  | .ret a, s₀, s => Q a s₀ s
  | .step f k, s₀, s => N s₀ s ∧ ∀ t, R s t → Does Q (k t) t (f t)

variable {R N}

theorem Does.ret {Q : α → σ → σ → Prop} {a : α} {s₀ s : σ} (h : Q a s₀ s) : Does R N Q (.ret a) s₀ s := h

theorem Does.step {Q : α → σ → σ → Prop} {f : σ → σ} {k : σ → Prog σ α} {s₀ s : σ} :
    Does R N Q (.step f k) s₀ s ↔ N s₀ s ∧ ∀ t, R s t → Does R N Q (k t) t (f t) := Iff.rfl

theorem Does.of_ret {Q : α → σ → σ → Prop} {a : α} {s₀ s : σ} (h : Does R N Q (.ret a) s₀ s) : Q a s₀ s := h

theorem Does.weaken {N' : σ → σ → Prop} {Q Q' : α → σ → σ → Prop} {p : Prog σ α} {s₀ s : σ}
    (h : Does R N Q p s₀ s) (hN : ∀ s t, N s t → N' s t) (hQ : ∀ a s t, Q a s t → Q' a s t) :
    Does R N' Q' p s₀ s := by
  induction p generalizing s₀ s with
  | ret a => exact hQ a s₀ s h
  | step _ _ ih => exact ⟨hN _ _ h.1, fun t ht => ih t (h.2 t ht)⟩

theorem Does.bind {P : α → σ → σ → Prop} {Q : β → σ → σ → Prop} {p : Prog σ α} {g : α → Prog σ β} {s₀ s : σ}
    (hp : Does R N P p s₀ s) (hg : ∀ a t₀ t, P a t₀ t → Does R N Q (g a) t₀ t) :
    Does R N Q (p.bind g) s₀ s := by
  induction p generalizing s₀ s with
  | ret a => exact hg a s₀ s hp
  | step _ _ ih =>
    obtain ⟨hN, hk⟩ := hp
    exact ⟨hN, fun t ht => ih t (hk t ht)⟩

theorem Does.andThen {P : α → σ → σ → Prop} {Q : Except ε β → σ → σ → Prop} {p : Prog σ (Except ε α)}
    {g : α → Prog σ (Except ε β)} {s₀ s : σ}
    (hp : Does R N (fun x t₀ t => (∀ a, x = .ok a → P a t₀ t) ∧ ∀ e, x = .error e → Q (.error e) t₀ t) p s₀ s)
    (hg : ∀ a t₀ t, P a t₀ t → Does R N Q (g a) t₀ t) : Does R N Q (p.andThen g) s₀ s := by
  refine Does.bind hp ?_
  rintro (e | a) t₀ t ⟨hok, herr⟩
  · exact herr e rfl
  · exact hg a t₀ t (hok a rfl)

theorem Does.read {Q : α → σ → σ → Prop} {f : σ → α} {s₀ s : σ} (hN : N s₀ s) (h : ∀ t, R s t → Q (f t) t t) :
    Does R N Q (Prog.read f) s₀ s :=
  ⟨hN, h⟩

theorem Does.transaction {Q : Except ε α → σ → σ → Prop} {body : σ → Except ε (α × σ)} {s₀ s : σ} (hN : N s₀ s)
    (hok : ∀ t a u, R s t → body t = .ok (a, u) → Q (.ok a) t u) (herr : ∀ t e, Q (.error e) t t) :
    Does R N Q (Prog.transaction body) s₀ s := by
  refine ⟨hN, ?_⟩
  intro t ht
  cases hb : body t with
  | ok x => simpa only [Does, hb] using hok t x.1 x.2 ht hb
  | error e => simpa only [Does, hb] using herr t e

section

variable {Q : Except ε β → σ → σ → Prop} {g : α → Prog σ (Except ε β)} {s₀ s : σ} (hN : N s₀ s)
include hN

theorem Does.read_andThen {f : σ → Except ε α} (hok : ∀ t a, R s t → f t = .ok a → Does R N Q (g a) t t) (herr : ∀ t e, Q (.error e) t t) :
    Does R N Q ((Prog.read f).andThen g) s₀ s := by
  refine Does.andThen (P := fun a t₀ t => Does R N Q (g a) t₀ t) (Does.read hN ?_) (fun a t₀ t h => h)
  intro t ht
  exact ⟨fun a ha => hok t a ht ha, fun e _ => herr t e⟩

theorem Does.transaction_andThen {body : σ → Except ε (α × σ)} (hok : ∀ t a u, R s t → body t = .ok (a, u) → Does R N Q (g a) t u)
    (herr : ∀ t e, Q (.error e) t t) : Does R N Q ((Prog.transaction body).andThen g) s₀ s := by
  refine Does.andThen (P := fun a t₀ t => Does R N Q (g a) t₀ t) (Does.transaction hN ?_ ?_) (fun a t₀ t h => h)
  · intro t a u ht hb
    refine ⟨?_, ?_⟩
    · intro _ h
      cases h
      exact hok t a u ht hb
    · intro e h
      cases h
  · intro t e
    refine ⟨?_, ?_⟩
    · intro a h
      cases h
    · intro _ h
      cases h
      exact herr t e

end

theorem Does.both {N N' : σ → σ → Prop} {Q Q' : α → σ → σ → Prop} {p : Prog σ α} {s₀ s : σ}
    (h : Does R N Q p s₀ s) (h' : Does R N' Q' p s₀ s) :
    Does R (fun s t => N s t ∧ N' s t) (fun a s t => Q a s t ∧ Q' a s t) p s₀ s := by
  induction p generalizing s₀ s with
  | ret => exact Does.ret ⟨h.of_ret, h'.of_ret⟩
  | step _ _ ih =>
    rw [Does.step] at h h' ⊢
    exact ⟨⟨h.1, h'.1⟩, fun t ht => ih t (h.2 t ht) (h'.2 t ht)⟩

theorem Does.always {N : σ → σ → Prop} {Q : α → σ → σ → Prop} (hN : ∀ s t, N s t) (hQ : ∀ a s t, Q a s t)
    (p : Prog σ α) (s₀ s : σ) : Does R N Q p s₀ s := by
  induction p generalizing s₀ s with
  | ret a => exact Does.ret (hQ a s₀ s)
  | step f _ ih => exact Does.step.mpr ⟨hN s₀ s, fun t _ => ih t t (f t)⟩

end Does

/-- Of each call what its stretches do, with what they leave true of any store before. -/
structure Labelled (S : System σ ι α) (R : σ → σ → Prop) (N : ι → σ → σ → Prop) (Q : ι → α → σ → σ → Prop) :
    Prop where
  refl : ∀ s, R s s
  trans : ∀ s t u, R s t → R t u → R s u
  middle : ∀ i s t, N i s t → R s t
  last : ∀ i a s t, Q i a s t → R s t
  reopen : ∀ s t, S.reopen s t → R s t
  prog : ∀ i s, Does R (N i) (Q i) (S.prog i) s s

namespace Labelled

variable {S : System σ ι α} {R : σ → σ → Prop} {N : ι → σ → σ → Prop} {Q : ι → α → σ → σ → Prop}

inductive Moves (S : System σ ι α) (N : ι → σ → σ → Prop) (Q : ι → α → σ → σ → Prop) (c d : Config σ ι α) : Prop
  | start (i : ι) (h : S.allowed c.started c.returned i) (hstore : d.store = c.store)
      (hstarted : d.started = i :: c.started) (hret : d.returned = c.returned)
  | middle (i : ι) (h : N i c.store d.store) (hmem : i ∈ c.started) (hstarted : d.started = c.started)
      (hret : d.returned = c.returned)
  | last (i : ι) (a : α) (h : Q i a c.store d.store) (hmem : i ∈ d.started)
      (hstarted : d.started = c.started ∨ S.allowed c.started c.returned i ∧ d.started = i :: c.started)
      (hret : d.returned = (i, a) :: c.returned)
  | restart (h : S.reopen c.store d.store) (hstarted : d.started = c.started) (hret : d.returned = c.returned)

def Holds (R : σ → σ → Prop) (N : ι → σ → σ → Prop) (Q : ι → α → σ → σ → Prop) (c : Config σ ι α) : Prop :=
  ∀ i f k, (i, Prog.step f k) ∈ c.running →
    i ∈ c.started ∧ ∃ v, R v c.store ∧ ∀ t, R v t → Does R (N i) (Q i) (k t) t (f t)

section

variable (hS : Labelled S R N Q)
include hS

theorem holds_settle {c : Config σ ι α} {before after : List (ι × Prog σ α)} {i : ι}
    {p : Prog σ α} {u : σ} (hi : i ∈ c.started)
    (hrun : ∀ j f k, (j, Prog.step f k) ∈ before ∨ (j, Prog.step f k) ∈ after →
      j ∈ c.started ∧ ∃ v, R v c.store ∧ ∀ t, R v t → Does R (N j) (Q j) (k t) t (f t))
    (hp : Does R (N i) (Q i) p u c.store) : Holds R N Q (c.settle before after i p) := by
  intro j f k hj
  rw [settle_store, settle_started]
  rcases mem_running_settle _ _ _ _ _ hj with heq | hmem | hmem
  · cases heq
    exact ⟨hi, c.store, hS.refl _, hp.2⟩
  · exact hrun j f k (.inl hmem)
  · exact hrun j f k (.inr hmem)

theorem step {c d : Config σ ι α} (hc : Holds R N Q c) (h : S.Step c d) :
    Moves S N Q c d ∧ R c.store d.store ∧ Holds R N Q d := by
  cases h with
  | start i hi =>
    have hp := hS.prog i c.store
    have hholds : Holds R N Q ({ c with started := i :: c.started }.settle c.running [] i (S.prog i)) := by
      apply hS.holds_settle (c := { c with started := i :: c.started }) mem_cons_self ?_ hp
      rintro j f k (hj | hj)
      · obtain ⟨hmem, hrest⟩ := hc j f k hj
        exact ⟨mem_cons_of_mem i hmem, hrest⟩
      · cases hj
    refine ⟨?_, (settle_store _ _ _ _ _).symm ▸ hS.refl c.store, hholds⟩
    generalize S.prog i = p at hp
    cases p with
    | ret a => exact .last i a hp mem_cons_self (.inr ⟨hi, rfl⟩) rfl
    | step => exact .start i hi rfl rfl rfl
  | advance b a i f k hk =>
    have hmem : (i, Prog.step f k) ∈ c.running := by simp [hk]
    obtain ⟨hi, v, hv, hdoes⟩ := hc i f k hmem
    have hp := hdoes c.store hv
    have hmoves : Moves S N Q c ({ c with store := f c.store }.settle b a i (k c.store)) := by
      generalize k c.store = q at hp
      cases q with
      | ret x => exact .last i x hp hi (.inl rfl) rfl
      | step => exact .middle i hp.1 hi rfl rfl
    have hrely : R c.store ({ c with store := f c.store }.settle b a i (k c.store)).store := by
      rw [settle_store]
      generalize k c.store = q at hp
      cases q with
      | ret x => exact hS.last i x _ _ hp
      | step => exact hS.middle i _ _ hp.1
    refine ⟨hmoves, hrely, ?_⟩
    rw [settle_store] at hrely
    apply hS.holds_settle (c := { c with store := f c.store }) hi ?_ hp
    intro j f' k' hj
    have hold : (j, Prog.step f' k') ∈ c.running := by
      rw [hk]
      rcases hj with hj | hj
      · exact mem_append_left _ hj
      · exact mem_append_right _ (mem_cons_of_mem _ hj)
    obtain ⟨hstarted, w, hw, hrest⟩ := hc j f' k' hold
    exact ⟨hstarted, w, hS.trans _ _ _ hw hrely, hrest⟩
  | restart _ ht =>
    refine ⟨.restart ht rfl rfl, hS.reopen _ _ ht, ?_⟩
    intro j f k hj
    cases hj

theorem holds {c : Config σ ι α} (h : S.Reachable c) : Holds R N Q c := by
  induction h with
  | refl =>
    intro i f k hmem
    cases hmem
  | tail _ hs ih => exact (hS.step ih hs).2.2

theorem moves {c d : Config σ ι α} (hc : S.Reachable c) (h : S.Step c d) :
    Moves S N Q c d :=
  (hS.step (hS.holds hc) h).1

theorem invariant {J : Config σ ι α → Prop} (hinit : J ⟨S.init, [], [], []⟩)
    (hmove : ∀ c d, S.Reachable c → J c → Moves S N Q c d → J d) {c : Config σ ι α} (h : S.Reachable c) : J c := by
  induction h with
  | refl => exact hinit
  | @tail c d hr hs ih => exact hmove c d hr ih (hS.moves hr hs)

theorem store_invariant {I : σ → Prop} (hinit : I S.init)
    (hmiddle : ∀ i s t, I s → N i s t → I t) (hlast : ∀ i a s t, I s → Q i a s t → I t)
    (hreopen : ∀ s t, I s → S.reopen s t → I t) {c : Config σ ι α} (h : S.Reachable c) : I c.store := by
  refine hS.invariant (J := fun c => I c.store) hinit ?_ h
  intro c d _ hc hm
  cases hm with
  | start _ _ hstore => exact hstore.symm ▸ hc
  | middle i h => exact hmiddle i _ _ hc h
  | last i a h => exact hlast i a _ _ hc h
  | restart h => exact hreopen _ _ hc h

theorem allowed_of_started {c : Config σ ι α} (h : S.Reachable c) {i : ι}
    (hi : i ∈ c.started) : ∃ started returned, S.allowed started returned i ∧
      (i :: started) <:+ c.started ∧ returned <:+ c.returned := by
  refine hS.invariant (J := fun c => i ∈ c.started → ∃ started returned, S.allowed started returned i ∧
    (i :: started) <:+ c.started ∧ returned <:+ c.returned) ?_ ?_ h hi
  · intro hmem
    cases hmem
  · intro c d _ hc hm
    have hkeep {c d : Config σ ι α} (hst : c.started <:+ d.started) (hret : c.returned <:+ d.returned)
        (hc : ∃ started returned, S.allowed started returned i ∧ (i :: started) <:+ c.started ∧
          returned <:+ c.returned) :
        ∃ started returned, S.allowed started returned i ∧ (i :: started) <:+ d.started ∧
          returned <:+ d.returned := by
      obtain ⟨started, returned, hall, hs, hr⟩ := hc
      exact ⟨started, returned, hall, hs.trans hst, hr.trans hret⟩
    intro hmem
    cases hm with
    | start j hall _ hstarted hret =>
      rw [hstarted] at hmem
      rcases mem_cons.mp hmem with rfl | hmem
      · exact ⟨_, _, hall, hstarted ▸ suffix_refl _, hret ▸ suffix_refl _⟩
      · exact hkeep (hstarted ▸ suffix_cons j _) (hret ▸ suffix_refl _) (hc hmem)
    | middle _ _ _ hstarted hret | restart _ hstarted hret =>
      exact hkeep (hstarted ▸ suffix_refl _) (hret ▸ suffix_refl _) (hc (hstarted ▸ hmem))
    | last j a _ _ hstarted hret =>
      have hsuffix : c.returned <:+ d.returned := hret ▸ suffix_cons (j, a) _
      rcases hstarted with hstarted | ⟨hall, hstarted⟩
      · exact hkeep (hstarted ▸ suffix_refl _) hsuffix (hc (hstarted ▸ hmem))
      · rw [hstarted] at hmem
        rcases mem_cons.mp hmem with rfl | hmem
        · exact ⟨_, _, hall, hstarted ▸ suffix_refl _, hsuffix⟩
        · exact hkeep (hstarted ▸ suffix_cons j _) hsuffix (hc hmem)

theorem also {G : ι → σ → σ → Prop} (hG : ∀ i s, Does R (G i) (fun _ => G i) (S.prog i) s s) :
    Labelled S R (fun i s t => N i s t ∧ G i s t) (fun i a s t => Q i a s t ∧ G i s t) :=
  { hS with
    middle := fun i s t h => hS.middle i s t h.1
    last := fun i a s t h => hS.last i a s t h.1
    prog := fun i s => Does.both (hS.prog i s) (hG i s) }

end

end Labelled

attribute [irreducible] Does

def Returns (P : α → Prop) : Prog σ α → Prop
  | .ret a => P a
  | .step _ k => ∀ s, Returns P (k s)

namespace Returns

variable {P : α → Prop}

theorem ret {a : α} (h : P a) : Returns P (.ret a : Prog σ α) := h

theorem bind {Q : β → Prop} {p : Prog σ α} {g : α → Prog σ β} (hp : Returns P p) (hg : ∀ a, P a → Returns Q (g a)) :
    Returns Q (p.bind g) := by
  induction p with
  | ret a => exact hg a hp
  | step _ _ ih => exact fun s => ih s (hp s)

theorem weaken {Q : α → Prop} {p : Prog σ α} (hp : Returns P p) (h : ∀ a, P a → Q a) : Returns Q p := by
  induction p with
  | ret a => exact h a hp
  | step _ _ ih => exact fun s => ih s (hp s)

theorem any (p : Prog σ α) : Returns (fun _ => True) p := by
  induction p with
  | ret => trivial
  | step _ _ ih => exact fun s => ih s

theorem andThen {Q : Except ε β → Prop} {p : Prog σ (Except ε α)} {g : α → Prog σ (Except ε β)}
    (herr : ∀ e, Q (.error e)) (hg : ∀ a, Returns Q (g a)) : Returns Q (p.andThen g) := by
  refine (any p).bind ?_
  rintro (e | a) -
  · exact herr e
  · exact hg a

theorem answers {S : System σ ι α} {A : ι → α → Prop} (h : ∀ i, Returns (A i) (S.prog i)) {c : Config σ ι α}
    (hc : S.Reachable c) : ∀ x ∈ c.returned, A x.1 x.2 := by
  have hsettle (c : Config σ ι α) (before after : List (ι × Prog σ α)) (i : ι) (p : Prog σ α)
      (hrun : ∀ j q, (j, q) ∈ before ∨ (j, q) ∈ after → Returns (A j) q) (hret : ∀ x ∈ c.returned, A x.1 x.2)
      (hp : Returns (A i) p) : (∀ j q, (j, q) ∈ (c.settle before after i p).running → Returns (A j) q) ∧
        ∀ x ∈ (c.settle before after i p).returned, A x.1 x.2 := by
    refine ⟨?_, ?_⟩
    · intro j q hmem
      rcases mem_running_settle _ _ _ _ _ hmem with heq | hmem | hmem
      · cases heq
        exact hp
      · exact hrun j q (.inl hmem)
      · exact hrun j q (.inr hmem)
    · cases p with
      | step => exact hret
      | ret =>
        intro x hx
        rcases mem_cons.mp hx with rfl | hx
        · exact hp
        · exact hret x hx
  suffices hboth : (∀ j q, (j, q) ∈ c.running → Returns (A j) q) ∧ ∀ x ∈ c.returned, A x.1 x.2 from hboth.2
  induction hc with
  | refl =>
    refine ⟨?_, ?_⟩
    · intro j q hmem
      cases hmem
    · intro x hmem
      cases hmem
  | @tail c _ _ hs ih =>
    obtain ⟨hrun, hret⟩ := ih
    cases hs with
    | start i =>
      refine hsettle _ _ _ i _ ?_ hret (h i)
      rintro j q (hmem | hmem)
      · exact hrun j q hmem
      · cases hmem
    | advance _ _ i f k hk =>
      refine hsettle _ _ _ i _ ?_ hret (hrun i (.step f k) (by simp [hk]) c.store)
      rintro j q (hmem | hmem)
      · exact hrun j q (by simp [hk, hmem])
      · exact hrun j q (by simp [hk, hmem])
    | restart =>
      refine ⟨?_, hret⟩
      intro j q hmem
      cases hmem

end Returns

attribute [irreducible] Returns

end WorkAgent.Library
