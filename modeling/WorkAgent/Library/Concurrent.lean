import WorkAgent.Library.Stretches

namespace WorkAgent.Library

open Config List

variable {σ τ ι ν α β ε : Type}

namespace Prog

def within (get : τ → σ) (set : σ → τ → τ) : Prog σ α → Prog τ α
  | .ret a => .ret a
  | .step f k => .step (fun t => set (f (get t)) t) (fun t => (k (get t)).within get set)

theorem within_bind (get : τ → σ) (set : σ → τ → τ) (p : Prog σ α) (g : α → Prog σ β) :
    (p.bind g).within get set = (p.within get set).bind (fun a => (g a).within get set) := by
  induction p with
  | ret => rfl
  | step _ _ ih =>
    simp only [bind_step, within]
    congr 1
    funext t
    exact ih (get t)

theorem within_andThen (get : τ → σ) (set : σ → τ → τ) (p : Prog σ (Except ε α)) (g : α → Prog σ (Except ε β)) :
    (p.andThen g).within get set = (p.within get set).andThen (fun a => (g a).within get set) := by
  unfold andThen
  rw [within_bind]
  congr 1
  funext x
  cases x <;> rfl

end Prog

structure Concurrent (S : System σ ι α) (name : ι → ν) (I : σ → Prop) (R G : ι → σ → σ → Prop) : Prop where
  refl : ∀ i s, R i s s
  trans : ∀ i s t u, R i s t → R i t u → R i s u
  guarantee : ∀ i j s t, name j ≠ name i → G i s t → R j s t
  fresh : ∀ started returned i, S.allowed started returned i → ∀ j ∈ started, name j ≠ name i
  init : I S.init
  reopen : ∀ s t, I s → S.reopen s t → I t
  prog : ∀ started returned i s, S.allowed started returned i → I s →
    Sound I (R i) (G i) (fun _ _ _ => True) (S.prog i) s s

namespace Concurrent

variable {S : System σ ι α} {name : ι → ν} {I : σ → Prop} {R G : ι → σ → σ → Prop}

/-- The store satisfies the invariant, and what is left of each running call is sound. -/
structure Holds (I : σ → Prop) (R G : ι → σ → σ → Prop) (c : Config σ ι α) : Prop where
  store : I c.store
  running : ∀ i p, (i, p) ∈ c.running →
    ∃ u v, R i v c.store ∧ Sound I (R i) (G i) (fun _ _ _ => True) p u v

section

variable (hS : Concurrent S name I R G)
include hS

theorem names_nodup {c : Config σ ι α} (hc : S.Reachable c) :
    (c.started.map name).Nodup := by
  induction hc with
  | refl => exact nodup_nil
  | tail _ h ih =>
    cases h with
    | start _ hi =>
      rw [settle_started, map_cons, nodup_cons]
      refine ⟨?_, ih⟩
      intro hmem
      obtain ⟨j, hj, heq⟩ := mem_map.mp hmem
      exact hS.fresh _ _ _ hi j hj heq
    | advance =>
      rw [settle_started]
      exact ih
    | restart => exact ih

theorem names_apart {c : Config σ ι α} (hc : S.Reachable c)
    {before after : List (ι × Prog σ α)} {i : ι} {p : Prog σ α} (hk : c.running = before ++ (i, p) :: after)
    {j : ι} {q : Prog σ α} (hj : (j, q) ∈ before ∨ (j, q) ∈ after) : name j ≠ name i := by
  obtain ⟨l, hperm, hsub⟩ := hc.calls_subperm
  have hnodup : (c.calls.map name).Nodup := by
    apply (hperm.map name).nodup_iff.mp
    exact (hS.names_nodup hc).sublist (hsub.map name)
  rw [Config.calls, hk, map_append, map_append] at hnodup
  have hrunning := (nodup_append.mp hnodup).1
  rw [map_append, map_cons, map_cons, nodup_middle, nodup_cons] at hrunning
  intro heq
  apply hrunning.1
  rw [← heq, ← map_append, ← map_append]
  exact mem_map_of_mem (mem_map_of_mem (mem_append.mpr hj))

theorem step {c d : Config σ ι α} (hr : S.Reachable c) (hc : Holds I R G c)
    (h : S.Step c d) : Holds I R G d ∧ (d.store = c.store ∨ (∃ i, G i c.store d.store) ∨
      S.reopen c.store d.store) := by
  cases h with
  | start i hi =>
    refine ⟨⟨?_, ?_⟩, .inl (settle_store _ _ _ _ _)⟩
    · rw [settle_store]
      exact hc.store
    · intro j q hj
      rw [settle_store]
      rcases mem_running_settle _ _ _ _ _ hj with heq | hj | hj
      · cases heq
        exact ⟨c.store, c.store, hS.refl _ _, hS.prog _ _ i _ hi hc.store⟩
      · exact hc.running j q hj
      · cases hj
  | advance before after i f k hk =>
    have hmem : (i, Prog.step f k) ∈ c.running := by
      rw [hk]
      exact mem_append_right _ mem_cons_self
    obtain ⟨u, v, hR, hp⟩ := hc.running i _ hmem
    obtain ⟨hI, hG, hp'⟩ := hp c.store hR hc.store
    refine ⟨⟨?_, ?_⟩, .inr (.inl ⟨i, ?_⟩)⟩
    · rw [settle_store]
      exact hI
    · intro j q hj
      rw [settle_store]
      have hothers (hj : (j, q) ∈ before ∨ (j, q) ∈ after) :
          ∃ u v, R j v (f c.store) ∧ Sound I (R j) (G j) (fun _ _ _ => True) q u v := by
        have hold : (j, q) ∈ c.running := by
          rw [hk]
          rcases hj with hj | hj
          · exact mem_append_left _ hj
          · exact mem_append_right _ (mem_cons_of_mem _ hj)
        obtain ⟨u, v, hv, hq⟩ := hc.running j q hold
        exact ⟨u, v, hS.trans j _ _ _ hv (hS.guarantee i j _ _ (hS.names_apart hr hk hj) hG), hq⟩
      rcases mem_running_settle _ _ _ _ _ hj with heq | hj | hj
      · cases heq
        exact ⟨c.store, f c.store, hS.refl _ _, hp'⟩
      · exact hothers (.inl hj)
      · exact hothers (.inr hj)
    · rw [settle_store]
      exact hG
  | restart _ ht =>
    refine ⟨⟨hS.reopen _ _ hc.store ht, ?_⟩, .inr (.inr ht)⟩
    intro j q hj
    cases hj

theorem holds {c : Config σ ι α} (hc : S.Reachable c) : Holds I R G c := by
  induction hc with
  | refl =>
    refine ⟨hS.init, ?_⟩
    intro j q hj
    cases hj
  | tail hr h ih => exact (hS.step hr ih h).1

theorem invariant {c : Config σ ι α} (hc : S.Reachable c) : I c.store :=
  (hS.holds hc).store

theorem moves {c d : Config σ ι α} (hc : S.Reachable c) (h : S.Step c d) :
    d.store = c.store ∨ (∃ i, G i c.store d.store) ∨ S.reopen c.store d.store :=
  (hS.step hc (hS.holds hc) h).2

end

end Concurrent

section Within

variable {I : τ → Prop} {R G : τ → τ → Prop} {get : τ → σ} {set : σ → τ → τ}

theorem Sound.ret {Q : α → σ → σ → Prop} {I : σ → Prop} {R G : σ → σ → Prop} {a : α} {s₀ s : σ} (h : Q a s₀ s) :
    Sound I R G Q (.ret a) s₀ s := h

theorem Does.within {R₀ N E : σ → σ → Prop} {Q : α → σ → σ → Prop} (hset : ∀ s t, get (set s t) = s)
    (hR : ∀ t t', R t t' → R₀ (get t) (get t')) (hN : ∀ s s', N s s' → E s s') (hQ : ∀ a s s', Q a s s' → E s s')
    (hE : ∀ t s', I t → E (get t) s' → I (set s' t) ∧ G t (set s' t)) {p : Prog σ α} {s₀ : σ} {t₀ t : τ}
    (h : Does R₀ N Q p s₀ (get t)) : Sound I R G (fun _ _ _ => True) (p.within get set) t₀ t := by
  induction p generalizing s₀ t₀ t with
  | ret => exact Sound.ret trivial
  | step f k ih =>
    intro t' ht hI
    have hk := (Does.step.mp h).2 (get t') (hR _ _ ht)
    have heffect : E (get t') (f (get t')) := by
      generalize k (get t') = q at hk
      cases q with
      | ret => exact hQ _ _ _ hk.of_ret
      | step => exact hN _ _ (Does.step.mp hk).1
    obtain ⟨hI', hG⟩ := hE t' _ hI heffect
    have hrest : Does R₀ N Q (k (get t')) (get t') (get (set (f (get t')) t')) := by
      rw [hset]
      exact hk
    exact ⟨hI', hG, ih (get t') hrest⟩

theorem Sound.read_within {f : σ → α} {Q : α → τ → τ → Prop} {t₀ t : τ} (hself : ∀ t, set (get t) t = t)
    (h : ∀ u, R t u → I u → G u u ∧ Q (f (get u)) u u) :
    Sound I R G Q ((Prog.read f).within get set) t₀ t := by
  intro u hR hI
  have hsame : set (id (get u)) u = u := hself u
  dsimp only
  rw [hsame]
  exact ⟨hI, h u hR hI⟩

theorem Sound.transaction_within {body : σ → Except ε (α × σ)} {Q : Except ε α → τ → τ → Prop} {t₀ t : τ}
    (hself : ∀ t, set (get t) t = t)
    (hok : ∀ u a s', R t u → I u → body (get u) = .ok (a, s') → I (set s' u) ∧ G u (set s' u) ∧ Q (.ok a) u (set s' u))
    (herr : ∀ u e, R t u → I u → G u u ∧ Q (.error e) u u) :
    Sound I R G Q ((Prog.transaction body).within get set) t₀ t := by
  intro u hR hI
  cases hb : body (get u) with
  | ok x =>
    obtain ⟨a, s'⟩ := x
    simpa only [hb, Prog.within, Sound] using hok u a s' hR hI hb
  | error e =>
    obtain ⟨hG, hQ⟩ := herr u e hR hI
    simp only [hb, Prog.within, Sound, hself]
    exact ⟨hI, hG, hQ⟩

end Within

end WorkAgent.Library
