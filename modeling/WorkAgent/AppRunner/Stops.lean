import Mathlib.Data.Set.Card
import WorkAgent.AppRunner.Exclusion

namespace WorkAgent.AppRunner

open Library Function

variable {w w' : World} {e : Event} {t o i j : ℕ} {key : Key} {preview : Bool} {s r : Start} {x y : Instance} {c : Call}
  {target : Target} {todo pending : Set ℕ}

/-- What the call `t` answers for: `Close` for everything, `Stop` for what an earlier `Acquire` starts. -/
def Target.Concerns (target : Target) (t starter : ℕ) (validation : Bool) (id : String) : Prop :=
  ∀ id', target = some id' → id' = id ∧ validation = false ∧ starter < t

theorem Target.Concerns.covers {starter : ℕ} {validation : Bool} {id : String} (h : target.Concerns t starter validation id) :
    target.Covers id := by
  cases target with
  | none => exact .inl rfl
  | some id' => exact .inr (congrArg some (h id' rfl).1)

def World.Halts (w : World) (t : ℕ) (target : Target) (todo pending : Set ℕ) : Prop :=
  w.calls t = some (.closing target todo pending) ∨ (w.calls t = some (.stopped target) ∧ todo = ∅ ∧ pending = ∅)

structure Halted (w : World) : Prop where
  alive : ∀ t target todo pending, w.Halts t target todo pending → ∀ i x, w.instances i = some x → x.alive = true →
    target.Concerns t x.starter x.validation x.key.id → i ∈ todo ∨ ∃ s, w.Pending x.starter s ∧ s.stage.instance? = some i
  starts : ∀ t target todo pending, w.Halts t target todo pending → ∀ o s, w.Pending o s →
    target.Concerns t o s.validation s.key.id → o ∈ pending ∧ s.stopped = true
  shut : ∀ t todo pending, w.Halts t none todo pending → w.closed = true

/-- Whoever halts after a step did so before it, and what was closed still is. -/
structure Fewer (w w' : World) : Prop where
  halts : ∀ {o target todo pending}, w'.Halts o target todo pending → w.Halts o target todo pending
  closed : w.closed = true → w'.closed = true

section

variable (h : Halted w)
include h

theorem Halted.goes {stage : Stage} (ht : w.Pending t s) (hfewer : Fewer w w') (hgoes : Goes w t (s.on stage) w')
    (hkeeps : ∀ i, s.stage.instance? = some i → stage.instance? = some i)
    (halive : ∀ i y, w'.instances i = some y → y.alive = true → (∃ x, w.instances i = some x ∧ Aged x y) ∨
      (stage.instance? = some i ∧ y.starter = t)) : Halted w' := by
  refine ⟨?_, ?_, fun o todo pending ho => hfewer.closed (h.shut o todo pending (hfewer.halts ho))⟩
  · intro o target todo pending ho i y hy hlives hconcerns
    rcases halive i y hy hlives with ⟨x, hx, haged⟩ | ⟨hi, hstarter⟩
    · rw [haged.starter, haged.validation, haged.key] at hconcerns
      rcases h.alive o target todo pending (hfewer.halts ho) i x hx (haged.alive hlives).1 hconcerns with hin | ⟨r, hr, hri⟩
      · exact .inl hin
      · rw [haged.starter]
        by_cases hot : x.starter = t
        · rw [hot] at hr ⊢
          cases ht.symm.trans hr
          exact .inr ⟨s.on stage, (hgoes _ _).mpr (.inl ⟨rfl, rfl⟩), hkeeps i hri⟩
        · exact .inr ⟨r, (hgoes _ _).mpr (.inr ⟨hot, hr⟩), hri⟩
    · rw [hstarter]
      exact .inr ⟨s.on stage, (hgoes _ _).mpr (.inl ⟨rfl, rfl⟩), hi⟩
  · intro o target todo pending ho p r hp hconcerns
    rcases (hgoes p r).mp hp with ⟨rfl, rfl⟩ | ⟨-, hp⟩
    · exact h.starts o target todo pending (hfewer.halts ho) p s ht hconcerns
    · exact h.starts o target todo pending (hfewer.halts ho) p r hp hconcerns

theorem Halted.born (ht : ∀ r, ¬ w.Pending t r) (hfewer : Fewer w w') (hgoes : Goes w t s w') (hsame : w'.instances = w.instances)
    (hfree : ∀ o target todo pending, w.Halts o target todo pending → ¬ target.Concerns o t s.validation s.key.id) : Halted w' := by
  refine ⟨?_, ?_, fun o todo pending ho => hfewer.closed (h.shut o todo pending (hfewer.halts ho))⟩
  · rw [hsame]
    intro o target todo pending ho i x hx hlives hconcerns
    apply (h.alive o target todo pending (hfewer.halts ho) i x hx hlives hconcerns).imp_right
    rintro ⟨r, hr, hri⟩
    refine ⟨r, (hgoes _ _).mpr (.inr ⟨?_, hr⟩), hri⟩
    intro hot
    rw [hot] at hr
    exact ht r hr
  · intro o target todo pending ho p r hp hconcerns
    rcases (hgoes p r).mp hp with ⟨rfl, rfl⟩ | ⟨-, hp⟩
    · exact absurd hconcerns (hfree o target todo pending (hfewer.halts ho))
    · exact h.starts o target todo pending (hfewer.halts ho) p r hp hconcerns

theorem Halted.eased (heased : Eased w w') (hfewer : Fewer w w') : Halted w' := by
  refine ⟨?_, ?_, fun o todo pending ho => hfewer.closed (h.shut o todo pending (hfewer.halts ho))⟩
  · intro o target todo pending ho i y hy hlives hconcerns
    obtain ⟨x, hx, haged⟩ := heased.ages.back i y hy
    rw [haged.starter, haged.validation, haged.key] at hconcerns
    rw [haged.starter]
    apply (h.alive o target todo pending (hfewer.halts ho) i x hx (haged.alive hlives).1 hconcerns).imp_right
    rintro ⟨r, hr, hri⟩
    obtain ⟨r', hr', hkin⟩ := heased.forth _ r hr
    exact ⟨r', hr', hkin.stage ▸ hri⟩
  · intro o target todo pending ho p r' hp hconcerns
    obtain ⟨r, hr, hkin⟩ := heased.back p r' hp
    rw [hkin.validation, hkin.key] at hconcerns
    exact (h.starts o target todo pending (hfewer.halts ho) p r hr hconcerns).imp_right hkin.stopped

theorem Halted.ended (hp : Placed w) (ht : w.Pending t s) (hclosed : ∀ i, s.stage.instance? = some i → w.IsClosed i)
    (hfewer : Fewer w w') (hover : Over w t w') (hsame : w'.instances = w.instances) : Halted w' := by
  refine ⟨?_, ?_, fun o todo pending ho => hfewer.closed (h.shut o todo pending (hfewer.halts ho))⟩
  · rw [hsame]
    intro o target todo pending ho i x hx hlives hconcerns
    apply (h.alive o target todo pending (hfewer.halts ho) i x hx hlives hconcerns).imp_right
    rintro ⟨r, hr, hri⟩
    refine ⟨r, (hover _ _).mpr ⟨?_, hr⟩, hri⟩
    intro hot
    rw [hot] at hr
    cases ht.symm.trans hr
    obtain ⟨z, hz, hc⟩ := hclosed i hri
    cases hx.symm.trans hz
    exact hp.open_of_alive hx hlives hc
  · exact fun o target todo pending ho p r hp => h.starts o target todo pending (hfewer.halts ho) p r ((hover p r).mp hp).2

theorem Halted.landed (hp : Placed w) (ht : w.Pending t s) (hs : s.stage = .launched i) (hstopped : s.stopped = false)
    (hx : w.instances i = some x) (hfewer : Fewer w w') (hover : Over w t w')
    (hnew : w'.instances = Function.update w.instances i (some { x with active := x.active + 1 })) : Halted w' := by
  obtain ⟨_, hx', hkey, -, hvalidation, hstarter, -⟩ := hp.staged t s i ht (by rw [hs]; rfl)
  cases hx.symm.trans hx'
  refine ⟨?_, ?_, fun o todo pending ho => hfewer.closed (h.shut o todo pending (hfewer.halts ho))⟩
  · intro o target todo pending ho j y hy hlives hconcerns
    rw [hnew] at hy
    by_cases hj : j = i
    · subst hj
      rw [update_self] at hy
      cases hy
      change target.Concerns o x.starter x.validation x.key.id at hconcerns
      rw [hstarter, hvalidation, hkey] at hconcerns
      have hflag := (h.starts o target todo pending (hfewer.halts ho) t s ht hconcerns).2
      rw [hstopped] at hflag
      cases hflag
    · rw [update_of_ne hj] at hy
      apply (h.alive o target todo pending (hfewer.halts ho) j y hy hlives hconcerns).imp_right
      rintro ⟨r, hr, hri⟩
      refine ⟨r, (hover _ _).mpr ⟨?_, hr⟩, hri⟩
      intro hot
      rw [hot] at hr
      cases ht.symm.trans hr
      rw [hs] at hri
      exact hj (Option.some.inj hri).symm
  · exact fun o target todo pending ho p r hp => h.starts o target todo pending (hfewer.halts ho) p r ((hover p r).mp hp).2

theorem Halted.moves (hp : Placed w) (hmoves : Moves w e w') (hcareful : Careful w e) (hfewer : Fewer w w') : Halted w' := by
  have hsame {t : ℕ} {stage : Stage} (hinstances : w'.instances = w.instances) : ∀ i y, w'.instances i = some y → y.alive = true →
      (∃ x, w.instances i = some x ∧ Aged x y) ∨ (stage.instance? = some i ∧ y.starter = t) := by
    rw [hinstances]
    exact fun i y hy _ => .inl ⟨y, hy, .refl y⟩
  cases hmoves with
  | eased heased => exact h.eased heased hfewer
  | staged ht _ hinstance _ _ _ _ hgoes _ hinstances =>
    exact h.goes ht hfewer hgoes (fun i hi => hinstance.trans hi) (hsame hinstances)
  | validated ht hs hgoes _ hinstances =>
    refine h.goes ht hfewer hgoes ?_ (hsame hinstances)
    intro i hi
    rw [hs] at hi
    cases hi
  | @brokered _ _ _ i _ ht hs _ hgoes _ hnew =>
    refine h.goes ht hfewer hgoes ?_ ?_
    · intro j hj
      rw [hs] at hj
      cases hj
    · intro j y hy hlives
      rw [hnew] at hy
      by_cases hj : j = i
      · subst hj
        rw [update_self] at hy
        cases hy
        cases hlives
      · rw [update_of_ne hj] at hy
        exact .inl ⟨y, hy, .refl y⟩
  | @launched _ _ t i s _ ht hs hx hgoes _ hnew =>
    obtain ⟨_, hx', -, -, -, hstarter, -⟩ := hp.staged t s i ht (by rw [hs]; rfl)
    cases hx.symm.trans hx'
    refine h.goes ht hfewer hgoes ?_ ?_
    · intro j hj
      rw [hs] at hj
      exact hj
    · intro j y hy _
      rw [hnew] at hy
      by_cases hj : j = i
      · subst hj
        rw [update_self] at hy
        cases hy
        exact .inr ⟨rfl, hstarter⟩
      · rw [update_of_ne hj] at hy
        exact .inl ⟨y, hy, .refl y⟩
  | @registered _ _ _ _ ht hopen _ _ hgoes _ hinstances =>
    refine h.born ht hfewer hgoes hinstances ?_
    intro o target todo pending ho hconcerns
    cases target with
    | none =>
      have hshut := h.shut o todo pending ho
      rw [hopen] at hshut
      cases hshut
    | some id =>
      obtain ⟨hid, -, hlt⟩ := hconcerns id rfl
      refine hcareful.2.2 o (some id) hlt ?_ (.inr (congrArg some hid))
      rcases ho with ho | ⟨ho, -, -⟩
      · exact .inl ⟨todo, pending, ho⟩
      · exact .inr ho
  | @built _ _ _ _ _ ht hopen _ hgoes _ hinstances =>
    refine h.born ht hfewer hgoes hinstances ?_
    intro o target todo pending ho hconcerns
    cases target with
    | none =>
      have hshut := h.shut o todo pending ho
      rw [hopen] at hshut
      cases hshut
    | some id => cases (hconcerns id rfl).2.1
  | ended ht hdone hover _ hinstances => exact h.ended hp ht hdone hfewer hover hinstances
  | landed ht hs _ hstopped hx hover _ _ hnew => exact h.landed hp ht hs hstopped hx hfewer hover hnew
  | crashed hpending _ _ hinstances =>
    refine ⟨?_, ?_, fun o todo pending ho => hfewer.closed (h.shut o todo pending (hfewer.halts ho))⟩
    · intro o target todo pending _ i x hx
      cases (hinstances i).symm.trans hx
    · exact fun o target todo pending _ p r hp => absurd hp (hpending p r)

end

theorem halts_same (hcalls : w'.calls = w.calls) (h : w'.Halts o target todo pending) : w.Halts o target todo pending := by
  unfold World.Halts at h ⊢
  rwa [hcalls] at h

theorem halts_call (hcalls : w'.calls = (w.call t c).calls) (hclosing : ∀ target todo pending, c ≠ .closing target todo pending)
    (hstopped : ∀ target, c ≠ .stopped target) (h : w'.Halts o target todo pending) : w.Halts o target todo pending := by
  have hsame {d : Call} (ho : w'.calls o = some d) (hd : c ≠ d) : w.calls o = some d := by
    rw [hcalls] at ho
    by_cases hot : o = t
    · subst hot
      have hcd : c = d := by simpa [World.call] using ho
      exact absurd hcd hd
    · exact (update_of_ne hot ..).symm.trans ho
  rcases h with ho | ⟨ho, hempty⟩
  · exact .inl (hsame ho (hclosing target todo pending))
  · exact .inr ⟨hsame ho (hstopped target), hempty⟩

theorem halts_takeOut {target' : Target} (hot : o ≠ t) (h : (w.takeOut t target).Halts o target' todo pending) :
    w.Halts o target' todo pending := by
  have hsame {d : Call} (hd : ¬ d.IsStart) (ho : (w.takeOut t target).calls o = some d) : w.calls o = some d := by
    obtain ⟨c, hc, hstop⟩ := Option.map_eq_some_iff.mp ((takeOut_calls_ne hot).symm.trans ho)
    rw [hc]
    cases c with
    | starting =>
      simp only [Call.stop] at hstop
      split at hstop
      · exact absurd ⟨_, hstop.symm⟩ hd
      · exact absurd ⟨_, hstop.symm⟩ hd
    | _ => exact congrArg some hstop
  rcases h with ho | ⟨ho, hempty⟩
  · exact .inl (hsame (by simp [Call.IsStart]) ho)
  · exact .inr ⟨hsame (by simp [Call.IsStart]) ho, hempty⟩

theorem Halted.takeOut (h : Halted w) (hp : Placed w) (ht : w.calls t = some (.stopping target)) (hcareful : Careful w (.takes t target)) :
    Halted (w.takeOut t target) := by
  have heased := eased_takeOut ht
  refine ⟨?_, ?_, ?_⟩
  · intro o target' todo pending ho i x hx hlives hconcerns
    by_cases hot : o = t
    · subst hot
      rcases ho with ho | ⟨ho, -⟩
      · cases takeOut_calls_self.symm.trans ho
        rcases hp.placed i x hx (hp.open_of_alive hx hlives) with ⟨r, hr, hri⟩ | ⟨-, -, hrun | hleave⟩
        · obtain ⟨r', hr', hkin⟩ := heased.forth _ r hr
          exact .inr ⟨r', hr', hkin.stage ▸ hri⟩
        · exact .inl ⟨x.key, hconcerns.covers, hrun⟩
        · have hdead := hcareful i x hleave hx hconcerns.covers
          rw [hlives] at hdead
          cases hdead
      · cases takeOut_calls_self.symm.trans ho
    · apply (h.alive o target' todo pending (halts_takeOut hot ho) i x hx hlives hconcerns).imp_right
      rintro ⟨r, hr, hri⟩
      obtain ⟨r', hr', hkin⟩ := heased.forth _ r hr
      exact ⟨r', hr', hkin.stage ▸ hri⟩
  · intro o target' todo pending ho p r' hp' hconcerns
    obtain ⟨r, hr, hkin⟩ := heased.back p r' hp'
    rw [hkin.validation, hkin.key] at hconcerns
    by_cases hot : o = t
    · subst hot
      have hpo : p ≠ o := by
        rintro rfl
        cases ht.symm.trans hr
      rcases ho with ho | ⟨ho, -⟩
      · cases takeOut_calls_self.symm.trans ho
        refine ⟨⟨r, hr, hconcerns.covers⟩, ?_⟩
        have hcall : w.calls p = some (.starting r) := hr
        have hstops : (w.takeOut o target).calls p = some (.starting r.stop) := by
          rw [takeOut_calls_ne hpo, hcall]
          simp [Call.stop, hconcerns.covers]
        cases hstops.symm.trans hp'
        rfl
      · cases takeOut_calls_self.symm.trans ho
    · exact (h.starts o target' todo pending (halts_takeOut hot ho) p r hr hconcerns).imp_right hkin.stopped
  · intro o todo pending ho
    by_cases hot : o = t
    · subst hot
      rcases ho with ho | ⟨ho, -⟩
      · cases takeOut_calls_self.symm.trans ho
        simp [World.takeOut]
      · cases takeOut_calls_self.symm.trans ho
    · have hshut := h.shut o todo pending (halts_takeOut hot ho)
      simp [World.takeOut, hshut]

theorem Halted.returns (h : Halted w) (hp : Placed w) (ht : w.calls t = some (.closing target todo pending))
    (htodo : ∀ i ∈ todo, w.IsClosed i) (hpending : ∀ o ∈ pending, ∀ s, ¬ w.Pending o s) : Halted (w.call t (.stopped target)) := by
  have hpend {o : ℕ} {s : Start} (ho : (w.call t (.stopped target)).Pending o s) : w.Pending o s := by
    rcases pending_call.mp ho with ⟨-, hc⟩ | ⟨-, ho⟩
    · cases hc
    · exact ho
  have hpend' {o : ℕ} {s : Start} (ho : w.Pending o s) : (w.call t (.stopped target)).Pending o s := by
    refine pending_call.mpr (.inr ⟨?_, ho⟩)
    rintro rfl
    cases ht.symm.trans ho
  have hother {o : ℕ} {target' : Target} {todo' pending' : Set ℕ} (hot : o ≠ t)
      (ho : (w.call t (.stopped target)).Halts o target' todo' pending') : w.Halts o target' todo' pending' := by
    unfold World.Halts at ho ⊢
    have hcalls : (w.call t (.stopped target)).calls o = w.calls o := update_of_ne hot ..
    rwa [hcalls] at ho
  have hself {target' : Target} {todo' pending' : Set ℕ} (ho : (w.call t (.stopped target)).Halts t target' todo' pending') :
      target = target' := by
    rcases ho with ho | ⟨ho, -⟩
    · simp [World.call] at ho
    · simpa [World.call] using ho
  have hstarts {o : ℕ} {s : Start} (ho : w.Pending o s) : ¬ target.Concerns t o s.validation s.key.id := by
    intro hconcerns
    exact hpending o (h.starts t target todo pending (.inl ht) o s ho hconcerns).1 s ho
  refine ⟨?_, ?_, ?_⟩
  · intro o target' todo' pending' ho i x hx hlives hconcerns
    by_cases hot : o = t
    · subst hot
      obtain rfl := hself ho
      rcases h.alive o target todo pending (.inl ht) i x hx hlives hconcerns with hin | ⟨s, hs, hi⟩
      · obtain ⟨y, hy, hc⟩ := htodo i hin
        have hsame : w.instances i = some x := hx
        cases hsame.symm.trans hy
        exact absurd hc (hp.open_of_alive hx hlives)
      · obtain ⟨y, hy, hkey, -, hvalidation, -⟩ := hp.staged _ s i hs hi
        have hsame : w.instances i = some x := hx
        cases hsame.symm.trans hy
        rw [hvalidation, hkey] at hconcerns
        exact absurd hconcerns (hstarts hs)
    · apply (h.alive o target' todo' pending' (hother hot ho) i x hx hlives hconcerns).imp_right
      rintro ⟨s, hs, hi⟩
      exact ⟨s, hpend' hs, hi⟩
  · intro o target' todo' pending' ho p r hr hconcerns
    by_cases hot : o = t
    · subst hot
      obtain rfl := hself ho
      exact absurd hconcerns (hstarts (hpend hr))
    · exact h.starts o target' todo' pending' (hother hot ho) p r (hpend hr) hconcerns
  · intro o todo' pending' ho
    by_cases hot : o = t
    · subst hot
      obtain rfl := hself ho
      exact h.shut o todo pending (.inl ht)
    · exact h.shut o todo' pending' (hother hot ho)

theorem Halted.step (h : Halted w) (hw : Locked w) (hp : Placed w) (hstep : Step w e w') (hcareful : Careful w e) : Halted w' := by
  have hmoves := moves_step hw hp hstep
  cases hstep with
  | acquires | snapshots | stops =>
    exact h.moves hp hmoves hcareful ⟨halts_call (t := w.next) rfl (by simp) (by simp), id⟩
  | gives | waits | retries | serves | clears | registers | builds | validates | brokers | leases | leaseBreaks | grants | denies | launches |
    fails | lands | discards | drops | ends | snapshotEnds | releases | sweeps | sweepRevokes | sweepFails | sweepEnds =>
    exact h.moves hp hmoves hcareful ⟨halts_call rfl (by simp) (by simp), id⟩
  | @conflicts _ other key preview s =>
    refine h.moves hp hmoves hcareful ⟨fun ho => ?_, id⟩
    exact halts_call (c := .starting s.stop) rfl (by simp) (by simp) (halts_call (c := .awaiting key preview other true) rfl (by simp) (by simp) ho)
  | deletes | begins | kills | asks | revokes | refuses | refusalBreaks | exits =>
    exact h.moves hp hmoves hcareful ⟨halts_same rfl, id⟩
  | reaps todo => exact h.moves hp hmoves hcareful ⟨halts_call (t := w.next) (c := .reaping ↑todo) rfl (by simp) (by simp), id⟩
  | takes ht => exact h.takeOut hp ht hcareful
  | stopped ht htodo hpending => exact h.returns hp ht htodo hpending
  | crashes =>
    have hnone {o : ℕ} {target : Target} {todo pending : Set ℕ} : ¬ w.crash.Halts o target todo pending := by
      rintro (h | ⟨h, -⟩)
      · cases h
      · cases h
    exact ⟨fun _ _ _ _ ho => absurd ho hnone, fun _ _ _ _ ho => absurd ho hnone, fun _ _ _ ho => absurd ho hnone⟩

end WorkAgent.AppRunner
