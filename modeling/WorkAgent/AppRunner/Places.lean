import WorkAgent.AppRunner.Moves

namespace WorkAgent.AppRunner

open Library Function

variable {w w' : World} {e : Event} {t o i j : ℕ} {key k : Key} {preview conflict : Bool} {s s' r : Start} {c c₀ : Call} {x y : Instance}
  {stage : Stage}

section Locks

theorem starting_eased (h : Eased w w') (hs : w'.Starting key preview o conflict) : w.Starting key preview o conflict := by
  obtain ⟨s', ho, hvalidation, _⟩ := hs
  obtain ⟨s, hs, hkin⟩ := h.back o s' ho
  refine ⟨s, hs, hkin.validation ▸ hvalidation, ?_⟩
  rwa [← hkin.key, ← hkin.preview]

theorem starting_goes (ht : w.Pending t s) (hgoes : Goes w t (s.on stage) w') (hs : w'.Starting key preview o conflict) :
    w.Starting key preview o conflict := by
  obtain ⟨r, ho, hvalidation, hkey⟩ := hs
  rcases (hgoes o r).mp ho with ⟨rfl, rfl⟩ | ⟨-, ho⟩
  · exact ⟨s, ht, hvalidation, hkey⟩
  · exact ⟨r, ho, hvalidation, hkey⟩

theorem starting_over (hover : Over w t w') (hs : w'.Starting key preview o conflict) : w.Starting key preview o conflict := by
  obtain ⟨r, ho, hr⟩ := hs
  exact ⟨r, ((hover o r).mp ho).2, hr⟩

theorem Moves.starting (h : Moves w e w') (he : ∀ t key preview, e ≠ .registers t key preview) (hs : w'.Starting key preview o conflict) :
    w.Starting key preview o conflict := by
  cases h with
  | eased h => exact starting_eased h hs
  | staged ht _ _ _ _ _ _ hgoes | validated ht _ hgoes | brokered ht _ _ hgoes | launched ht _ _ hgoes => exact starting_goes ht hgoes hs
  | registered => exact absurd rfl (he _ _ _)
  | @built _ _ _ _ _ _ _ _ hgoes =>
    obtain ⟨r, ho, hvalidation, hkey⟩ := hs
    rcases (hgoes o r).mp ho with ⟨rfl, rfl⟩ | ⟨-, ho⟩
    · cases hvalidation
    · exact ⟨r, ho, hvalidation, hkey⟩
  | ended _ _ hover | landed _ _ _ _ _ hover => exact starting_over hover hs
  | crashed hpending =>
    obtain ⟨r, ho, -⟩ := hs
    exact absurd ho (hpending o r)

theorem clearing_call (h : ∀ key preview, c ≠ .clearing key preview) (hcalls : w'.calls = (w.call t c).calls) :
    ∀ o key preview, w'.calls o = some (.clearing key preview) → w.calls o = some (.clearing key preview) := by
  intro o key preview ho
  rw [hcalls] at ho
  by_cases hot : o = t
  · subst hot
    have hc : c = .clearing key preview := by simpa [World.call] using ho
    exact absurd hc (h key preview)
  · exact (update_of_ne hot ..).symm.trans ho

theorem discarding_call (h : ∀ r i, c = .starting r → r.stage = .discarding i → w.Pending t r) (hcalls : w'.calls = (w.call t c).calls) :
    ∀ o r i, w'.Pending o r → r.stage = .discarding i → ∃ s, w.Pending o s ∧ s.stage = .discarding i := by
  intro o r i ho hr
  rw [pending_congr hcalls, pending_call] at ho
  rcases ho with ⟨rfl, hc⟩ | ⟨-, ho⟩
  · exact ⟨r, h r i hc hr, hr⟩
  · exact ⟨r, ho, hr⟩

section

variable (hw : Locked w)
include hw

theorem fresh_call (ht : w.calls t = some c₀) (hcalls : w'.calls = (w.call t c).calls) (hnext : w'.next = w.next) :
    ∀ o, w'.next ≤ o → w'.calls o = none := by
  intro o ho
  rw [hnext] at ho
  have hot : o ≠ t := by
    rintro rfl
    cases ht.symm.trans (hw.fresh o ho)
  rw [hcalls]
  exact (update_of_ne hot ..).trans (hw.fresh o ho)

section

variable (hfresh : ∀ o, w'.next ≤ o → w'.calls o = none)
  (hclearing : ∀ o key preview, w'.calls o = some (.clearing key preview) → w.calls o = some (.clearing key preview))
  (hdiscarding : ∀ o r i, w'.Pending o r → r.stage = .discarding i → ∃ s, w.Pending o s ∧ s.stage = .discarding i)
include hfresh hclearing hdiscarding

theorem locked_free (hmu : w.mu = none) : Locked w' := by
  refine ⟨hfresh, ?_, ?_⟩
  · intro o key preview ho
    cases hmu.symm.trans (hw.clearing o key preview (hclearing o key preview ho)).1
  · intro o r i ho hr
    obtain ⟨s, hs, hstage⟩ := hdiscarding o r i ho hr
    cases hmu.symm.trans (hw.discarding o s i hs hstage)

theorem locked_keep (hmoves : Moves w e w') (he : ∀ t key preview, e ≠ .registers t key preview) (hmu : w'.mu = w.mu)
    (hclosed : w'.closed = w.closed) : Locked w' := by
  refine ⟨hfresh, ?_, ?_⟩
  · intro o key preview ho
    obtain ⟨hlock, hopen, hnone⟩ := hw.clearing o key preview (hclearing o key preview ho)
    exact ⟨hmu.trans hlock, hclosed.trans hopen, fun p conflict hp => hnone p conflict (hmoves.starting he hp)⟩
  · intro o r i ho hr
    obtain ⟨s, hs, hstage⟩ := hdiscarding o r i ho hr
    exact hmu.trans (hw.discarding o s i hs hstage)

end

theorem locked_same (hmoves : Moves w e w') (he : ∀ t key preview, e ≠ .registers t key preview)
    (hcalls : w'.calls = w.calls) (hnext : w'.next = w.next) (hmu : w'.mu = w.mu) (hclosed : w'.closed = w.closed) : Locked w' := by
  refine locked_keep hw ?_ ?_ ?_ hmoves he hmu hclosed
  · rw [hnext, hcalls]
    exact hw.fresh
  · rw [hcalls]
    exact fun _ _ _ ho => ho
  · exact fun o r i ho hr => ⟨r, (pending_congr hcalls).mp ho, hr⟩

theorem locked_begin (hmoves : Moves w e (w.begin c)) (he : ∀ t key preview, e ≠ .registers t key preview)
    (h : ∀ key preview, c ≠ .clearing key preview) (hstart : ¬ c.IsStart) : Locked (w.begin c) := by
  have hcalls : (w.begin c).calls = (w.call w.next c).calls := rfl
  refine locked_keep hw ?_ (clearing_call h hcalls) (discarding_call (fun r i hc _ => absurd ⟨r, hc⟩ hstart) hcalls) hmoves he rfl rfl
  intro o ho
  have hlt : w.next < o := ho
  refine (update_of_ne ?_ ..).trans (hw.fresh o hlt.le)
  omega

section

variable (ht : w.calls t = some c₀) (h : ∀ key preview, c ≠ .clearing key preview)
  (hdiscarding : ∀ r i, c = .starting r → r.stage ≠ .discarding i) (hcalls : w'.calls = (w.call t c).calls) (hnext : w'.next = w.next)
include ht h hdiscarding hcalls hnext

theorem locked_call (hmoves : Moves w e w') (he : ∀ t key preview, e ≠ .registers t key preview)
    (hmu : w'.mu = w.mu) (hclosed : w'.closed = w.closed) : Locked w' :=
  locked_keep hw (fresh_call hw ht hcalls hnext) (clearing_call h hcalls)
    (discarding_call (fun r i hc hr => absurd hr (hdiscarding r i hc)) hcalls) hmoves he hmu hclosed

theorem locked_call_free (hlock : w.mu = none) : Locked w' :=
  locked_free hw (fresh_call hw ht hcalls hnext) (clearing_call h hcalls)
    (discarding_call (fun r i hc hr => absurd hr (hdiscarding r i hc)) hcalls) hlock

theorem locked_unlock (hlock : w.mu = some t) : Locked w' := by
  refine ⟨fresh_call hw ht hcalls hnext, ?_, ?_⟩
  · intro o key preview ho
    obtain rfl : t = o := Option.some.inj (hlock.symm.trans (hw.clearing o key preview (clearing_call h hcalls o key preview ho)).1)
    rw [hcalls] at ho
    have hc : c = .clearing key preview := by simpa [World.call] using ho
    exact absurd hc (h key preview)
  · intro o r i ho hr
    rw [pending_congr hcalls, pending_call] at ho
    rcases ho with ⟨rfl, hc⟩ | ⟨hot, ho⟩
    · exact absurd hr (hdiscarding r i hc)
    · exact absurd (Option.some.inj (hlock.symm.trans (hw.discarding o r i ho hr))).symm hot

end

theorem Locked.step (hmoves : Moves w e w') (h : Step w e w') : Locked w' := by
  cases h with
  | acquires | snapshots | stops => exact locked_begin hw hmoves (by simp) (by simp) (by simp [Call.IsStart])
  | gives ht | waits ht | retries ht | stopped ht | sweepRevokes ht | sweepFails ht | sweepEnds ht | sweeps ht =>
    exact locked_call hw ht (by simp) (by simp) rfl rfl hmoves (by simp) rfl rfl
  | @conflicts t other key preview s ht hmu _ _ _ hs =>
    have heased := eased_conflict ht hs
    refine locked_free hw ?_ ?_ ?_ hmu
    · intro o ho
      have hfresh := hw.fresh o ho
      have hot : o ≠ t := by
        rintro rfl
        cases ht.symm.trans hfresh
      have hoo : o ≠ other := by
        rintro rfl
        cases hs.symm.trans hfresh
      simp [World.call, hot, hoo, hfresh]
    · intro o key' preview' ho
      have hfirst := clearing_call (c := .awaiting key preview other true) (t := t) (by simp) rfl o key' preview' ho
      exact clearing_call (c := .starting s.stop) (t := other) (by simp) rfl o key' preview' hfirst
    · intro o r i ho hr
      obtain ⟨r', hr', hkin⟩ := heased.back o r ho
      exact ⟨r', hr', hkin.stage ▸ hr⟩
  | serves ht hmu | releases ht hmu | lands ht _ _ hmu | ends ht _ hmu | snapshotEnds ht _ hmu =>
    exact locked_call_free hw ht (by simp) (by simp) rfl rfl hmu
  | @clears t key preview ht hmu hopen hnone =>
    refine ⟨fresh_call hw ht rfl rfl, ?_, ?_⟩
    · intro o key' preview' ho
      by_cases hot : o = t
      · subst hot
        obtain ⟨rfl, rfl⟩ : key = key' ∧ preview = preview' := by simpa [World.call, World.lock] using ho
        exact ⟨rfl, hopen, fun p conflict hp => hnone p conflict (hmoves.starting (by simp) hp)⟩
      · have ho' : w.calls o = some (.clearing key' preview') := (update_of_ne hot ..).symm.trans ho
        cases hmu.symm.trans (hw.clearing o key' preview' ho').1
    · intro o r i ho hr
      have ho' : w.Pending o r := by
        rcases pending_call.mp ho with ⟨-, h⟩ | ⟨-, ho⟩
        · cases h
        · exact ho
      cases hmu.symm.trans (hw.discarding o r i ho' hr)
  | deletes | begins | kills | asks | revokes | refuses | refusalBreaks | exits => exact locked_same hw hmoves (by simp) rfl rfl rfl rfl
  | registers ht => exact locked_unlock hw ht (by simp) (by rintro r i ⟨⟩; simp) rfl rfl (hw.clearing _ _ _ ht).1
  | builds ht hmu => exact locked_call_free hw ht (by simp) (by rintro r i ⟨⟩; simp) rfl rfl hmu
  | validates ht | brokers ht | leases ht | leaseBreaks ht | grants ht | denies ht | launches ht | fails ht =>
    exact locked_call hw ht (by simp) (by rintro r i ⟨⟩; simp [Start.on]) rfl rfl hmoves (by simp) rfl rfl
  | @discards t i s ht _ _ hmu =>
    refine ⟨fresh_call hw ht rfl rfl, ?_, ?_⟩
    · intro o key' preview' ho
      have hcalls : ((w.call t (.starting (s.on (.discarding i)))).lock t).calls = (w.call t (.starting (s.on (.discarding i)))).calls := rfl
      have ho' := clearing_call (by simp) hcalls o key' preview' ho
      cases hmu.symm.trans (hw.clearing o key' preview' ho').1
    · intro o r j ho hr
      rcases pending_call.mp ho with ⟨rfl, -⟩ | ⟨-, ho⟩
      · rfl
      · cases hmu.symm.trans (hw.discarding o r j ho hr)
  | drops ht hs => exact locked_unlock hw ht (by simp) (by simp) rfl rfl (hw.discarding _ _ _ ht hs)
  | @takes t _ ht hmu =>
    have heased := eased_takeOut ht
    refine locked_free hw ?_ ?_ ?_ hmu
    · intro o ho
      have hfresh := hw.fresh o ho
      have hot : o ≠ t := by
        rintro rfl
        cases ht.symm.trans hfresh
      rw [takeOut_calls_ne hot, hfresh]
      rfl
    · intro o _ _ ho
      by_cases hot : o = t
      · subst hot
        cases takeOut_calls_self.symm.trans ho
      · obtain ⟨c, hc, hstop⟩ := Option.map_eq_some_iff.mp ((takeOut_calls_ne hot).symm.trans ho)
        rw [hc]
        cases c with
        | starting =>
          simp only [Call.stop] at hstop
          split at hstop <;> cases hstop
        | _ => exact congrArg some hstop
    · intro o r i ho hr
      obtain ⟨r', hr', hkin⟩ := heased.back o r ho
      exact ⟨r', hr', hkin.stage ▸ hr⟩
  | @reaps todo hmu =>
    have hcalls : (w.reapOut todo).calls = (w.call w.next (.reaping ↑todo)).calls := rfl
    refine locked_free hw ?_ (clearing_call (by simp) hcalls) (discarding_call (by simp) hcalls) hmu
    intro o ho
    have hlt : w.next < o := ho
    refine (update_of_ne ?_ ..).trans (hw.fresh o hlt.le)
    omega
  | crashes => exact ⟨fun _ _ => rfl, fun _ _ _ h => (by cases h), fun _ _ _ h => (by cases h)⟩

end

end Locks

section Placed

theorem Placed.not_wanted (hp : Placed w) (ht : w.Pending t s) (hs : s.stage.Unlaunched) (hi : s.stage.instance? = some i) :
    ¬ ∃ o c, w.calls o = some c ∧ w.Wants i c := by
  obtain ⟨hruns, hleaves⟩ := hp.apart t s i ht hi
  rintro ⟨o, c, ho, hwants⟩
  cases c with
  | closing | reaping => exact hleaves ⟨o, _, ho, hwants⟩
  | clearing =>
    obtain ⟨k, x, hk, -⟩ := hwants
    exact hruns k hk
  | starting r =>
    have hr : r.stage.instance? = some i := by
      rcases hwants with h | h | ⟨-, h⟩
      all_goals rw [h]; rfl
    obtain ⟨x, hx, -, -, -, hstarter, -⟩ := hp.staged t s i ht hi
    obtain ⟨y, hy, -, -, -, hstarter', -⟩ := hp.staged o r i ho hr
    cases hx.symm.trans hy
    obtain rfl : t = o := hstarter.symm.trans hstarter'
    cases ht.symm.trans ho
    rcases hwants with h | h | ⟨-, h⟩
    all_goals
      rw [h] at hs
      exact hs
  | _ => exact hwants

theorem Placed.fits_eased (hp : Placed w) (h : Ages w w') (ht : w.Pending t s) (hi : s.stage.instance? = some i)
    (hx : w.instances i = some x) (hy : w'.instances i = some y) (haged : Aged x y) (hfits : s.stage.Fits x) : s.stage.Fits y := by
  have hlaunched := haged.launched
  have hkept (hs : s.stage.Unlaunched) (hx' : x.launched = false ∧ x.closing = .no) : y.launched = false ∧ y.closing = .no := by
    refine ⟨hlaunched.trans hx'.1, ?_⟩
    by_contra hy'
    rcases h.begun i x y hx hy hx'.2 hy' with hx'' | hwanted
    · rw [hx'.1] at hx''
      cases hx''
    · exact hp.not_wanted ht hs hi hwanted
  cases hstage : s.stage with
  | brokered j | authorizing j | granted j =>
    rw [hstage] at hkept hfits
    exact hkept trivial hfits
  | launched j | discarding j =>
    rw [hstage] at hfits
    exact hlaunched.trans hfits
  | _ => trivial

theorem inTheWay_of (hrunning : ∀ k i, w'.running k = some i → w.running k = some i)
    (hback : ∀ y, w'.instances i = some y → ∃ x, w.instances i = some x ∧ y.key = x.key ∧ y.preview = x.preview)
    (h : w'.InTheWay key preview i) : w.InTheWay key preview i := by
  obtain ⟨k, y, hk, hy, _⟩ := h
  obtain ⟨x, hx, hsame, hpreview⟩ := hback y hy
  exact ⟨k, x, hrunning k i hk, hx, by rwa [← hsame, ← hpreview]⟩

theorem Placed.eased (hp : Placed w) (h : Eased w w') : Placed w' := by
  refine ⟨?_, ?_, ?_, ?_, ?_, ?_, ?_, ?_, ?_⟩
  · intro i y hy halive
    obtain ⟨x, hx, haged⟩ := h.ages.back i y hy
    obtain ⟨hlives, hclosing⟩ := haged.alive halive
    obtain ⟨hlaunched, hopen⟩ := hp.alive i x hx hlives
    refine ⟨haged.launched.trans hlaunched, ?_⟩
    rcases hclosing with hsame | hbegun
    · rwa [hsame]
    · exact .inr hbegun
  · intro t s' i ht hi
    obtain ⟨s, hs, hkin⟩ := h.back t s' ht
    rw [hkin.stage] at hi
    obtain ⟨x, hx, hkey, hpreview, hvalidation, hstarter, hfits⟩ := hp.staged t s i hs hi
    obtain ⟨y, hy, haged⟩ := h.ages.forth i x hx
    refine ⟨y, hy, ?_, ?_, ?_, haged.starter.trans hstarter, ?_⟩
    · rw [haged.key, hkey, hkin.key]
    · rw [haged.preview, hpreview, hkin.preview]
    · rw [haged.validation, hvalidation, hkin.validation]
    · rw [hkin.stage]
      exact hp.fits_eased h.ages hs hi hx hy haged hfits
  · intro i y hy hopen
    obtain ⟨x, hx, haged⟩ := h.ages.back i y hy
    have hx' : x.closing ≠ .closed := fun hc => hopen (haged.closing hc)
    have hnot : ¬ w.IsClosed i := by
      rintro ⟨z, hz, hc⟩
      cases hx.symm.trans hz
      exact hx' hc
    rw [haged.starter, haged.validation, haged.launched, haged.key]
    rcases hp.placed i x hx hx' with ⟨s, hs, hi⟩ | ⟨hvalidation, hlaunched, hrunning | hleaving⟩
    · obtain ⟨s', hs', hkin⟩ := h.forth _ s hs
      exact .inl ⟨s', hs', by rwa [hkin.stage]⟩
    · rcases h.gone _ i hrunning with hstill | hleaves | hclosed
      · exact .inr ⟨hvalidation, hlaunched, .inl hstill⟩
      · exact .inr ⟨hvalidation, hlaunched, .inr hleaves⟩
      · exact absurd hclosed hnot
    · rcases h.kept i hleaving with hstill | hclosed
      · exact .inr ⟨hvalidation, hlaunched, .inr hstill⟩
      · exact absurd hclosed hnot
  · intro key i hi
    obtain ⟨x, hx, hkey, hvalidation, hlaunched⟩ := hp.ran key i (h.running key i hi)
    obtain ⟨y, hy, haged⟩ := h.ages.forth i x hx
    exact ⟨y, hy, haged.key.trans hkey, haged.validation.trans hvalidation, haged.launched.trans hlaunched⟩
  · intro i hi
    have hbefore : (∃ x, w.instances i = some x ∧ x.validation = false ∧ x.launched = true) ∧ ∀ k, w'.running k ≠ some i := by
      rcases h.left i hi with hi | ⟨k, hk, hk'⟩
      · obtain ⟨hx, hnot⟩ := hp.leaving i hi
        exact ⟨hx, fun k hk => hnot k (h.running k i hk)⟩
      · obtain ⟨x, hx, hkey, hvalidation, hlaunched⟩ := hp.ran k i hk
        refine ⟨⟨x, hx, hvalidation, hlaunched⟩, ?_⟩
        intro l hl
        obtain ⟨z, hz, hlkey, -⟩ := hp.ran l i (h.running l i hl)
        cases hx.symm.trans hz
        rw [← hlkey, hkey] at hl
        exact hk' hl
    obtain ⟨⟨x, hx, hvalidation, hlaunched⟩, hnot⟩ := hbefore
    obtain ⟨y, hy, haged⟩ := h.ages.forth i x hx
    exact ⟨⟨y, hy, haged.validation.trans hvalidation, haged.launched.trans hlaunched⟩, hnot⟩
  · intro t s' i ht hi
    obtain ⟨s, hs, hkin⟩ := h.back t s' ht
    rw [hkin.stage] at hi
    obtain ⟨hrunning, hleaving⟩ := hp.apart t s i hs hi
    refine ⟨fun k hk => hrunning k (h.running k i hk), ?_⟩
    intro hi'
    rcases h.left i hi' with hi' | ⟨k, hk, -⟩
    · exact hleaving hi'
    · exact hrunning k hk
  · intro t o s' r' ht ho hvalidation hkey
    obtain ⟨s, hs, hkin⟩ := h.back t s' ht
    obtain ⟨r, hr, hkin'⟩ := h.back o r' ho
    rw [hkin.validation, hkin'.validation] at hvalidation
    rw [hkin.key, hkin'.key] at hkey
    exact hp.uniqueKey t o s r hs hr hvalidation hkey
  · intro t o s' r' ht ho hvalidation hvalidation' hkey hpreview
    obtain ⟨s, hs, hkin⟩ := h.back t s' ht
    obtain ⟨r, hr, hkin'⟩ := h.back o r' ho
    rw [hkin.validation] at hvalidation
    rw [hkin'.validation] at hvalidation'
    rw [hkin.key, hkin'.key] at hkey
    rw [hkin.preview, hkin'.preview] at hpreview
    exact hp.uniqueSlot t o s r hs hr hvalidation hvalidation' hkey hpreview
  · intro t s' ht hvalidation i hway
    obtain ⟨s, hs, hkin⟩ := h.back t s' ht
    rw [hkin.validation] at hvalidation
    rw [hkin.key, hkin.preview] at hway
    apply hp.way t s hs hvalidation i
    apply inTheWay_of h.running _ hway
    intro y hy
    obtain ⟨x, hx, haged⟩ := h.ages.back i y hy
    exact ⟨x, hx, haged.key, haged.preview⟩

structure Tends (w w' : World) (t : ℕ) (s : Start) (stage : Stage) : Prop where
  keeps : ∀ i, s.stage.instance? = some i → stage.instance? = some i
  fresh : ∀ i, stage.instance? = some i → s.stage.instance? = some i ∨ w.instances i = none
  own : ∀ i, stage.instance? = some i → ∃ y, w'.instances i = some y ∧ y.key = s.key ∧ y.preview = s.preview ∧
    y.validation = s.validation ∧ y.starter = t ∧ stage.Fits y ∧
    (y.alive = true → y.launched = true ∧ (y.closing = .no ∨ y.closing = .begun))
  others : ∀ i, stage.instance? ≠ some i → w'.instances i = w.instances i

section

variable (hp : Placed w)
include hp

theorem Placed.not_own (ht : w.Pending t s) (htends : Tends w w' t s stage) :
    (∀ o r i, o ≠ t → w.Pending o r → r.stage.instance? = some i → stage.instance? ≠ some i) ∧
      (∀ k i, w.running k = some i → stage.instance? ≠ some i) ∧ ∀ i, w.Leaving i → stage.instance? ≠ some i := by
  refine ⟨?_, ?_, ?_⟩
  · intro o r i hot ho hr hi
    obtain ⟨x, hx, -, -, -, hstarter, -⟩ := hp.staged o r i ho hr
    rcases htends.fresh i hi with hown | hnone
    · obtain ⟨y, hy, -, -, -, hstarter', -⟩ := hp.staged t s i ht hown
      cases hx.symm.trans hy
      exact hot (hstarter.symm.trans hstarter')
    · cases hx.symm.trans hnone
  · intro k i hk hi
    obtain ⟨x, hx, -⟩ := hp.ran k i hk
    rcases htends.fresh i hi with hown | hnone
    · exact (hp.apart t s i ht hown).1 k hk
    · cases hx.symm.trans hnone
  · intro i hleaving hi
    obtain ⟨⟨x, hx, -⟩, -⟩ := hp.leaving i hleaving
    rcases htends.fresh i hi with hown | hnone
    · exact (hp.apart t s i ht hown).2 hleaving
    · cases hx.symm.trans hnone

theorem Placed.goes (ht : w.Pending t s) (hgoes : Goes w t (s.on stage) w') (hquiet : Quiet w w')
    (htends : Tends w w' t s stage) : Placed w' := by
  obtain ⟨hstarts, hruns, hleaves⟩ := hp.not_own ht htends
  have hself : w'.Pending t (s.on stage) := (hgoes _ _).mpr (.inl ⟨rfl, rfl⟩)
  have hpast {o : ℕ} {r : Start} (ho : w'.Pending o r) :
      ∃ r', w.Pending o r' ∧ r.key = r'.key ∧ r.preview = r'.preview ∧ r.validation = r'.validation := by
    rcases (hgoes o r).mp ho with ⟨rfl, rfl⟩ | ⟨-, ho⟩
    · exact ⟨s, ht, rfl, rfl, rfl⟩
    · exact ⟨r, ho, rfl, rfl, rfl⟩
  refine ⟨?_, ?_, ?_, ?_, ?_, ?_, ?_, ?_, ?_⟩
  · intro i y hy
    by_cases hi : stage.instance? = some i
    · obtain ⟨z, hz, -, -, -, -, -, halive⟩ := htends.own i hi
      cases hy.symm.trans hz
      exact halive
    · rw [htends.others i hi] at hy
      exact hp.alive i y hy
  · intro o r i ho hr
    rcases (hgoes o r).mp ho with ⟨rfl, rfl⟩ | ⟨hot, ho⟩
    · obtain ⟨y, hy, hkey, hpreview, hvalidation, hstarter, hfits, -⟩ := htends.own i hr
      exact ⟨y, hy, hkey, hpreview, hvalidation, hstarter, hfits⟩
    · rw [htends.others i (hstarts o r i hot ho hr)]
      exact hp.staged o r i ho hr
  · intro i y hy hopen
    by_cases hi : stage.instance? = some i
    · obtain ⟨z, hz, -, -, -, hstarter, -⟩ := htends.own i hi
      cases hy.symm.trans hz
      rw [hstarter]
      exact .inl ⟨s.on stage, hself, hi⟩
    · rw [htends.others i hi] at hy
      rw [hquiet.running, hquiet.leaving]
      rcases hp.placed i y hy hopen with ⟨r, hr, hri⟩ | hplaced
      · by_cases hot : y.starter = t
        · rw [hot] at hr
          cases ht.symm.trans hr
          exact absurd (htends.keeps i hri) hi
        · exact .inl ⟨r, (hgoes _ _).mpr (.inr ⟨hot, hr⟩), hri⟩
      · exact .inr hplaced
  · intro key i hi
    rw [hquiet.running] at hi
    rw [htends.others i (hruns key i hi)]
    exact hp.ran key i hi
  · intro i hi
    rw [hquiet.leaving] at hi
    rw [htends.others i (hleaves i hi), hquiet.running]
    exact hp.leaving i hi
  · intro o r i ho hr
    rw [hquiet.running, hquiet.leaving]
    rcases (hgoes o r).mp ho with ⟨rfl, rfl⟩ | ⟨_, ho⟩
    · exact ⟨fun k hk => hruns k i hk hr, fun hi => hleaves i hi hr⟩
    · exact hp.apart o r i ho hr
  · intro p o r r' hr hr' hvalidation hkey
    obtain ⟨q, hq, hqkey, -, hqvalidation⟩ := hpast hr
    obtain ⟨q', hq', hqkey', -, hqvalidation'⟩ := hpast hr'
    exact hp.uniqueKey p o q q' hq hq' (by rw [← hqvalidation, hvalidation, hqvalidation']) (by rw [← hqkey, hkey, hqkey'])
  · intro p o r _ hr hr' hvalidation hvalidation' hkey hpreview
    obtain ⟨q, hq, hqkey, hqpreview, hqvalidation⟩ := hpast hr
    obtain ⟨q', hq', hqkey', hqpreview', hqvalidation'⟩ := hpast hr'
    exact hp.uniqueSlot p o q q' hq hq' (hqvalidation ▸ hvalidation) (hqvalidation' ▸ hvalidation') (by rw [← hqkey, hkey, hqkey'])
      (by rw [← hqpreview, hpreview, hqpreview'])
  · intro o r ho hvalidation i hway
    obtain ⟨q, hq, hqkey, hqpreview, hqvalidation⟩ := hpast ho
    rw [hqkey, hqpreview] at hway
    apply hp.way o q hq (hqvalidation ▸ hvalidation) i
    obtain ⟨k, y, hk, hy, hrest⟩ := hway
    rw [hquiet.running] at hk
    rw [htends.others i (hruns k i hk)] at hy
    exact ⟨k, y, hk, hy, hrest⟩

theorem Placed.of_instances (hsame : w'.instances = w.instances) :
    (∀ i x, w'.instances i = some x → x.alive = true → x.launched = true ∧ (x.closing = .no ∨ x.closing = .begun)) := by
  rw [hsame]
  exact hp.alive

theorem Placed.born (ht : ∀ r, ¬ w.Pending t r) (hstage : s.stage.instance? = none) (hgoes : Goes w t s w')
    (hquiet : Quiet w w') (hsame : w'.instances = w.instances)
    (hkey : ∀ o r, w.Pending o r → r.validation = s.validation → r.key ≠ s.key)
    (hslot : s.validation = false → ∀ o r, w.Pending o r → r.validation = false → r.key.id = s.key.id → r.preview ≠ s.preview)
    (hway : s.validation = false → ∀ i, ¬ w.InTheWay s.key s.preview i) : Placed w' := by
  have hway' {key : Key} {preview : Bool} {i : ℕ} (h : w'.InTheWay key preview i) : w.InTheWay key preview i := by
    obtain ⟨k, x, hk, hx, hrest⟩ := h
    rw [hquiet.running] at hk
    rw [hsame] at hx
    exact ⟨k, x, hk, hx, hrest⟩
  refine ⟨hp.of_instances hsame, ?_, ?_, ?_, ?_, ?_, ?_, ?_, ?_⟩
  · intro o r i ho hr
    rw [hsame]
    rcases (hgoes o r).mp ho with ⟨rfl, rfl⟩ | ⟨-, ho⟩
    · cases hstage.symm.trans hr
    · exact hp.staged o r i ho hr
  · intro i x hx hopen
    rw [hsame] at hx
    rw [hquiet.running, hquiet.leaving]
    rcases hp.placed i x hx hopen with ⟨r, hr, hi⟩ | hplaced
    · refine .inl ⟨r, (hgoes _ _).mpr (.inr ⟨?_, hr⟩), hi⟩
      intro hot
      rw [hot] at hr
      exact ht r hr
    · exact .inr hplaced
  · rw [hquiet.running, hsame]
    exact hp.ran
  · intro i hi
    rw [hquiet.running, hsame]
    exact hp.leaving i ((hquiet.leaving i).mp hi)
  · intro o r i ho hr
    rw [hquiet.running, hquiet.leaving]
    rcases (hgoes o r).mp ho with ⟨rfl, rfl⟩ | ⟨-, ho⟩
    · cases hstage.symm.trans hr
    · exact hp.apart o r i ho hr
  · intro p o r r' hr hr' hvalidation hkeys
    rcases (hgoes p r).mp hr with ⟨rfl, rfl⟩ | ⟨-, hr⟩
    · rcases (hgoes o r').mp hr' with ⟨rfl, rfl⟩ | ⟨-, hr'⟩
      · rfl
      · exact absurd hkeys.symm (hkey o r' hr' hvalidation.symm)
    · rcases (hgoes o r').mp hr' with ⟨rfl, rfl⟩ | ⟨-, hr'⟩
      · exact absurd hkeys (hkey p r hr hvalidation)
      · exact hp.uniqueKey p o r r' hr hr' hvalidation hkeys
  · intro p o r r' hr hr' hvalidation hvalidation' hids hpreviews
    rcases (hgoes p r).mp hr with ⟨rfl, rfl⟩ | ⟨-, hr⟩
    · rcases (hgoes o r').mp hr' with ⟨rfl, rfl⟩ | ⟨-, hr'⟩
      · rfl
      · exact absurd hpreviews.symm (hslot hvalidation o r' hr' hvalidation' hids.symm)
    · rcases (hgoes o r').mp hr' with ⟨rfl, rfl⟩ | ⟨-, hr'⟩
      · exact absurd hpreviews (hslot hvalidation' p r hr hvalidation hids)
      · exact hp.uniqueSlot p o r r' hr hr' hvalidation hvalidation' hids hpreviews
  · intro o r ho hvalidation i h
    rcases (hgoes o r).mp ho with ⟨rfl, rfl⟩ | ⟨-, ho⟩
    · exact hway hvalidation i (hway' h)
    · exact hp.way o r ho hvalidation i (hway' h)

theorem Placed.ended (ht : w.Pending t s) (hclosed : ∀ i, s.stage.instance? = some i → w.IsClosed i) (hover : Over w t w')
    (hquiet : Quiet w w') (hsame : w'.instances = w.instances) : Placed w' := by
  refine ⟨hp.of_instances hsame, ?_, ?_, ?_, ?_, ?_, ?_, ?_, ?_⟩
  · intro o r i ho hr
    rw [hsame]
    exact hp.staged o r i ((hover o r).mp ho).2 hr
  · intro i x hx hopen
    rw [hsame] at hx
    rw [hquiet.running, hquiet.leaving]
    rcases hp.placed i x hx hopen with ⟨r, hr, hi⟩ | hplaced
    · refine .inl ⟨r, (hover _ _).mpr ⟨?_, hr⟩, hi⟩
      intro hot
      rw [hot] at hr
      cases ht.symm.trans hr
      obtain ⟨y, hy, hclosed⟩ := hclosed i hi
      cases hx.symm.trans hy
      exact hopen hclosed
    · exact .inr hplaced
  · rw [hquiet.running, hsame]
    exact hp.ran
  · intro i hi
    rw [hquiet.running, hsame]
    exact hp.leaving i ((hquiet.leaving i).mp hi)
  · intro o r i ho hr
    rw [hquiet.running, hquiet.leaving]
    exact hp.apart o r i ((hover o r).mp ho).2 hr
  · exact fun p o r r' hr hr' => hp.uniqueKey p o r r' ((hover p r).mp hr).2 ((hover o r').mp hr').2
  · exact fun p o r r' hr hr' => hp.uniqueSlot p o r r' ((hover p r).mp hr).2 ((hover o r').mp hr').2
  · intro o r ho hvalidation i h
    obtain ⟨k, x, hk, hx, hrest⟩ := h
    rw [hquiet.running] at hk
    rw [hsame] at hx
    exact hp.way o r ((hover o r).mp ho).2 hvalidation i ⟨k, x, hk, hx, hrest⟩

theorem Placed.landed (ht : w.Pending t s) (hs : s.stage = .launched i) (hacquire : s.validation = false)
    (hx : w.instances i = some x) (hover : Over w t w') (hrunning : w'.running = Function.update w.running s.key (some i))
    (hleaving : ∀ i, w'.Leaving i ↔ w.Leaving i)
    (hnew : w'.instances = Function.update w.instances i (some { x with active := x.active + 1 })) : Placed w' := by
  have hi : s.stage.instance? = some i := by rw [hs]; rfl
  obtain ⟨z, hz, hkey, hpreview, hvalidation, hstarter, hfits⟩ := hp.staged t s i ht hi
  cases hx.symm.trans hz
  rw [hs] at hfits
  have hlaunched : x.launched = true := hfits
  obtain ⟨hruns, hleaves⟩ := hp.apart t s i ht hi
  have hfree : w.running s.key = none := by
    cases hk : w.running s.key with
    | none => rfl
    | some j =>
      obtain ⟨y, hy, -⟩ := hp.ran s.key j hk
      exact absurd ⟨s.key, y, hk, hy, .inl rfl⟩ (hp.way t s ht hacquire j)
  have hinstance {j : ℕ} (hj : j ≠ i) : w'.instances j = w.instances j := by
    rw [hnew]
    exact update_of_ne hj ..
  have hself : w'.instances i = some { x with active := x.active + 1 } := by
    rw [hnew]
    exact update_self ..
  have hrun {k : Key} {j : ℕ} (hk : w'.running k = some j) : (k = s.key ∧ j = i) ∨ (w.running k = some j ∧ j ≠ i) := by
    rw [hrunning] at hk
    by_cases hks : k = s.key
    · subst hks
      rw [update_self] at hk
      exact .inl ⟨rfl, (Option.some.inj hk).symm⟩
    · rw [update_of_ne hks] at hk
      refine .inr ⟨hk, ?_⟩
      rintro rfl
      exact hruns k hk
  have hother {o : ℕ} {r : Start} {j : ℕ} (ho : w'.Pending o r) (hr : r.stage.instance? = some j) : w.Pending o r ∧ o ≠ t ∧ j ≠ i := by
    obtain ⟨hot, ho⟩ := (hover o r).mp ho
    refine ⟨ho, hot, ?_⟩
    rintro rfl
    obtain ⟨y, hy, -, -, -, hstarter', -⟩ := hp.staged o r j ho hr
    cases hx.symm.trans hy
    exact hot (hstarter'.symm.trans hstarter)
  refine ⟨?_, ?_, ?_, ?_, ?_, ?_, ?_, ?_, ?_⟩
  · intro j y hy
    by_cases hj : j = i
    · subst hj
      cases hself.symm.trans hy
      exact hp.alive j x hx
    · rw [hinstance hj] at hy
      exact hp.alive j y hy
  · intro o r j ho hr
    obtain ⟨ho, -, hj⟩ := hother ho hr
    rw [hinstance hj]
    exact hp.staged o r j ho hr
  · intro j y hy hopen
    by_cases hj : j = i
    · subst hj
      cases hself.symm.trans hy
      refine .inr ⟨hvalidation.trans hacquire, hlaunched, .inl ?_⟩
      change w'.running x.key = some j
      rw [hrunning, hkey, update_self]
    · rw [hinstance hj] at hy
      rw [hleaving]
      rcases hp.placed j y hy hopen with ⟨r, hr, hrj⟩ | ⟨hval, hlaunch, hrun | hleave⟩
      · refine .inl ⟨r, (hover _ _).mpr ⟨?_, hr⟩, hrj⟩
        intro hot
        rw [hot] at hr
        cases ht.symm.trans hr
        cases hi.symm.trans hrj
        exact hj rfl
      · refine .inr ⟨hval, hlaunch, .inl ?_⟩
        rw [hrunning, update_of_ne]
        · exact hrun
        · intro hyk
          rw [hyk, hfree] at hrun
          cases hrun
      · exact .inr ⟨hval, hlaunch, .inr hleave⟩
  · intro k j hk
    rcases hrun hk with ⟨rfl, rfl⟩ | ⟨hk, hj⟩
    · exact ⟨_, hself, hkey, hvalidation.trans hacquire, hlaunched⟩
    · rw [hinstance hj]
      exact hp.ran k j hk
  · intro j hj
    rw [hleaving] at hj
    obtain ⟨hy, hnot⟩ := hp.leaving j hj
    have hji : j ≠ i := by
      rintro rfl
      exact hleaves hj
    rw [hinstance hji]
    refine ⟨hy, fun k hk => ?_⟩
    rcases hrun hk with ⟨-, rfl⟩ | ⟨hk, -⟩
    · exact hji rfl
    · exact hnot k hk
  · intro o r j ho hr
    obtain ⟨ho, -, hj⟩ := hother ho hr
    obtain ⟨hnot, hnot'⟩ := hp.apart o r j ho hr
    rw [hleaving]
    refine ⟨fun k hk => ?_, hnot'⟩
    rcases hrun hk with ⟨-, rfl⟩ | ⟨hk, -⟩
    · exact hj rfl
    · exact hnot k hk
  · exact fun p o r r' hr hr' => hp.uniqueKey p o r r' ((hover p r).mp hr).2 ((hover o r').mp hr').2
  · exact fun p o r r' hr hr' => hp.uniqueSlot p o r r' ((hover p r).mp hr).2 ((hover o r').mp hr').2
  · rintro o r ho hval j ⟨k, y, hk, hy, hrest⟩
    obtain ⟨hot, ho⟩ := (hover o r).mp ho
    rcases hrun hk with ⟨rfl, rfl⟩ | ⟨hk, hj⟩
    · cases hself.symm.trans hy
      rcases hrest with hsame | ⟨hid, hsame⟩
      · exact hot (hp.uniqueKey t o s r ht ho (hacquire.trans hval.symm) hsame).symm
      · change x.key.id = r.key.id at hid
        change x.preview = r.preview at hsame
        rw [hkey] at hid
        rw [hpreview] at hsame
        exact hot (hp.uniqueSlot t o s r ht ho hacquire hval hid hsame).symm
    · rw [hinstance hj] at hy
      exact hp.way o r ho hval j ⟨k, y, hk, hy, hrest⟩

end

theorem tends_same (ht : w.Pending t s) (hp : Placed w) (hinstance : stage.instance? = s.stage.instance?)
    (hfits : ∀ i x, w.instances i = some x → s.stage.instance? = some i → s.stage.Fits x → stage.Fits x)
    (hsame : w'.instances = w.instances) : Tends w w' t s stage := by
  refine ⟨?_, ?_, ?_, ?_⟩
  · intro i hi
    rwa [hinstance]
  · intro i hi
    rw [hinstance] at hi
    exact .inl hi
  · intro i hi
    rw [hinstance] at hi
    obtain ⟨x, hx, hkey, hpreview, hvalidation, hstarter, hx'⟩ := hp.staged t s i ht hi
    rw [hsame]
    exact ⟨x, hx, hkey, hpreview, hvalidation, hstarter, hfits i x hx hi hx', hp.alive i x hx⟩
  · intro i _
    rw [hsame]

theorem Placed.moves (hp : Placed w) (h : Moves w e w') : Placed w' := by
  cases h with
  | eased h => exact hp.eased h
  | @staged _ _ _ s stage ht _ hinstance _ _ hunlaunched hlaunched hgoes hquiet hsame =>
    refine hp.goes ht hgoes hquiet (tends_same ht hp hinstance ?_ hsame)
    intro i x _ _ hfits
    cases stage with
    | launched j =>
      rw [hlaunched j (.inl rfl)] at hfits
      exact hfits
    | discarding j =>
      rw [hlaunched j (.inr rfl)] at hfits
      exact hfits
    | brokered j | authorizing j | granted j =>
      have hbefore := hunlaunched trivial
      cases hstage : s.stage with
      | brokered l | authorizing l | granted l =>
        rw [hstage] at hfits
        exact hfits
      | _ =>
        rw [hstage] at hbefore
        exact absurd hbefore (by simp [Stage.Unlaunched])
    | _ => trivial
  | @validated _ _ _ ht hs hgoes hquiet hsame =>
    refine hp.goes ht hgoes hquiet (tends_same ht hp ?_ (fun _ _ _ _ _ => trivial) hsame)
    rw [hs]
    rfl
  | @brokered _ _ _ _ _ ht hs hi hgoes hquiet hnew =>
    refine hp.goes ht hgoes hquiet ⟨?_, ?_, ?_, ?_⟩
    · intro j hj
      rw [hs] at hj
      cases hj
    · rintro j ⟨⟩
      exact .inr hi
    · rintro j ⟨⟩
      exact ⟨_, by rw [hnew, update_self], rfl, rfl, rfl, rfl, ⟨rfl, rfl⟩, by simp⟩
    · intro j hj
      rw [hnew, update_of_ne]
      rintro rfl
      exact hj rfl
  | @launched _ _ t i s x ht hs hx hgoes hquiet hnew =>
    have hi : s.stage.instance? = some i := by rw [hs]; rfl
    obtain ⟨z, hz, hkey, hpreview, hvalidation, hstarter, hfits⟩ := hp.staged t s i ht hi
    cases hx.symm.trans hz
    rw [hs] at hfits
    refine hp.goes ht hgoes hquiet ⟨?_, ?_, ?_, ?_⟩
    · intro j hj
      rw [hs] at hj
      exact hj
    · rintro j ⟨⟩
      exact .inl hi
    · rintro j ⟨⟩
      refine ⟨{ x with launched := true, alive := true }, by rw [hnew, update_self], hkey, hpreview, hvalidation, hstarter, rfl, ?_⟩
      exact fun _ => ⟨rfl, .inl hfits.2⟩
    · intro j hj
      rw [hnew, update_of_ne]
      rintro rfl
      exact hj rfl
  | @registered _ _ key _ ht _ hnone hway hgoes hquiet hsame =>
    refine hp.born ht rfl hgoes hquiet hsame ?_ ?_ (fun _ => hway)
    · intro o r ho hvalidation hkey
      exact hnone o false ⟨r, ho, hvalidation, hkey⟩
    · intro _ o r ho hvalidation hid hpreview
      by_cases hkey : r.key = key
      · exact hnone o false ⟨r, ho, hvalidation, hkey⟩
      · exact hnone o true ⟨r, ho, hvalidation, hkey, hid, hpreview⟩
  | built ht _ hbusy hgoes hquiet hsame => exact hp.born ht rfl hgoes hquiet hsame hbusy (by simp) (by simp)
  | ended ht hclosed hover hquiet hsame => exact hp.ended ht hclosed hover hquiet hsame
  | landed ht hs hacquire _ hx hover hrunning hleaving hnew => exact hp.landed ht hs hacquire hx hover hrunning hleaving hnew
  | crashed hpending hrunning hleaving hinstances =>
    refine ⟨?_, ?_, ?_, ?_, ?_, ?_, ?_, ?_, ?_⟩
    · intro i x hx
      cases (hinstances i).symm.trans hx
    · intro o r i ho
      exact absurd ho (hpending o r)
    · intro i x hx
      cases (hinstances i).symm.trans hx
    · intro k i hk
      cases (hrunning k).symm.trans hk
    · intro i hi
      exact absurd hi (hleaving i)
    · intro o r i ho
      exact absurd ho (hpending o r)
    · intro o p r r' ho
      exact absurd ho (hpending o r)
    · intro o p r _ ho
      exact absurd ho (hpending o r)
    · intro o r ho
      exact absurd ho (hpending o r)

end Placed

end WorkAgent.AppRunner
