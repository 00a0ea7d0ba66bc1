import WorkAgent.AppRunner.Exclusion

namespace WorkAgent.AppRunner

open Library Function

variable {w w' : World} {e : Event} {t o i j : ℕ} {key k : Key} {preview : Bool} {s r : Start} {x y : Instance} {c : Call}
  {found tried permitted : Set Key}

def Instance.Standing (x : Instance) : Prop := x.closing = .no ∨ x.closing = .begun ∨ x.closing = .killed

def World.Granted (w : World) (i : ℕ) (x : Instance) : Prop := x.launched = true ∨ ∃ t s, w.Pending t s ∧ s.stage = .granted i

structure Permits (w : World) : Prop where
  granted : ∀ i x, w.instances i = some x → x.Standing → w.Granted i x → x.key ∈ w.permitted ∧ x.key ∉ w.cleanup
  leased : ∀ key ∈ w.permitted, w.leases key = .written
  authorizing : ∀ t s i, w.Pending t s → s.stage = .authorizing i → w.network = some (.starter t) ∧ w.leases s.key = .written
  revoking : ∀ i x, w.instances i = some x → x.closing = .revoking → w.network = some (.closer i)
  sweeping : ∀ t found tried, w.calls t = some (.sweeping found tried) → w.network = some (.sweeper t) ∧
    ∀ k ∈ found, k ∉ tried → k ∈ w.cleanup

structure Settles (x y : Instance) : Prop where
  key : y.key = x.key
  launched : y.launched = true → x.launched = true
  standing : y.Standing → x.Standing
  revoking : y.closing = .revoking → x.closing = .revoking

theorem Settles.refl (x : Instance) : Settles x x := ⟨rfl, id, id, id⟩

def Call.Idle (c : Call) : Prop :=
  (∀ found tried, c ≠ .sweeping found tried) ∧ ∀ r, c = .starting r → ∀ i, r.stage ≠ .authorizing i ∧ r.stage ≠ .granted i

structure SameRules (w w' : World) : Prop where
  permitted : w'.permitted = w.permitted
  cleanup : w'.cleanup = w.cleanup
  leases : w'.leases = w.leases
  network : w'.network = w.network

theorem Permits.of (h : Permits w) (hrules : SameRules w w')
    (hinstances : ∀ i y, w'.instances i = some y → ∃ x, w.instances i = some x ∧ Settles x y)
    (hgranted : ∀ t r i, w'.Pending t r → r.stage = .granted i → ∃ o s, w.Pending o s ∧ s.stage = .granted i)
    (hauthorizing : ∀ t r i, w'.Pending t r → r.stage = .authorizing i → ∃ s, w.Pending t s ∧ s.stage = .authorizing i ∧ r.key = s.key)
    (hsweeping : ∀ t found tried, w'.calls t = some (.sweeping found tried) → w.calls t = some (.sweeping found tried)) : Permits w' := by
  refine ⟨?_, ?_, ?_, ?_, ?_⟩
  · intro i y hy hstands hgrant
    obtain ⟨x, hx, hsettles⟩ := hinstances i y hy
    rw [hrules.permitted, hrules.cleanup, hsettles.key]
    apply h.granted i x hx (hsettles.standing hstands)
    rcases hgrant with hlaunched | ⟨t, r, ht, hr⟩
    · exact .inl (hsettles.launched hlaunched)
    · exact .inr (hgranted t r i ht hr)
  · rw [hrules.permitted, hrules.leases]
    exact h.leased
  · intro t r i ht hr
    obtain ⟨s, hs, hstage, hkey⟩ := hauthorizing t r i ht hr
    rw [hrules.network, hrules.leases, hkey]
    exact h.authorizing t s i hs hstage
  · intro i y hy hclosing
    obtain ⟨x, hx, hsettles⟩ := hinstances i y hy
    rw [hrules.network]
    exact h.revoking i x hx (hsettles.revoking hclosing)
  · rw [hrules.network, hrules.cleanup]
    exact fun t found tried ht => h.sweeping t found tried (hsweeping t found tried ht)

theorem Permits.same (h : Permits w) (hrules : SameRules w w') (hcalls : w'.calls = w.calls)
    (hinstances : ∀ i y, w'.instances i = some y → ∃ x, w.instances i = some x ∧ Settles x y) : Permits w' := by
  refine h.of hrules hinstances ?_ ?_ ?_
  · exact fun t r i ht hr => ⟨t, r, (pending_congr hcalls).mp ht, hr⟩
  · exact fun t r i ht hr => ⟨r, (pending_congr hcalls).mp ht, hr, rfl⟩
  · rw [hcalls]
    exact fun _ _ _ h => h

theorem Permits.call (h : Permits w) (hrules : SameRules w w') (hcalls : w'.calls = (w.call t c).calls) (hc : c.Idle)
    (hinstances : ∀ i y, w'.instances i = some y → ∃ x, w.instances i = some x ∧ Settles x y) : Permits w' := by
  refine h.of hrules hinstances ?_ ?_ ?_
  · intro o r i ho hr
    rw [pending_congr hcalls, pending_call] at ho
    rcases ho with ⟨-, hc'⟩ | ⟨-, ho⟩
    · exact absurd hr (hc.2 r hc' i).2
    · exact ⟨o, r, ho, hr⟩
  · intro o r i ho hr
    rw [pending_congr hcalls, pending_call] at ho
    rcases ho with ⟨-, hc'⟩ | ⟨-, ho⟩
    · exact absurd hr (hc.2 r hc' i).1
    · exact ⟨r, ho, hr, rfl⟩
  · intro o found tried ho
    rw [hcalls] at ho
    by_cases hot : o = t
    · subst hot
      have hc' : c = .sweeping found tried := by simpa [World.call] using ho
      exact absurd hc' (hc.1 found tried)
    · exact (update_of_ne hot ..).symm.trans ho

theorem settles_same (h : w'.instances = w.instances) : ∀ i y, w'.instances i = some y → ∃ x, w.instances i = some x ∧ Settles x y := by
  rw [h]
  exact fun i y hy => ⟨y, hy, .refl y⟩

theorem settles_put (hx : w.instances i = some x) (hxy : Settles x y) (h : w'.instances = Function.update w.instances i (some y)) :
    ∀ i y, w'.instances i = some y → ∃ x, w.instances i = some x ∧ Settles x y := by
  intro j z hz
  rw [h] at hz
  by_cases hj : j = i
  · subst hj
    rw [update_self] at hz
    cases hz
    exact ⟨x, hx, hxy⟩
  · rw [update_of_ne hj] at hz
    exact ⟨z, hz, .refl z⟩

theorem idle_of_not_start (h : ¬ c.IsStart) (hc : ∀ found tried, c ≠ .sweeping found tried) : c.Idle :=
  ⟨hc, fun r hr => absurd ⟨r, hr⟩ h⟩

theorem Permits.takeOut {target : Target} (h : Permits w) (ht : w.calls t = some (.stopping target)) : Permits (w.takeOut t target) := by
  have heased := eased_takeOut ht
  refine h.of ⟨rfl, rfl, rfl, rfl⟩ (settles_same rfl) ?_ ?_ ?_
  · intro o r i ho hr
    obtain ⟨s, hs, hkin⟩ := heased.back o r ho
    exact ⟨o, s, hs, hkin.stage ▸ hr⟩
  · intro o r i ho hr
    obtain ⟨s, hs, hkin⟩ := heased.back o r ho
    exact ⟨s, hs, hkin.stage ▸ hr, hkin.key⟩
  · intro o _ _ ho
    by_cases hot : o = t
    · subst hot
      cases takeOut_calls_self.symm.trans ho
    · obtain ⟨c, hc, hstop⟩ := Option.map_eq_some_iff.mp ((takeOut_calls_ne hot).symm.trans ho)
      rw [hc]
      cases c with
      | starting =>
        simp only [Call.stop] at hstop
        split at hstop <;> cases hstop
      | _ => exact congrArg some hstop

structure Unheld (w : World) : Prop where
  authorizing : ∀ t s i, w.Pending t s → s.stage ≠ .authorizing i
  revoking : ∀ i x, w.instances i = some x → x.closing ≠ .revoking
  sweeping : ∀ t found tried, w.calls t ≠ some (.sweeping found tried)

theorem Permits.unheld (h : Permits w) (hnetwork : w.network = none) : Unheld w := by
  refine ⟨?_, ?_, ?_⟩
  · intro t s i ht hs
    cases hnetwork.symm.trans (h.authorizing t s i ht hs).1
  · intro i x hx hclosing
    cases hnetwork.symm.trans (h.revoking i x hx hclosing)
  · intro t found tried ht
    cases hnetwork.symm.trans (h.sweeping t found tried ht).1

theorem Unheld.permits (h : Unheld w)
    (hgranted : ∀ i x, w.instances i = some x → x.Standing → w.Granted i x → x.key ∈ w.permitted ∧ x.key ∉ w.cleanup)
    (hleased : ∀ key ∈ w.permitted, w.leases key = .written) : Permits w :=
  ⟨hgranted, hleased, fun t s i ht hs => absurd hs (h.authorizing t s i ht), fun i x hx hc => absurd hc (h.revoking i x hx),
    fun t found tried ht => absurd ht (h.sweeping t found tried)⟩

theorem Unheld.call (h : Unheld w) (hcalls : w'.calls = (w.call t c).calls) (hsame : w'.instances = w.instances)
    (hc : ∀ r i, c = .starting r → r.stage ≠ .authorizing i) (hsweeping : ∀ found tried, c ≠ .sweeping found tried) : Unheld w' := by
  refine ⟨?_, ?_, ?_⟩
  · intro o r i ho
    rw [pending_congr hcalls, pending_call] at ho
    rcases ho with ⟨-, hr⟩ | ⟨-, ho⟩
    · exact hc r i hr
    · exact h.authorizing o r i ho
  · rw [hsame]
    exact h.revoking
  · intro o found tried ho
    rw [hcalls] at ho
    by_cases hot : o = t
    · subst hot
      have hc' : c = .sweeping found tried := by simpa [World.call] using ho
      exact hsweeping found tried hc'
    · exact h.sweeping o found tried ((update_of_ne hot ..).symm.trans ho)

theorem Permits.unheld_starter (h : Permits w) (ht : w.Pending t s) (hs : s.stage = .authorizing i)
    (hr : ∀ i, r.stage ≠ .authorizing i) (hcalls : w'.calls = (w.call t (.starting r)).calls) (hsame : w'.instances = w.instances) :
    Unheld w' := by
  obtain ⟨hnetwork, -⟩ := h.authorizing t s i ht hs
  refine ⟨?_, ?_, ?_⟩
  · intro o r' j ho
    rw [pending_congr hcalls, pending_call] at ho
    rcases ho with ⟨-, hc⟩ | ⟨hot, ho⟩
    · cases Call.starting.inj hc
      exact hr j
    · intro hstage
      cases hnetwork.symm.trans (h.authorizing o r' j ho hstage).1
      exact hot rfl
  · rw [hsame]
    intro j y hy hclosing
    cases hnetwork.symm.trans (h.revoking j y hy hclosing)
  · intro o found tried ho
    rw [hcalls] at ho
    by_cases hot : o = t
    · subst hot
      simp [World.call] at ho
    · cases hnetwork.symm.trans (h.sweeping o found tried ((update_of_ne hot ..).symm.trans ho)).1

theorem Permits.unheld_closer (h : Permits w) (hx : w.instances i = some x) (hclosing : x.closing = .revoking)
    (hcalls : w'.calls = w.calls) (hinstances : w'.instances = Function.update w.instances i (some { x with closing := .closed })) :
    Unheld w' := by
  have hnetwork := h.revoking i x hx hclosing
  refine ⟨?_, ?_, ?_⟩
  · intro o r j ho hstage
    cases hnetwork.symm.trans (h.authorizing o r j ((pending_congr hcalls).mp ho) hstage).1
  · intro j y hy
    rw [hinstances] at hy
    by_cases hj : j = i
    · subst hj
      rw [update_self] at hy
      cases hy
      simp
    · rw [update_of_ne hj] at hy
      intro hrevoking
      cases hnetwork.symm.trans (h.revoking j y hy hrevoking)
      exact hj rfl
  · rw [hcalls]
    intro o found tried ho
    cases hnetwork.symm.trans (h.sweeping o found tried ho).1

theorem Permits.unheld_sweeper (h : Permits w) (ht : w.calls t = some (.sweeping found tried)) (hc : ¬ c.IsStart)
    (hsweeping : ∀ found tried, c ≠ .sweeping found tried) (hcalls : w'.calls = (w.call t c).calls) (hsame : w'.instances = w.instances) :
    Unheld w' := by
  obtain ⟨hnetwork, -⟩ := h.sweeping t found tried ht
  refine ⟨?_, ?_, ?_⟩
  · intro o r j ho hstage
    rw [pending_congr hcalls, pending_call] at ho
    rcases ho with ⟨-, rfl⟩ | ⟨-, ho⟩
    · exact hc ⟨r, rfl⟩
    · cases hnetwork.symm.trans (h.authorizing o r j ho hstage).1
  · rw [hsame]
    intro j y hy hclosing
    cases hnetwork.symm.trans (h.revoking j y hy hclosing)
  · intro o found' tried' ho
    rw [hcalls] at ho
    by_cases hot : o = t
    · subst hot
      have hc' : c = .sweeping found' tried' := by simpa [World.call] using ho
      exact hsweeping found' tried' hc'
    · cases hnetwork.symm.trans (h.sweeping o found' tried' ((update_of_ne hot ..).symm.trans ho)).1
      exact hot rfl

theorem Permits.outside (h : Permits w) {permitted cleanup : Set Key} (hpermitted : w.Outside key permitted)
    (hcleanup : ∀ k, k ≠ key → (k ∈ cleanup ↔ k ∈ w.cleanup))
    (hback : ∀ i y, w'.instances i = some y → y.Standing → w'.Granted i y → ∃ x, w.instances i = some x ∧ x.Standing ∧ w.Granted i x ∧
      x.key = y.key ∧ y.key ≠ key) :
    ∀ i y, w'.instances i = some y → y.Standing → w'.Granted i y → y.key ∈ permitted ∧ y.key ∉ cleanup := by
  intro i y hy hstands hgrant
  obtain ⟨x, hx, hstands', hgrant', hkey, hne⟩ := hback i y hy hstands hgrant
  rw [hpermitted y.key hne, hcleanup y.key hne, ← hkey]
  exact h.granted i x hx hstands' hgrant'

theorem granted_of_call (h : (w.call t c).Granted i x) (hc : ∀ r i, c = .starting r → r.stage ≠ .granted i) : w.Granted i x := by
  rcases h with hlaunched | ⟨o, r, ho, hr⟩
  · exact .inl hlaunched
  · rcases pending_call.mp ho with ⟨-, hc'⟩ | ⟨-, ho⟩
    · exact absurd hr (hc r i hc')
    · exact .inr ⟨o, r, ho, hr⟩

theorem Exclusive.standing_ne (hx : Exclusive w) (hp : Placed w) (ht : w.Pending t s) (hs : s.stage = .authorizing i)
    (hy : w.instances j = some y) (hstands : y.Standing) (hgrant : w.Granted j y) : y.key ≠ s.key := by
  intro hkey
  have hi : s.stage.instance? = some i := by rw [hs]; rfl
  have hopen : y.closing ≠ .closed := by
    rcases hstands with h | h | h
    all_goals simp [h]
  have howned := hx.own t s j y ht (by simp [hs]) hy hopen hkey
  obtain rfl : i = j := Option.some.inj (hi.symm.trans howned)
  obtain ⟨z, hz, -, -, -, hstarter, hfits⟩ := hp.staged t s i ht hi
  cases hy.symm.trans hz
  rw [hs] at hfits
  rcases hgrant with hlaunched | ⟨o, r, ho, hr⟩
  · rw [hfits.1] at hlaunched
    cases hlaunched
  · obtain ⟨u, hu, -, -, -, hstarter', -⟩ := hp.staged o r i ho (by rw [hr]; rfl)
    cases hy.symm.trans hu
    obtain rfl : t = o := hstarter.symm.trans hstarter'
    cases ht.symm.trans ho
    rw [hs] at hr
    cases hr

theorem Exclusive.standing_ne_closing (h : Exclusive w) (hx : w.instances i = some x) (hclosing : x.closing = .revoking)
    (hy : w.instances j = some y) (hstands : y.Standing) : y.key ≠ x.key := by
  intro hkey
  have hopen : y.closing ≠ .closed := by
    rcases hstands with h | h | h
    all_goals simp [h]
  obtain rfl := h.keys j i y x hy hx hopen (by simp [hclosing]) hkey
  cases hx.symm.trans hy
  rcases hstands with h | h | h
  all_goals
    rw [hclosing] at h
    cases h

section

variable (h : Permits w)
include h

theorem Permits.leases (ht : w.Pending t s) (hnetwork : w.network = none) :
    Permits (((w.lease s.key .written).hold (.starter t)).call t (.starting (s.on (.authorizing i)))) := by
  have hfree := h.unheld hnetwork
  refine ⟨?_, ?_, ?_, ?_, ?_⟩
  · intro j y hy hstands hgrant
    have hgrant' : w.Granted j y := by
      refine granted_of_call (t := t) (c := .starting (s.on (.authorizing i))) hgrant ?_
      rintro r l hr
      cases Call.starting.inj hr
      simp
    exact h.granted j y hy hstands hgrant'
  · intro k hk
    by_cases hkey : k = s.key
    · subst hkey
      exact update_self ..
    · exact (update_of_ne hkey ..).trans (h.leased k hk)
  · intro o r j ho hr
    rcases pending_call.mp ho with ⟨rfl, hc⟩ | ⟨-, ho⟩
    · cases Call.starting.inj hc
      exact ⟨rfl, update_self ..⟩
    · exact absurd hr (hfree.authorizing o r j ho)
  · exact fun j y hy hclosing => absurd hclosing (hfree.revoking j y hy)
  · intro o found tried ho
    by_cases hot : o = t
    · subst hot
      simp [World.call] at ho
    · exact absurd ((update_of_ne hot ..).symm.trans ho) (hfree.sweeping o found tried)

theorem Permits.leaseBreaks (hnetwork : w.network = none) (hcareful : s.key ∉ w.permitted) :
    Permits ((w.lease s.key .broken).call t (.starting (s.on (.failing (some i))))) := by
  have hstage : ∀ r j, Call.starting (s.on (.failing (some i))) = .starting r → r.stage ≠ .authorizing j ∧ r.stage ≠ .granted j := by
    rintro r j hr
    cases Call.starting.inj hr
    exact ⟨(by simp), (by simp)⟩
  have hfree : Unheld ((w.lease s.key .broken).call t (.starting (s.on (.failing (some i))))) :=
    (h.unheld hnetwork).call rfl rfl (fun r j hr => (hstage r j hr).1) (by simp)
  refine hfree.permits ?_ ?_
  · intro j y hy hstands hgrant
    exact h.granted j y hy hstands (granted_of_call (t := t) hgrant fun r j hr => (hstage r j hr).2)
  · intro k hk
    have hkey : k ≠ s.key := by
      rintro rfl
      exact hcareful hk
    exact (update_of_ne hkey ..).trans (h.leased k hk)

theorem Permits.grants (hp : Placed w) (ht : w.Pending t s) (hs : s.stage = .authorizing i) :
    Permits ((((w.permit (insert s.key w.permitted)).clean (w.cleanup \ {s.key})).free).call t (.starting (s.on (.granted i)))) := by
  refine Unheld.permits ?_ ?_ ?_
  · exact h.unheld_starter ht hs (r := s.on (.granted i)) (by simp) rfl rfl
  · intro j y hy hstands hgrant
    by_cases hkey : y.key = s.key
    · exact ⟨.inl hkey, fun hin => hin.2 hkey⟩
    · have hbefore : w.Granted j y := by
        rcases hgrant with hlaunched | ⟨o, r, ho, hr⟩
        · exact .inl hlaunched
        · rcases pending_call.mp ho with ⟨rfl, hc⟩ | ⟨-, ho⟩
          · cases Call.starting.inj hc
            obtain rfl : i = j := Stage.granted.inj hr
            obtain ⟨z, hz, hzkey, -⟩ := hp.staged o s i ht (by rw [hs]; rfl)
            cases hy.symm.trans hz
            exact absurd hzkey hkey
          · exact .inr ⟨o, r, ho, hr⟩
      obtain ⟨hin, hout⟩ := h.granted j y hy hstands hbefore
      exact ⟨.inr hin, fun hin => hout hin.1⟩
  · intro k hk
    rcases hk with rfl | hk
    · exact (h.authorizing t s i ht hs).2
    · exact h.leased k hk

theorem Permits.denies (hp : Placed w) (hx : Exclusive w) (ht : w.Pending t s) (hs : s.stage = .authorizing i)
    (hpermitted : w.Outside s.key permitted) :
    Permits ((((w.permit permitted).clean (w.cleanup \ {s.key})).free).call t (.starting (s.on (.failing (some i))))) := by
  refine Unheld.permits ?_ ?_ ?_
  · exact h.unheld_starter ht hs (r := s.on (.failing (some i))) (by simp) rfl rfl
  · refine h.outside hpermitted ?_ ?_
    · intro k hk
      simp [World.clean, World.free, World.call, hk]
    · intro j y hy hstands hgrant
      have hgrant' : w.Granted j y := by
        refine granted_of_call (t := t) (c := .starting (s.on (.failing (some i)))) hgrant ?_
        rintro r l hr
        cases Call.starting.inj hr
        simp
      exact ⟨y, hy, hstands, hgrant', rfl, hx.standing_ne hp ht hs hy hstands hgrant'⟩
  · intro k hk
    by_cases hkey : k = s.key
    · subst hkey
      exact (h.authorizing t s i ht hs).2
    · exact h.leased k ((hpermitted k hkey).mp hk)

theorem Permits.asks (hx : w.instances i = some x) (hnetwork : w.network = none) :
    Permits ((w.put i { x with closing := .revoking }).hold (.closer i)) := by
  have hfree := h.unheld hnetwork
  have hinstance {j : ℕ} {y : Instance} (hy : ((w.put i { x with closing := .revoking }).hold (.closer i)).instances j = some y) :
      (j = i ∧ y.closing = .revoking) ∨ w.instances j = some y := by
    by_cases hj : j = i
    · subst hj
      obtain rfl : { x with closing := .revoking } = y := by simpa [World.put, World.hold] using hy
      exact .inl ⟨rfl, rfl⟩
    · exact .inr ((update_of_ne hj ..).symm.trans hy)
  refine ⟨?_, h.leased, ?_, ?_, ?_⟩
  · intro j y hy hstands hgrant
    rcases hinstance hy with ⟨-, hclosing⟩ | hy
    · rcases hstands with h | h | h
      all_goals
        rw [hclosing] at h
        cases h
    · exact h.granted j y hy hstands hgrant
  · exact fun o r j ho hr => absurd hr (hfree.authorizing o r j ho)
  · intro j y hy hclosing
    rcases hinstance hy with ⟨rfl, -⟩ | hy
    · rfl
    · exact absurd hclosing (hfree.revoking j y hy)
  · exact fun o found tried ho => absurd ho (hfree.sweeping o found tried)

theorem Permits.answered {cleanup : Set Key} {lease : Lease} (hx : Exclusive w) (hi : w.instances i = some x)
    (hclosing : x.closing = .revoking) (hpermitted : w.Outside x.key permitted)
    (hcleanup : ∀ k, k ≠ x.key → (k ∈ cleanup ↔ k ∈ w.cleanup)) (hlease : x.key ∈ permitted → lease = .written) :
    Permits (((((w.permit permitted).clean cleanup).lease x.key lease).put i { x with closing := .closed }).free) := by
  refine Unheld.permits ?_ ?_ ?_
  · exact h.unheld_closer hi hclosing rfl rfl
  · refine h.outside hpermitted hcleanup ?_
    intro j y hy hstands hgrant
    by_cases hj : j = i
    · subst hj
      obtain rfl : { x with closing := .closed } = y := by simpa [World.put, World.free] using hy
      rcases hstands with h | h | h
      all_goals cases h
    · have hy' : w.instances j = some y := (update_of_ne hj ..).symm.trans hy
      exact ⟨y, hy', hstands, hgrant, rfl, hx.standing_ne_closing hi hclosing hy' hstands⟩
  · intro k hk
    by_cases hkey : k = x.key
    · subst hkey
      exact (update_self ..).trans (hlease hk)
    · exact (update_of_ne hkey ..).trans (h.leased k ((hpermitted k hkey).mp hk))

theorem Permits.sweeps (hnetwork : w.network = none) :
    Permits ((w.call t (.sweeping w.cleanup ∅)).hold (.sweeper t)) := by
  have hfree := h.unheld hnetwork
  refine ⟨?_, h.leased, ?_, ?_, ?_⟩
  · intro j y hy hstands hgrant
    exact h.granted j y hy hstands (granted_of_call (t := t) (c := .sweeping w.cleanup ∅) hgrant (by simp))
  · intro o r j ho hr
    rcases pending_call.mp ho with ⟨-, hc⟩ | ⟨-, ho⟩
    · cases hc
    · exact absurd hr (hfree.authorizing o r j ho)
  · exact fun j y hy hclosing => absurd hclosing (hfree.revoking j y hy)
  · intro o found tried ho
    by_cases hot : o = t
    · subst hot
      obtain ⟨rfl, rfl⟩ : w.cleanup = found ∧ ∅ = tried := by simpa [World.call, World.hold] using ho
      exact ⟨rfl, fun k hk _ => hk⟩
    · exact absurd ((update_of_ne hot ..).symm.trans ho) (hfree.sweeping o found tried)

section

variable (ht : w.calls t = some (.sweeping found tried)) (hkey : key ∈ found \ tried)
include ht hkey

theorem Permits.standing_ne_swept (hy : w.instances j = some y) (hstands : y.Standing) (hgrant : w.Granted j y) : y.key ≠ key := by
  rintro rfl
  exact (h.granted j y hy hstands hgrant).2 ((h.sweeping t found tried ht).2 _ hkey.1 hkey.2)

theorem Permits.sweepRevokes : Permits ((((w.permit (w.permitted \ {key})).clean (w.cleanup \ {key})).lease key .absent).call t
      (.sweeping found (insert key tried))) := by
  obtain ⟨hnetwork, hleft⟩ := h.sweeping t found tried ht
  refine ⟨?_, ?_, ?_, ?_, ?_⟩
  · apply h.outside
    · intro k (hk : k ≠ key)
      exact ⟨And.left, fun hin => ⟨hin, hk⟩⟩
    · intro k hk
      exact ⟨And.left, fun hin => ⟨hin, hk⟩⟩
    · intro j y hy hstands hgrant
      have hgrant' : w.Granted j y := granted_of_call (t := t) (c := .sweeping found (insert key tried)) hgrant (by simp)
      exact ⟨y, hy, hstands, hgrant', rfl, h.standing_ne_swept ht hkey hy hstands hgrant'⟩
  · rintro k ⟨hk, hne⟩
    exact (update_of_ne hne ..).trans (h.leased k hk)
  · intro o r j ho hr
    rcases pending_call.mp ho with ⟨-, hc⟩ | ⟨-, ho⟩
    · cases hc
    · cases hnetwork.symm.trans (h.authorizing o r j ho hr).1
  · intro j y hy hclosing
    cases hnetwork.symm.trans (h.revoking j y hy hclosing)
  · intro o found' tried' ho
    by_cases hot : o = t
    · subst hot
      obtain ⟨rfl, rfl⟩ : found = found' ∧ insert key tried = tried' := by simpa [World.call] using ho
      refine ⟨hnetwork, fun k hk hout => ⟨hleft k hk fun hin => hout (.inr hin), ?_⟩⟩
      rintro rfl
      exact hout (.inl rfl)
    · cases hnetwork.symm.trans (h.sweeping o found' tried' ((update_of_ne hot ..).symm.trans ho)).1
      exact absurd rfl hot

theorem Permits.sweepFails (hpermitted : w.Outside key permitted) (hless : permitted ⊆ w.permitted) :
    Permits (((w.permit permitted).call t (.swept found (insert key tried))).free) := by
  refine Unheld.permits ?_ ?_ ?_
  · exact h.unheld_sweeper (c := .swept found (insert key tried)) ht (by simp [Call.IsStart]) (by simp) rfl rfl
  · refine h.outside hpermitted (fun _ _ => .rfl) ?_
    intro j y hy hstands hgrant
    have hgrant' : w.Granted j y := granted_of_call (t := t) (c := .swept found (insert key tried)) hgrant (by simp)
    exact ⟨y, hy, hstands, hgrant', rfl, h.standing_ne_swept ht hkey hy hstands hgrant'⟩
  · exact fun k hk => h.leased k (hless hk)

end

theorem Permits.sweepEnds (ht : w.calls t = some (.sweeping found tried)) :
    Permits ((w.call t (.swept found tried)).free) := by
  refine Unheld.permits ?_ ?_ h.leased
  · exact h.unheld_sweeper (c := .swept found tried) ht (by simp [Call.IsStart]) (by simp) rfl rfl
  intro j y hy hstands hgrant
  exact h.granted j y hy hstands (granted_of_call (t := t) (c := .swept found tried) hgrant (by simp))

theorem Permits.brokers (hp : Placed w) (hi : w.instances i = none) :
    Permits ((w.put i ⟨s.key, s.preview, s.validation, t, false, false, 0, .no⟩).call t (.starting (s.on (.brokered i)))) := by
  have hinstance {j : ℕ} {y : Instance} (hy : (w.put i ⟨s.key, s.preview, s.validation, t, false, false, 0, .no⟩).instances j = some y) :
      (j = i ∧ y = ⟨s.key, s.preview, s.validation, t, false, false, 0, .no⟩) ∨ w.instances j = some y := by
    by_cases hj : j = i
    · subst hj
      exact .inl ⟨rfl, by simpa [World.put, eq_comm] using hy⟩
    · exact .inr ((update_of_ne hj ..).symm.trans hy)
  have hpast {o : ℕ} {r : Start}
      (ho : ((w.put i ⟨s.key, s.preview, s.validation, t, false, false, 0, .no⟩).call t (.starting (s.on (.brokered i)))).Pending o r) :
      r.stage = .brokered i ∨ w.Pending o r := by
    rcases pending_call.mp ho with ⟨-, hc⟩ | ⟨-, ho⟩
    · cases Call.starting.inj hc
      exact .inl rfl
    · exact .inr ho
  refine ⟨?_, h.leased, ?_, ?_, ?_⟩
  · intro j y hy hstands hgrant
    have hgrant' : y.launched = true ∨ ∃ o r, w.Pending o r ∧ r.stage = .granted j := by
      rcases hgrant with hlaunched | ⟨o, r, ho, hr⟩
      · exact .inl hlaunched
      · rcases hpast ho with hstage | ho
        · rw [hr] at hstage
          cases hstage
        · exact .inr ⟨o, r, ho, hr⟩
    rcases hinstance hy with ⟨rfl, rfl⟩ | hy
    · rcases hgrant' with hlaunched | ⟨o, r, ho, hr⟩
      · cases hlaunched
      · obtain ⟨z, hz, -⟩ := hp.staged o r j ho (by rw [hr]; rfl)
        cases hi.symm.trans hz
    · exact h.granted j y hy hstands hgrant'
  · intro o r j ho hr
    rcases hpast ho with hstage | ho
    · rw [hr] at hstage
      cases hstage
    · exact h.authorizing o r j ho hr
  · intro j y hy hclosing
    rcases hinstance hy with ⟨rfl, rfl⟩ | hy
    · cases hclosing
    · exact h.revoking j y hy hclosing
  · intro o found tried ho
    by_cases hot : o = t
    · subst hot
      simp [World.call] at ho
    · exact h.sweeping o found tried ((update_of_ne hot ..).symm.trans ho)

theorem Permits.launches (ht : w.Pending t s) (hs : s.stage = .granted i) (hx : w.instances i = some x) :
    Permits ((w.put i { x with launched := true, alive := true }).call t (.starting (s.on (.launched i)))) := by
  have hinstance {j : ℕ} {y : Instance} (hy : (w.put i { x with launched := true, alive := true }).instances j = some y) :
      (j = i ∧ y = { x with launched := true, alive := true }) ∨ w.instances j = some y := by
    by_cases hj : j = i
    · subst hj
      exact .inl ⟨rfl, by simpa [World.put, eq_comm] using hy⟩
    · exact .inr ((update_of_ne hj ..).symm.trans hy)
  have hpast {o : ℕ} {r : Start}
      (ho : ((w.put i { x with launched := true, alive := true }).call t (.starting (s.on (.launched i)))).Pending o r) :
      r.stage = .launched i ∨ w.Pending o r := by
    rcases pending_call.mp ho with ⟨-, hc⟩ | ⟨-, ho⟩
    · cases Call.starting.inj hc
      exact .inl rfl
    · exact .inr ho
  refine ⟨?_, h.leased, ?_, ?_, ?_⟩
  · intro j y hy hstands hgrant
    rcases hinstance hy with ⟨rfl, rfl⟩ | hy
    · exact h.granted j x hx hstands (.inr ⟨t, s, ht, hs⟩)
    · refine h.granted j y hy hstands ?_
      rcases hgrant with hlaunched | ⟨o, r, ho, hr⟩
      · exact .inl hlaunched
      · rcases hpast ho with hstage | ho
        · rw [hr] at hstage
          cases hstage
        · exact .inr ⟨o, r, ho, hr⟩
  · intro o r j ho hr
    rcases hpast ho with hstage | ho
    · rw [hr] at hstage
      cases hstage
    · exact h.authorizing o r j ho hr
  · intro j y hy hclosing
    rcases hinstance hy with ⟨rfl, rfl⟩ | hy
    · exact h.revoking j x hx hclosing
    · exact h.revoking j y hy hclosing
  · intro o found tried ho
    by_cases hot : o = t
    · subst hot
      simp [World.call] at ho
    · exact h.sweeping o found tried ((update_of_ne hot ..).symm.trans ho)

end

theorem idle_stage {stage : Stage} (h : ∀ i, stage ≠ .authorizing i ∧ stage ≠ .granted i) : (Call.starting (s.on stage)).Idle := by
  refine ⟨(by simp), ?_⟩
  rintro r hr i
  cases Call.starting.inj hr
  exact h i

theorem Permits.step (h : Permits w) (hp : Placed w) (hx : Exclusive w) (hstep : Step w e w') (hcareful : Careful w e) :
    Permits w' := by
  have hidle {c : Call} (hc : ¬ c.IsStart) (hs : ∀ found tried, c ≠ .sweeping found tried) : c.Idle := idle_of_not_start hc hs
  cases hstep with
  | acquires | snapshots | stops =>
    exact h.call (t := w.next) ⟨rfl, rfl, rfl, rfl⟩ rfl (hidle (by simp [Call.IsStart]) (by simp)) (settles_same rfl)
  | gives ht | waits ht | retries ht | clears ht | stopped ht | drops ht | ends ht | snapshotEnds ht =>
    exact h.call ⟨rfl, rfl, rfl, rfl⟩ rfl (hidle (by simp [Call.IsStart]) (by simp)) (settles_same rfl)
  | @conflicts t other _ _ s ht _ _ _ _ hs =>
    have heased := eased_conflict ht hs
    refine h.of ⟨rfl, rfl, rfl, rfl⟩ (settles_same rfl) ?_ ?_ ?_
    · intro o r i ho hr
      obtain ⟨s, hs, hkin⟩ := heased.back o r ho
      exact ⟨o, s, hs, hkin.stage ▸ hr⟩
    · intro o r i ho hr
      obtain ⟨s, hs, hkin⟩ := heased.back o r ho
      exact ⟨s, hs, hkin.stage ▸ hr, hkin.key⟩
    · intro o found tried ho
      by_cases hot : o = t
      · subst hot
        simp [World.call] at ho
      · by_cases hoo : o = other
        · subst hoo
          simp [World.call, hot] at ho
        · simpa [World.call, hot, hoo] using ho
  | @serves _ _ _ _ x _ _ _ _ _ hx | @lands _ _ _ x _ _ _ _ _ _ hx =>
    have hsettles : Settles x { x with active := x.active + 1 } := ⟨rfl, id, id, id⟩
    exact h.call ⟨rfl, rfl, rfl, rfl⟩ rfl (hidle (by simp [Call.IsStart]) (by simp)) (settles_put hx hsettles rfl)
  | @releases _ _ x _ _ hx =>
    have hsettles : Settles x { x with active := x.active - 1 } := ⟨rfl, id, id, id⟩
    exact h.call ⟨rfl, rfl, rfl, rfl⟩ rfl (hidle (by simp [Call.IsStart]) (by simp)) (settles_put hx hsettles rfl)
  | deletes => exact h.same ⟨rfl, rfl, rfl, rfl⟩ rfl (settles_same rfl)
  | @registers _ key preview =>
    have hstart : (Call.starting ⟨key, preview, false, false, .preparing⟩).Idle := by
      refine ⟨(by simp), ?_⟩
      rintro r ⟨⟩ i
      exact ⟨(by simp), (by simp)⟩
    exact h.call ⟨rfl, rfl, rfl, rfl⟩ rfl hstart (settles_same rfl)
  | @builds _ key preview =>
    have hstart : (Call.starting ⟨key, preview, true, false, .building⟩).Idle := by
      refine ⟨(by simp), ?_⟩
      rintro r ⟨⟩ i
      exact ⟨(by simp), (by simp)⟩
    exact h.call ⟨rfl, rfl, rfl, rfl⟩ rfl hstart (settles_same rfl)
  | validates | fails | discards =>
    exact h.call ⟨rfl, rfl, rfl, rfl⟩ rfl (idle_stage fun i => ⟨(by simp), (by simp)⟩) (settles_same rfl)
  | brokers _ _ hi => exact h.brokers hp hi
  | leases ht _ hnetwork => exact h.leases ht hnetwork
  | leaseBreaks _ _ hnetwork => exact h.leaseBreaks hnetwork hcareful
  | grants ht hs => exact h.grants hp ht hs
  | denies ht hs hpermitted => exact h.denies hp hx ht hs hpermitted
  | launches ht hs hx => exact h.launches ht hs hx
  | @begins _ x hx hclosing =>
    have hsettles : Settles x { x with closing := .begun } := ⟨rfl, id, fun _ => .inl hclosing, (by simp)⟩
    exact h.same ⟨rfl, rfl, rfl, rfl⟩ rfl (settles_put hx hsettles rfl)
  | @kills _ x hx hclosing =>
    have hsettles : Settles x { x with closing := .killed, alive := false } := ⟨rfl, id, fun _ => .inr (.inl hclosing), (by simp)⟩
    exact h.same ⟨rfl, rfl, rfl, rfl⟩ rfl (settles_put hx hsettles rfl)
  | asks hx _ hnetwork => exact h.asks hx hnetwork
  | @revokes _ _ hi hclosing =>
    refine h.answered hx hi hclosing ?_ ?_ ?_
    · intro k hk
      exact ⟨And.left, fun hin => ⟨hin, hk⟩⟩
    · intro k hk
      exact ⟨And.left, fun hin => ⟨hin, hk⟩⟩
    · exact fun hin => absurd rfl hin.2
  | @refuses _ x _ _ hi hclosing hpermitted hless hlease =>
    refine h.answered hx hi hclosing hpermitted ?_ ?_
    · intro k hk
      simp [hk]
    · intro hin
      rcases hlease with rfl | rfl
      · rfl
      · exact h.leased x.key (hless hin)
  | @refusalBreaks _ _ _ hi hclosing hpermitted hless =>
    refine h.answered hx hi hclosing hpermitted ?_ ?_
    · intro k hk
      simp [hk]
    · exact fun hin => absurd (hless hin) hcareful
  | @exits _ x hx =>
    have hsettles : Settles x { x with alive := false } := ⟨rfl, id, id, id⟩
    exact h.same ⟨rfl, rfl, rfl, rfl⟩ rfl (settles_put hx hsettles rfl)
  | takes ht => exact h.takeOut ht
  | reaps todo =>
    exact h.call (t := w.next) (c := .reaping ↑todo) ⟨rfl, rfl, rfl, rfl⟩ rfl (hidle (by simp [Call.IsStart]) (by simp)) (settles_same rfl)
  | sweeps _ _ hnetwork => exact h.sweeps hnetwork
  | sweepRevokes ht hkey => exact h.sweepRevokes ht hkey
  | sweepFails ht hkey hpermitted hless => exact h.sweepFails ht hkey hpermitted hless
  | sweepEnds ht => exact h.sweepEnds ht
  | crashes =>
    refine ⟨?_, h.leased, ?_, ?_, ?_⟩
    · rintro i x ⟨⟩
    · rintro t s i ⟨⟩
    · rintro i x ⟨⟩
    · rintro t _ _ ⟨⟩

end WorkAgent.AppRunner
