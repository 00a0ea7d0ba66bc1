import WorkAgent.AppRunner.Places

namespace WorkAgent.AppRunner

open Library Function

variable {w w' : World} {e : Event} {t o i j : ℕ} {key : Key} {preview : Bool} {s s' r : Start} {x y : Instance} {stage : Stage}

def Stage.Ahead (stage : Stage) : Prop := stage = .preparing ∨ stage.Unlaunched

structure Exclusive (w : World) : Prop where
  building : ∀ t s, w.Pending t s → s.stage = .building → s.validation = true
  keys : ∀ i j x y, w.instances i = some x → w.instances j = some y → x.closing ≠ .closed → y.closing ≠ .closed → x.key = y.key → i = j
  slots : ∀ i j x y, w.instances i = some x → w.instances j = some y → x.alive = true → y.alive = true → x.validation = false →
    y.validation = false → x.key.id = y.key.id → x.preview = y.preview → i = j
  own : ∀ t s i x, w.Pending t s → s.stage ≠ .building → w.instances i = some x → x.closing ≠ .closed → x.key = s.key →
    s.stage.instance? = some i
  ahead : ∀ t s i x, w.Pending t s → s.validation = false → s.stage.Ahead → w.instances i = some x → x.alive = true →
    x.validation = false → x.key.id = s.key.id → x.preview ≠ s.preview
  busy : ∀ t o s r, w.Pending t s → w.Pending o r → s.key = r.key → s.stage ≠ .building → r.stage ≠ .building → t = o

theorem Placed.open_of_alive (hp : Placed w) (hx : w.instances i = some x) (halive : x.alive = true) : x.closing ≠ .closed := by
  intro hclosed
  rcases (hp.alive i x hx halive).2 with h | h
  all_goals
    rw [hclosed] at h
    cases h

theorem Exclusive.eased (h : Exclusive w) (heased : Eased w w') : Exclusive w' := by
  have hopen {x y : Instance} (haged : Aged x y) (hy : y.closing ≠ .closed) : x.closing ≠ .closed := fun hx => hy (haged.closing hx)
  refine ⟨?_, ?_, ?_, ?_, ?_, ?_⟩
  · intro t s' ht hs'
    obtain ⟨s, hs, hkin⟩ := heased.back t s' ht
    rw [hkin.validation]
    exact h.building t s hs (hkin.stage ▸ hs')
  · intro i j x' y' hx' hy' hxopen hyopen hkey
    obtain ⟨x, hx, haged⟩ := heased.ages.back i x' hx'
    obtain ⟨y, hy, haged'⟩ := heased.ages.back j y' hy'
    rw [haged.key, haged'.key] at hkey
    exact h.keys i j x y hx hy (hopen haged hxopen) (hopen haged' hyopen) hkey
  · intro i j x' y' hx' hy' hxlives hylives hval hval' hid hpreview
    obtain ⟨x, hx, haged⟩ := heased.ages.back i x' hx'
    obtain ⟨y, hy, haged'⟩ := heased.ages.back j y' hy'
    rw [haged.key, haged'.key] at hid
    rw [haged.preview, haged'.preview] at hpreview
    rw [haged.validation] at hval
    rw [haged'.validation] at hval'
    exact h.slots i j x y hx hy (haged.alive hxlives).1 (haged'.alive hylives).1 hval hval' hid hpreview
  · intro t s' i x' ht hs' hx' hxopen hkey
    obtain ⟨s, hs, hkin⟩ := heased.back t s' ht
    obtain ⟨x, hx, haged⟩ := heased.ages.back i x' hx'
    rw [haged.key, hkin.key] at hkey
    rw [hkin.stage] at hs' ⊢
    exact h.own t s i x hs hs' hx (hopen haged hxopen) hkey
  · intro t s' i x' ht hval hahead hx' hlives hval' hid
    obtain ⟨s, hs, hkin⟩ := heased.back t s' ht
    obtain ⟨x, hx, haged⟩ := heased.ages.back i x' hx'
    rw [hkin.validation] at hval
    rw [hkin.stage] at hahead
    rw [haged.validation] at hval'
    rw [haged.key, hkin.key] at hid
    rw [haged.preview, hkin.preview]
    exact h.ahead t s i x hs hval hahead hx (haged.alive hlives).1 hval' hid
  · intro t o s' r' ht ho hkey hs' hr'
    obtain ⟨s, hs, hkin⟩ := heased.back t s' ht
    obtain ⟨r, hr, hkin'⟩ := heased.back o r' ho
    rw [hkin.key, hkin'.key] at hkey
    exact h.busy t o s r hs hr hkey (hkin.stage ▸ hs') (hkin'.stage ▸ hr')

theorem Exclusive.goes (h : Exclusive w) (hgoes : Goes w t s' w') (hsame : w'.instances = w.instances)
    (hbuilding : s'.stage = .building → s'.validation = true)
    (hown : s'.stage ≠ .building → ∀ i x, w.instances i = some x → x.closing ≠ .closed → x.key = s'.key → s'.stage.instance? = some i)
    (hahead : s'.validation = false → s'.stage.Ahead → ∀ i x, w.instances i = some x → x.alive = true → x.validation = false →
      x.key.id = s'.key.id → x.preview ≠ s'.preview)
    (hbusy : s'.stage ≠ .building → ∀ o r, o ≠ t → w.Pending o r → r.key = s'.key → r.stage = .building) : Exclusive w' := by
  refine ⟨?_, ?_, ?_, ?_, ?_, ?_⟩
  · intro o r ho hr
    rcases (hgoes o r).mp ho with ⟨rfl, rfl⟩ | ⟨-, ho⟩
    · exact hbuilding hr
    · exact h.building o r ho hr
  · rw [hsame]
    exact h.keys
  · rw [hsame]
    exact h.slots
  · rw [hsame]
    intro o r i x ho hr
    rcases (hgoes o r).mp ho with ⟨rfl, rfl⟩ | ⟨-, ho⟩
    · exact hown hr i x
    · exact h.own o r i x ho hr
  · rw [hsame]
    intro o r i x ho hval hr
    rcases (hgoes o r).mp ho with ⟨rfl, rfl⟩ | ⟨-, ho⟩
    · exact hahead hval hr i x
    · exact h.ahead o r i x ho hval hr
  · intro p o r r' hr hr' hkey hstage hstage'
    rcases (hgoes p r).mp hr with ⟨rfl, rfl⟩ | ⟨hpt, hr⟩
    · rcases (hgoes o r').mp hr' with ⟨rfl, rfl⟩ | ⟨hot, hr'⟩
      · rfl
      · exact absurd (hbusy hstage o r' hot hr' hkey.symm) hstage'
    · rcases (hgoes o r').mp hr' with ⟨rfl, rfl⟩ | ⟨_, hr'⟩
      · exact absurd (hbusy hstage' p r hpt hr hkey) hstage
      · exact h.busy p o r r' hr hr' hkey hstage hstage'

theorem Exclusive.ended (h : Exclusive w) (hover : Over w t w')
    (hback : ∀ i y, w'.instances i = some y → ∃ x, w.instances i = some x ∧ Aged x y) : Exclusive w' := by
  refine ⟨?_, ?_, ?_, ?_, ?_, ?_⟩
  · exact fun o r ho => h.building o r ((hover o r).mp ho).2
  · intro i j x' y' hx' hy' hxopen hyopen hkey
    obtain ⟨x, hx, haged⟩ := hback i x' hx'
    obtain ⟨y, hy, haged'⟩ := hback j y' hy'
    rw [haged.key, haged'.key] at hkey
    exact h.keys i j x y hx hy (fun hc => hxopen (haged.closing hc)) (fun hc => hyopen (haged'.closing hc)) hkey
  · intro i j x' y' hx' hy' hxlives hylives hval hval' hid hpreview
    obtain ⟨x, hx, haged⟩ := hback i x' hx'
    obtain ⟨y, hy, haged'⟩ := hback j y' hy'
    rw [haged.key, haged'.key] at hid
    rw [haged.preview, haged'.preview] at hpreview
    rw [haged.validation] at hval
    rw [haged'.validation] at hval'
    exact h.slots i j x y hx hy (haged.alive hxlives).1 (haged'.alive hylives).1 hval hval' hid hpreview
  · intro o r i x' ho hr hx' hopen hkey
    obtain ⟨x, hx, haged⟩ := hback i x' hx'
    rw [haged.key] at hkey
    exact h.own o r i x ((hover o r).mp ho).2 hr hx (fun hc => hopen (haged.closing hc)) hkey
  · intro o r i x' ho hval hr hx' hlives hval' hid
    obtain ⟨x, hx, haged⟩ := hback i x' hx'
    rw [haged.validation] at hval'
    rw [haged.key] at hid
    rw [haged.preview]
    exact h.ahead o r i x ((hover o r).mp ho).2 hval hr hx (haged.alive hlives).1 hval' hid
  · exact fun p o r r' hr hr' => h.busy p o r r' ((hover p r).mp hr).2 ((hover o r').mp hr').2

theorem Placed.nowhere (hp : Placed w) (hx : w.instances i = some x) (hopen : x.closing ≠ .closed)
    (hstarts : ∀ o r, w.Pending o r → r.stage.instance? = some i → r.key = x.key → r.preview = x.preview → r.validation = x.validation → False)
    (hruns : w.running x.key ≠ some i) (hleaves : ¬ w.Leaving i) : False := by
  rcases hp.placed i x hx hopen with ⟨r, hr, hri⟩ | ⟨-, -, hrun | hleave⟩
  · obtain ⟨y, hy, hkey, hpreview, hval, -⟩ := hp.staged _ r i hr hri
    cases hx.symm.trans hy
    exact hstarts _ r hr hri hkey.symm hpreview.symm hval.symm
  · exact hruns hrun
  · exact hleaves hleave

section

variable (h : Exclusive w)
include h

theorem Exclusive.registered {t : ℕ} (hp : Placed w)
    (hnone : ∀ o conflict, ¬ w.Starting key preview o conflict) (hway : ∀ i, ¬ w.InTheWay key preview i)
    (hgoes : Goes w t ⟨key, preview, false, false, .preparing⟩ w') (hsame : w'.instances = w.instances)
    (hcareful : Careful w (.registers t key preview)) : Exclusive w' := by
  obtain ⟨hleaving, hsnapshots, -⟩ := hcareful
  have hacquire {o : ℕ} {r : Start} (ho : w.Pending o r) (hval : r.validation = false) : r.key ≠ key :=
    fun hkey => hnone o false ⟨r, ho, hval, hkey⟩
  refine h.goes hgoes hsame (by simp) ?_ ?_ ?_
  · intro _ i x hx hopen hkey
    exfalso
    apply hp.nowhere hx hopen
    · intro o r ho hr hrkey _ _
      cases hval : r.validation with
      | false => exact hacquire ho hval (hrkey.trans hkey)
      | true =>
        rw [hsnapshots o r ho hval (hrkey.trans hkey)] at hr
        cases hr
    · intro hrun
      exact hway i ⟨x.key, x, hrun, hx, .inl hkey⟩
    · intro hleave
      exact hopen ((hleaving i x hleave hx).2 hkey)
  · intro _ _ i x hx hlives hval hid hpreview
    apply hp.nowhere hx (hp.open_of_alive hx hlives)
    · intro o r ho _ hrkey hrpreview hrval
      by_cases hrk : r.key = key
      · exact hacquire ho (hrval.trans hval) hrk
      · exact hnone o true ⟨r, ho, hrval.trans hval, hrk, (congrArg Key.id hrkey).trans hid, hrpreview.trans hpreview⟩
    · intro hrun
      exact hway i ⟨x.key, x, hrun, hx, .inr ⟨hid, hpreview⟩⟩
    · intro hleave
      have hdead := (hleaving i x hleave hx).1 hid hpreview
      rw [hlives] at hdead
      cases hdead
  · intro _ o r _ ho hkey
    cases hval : r.validation with
    | false => exact absurd hkey (hacquire ho hval)
    | true => exact hsnapshots o r ho hval hkey

theorem Exclusive.validated (hp : Placed w) (ht : w.Pending t s) (hs : s.stage = .building)
    (hgoes : Goes w t (s.on .preparing) w') (hsame : w'.instances = w.instances) (hcareful : Careful w (.validates t s.key)) :
    Exclusive w' := by
  obtain ⟨hruns, hacquires, hleaving⟩ := hcareful
  have hval := h.building t s ht hs
  have hsnapshot {o : ℕ} {r : Start} (ho : w.Pending o r) (hkey : r.key = s.key) : o = t ∧ r = s := by
    cases hrval : r.validation with
    | false => exact absurd hkey (hacquires o r ho hrval)
    | true =>
      obtain rfl := hp.uniqueKey t o s r ht ho (hval.trans hrval.symm) hkey.symm
      cases ht.symm.trans ho
      exact ⟨rfl, rfl⟩
  refine h.goes hgoes hsame (by simp) ?_ ?_ ?_
  · intro _ i x hx hopen hkey
    exfalso
    apply hp.nowhere hx hopen
    · intro o r ho hr hrkey _ _
      obtain ⟨-, rfl⟩ := hsnapshot ho (hrkey.trans hkey)
      rw [hs] at hr
      cases hr
    · intro hrun
      have hsame : x.key = s.key := hkey
      rw [hsame, hruns] at hrun
      cases hrun
    · intro hleave
      exact hopen (hleaving i x hleave hx hkey)
  · intro hacquire
    cases hval.symm.trans hacquire
  · intro _ o r hot ho hkey
    exact absurd (hsnapshot ho hkey).1 hot

theorem Exclusive.brokered (ht : w.Pending t s) (hs : s.stage = .preparing)
    (hi : w.instances i = none) (hgoes : Goes w t (s.on (.brokered i)) w')
    (hnew : w'.instances = Function.update w.instances i (some ⟨s.key, s.preview, s.validation, t, false, false, 0, .no⟩)) :
    Exclusive w' := by
  have hbuilding : s.stage ≠ .building := by simp [hs]
  have hinstance {j : ℕ} {y : Instance} (hy : w'.instances j = some y) :
      (j = i ∧ y = ⟨s.key, s.preview, s.validation, t, false, false, 0, .no⟩) ∨ w.instances j = some y := by
    rw [hnew] at hy
    by_cases hj : j = i
    · subst hj
      rw [update_self] at hy
      exact .inl ⟨rfl, (Option.some.inj hy).symm⟩
    · rw [update_of_ne hj] at hy
      exact .inr hy
  have hnone {j : ℕ} {y : Instance} (hy : w.instances j = some y) (hopen : y.closing ≠ .closed) : y.key ≠ s.key := by
    intro hkey
    have howned := h.own t s j y ht hbuilding hy hopen hkey
    rw [hs] at howned
    cases howned
  refine ⟨?_, ?_, ?_, ?_, ?_, ?_⟩
  · intro o r ho hr
    rcases (hgoes o r).mp ho with ⟨rfl, rfl⟩ | ⟨-, ho⟩
    · cases hr
    · exact h.building o r ho hr
  · intro j l y z hy hz hyopen hzopen hkey
    rcases hinstance hy with ⟨rfl, rfl⟩ | hy
    · rcases hinstance hz with ⟨rfl, rfl⟩ | hz
      · rfl
      · exact absurd hkey.symm (hnone hz hzopen)
    · rcases hinstance hz with ⟨rfl, rfl⟩ | hz
      · exact absurd hkey (hnone hy hyopen)
      · exact h.keys j l y z hy hz hyopen hzopen hkey
  · intro j l y z hy hz hylives hzlives
    rcases hinstance hy with ⟨rfl, rfl⟩ | hy
    · cases hylives
    · rcases hinstance hz with ⟨rfl, rfl⟩ | hz
      · cases hzlives
      · exact h.slots j l y z hy hz hylives hzlives
  · intro o r j y ho hr hy hopen hkey
    rcases (hgoes o r).mp ho with ⟨rfl, rfl⟩ | ⟨hot, ho⟩
    · rcases hinstance hy with ⟨rfl, rfl⟩ | hy
      · rfl
      · exact absurd hkey (hnone hy hopen)
    · rcases hinstance hy with ⟨rfl, rfl⟩ | hy
      · exact absurd (h.busy t o s r ht ho hkey hbuilding hr).symm hot
      · exact h.own o r j y ho hr hy hopen hkey
  · intro o r j y ho hval hr hy hlives
    rcases hinstance hy with ⟨rfl, rfl⟩ | hy
    · cases hlives
    · rcases (hgoes o r).mp ho with ⟨rfl, rfl⟩ | ⟨hot, ho⟩
      · exact h.ahead o s j y ht hval (.inl hs) hy hlives
      · exact h.ahead o r j y ho hval hr hy hlives
  · intro p o r r' hr hr' hkey hstage hstage'
    rcases (hgoes p r).mp hr with ⟨rfl, rfl⟩ | ⟨_, hr⟩
    · rcases (hgoes o r').mp hr' with ⟨rfl, rfl⟩ | ⟨hot, hr'⟩
      · rfl
      · exact h.busy p o s r' ht hr' hkey hbuilding hstage'
    · rcases (hgoes o r').mp hr' with ⟨rfl, rfl⟩ | ⟨_, hr'⟩
      · exact h.busy p o r s hr ht hkey hstage hbuilding
      · exact h.busy p o r r' hr hr' hkey hstage hstage'

theorem Exclusive.launched (hp : Placed w) (ht : w.Pending t s) (hs : s.stage = .granted i)
    (hx : w.instances i = some x) (hgoes : Goes w t (s.on (.launched i)) w')
    (hnew : w'.instances = Function.update w.instances i (some { x with launched := true, alive := true })) : Exclusive w' := by
  have hbuilding : s.stage ≠ .building := by simp [hs]
  have hahead : s.stage.Ahead := by
    rw [hs]
    exact .inr trivial
  obtain ⟨_, hx', hkey, hpreview, hvalidation, -⟩ := hp.staged t s i ht (by rw [hs]; rfl)
  cases hx.symm.trans hx'
  clear hx'
  have hinstance {j : ℕ} {y : Instance} (hy : w'.instances j = some y) :
      (j = i ∧ y = { x with launched := true, alive := true }) ∨ (j ≠ i ∧ w.instances j = some y) := by
    rw [hnew] at hy
    by_cases hj : j = i
    · subst hj
      rw [update_self] at hy
      exact .inl ⟨rfl, (Option.some.inj hy).symm⟩
    · rw [update_of_ne hj] at hy
      exact .inr ⟨hj, hy⟩
  have hback {j : ℕ} {y : Instance} (hy : w'.instances j = some y) : ∃ u, w.instances j = some u ∧ u.key = y.key ∧ u.closing = y.closing := by
    rcases hinstance hy with ⟨rfl, rfl⟩ | ⟨-, hy⟩
    · exact ⟨x, hx, rfl, rfl⟩
    · exact ⟨y, hy, rfl, rfl⟩
  have halone {j : ℕ} {y : Instance} (hval : x.validation = false) (hy : w.instances j = some y) (hlives : y.alive = true)
      (hval' : y.validation = false) (hid : y.key.id = x.key.id) (hpreview' : y.preview = x.preview) : False :=
    h.ahead t s j y ht (hvalidation ▸ hval) hahead hy hlives hval' (hid.trans (congrArg Key.id hkey)) (hpreview'.trans hpreview)
  refine ⟨?_, ?_, ?_, ?_, ?_, ?_⟩
  · intro o r ho hr
    rcases (hgoes o r).mp ho with ⟨rfl, rfl⟩ | ⟨-, ho⟩
    · cases hr
    · exact h.building o r ho hr
  · intro j l y z hy hz hyopen hzopen hkeys
    obtain ⟨u, hu, hukey, huopen⟩ := hback hy
    obtain ⟨v, hv, hvkey, hvopen⟩ := hback hz
    exact h.keys j l u v hu hv (huopen ▸ hyopen) (hvopen ▸ hzopen) (hukey.trans (hkeys.trans hvkey.symm))
  · intro j l y z hy hz hylives hzlives hyval hzval hid hpreviews
    rcases hinstance hy with ⟨rfl, rfl⟩ | ⟨_, hy⟩
    · rcases hinstance hz with ⟨rfl, rfl⟩ | ⟨hl, hz⟩
      · rfl
      · exact (halone hyval hz hzlives hzval hid.symm hpreviews.symm).elim
    · rcases hinstance hz with ⟨rfl, rfl⟩ | ⟨_, hz⟩
      · exact (halone hzval hy hylives hyval hid hpreviews).elim
      · exact h.slots j l y z hy hz hylives hzlives hyval hzval hid hpreviews
  · intro o r j y ho hr hy hopen hkeys
    obtain ⟨u, hu, hukey, huopen⟩ := hback hy
    rw [← huopen] at hopen
    rcases (hgoes o r).mp ho with ⟨rfl, rfl⟩ | ⟨hot, ho⟩
    · have howned := h.own o s j u ht hbuilding hu hopen (hukey.trans hkeys)
      rw [hs] at howned
      exact howned
    · exact h.own o r j u ho hr hu hopen (hukey.trans hkeys)
  · intro o r j y ho hval hr hy hlives hval' hid hpreview'
    rcases (hgoes o r).mp ho with ⟨rfl, rfl⟩ | ⟨hot, ho⟩
    · rcases hr with hr | hr
      · cases hr
      · exact hr
    · rcases hinstance hy with ⟨rfl, rfl⟩ | ⟨-, hy⟩
      · refine hot (hp.uniqueSlot t o s r ht ho (hvalidation ▸ hval') hval ?_ ?_).symm
        · exact (congrArg Key.id hkey).symm.trans hid
        · exact hpreview.symm.trans hpreview'
      · exact h.ahead o r j y ho hval hr hy hlives hval' hid hpreview'
  · intro p o r r' hr hr' hkeys hstage hstage'
    rcases (hgoes p r).mp hr with ⟨rfl, rfl⟩ | ⟨_, hr⟩
    · rcases (hgoes o r').mp hr' with ⟨rfl, rfl⟩ | ⟨hot, hr'⟩
      · rfl
      · exact h.busy p o s r' ht hr' hkeys hbuilding hstage'
    · rcases (hgoes o r').mp hr' with ⟨rfl, rfl⟩ | ⟨_, hr'⟩
      · exact h.busy p o r s hr ht hkeys hstage hbuilding
      · exact h.busy p o r r' hr hr' hkeys hstage hstage'

theorem Exclusive.moves (hp : Placed w) (hmoves : Moves w e w') (hcareful : Careful w e) : Exclusive w' := by
  cases hmoves with
  | eased heased => exact h.eased heased
  | @staged _ _ t s _ ht hs hinstance hpreparing hbuilding hunlaunched _ hgoes _ hsame =>
    refine h.goes hgoes hsame ?_ ?_ ?_ ?_
    · exact fun hstage => absurd hstage hbuilding
    · intro _ i x hx hopen hkey
      exact hinstance.trans (h.own t s i x ht hs hx hopen hkey)
    · intro hval hstage i x hx hlives hval' hid
      rcases hstage with hstage | hstage
      · exact absurd hstage hpreparing
      · exact h.ahead t s i x ht hval (.inr (hunlaunched hstage)) hx hlives hval' hid
    · intro _ o r hot ho hkey
      by_contra hr
      exact hot (h.busy t o s r ht ho hkey.symm hs hr).symm
  | validated ht hs hgoes _ hsame => exact h.validated hp ht hs hgoes hsame hcareful
  | brokered ht hs hi hgoes _ hnew => exact h.brokered ht hs hi hgoes hnew
  | launched ht hs hx hgoes _ hnew => exact h.launched hp ht hs hx hgoes hnew
  | registered _ _ hnone hway hgoes _ hsame => exact h.registered hp hnone hway hgoes hsame hcareful
  | built _ _ _ hgoes _ hsame =>
    refine h.goes hgoes hsame (fun _ => rfl) (fun hstage => absurd rfl hstage) (by simp) (fun hstage => absurd rfl hstage)
  | ended _ _ hover _ hsame =>
    refine h.ended hover ?_
    rw [hsame]
    exact fun i y hy => ⟨y, hy, .refl y⟩
  | @landed _ _ _ i _ x _ _ _ _ hx hover _ _ hnew =>
    refine h.ended hover ?_
    intro j y hy
    rw [hnew] at hy
    by_cases hj : j = i
    · subst hj
      rw [update_self] at hy
      cases hy
      exact ⟨x, hx, rfl, rfl, rfl, rfl, rfl, fun halive => ⟨halive, .inl rfl⟩, id⟩
    · rw [update_of_ne hj] at hy
      exact ⟨y, hy, .refl y⟩
  | crashed hpending _ _ hinstances =>
    refine ⟨?_, ?_, ?_, ?_, ?_, ?_⟩
    · exact fun t s ht => absurd ht (hpending t s)
    · intro i j x y hx
      cases (hinstances i).symm.trans hx
    · intro i j x y hx
      cases (hinstances i).symm.trans hx
    · exact fun t s i x ht => absurd ht (hpending t s)
    · exact fun t s i x ht => absurd ht (hpending t s)
    · exact fun t o s r ht => absurd ht (hpending t s)

end

end WorkAgent.AppRunner
