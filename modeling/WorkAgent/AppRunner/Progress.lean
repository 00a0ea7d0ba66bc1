import Mathlib.Data.Set.Card
import WorkAgent.AppRunner.Places

namespace WorkAgent.AppRunner

open Library Function

variable {w w' w'' : World} {e : Event} {t o i j : ℕ} {key k : Key} {preview : Bool} {s : Start} {x y : Instance} {c c₀ : Call}
  {target : Target} {P : Call → Prop} {es : List Event}

def Call.HasMu (c : Call) : Prop := (∃ key preview, c = .clearing key preview) ∨ ∃ s i, c = .starting s ∧ s.stage = .discarding i

def Call.Authorizing (c : Call) : Prop := ∃ s i, c = .starting s ∧ s.stage = .authorizing i

def Call.Sweeping (c : Call) : Prop := ∃ found tried, c = .sweeping found tried

namespace World

def In (w : World) (P : Call → Prop) (t : ℕ) : Prop := ∃ c, w.calls t = some c ∧ P c

def Holds (w : World) : Holder → Prop
  | .closer i => ∃ x, w.instances i = some x ∧ x.closing = .revoking
  | .starter t => w.In Call.Authorizing t
  | .sweeper t => w.In Call.Sweeping t

end World

/-- Each lock is held by somebody who is at the step that gives it back, and `running` is finite. -/
structure Held (w : World) : Prop where
  mu : ∀ t, w.mu = some t → w.In Call.HasMu t
  network : ∀ h, w.network = some h → w.Holds h
  finite : {k | w.running k ≠ none}.Finite

section Calls

theorem in_call (h₀ : ∀ c₀, w.calls t = some c₀ → P c₀ → P c) (hcalls : w'.calls = (w.call t c).calls) (h : w.In P o) : w'.In P o := by
  obtain ⟨d, hd, hP⟩ := h
  by_cases hot : o = t
  · subst hot
    refine ⟨c, ?_, h₀ d hd hP⟩
    simp [hcalls, World.call]
  · refine ⟨d, ?_, hP⟩
    rw [hcalls]
    exact (update_of_ne hot ..).trans hd

theorem in_same (hcalls : w'.calls = w.calls) (h : w.In P o) : w'.In P o := by
  unfold World.In
  rwa [hcalls]

theorem in_takeOut (hP : ∀ s : Start, P (.starting s) → P (.starting s.stop)) (ht : w.calls t = some (.stopping target))
    (h₀ : ¬ P (.stopping target)) (h : w.In P o) : (w.takeOut t target).In P o := by
  obtain ⟨d, hd, hPd⟩ := h
  have hot : o ≠ t := by
    rintro rfl
    cases ht.symm.trans hd
    exact h₀ hPd
  refine ⟨d.stop target, ?_, ?_⟩
  · rw [takeOut_calls_ne hot, hd]
    rfl
  · cases d with
    | starting s =>
      simp only [Call.stop]
      split
      · exact hP s hPd
      · exact hPd
    | _ => exact hPd

theorem hasMu_stop (s : Start) (h : (Call.starting s).HasMu) : (Call.starting s.stop).HasMu := by
  rcases h with ⟨_, _, ⟨⟩⟩ | ⟨r, i, hr, hstage⟩
  cases hr
  exact .inr ⟨_, i, rfl, hstage⟩

theorem authorizing_stop (s : Start) (h : (Call.starting s).Authorizing) : (Call.starting s.stop).Authorizing := by
  obtain ⟨r, i, hr, hstage⟩ := h
  cases hr
  exact ⟨_, i, rfl, hstage⟩

theorem sweeping_stop (s : Start) (h : (Call.starting s).Sweeping) : (Call.starting s.stop).Sweeping := by
  obtain ⟨_, _, ⟨⟩⟩ := h

def StillRevoking (w w' : World) : Prop :=
  ∀ i x, w.instances i = some x → x.closing = .revoking → ∃ y, w'.instances i = some y ∧ y.closing = .revoking

theorem revoking_same (h : w'.instances = w.instances) : StillRevoking w w' := by
  intro i x hx hclosing
  exact ⟨x, h ▸ hx, hclosing⟩

theorem revoking_put (hx : w.instances i = some x) (h : w'.instances = Function.update w.instances i (some y))
    (hkeep : x.closing = .revoking → y.closing = .revoking) : StillRevoking w w' := by
  intro j z hz hclosing
  rw [h]
  by_cases hj : j = i
  · subst hj
    cases hx.symm.trans hz
    exact ⟨y, update_self .., hkeep hclosing⟩
  · exact ⟨z, (update_of_ne hj ..).trans hz, hclosing⟩

open Call (Authorizing IsStart Sweeping sweeping)

theorem holds_of (hauthorizing : ∀ o, w.In Authorizing o → w'.In Authorizing o)
    (hsweeping : ∀ o, w.In Sweeping o → w'.In Sweeping o) (hrevoking : StillRevoking w w') {holder : Holder}
    (h : w.Holds holder) : w'.Holds holder := by
  cases holder with
  | closer i =>
    obtain ⟨x, hx, hclosing⟩ := h
    exact hrevoking i x hx hclosing
  | starter t => exact hauthorizing t h
  | sweeper t => exact hsweeping t h

def Call.Lockless (c : Call) : Prop := ¬ c.HasMu ∧ ¬ c.Authorizing ∧ ¬ c.Sweeping

theorem lockless_of_not_start (hc : ¬ c.IsStart) (hclearing : ∀ key preview, c ≠ .clearing key preview)
    (hsweeping : ∀ found tried, c ≠ .sweeping found tried) : c.Lockless := by
  refine ⟨?_, ?_, ?_⟩
  · rintro (⟨key, preview, rfl⟩ | ⟨s, i, rfl, -⟩)
    · exact hclearing key preview rfl
    · exact hc ⟨s, rfl⟩
  · rintro ⟨s, i, rfl, -⟩
    exact hc ⟨s, rfl⟩
  · rintro ⟨found, tried, rfl⟩
    exact hsweeping found tried rfl

theorem not_hasMu_of_stage (h : ∀ i, s.stage ≠ .discarding i) : ¬ (Call.starting s).HasMu := by
  rintro (⟨_, _, ⟨⟩⟩ | ⟨r, i, hr, hstage⟩)
  cases hr
  exact h i hstage

theorem not_authorizing_of_stage (h : ∀ i, s.stage ≠ .authorizing i) : ¬ (Call.starting s).Authorizing := by
  rintro ⟨r, i, hr, hstage⟩
  cases hr
  exact h i hstage

theorem not_sweeping_starting : ¬ (Call.starting s).Sweeping := by
  rintro ⟨_, _, ⟨⟩⟩

theorem lockless_of_stage (hdiscarding : ∀ i, s.stage ≠ .discarding i) (hauthorizing : ∀ i, s.stage ≠ .authorizing i) :
    (Call.starting s).Lockless :=
  ⟨not_hasMu_of_stage hdiscarding, not_authorizing_of_stage hauthorizing, not_sweeping_starting⟩

section

variable (h : Held w)
include h

theorem Held.mu_call (ht : w.calls t = some c₀) (h₀ : ¬ c₀.HasMu) (hcalls : w'.calls = (w.call t c).calls)
    (hmu : w'.mu = w.mu) : ∀ o, w'.mu = some o → w'.In Call.HasMu o := by
  intro o ho
  rw [hmu] at ho
  refine in_call ?_ hcalls (h.mu o ho)
  intro d hd hhas
  cases ht.symm.trans hd
  exact absurd hhas h₀

theorem Held.network_call (ht : w.calls t = some c₀) (hauthorizing : ¬ c₀.Authorizing) (hsweeping : ¬ c₀.Sweeping)
    (hcalls : w'.calls = (w.call t c).calls) (hrevoking : StillRevoking w w') (hnetwork : w'.network = w.network) :
    ∀ holder, w'.network = some holder → w'.Holds holder := by
  intro holder hholder
  rw [hnetwork] at hholder
  refine holds_of ?_ ?_ hrevoking (h.network holder hholder)
  · refine fun o => in_call ?_ hcalls
    intro d hd hhas
    cases ht.symm.trans hd
    exact absurd hhas hauthorizing
  · refine fun o => in_call ?_ hcalls
    intro d hd hhas
    cases ht.symm.trans hd
    exact absurd hhas hsweeping

theorem Held.call (ht : w.calls t = some c₀) (h₀ : c₀.Lockless) (hcalls : w'.calls = (w.call t c).calls)
    (hmu : w'.mu = w.mu) (hnetwork : w'.network = w.network) (hrevoking : StillRevoking w w')
    (hfinite : {k | w'.running k ≠ none}.Finite) : Held w' :=
  ⟨h.mu_call ht h₀.1 hcalls hmu, h.network_call ht h₀.2.1 h₀.2.2 hcalls hrevoking hnetwork, hfinite⟩

theorem Held.same (hcalls : w'.calls = w.calls) (hmu : w'.mu = w.mu) (hnetwork : w'.network = w.network)
    (hrevoking : StillRevoking w w') (hfinite : {k | w'.running k ≠ none}.Finite) : Held w' := by
  refine ⟨?_, ?_, hfinite⟩
  · intro o ho
    rw [hmu] at ho
    exact in_same hcalls (h.mu o ho)
  · intro holder hholder
    rw [hnetwork] at hholder
    exact holds_of (fun _ => in_same hcalls) (fun _ => in_same hcalls) hrevoking (h.network holder hholder)

theorem Held.begin (hw : Locked w) (hcalls : w'.calls = (w.call w.next c).calls) (hmu : w'.mu = w.mu)
    (hnetwork : w'.network = w.network) (hrevoking : StillRevoking w w') (hfinite : {k | w'.running k ≠ none}.Finite) : Held w' := by
  have hnew {P : Call → Prop} : ∀ o, w.In P o → w'.In P o := by
    refine fun o => in_call ?_ hcalls
    intro d hd
    cases (hw.fresh w.next le_rfl).symm.trans hd
  refine ⟨?_, ?_, hfinite⟩
  · intro o ho
    rw [hmu] at ho
    exact hnew o (h.mu o ho)
  · intro holder hholder
    rw [hnetwork] at hholder
    exact holds_of hnew hnew hrevoking (h.network holder hholder)

theorem Held.step (hw : Locked w) (hstep : Step w e w') : Held w' := by
  have hplain {c : Call} (hc : ¬ c.IsStart) (hclearing : ∀ key preview, c ≠ .clearing key preview)
      (hsweeping : ∀ found tried, c ≠ .sweeping found tried) : c.Lockless := lockless_of_not_start hc hclearing hsweeping
  cases hstep with
  | acquires | snapshots | stops => exact h.begin hw rfl rfl rfl (revoking_same rfl) h.finite
  | gives ht hc =>
    rcases hc with ⟨key, preview, rfl⟩ | ⟨key, preview, other, _, rfl⟩ | ⟨key, preview, rfl⟩
    all_goals exact h.call ht (hplain (by simp [IsStart]) (by simp) (by simp)) rfl rfl rfl (revoking_same rfl) h.finite
  | waits ht | retries ht | builds ht | stopped ht =>
    exact h.call ht (hplain (by simp [IsStart]) (by simp) (by simp)) rfl rfl rfl (revoking_same rfl) h.finite
  | @conflicts t other key preview s ht _ _ _ _ hs =>
    have hne : t ≠ other := by
      rintro rfl
      cases ht.symm.trans hs
    have hstop {P : Call → Prop} (hP : ∀ s : Start, P (.starting s) → P (.starting s.stop)) (h₀ : ¬ P (.acquiring key preview)) (o : ℕ)
        (hin : w.In P o) : ((w.call other (.starting s.stop)).call t (.awaiting key preview other true)).In P o := by
      refine in_call (t := t) (c := .awaiting key preview other true) ?_ rfl (in_call (t := other) (c := .starting s.stop) ?_ rfl hin)
      · intro d hd hPd
        cases ht.symm.trans ((update_of_ne hne ..).symm.trans hd)
        exact absurd hPd h₀
      · intro d hd hPd
        cases (show w.calls other = some (.starting s) from hs).symm.trans hd
        exact hP s hPd
    have hfree := hplain (c := .acquiring key preview) (by simp [IsStart]) (by simp) (by simp)
    refine ⟨?_, ?_, h.finite⟩
    · exact fun o ho => hstop hasMu_stop hfree.1 o (h.mu o ho)
    · exact fun holder hholder => holds_of (hstop authorizing_stop hfree.2.1) (hstop sweeping_stop hfree.2.2) (revoking_same rfl)
        (h.network holder hholder)
  | @serves _ _ _ _ _ ht _ _ _ _ hx | releases ht _ hx =>
    exact h.call ht (hplain (by simp [IsStart]) (by simp) (by simp)) rfl rfl rfl (revoking_put hx rfl id) h.finite
  | @clears _ key preview ht =>
    have hfree := hplain (c := .acquiring key preview) (by simp [IsStart]) (by simp) (by simp)
    refine ⟨?_, ?_, h.finite⟩
    · intro o ho
      cases ho
      exact ⟨_, update_self .., .inl ⟨key, preview, rfl⟩⟩
    · exact h.network_call (c := .clearing key preview) ht hfree.2.1 hfree.2.2 rfl (revoking_same rfl) rfl
  | @deletes _ _ _ k =>
    refine h.same rfl rfl rfl (revoking_same rfl) (h.finite.subset ?_)
    intro l hl
    by_cases hlk : l = k
    · subst hlk
      simp [World.run] at hl
    · simpa [World.run, hlk] using hl
  | @registers _ key preview ht =>
    refine ⟨(fun _ h => by cases h), ?_, h.finite⟩
    refine h.network_call (c := .starting ⟨key, preview, false, false, .preparing⟩) ht ?_ ?_ rfl (revoking_same rfl) rfl
    · rintro ⟨s, i, ⟨⟩, -⟩
    · rintro ⟨found, tried, ⟨⟩⟩
  | validates ht hs | leaseBreaks ht hs | ends ht hs =>
    exact h.call ht (lockless_of_stage (by simp [hs]) (by simp [hs])) rfl rfl rfl (revoking_same rfl) h.finite
  | @brokers _ i _ ht hs hi =>
    refine h.call ht (lockless_of_stage (by simp [hs]) (by simp [hs])) rfl rfl rfl ?_ h.finite
    intro j x hx hclosing
    have hj : j ≠ i := by
      rintro rfl
      cases hi.symm.trans hx
    exact ⟨x, (update_of_ne hj ..).trans hx, hclosing⟩
  | @leases _ i s ht hs =>
    refine ⟨?_, ?_, h.finite⟩
    · exact h.mu_call (c := .starting (s.on (.authorizing i))) ht (not_hasMu_of_stage (by simp [hs])) rfl rfl
    · intro holder hholder
      cases hholder
      exact ⟨_, update_self .., _, i, rfl, rfl⟩
  | @grants _ i s ht hs =>
    exact ⟨h.mu_call (c := .starting (s.on (.granted i))) ht (not_hasMu_of_stage (by simp [hs])) rfl rfl, (fun _ h => by cases h), h.finite⟩
  | @denies _ i s _ ht hs =>
    exact ⟨h.mu_call (c := .starting (s.on (.failing (some i)))) ht (not_hasMu_of_stage (by simp [hs])) rfl rfl, (fun _ h => by cases h), h.finite⟩
  | launches ht hs hx =>
    exact h.call ht (lockless_of_stage (by simp [hs]) (by simp [hs])) rfl rfl rfl (revoking_put hx rfl id) h.finite
  | fails ht hs =>
    refine h.call ht (lockless_of_stage ?_ ?_) rfl rfl rfl (revoking_same rfl) h.finite
    all_goals
      intro i hi
      rw [hi] at hs
      exact hs
  | @lands _ _ s _ ht hs _ _ _ _ hx =>
    refine h.call ht (lockless_of_stage (by simp [hs]) (by simp [hs])) rfl rfl rfl (revoking_put hx rfl id) ?_
    refine (h.finite.insert s.key).subset ?_
    intro l hl
    by_cases hlk : l = s.key
    · exact .inl hlk
    · right
      simpa [World.run, World.call, World.put, hlk] using hl
  | @discards _ i s ht hs =>
    refine ⟨?_, ?_, h.finite⟩
    · intro o ho
      cases ho
      exact ⟨_, update_self .., .inr ⟨_, i, rfl, rfl⟩⟩
    · exact h.network_call (c := .starting (s.on (.discarding i))) ht (not_authorizing_of_stage (by simp [hs])) not_sweeping_starting rfl
        (revoking_same rfl) rfl
  | @drops _ _ _ ht hs =>
    refine ⟨(fun _ h => by cases h), ?_, h.finite⟩
    exact h.network_call (c := .failed) ht (not_authorizing_of_stage (by simp [hs])) not_sweeping_starting rfl (revoking_same rfl) rfl
  | snapshotEnds ht _ _ hs =>
    have hstage := hs
    refine h.call ht (lockless_of_stage ?_ ?_) rfl rfl rfl (revoking_same rfl) h.finite
    all_goals
      intro j hj
      rw [hj] at hstage
      simp at hstage
  | @begins _ _ hx hclosing | @kills _ _ hx hclosing => exact h.same rfl rfl rfl (revoking_put hx rfl (by simp [hclosing])) h.finite
  | @asks =>
    refine ⟨h.mu, ?_, h.finite⟩
    intro holder hholder
    cases hholder
    exact ⟨_, update_self .., rfl⟩
  | revokes | refuses | refusalBreaks => exact ⟨h.mu, (fun _ h => by cases h), h.finite⟩
  | exits hx => exact h.same rfl rfl rfl (revoking_put hx rfl id) h.finite
  | @takes _ target ht =>
    have hfree := hplain (c := .stopping target) (by simp [IsStart]) (by simp) (by simp)
    refine ⟨?_, ?_, h.finite.subset ?_⟩
    · exact fun o ho => in_takeOut hasMu_stop ht hfree.1 (h.mu o ho)
    · exact fun holder hholder => holds_of (fun _ => in_takeOut authorizing_stop ht hfree.2.1) (fun _ => in_takeOut sweeping_stop ht hfree.2.2)
        (revoking_same rfl) (h.network holder hholder)
    · intro k hk
      obtain ⟨i, hi⟩ := Option.ne_none_iff_exists'.mp hk
      exact Option.ne_none_iff_exists'.mpr ⟨i, (takeOut_running hi).1⟩
  | reaps todo =>
    refine h.begin (c := .reaping ↑todo) hw rfl rfl rfl (revoking_same rfl) (h.finite.subset ?_)
    intro k hk
    obtain ⟨i, hi⟩ := Option.ne_none_iff_exists'.mp hk
    exact Option.ne_none_iff_exists'.mpr ⟨i, (reapOut_running.mp hi).1⟩
  | @sweeps _ todo ht =>
    have hfree := hplain (c := .reaping todo) (by simp [IsStart]) (by simp) (by simp)
    refine ⟨h.mu_call (c := .sweeping w.cleanup ∅) ht hfree.1 rfl rfl, ?_, h.finite⟩
    intro holder hholder
    cases hholder
    exact ⟨_, update_self .., _, _, rfl⟩
  | @sweepRevokes t key found tried ht =>
    have hnot : ¬ (sweeping found tried).HasMu := by
      rintro (⟨key, preview, ⟨⟩⟩ | ⟨s, i, ⟨⟩, -⟩)
    refine ⟨h.mu_call (c := .sweeping found (insert key tried)) ht hnot rfl rfl, ?_, h.finite⟩
    intro holder hholder
    have hauthorizing (o : ℕ) (hin : w.In Authorizing o) : ((((w.permit (w.permitted \ {key})).clean (w.cleanup \ {key})).lease key
        .absent).call t (.sweeping found (insert key tried))).In Authorizing o := by
      refine in_call (t := t) (c := .sweeping found (insert key tried)) ?_ rfl hin
      rintro d hd ⟨s, i, rfl, -⟩
      cases ht.symm.trans hd
    have hsweeping (o : ℕ) (hin : w.In Sweeping o) : ((((w.permit (w.permitted \ {key})).clean (w.cleanup \ {key})).lease key
        .absent).call t (.sweeping found (insert key tried))).In Sweeping o :=
      in_call (t := t) (c := .sweeping found (insert key tried)) (fun _ _ _ => ⟨_, _, rfl⟩) rfl hin
    exact holds_of hauthorizing hsweeping (revoking_same rfl) (h.network holder hholder)
  | @sweepFails _ key found tried _ ht =>
    have hnot : ¬ (sweeping found tried).HasMu := by
      rintro (⟨key, preview, ⟨⟩⟩ | ⟨s, i, ⟨⟩, -⟩)
    exact ⟨h.mu_call (c := .swept found (insert key tried)) ht hnot rfl rfl, (fun _ h => by cases h), h.finite⟩
  | @sweepEnds _ found tried ht =>
    have hnot : ¬ (sweeping found tried).HasMu := by
      rintro (⟨key, preview, ⟨⟩⟩ | ⟨s, i, ⟨⟩, -⟩)
    exact ⟨h.mu_call (c := .swept found tried) ht hnot rfl rfl, (fun _ h => by cases h), h.finite⟩
  | crashes =>
    refine ⟨(fun _ h => by cases h), (fun _ h => by cases h), ?_⟩
    have hempty : {k | w.crash.running k ≠ none} = ∅ := by
      ext k
      simp [World.crash]
    rw [hempty]
    exact Set.finite_empty

end

end Calls

section Runs

def Unrevoked (w : World) (e : Event) (w' : World) : Prop := Step w e w' ∧ ∀ key, e ≠ .revokes key

def World.Reaches (w w' : World) : Prop := ∃ es, Execution Unrevoked w es w'

theorem reaches_refl (w : World) : w.Reaches w := ⟨[], .start⟩

theorem reaches_trans (h : w.Reaches w') (h' : w'.Reaches w'') : w.Reaches w'' := by
  obtain ⟨es, hes⟩ := h
  obtain ⟨fs, hfs⟩ := h'
  exact ⟨es ++ fs, hes.trans hfs⟩

theorem reaches_step (h : Step w e w') (he : ∀ key, e ≠ .revokes key) : w.Reaches w' := ⟨[e], .single ⟨h, he⟩⟩

structure Waits (w w' : World) : Prop where
  mu : w'.mu = w.mu
  calls : ∀ t c, w.calls t = some c → c.HasMu → w'.calls t = some c
  running : w'.running = w.running
  forth : ∀ i x, w.instances i = some x → ∃ y, w'.instances i = some y ∧ y.key = x.key ∧ y.preview = x.preview ∧
    (x.closing = .closed → y.closing = .closed)

theorem Waits.refl (w : World) : Waits w w := ⟨rfl, fun _ _ h _ => h, rfl, fun _ x hx => ⟨x, hx, rfl, rfl, id⟩⟩

theorem Waits.trans (h : Waits w w') (h' : Waits w' w'') : Waits w w'' := by
  refine ⟨h'.mu.trans h.mu, ?_, h'.running.trans h.running, ?_⟩
  · exact fun t c ht hc => h'.calls t c (h.calls t c ht hc) hc
  · intro i x hx
    obtain ⟨y, hy, hkey, hpreview, hclosed⟩ := h.forth i x hx
    obtain ⟨z, hz, hkey', hpreview', hclosed'⟩ := h'.forth i y hy
    exact ⟨z, hz, hkey'.trans hkey, hpreview'.trans hpreview, fun hc => hclosed' (hclosed hc)⟩

theorem waits_put (hmu : w'.mu = w.mu) (hcalls : w'.calls = w.calls) (hrunning : w'.running = w.running) (hx : w.instances i = some x)
    (hinstances : w'.instances = Function.update w.instances i (some y)) (hkey : y.key = x.key) (hpreview : y.preview = x.preview)
    (hclosing : x.closing ≠ .closed) : Waits w w' := by
  refine ⟨hmu, ?_, hrunning, ?_⟩
  · rw [hcalls]
    exact fun _ _ ht _ => ht
  · intro j z hz
    rw [hinstances]
    by_cases hj : j = i
    · subst hj
      cases hx.symm.trans hz
      exact ⟨y, update_self .., hkey, hpreview, fun hc => absurd hc hclosing⟩
    · exact ⟨z, (update_of_ne hj ..).trans hz, rfl, rfl, id⟩

theorem waits_call (ht : w.calls t = some c₀) (h₀ : ¬ c₀.HasMu) (hmu : w'.mu = w.mu) (hcalls : w'.calls = (w.call t c).calls)
    (hrunning : w'.running = w.running) (hinstances : w'.instances = w.instances) : Waits w w' := by
  refine ⟨hmu, ?_, hrunning, ?_⟩
  · intro o d ho hd
    rw [hcalls]
    refine (update_of_ne ?_ ..).trans ho
    rintro rfl
    cases ht.symm.trans ho
    exact h₀ hd
  · rw [hinstances]
    exact fun i x hx => ⟨x, hx, rfl, rfl, id⟩

theorem Waits.wants (h : Waits w w') (hc : c.HasMu) (hwants : w.Wants i c) : w'.Wants i c := by
  rcases hc with ⟨_, _, rfl⟩ | ⟨s, j, rfl, -⟩
  · obtain ⟨k, x, hk, hx, _⟩ := hwants
    obtain ⟨y, hy, hsame, hpreview, -⟩ := h.forth i x hx
    refine ⟨k, y, h.running ▸ hk, hy, ?_⟩
    rwa [hsame, hpreview]
  · exact hwants

theorem Held.frees_network (h : Held w) : ∃ w', w.Reaches w' ∧ Waits w w' ∧ w'.network = none := by
  cases hnetwork : w.network with
  | none => exact ⟨w, reaches_refl w, .refl w, hnetwork⟩
  | some holder =>
    have hholds := h.network holder hnetwork
    cases holder with
    | closer =>
      obtain ⟨x, hx, hclosing⟩ := hholds
      have hrefuses := Step.refuses hx hclosing (fun _ _ => Iff.rfl) subset_rfl (.inr rfl)
      refine ⟨_, reaches_step hrefuses (by simp), waits_put rfl rfl rfl hx rfl rfl rfl ?_, rfl⟩
      simp [hclosing]
    | starter =>
      obtain ⟨c, ht, s, i, rfl, hs⟩ := hholds
      have hdenies := Step.denies ht hs (fun _ _ => Iff.rfl)
      exact ⟨_, reaches_step hdenies (by simp), waits_call (c := .starting (s.on (.failing (some i)))) ht (not_hasMu_of_stage (by simp [hs])) rfl
        rfl rfl rfl, rfl⟩
    | sweeper =>
      obtain ⟨c, ht, found, tried, rfl⟩ := hholds
      have hnot : ¬ (Call.sweeping found tried).HasMu := by
        rintro (⟨key, preview, ⟨⟩⟩ | ⟨s, i, ⟨⟩, -⟩)
      by_cases hall : found ⊆ tried
      · exact ⟨_, reaches_step (Step.sweepEnds ht hall) (by simp), waits_call (c := .swept found tried) ht hnot rfl rfl rfl rfl, rfl⟩
      · obtain ⟨key, hkey⟩ := Set.not_subset.mp hall
        have hfails := Step.sweepFails ht hkey (fun _ _ => Iff.rfl) subset_rfl
        exact ⟨_, reaches_step hfails (by simp), waits_call (c := .swept found (insert key tried)) ht hnot rfl rfl rfl rfl, rfl⟩

theorem closes (hnetwork : w.network = none) (hx : w.instances i = some x) (ht : w.calls t = some c) (hwants : w.Wants i c) :
    ∃ w', w.Reaches w' ∧ Waits w w' ∧ w'.network = none ∧ w'.IsClosed i := by
  have hrevoking {w : World} {x : Instance} (hx : w.instances i = some x) (hclosing : x.closing = .revoking) :
      ∃ w', w.Reaches w' ∧ Waits w w' ∧ w'.network = none ∧ w'.IsClosed i := by
    have hrefuses := Step.refuses hx hclosing (fun _ _ => Iff.rfl) subset_rfl (.inr rfl)
    refine ⟨_, reaches_step hrefuses (by simp), waits_put rfl rfl rfl hx rfl rfl rfl ?_, rfl, ⟨_, update_self .., rfl⟩⟩
    simp [hclosing]
  have hkilled {w : World} {x : Instance} (hnetwork : w.network = none) (hx : w.instances i = some x) (hclosing : x.closing = .killed) :
      ∃ w', w.Reaches w' ∧ Waits w w' ∧ w'.network = none ∧ w'.IsClosed i := by
    obtain ⟨w', hreaches, hwaits, hw'⟩ := hrevoking (w := (w.put i { x with closing := .revoking }).hold (.closer i)) (update_self ..) rfl
    have hfirst : Waits w ((w.put i { x with closing := .revoking }).hold (.closer i)) := waits_put rfl rfl rfl hx rfl rfl rfl (by simp [hclosing])
    exact ⟨w', reaches_trans (reaches_step (.asks hx hclosing hnetwork) (by simp)) hreaches, hfirst.trans hwaits, hw'⟩
  have hbegun {w : World} {x : Instance} (hnetwork : w.network = none) (hx : w.instances i = some x) (hclosing : x.closing = .begun) :
      ∃ w', w.Reaches w' ∧ Waits w w' ∧ w'.network = none ∧ w'.IsClosed i := by
    obtain ⟨w', hreaches, hwaits, hw'⟩ := hkilled (w := w.put i { x with closing := .killed, alive := false }) hnetwork (update_self ..) rfl
    have hfirst : Waits w (w.put i { x with closing := .killed, alive := false }) := waits_put rfl rfl rfl hx rfl rfl rfl (by simp [hclosing])
    exact ⟨w', reaches_trans (reaches_step (.kills hx hclosing) (by simp)) hreaches, hfirst.trans hwaits, hw'⟩
  cases hclosing : x.closing with
  | no =>
    obtain ⟨w', hreaches, hwaits, hw'⟩ := hbegun (w := w.put i { x with closing := .begun }) hnetwork (update_self ..) rfl
    have hfirst : Waits w (w.put i { x with closing := .begun }) := waits_put rfl rfl rfl hx rfl rfl rfl (by simp [hclosing])
    exact ⟨w', reaches_trans (reaches_step (.begins hx hclosing (.inr ⟨t, c, ht, hwants⟩)) (by simp)) hreaches, hfirst.trans hwaits, hw'⟩
  | begun => exact hbegun hnetwork hx hclosing
  | killed => exact hkilled hnetwork hx hclosing
  | revoking => exact hrevoking hx hclosing
  | closed => exact ⟨w, reaches_refl w, .refl w, hnetwork, x, hx, hclosing⟩

theorem clears_frees (n : ℕ) (hfinite : {k | w.running k ≠ none}.Finite) (hn : {k | w.running k ≠ none}.ncard ≤ n) (hnetwork : w.network = none)
    (ht : w.calls t = some (.clearing key preview)) : ∃ w', w.Reaches w' ∧ w'.mu = none ∧ w'.network = none := by
  induction n generalizing w with
  | zero =>
    have hempty := (Set.ncard_eq_zero hfinite).mp (Nat.le_zero.mp hn)
    have hway (i : ℕ) : ¬ w.InTheWay key preview i := by
      rintro ⟨k, x, hk, -⟩
      have hin : k ∈ {k | w.running k ≠ none} := by simp [hk]
      rw [hempty] at hin
      exact hin
    exact ⟨_, reaches_step (.registers ht hway) (by simp), rfl, hnetwork⟩
  | succ _ ih =>
    by_cases hway : ∃ i, w.InTheWay key preview i
    · obtain ⟨i, k, x, hk, hx, hkey⟩ := hway
      have hmu : (Call.clearing key preview).HasMu := .inl ⟨key, preview, rfl⟩
      have hwants : w.Wants i (.clearing key preview) := ⟨k, x, hk, hx, hkey⟩
      obtain ⟨w', hreaches, hwaits, hnetwork', hclosed⟩ := closes hnetwork hx ht hwants
      have hk' : w'.running k = some i := hwaits.running ▸ hk
      have ht' := hwaits.calls t _ ht hmu
      have hdeletes := Step.deletes ht' hk' (hwaits.wants hmu hwants) hclosed
      have hless : {l | (w'.run k none).running l ≠ none} ⊂ {l | w.running l ≠ none} := by
        refine ⟨?_, ?_⟩
        · intro l hl
          by_cases hlk : l = k
          · subst hlk
            simp [World.run] at hl
          · simpa [World.run, hlk, hwaits.running] using hl
        · intro hsub
          have hin : k ∈ {l | (w'.run k none).running l ≠ none} := hsub (by simp [hk])
          simp [World.run] at hin
      have hcard := Set.ncard_lt_ncard hless hfinite
      obtain ⟨w'', hreaches', hfree⟩ := ih (hfinite.subset hless.subset) (by omega) hnetwork' ht'
      exact ⟨w'', reaches_trans hreaches (reaches_trans (reaches_step hdeletes (by simp)) hreaches'), hfree⟩
    · exact ⟨_, reaches_step (.registers ht (not_exists.mp hway)) (by simp), rfl, hnetwork⟩

theorem Held.frees (h : Held w) (hp : Placed w) : ∃ w', w.Reaches w' ∧ w'.mu = none ∧ w'.network = none := by
  obtain ⟨w', hreaches, hwaits, hnetwork⟩ := h.frees_network
  cases hmu : w.mu with
  | none => exact ⟨w', hreaches, hwaits.mu.trans hmu, hnetwork⟩
  | some t =>
    obtain ⟨c, ht, hhas⟩ := h.mu t hmu
    have ht' := hwaits.calls t c ht hhas
    rcases hhas with ⟨_, _, rfl⟩ | ⟨s, i, rfl, hs⟩
    · have hfinite : {k | w'.running k ≠ none}.Finite := by
        rw [hwaits.running]
        exact h.finite
      obtain ⟨w'', hreaches', hfree⟩ := clears_frees _ hfinite le_rfl hnetwork ht'
      exact ⟨w'', reaches_trans hreaches hreaches', hfree⟩
    · have hhas : (Call.starting s).HasMu := .inr ⟨s, i, rfl, hs⟩
      obtain ⟨x, hx, -⟩ := hp.staged t s i ht (by rw [hs]; rfl)
      obtain ⟨y, hy, -⟩ := hwaits.forth i x hx
      obtain ⟨_, hreaches', hwaits', hnetwork', hclosed⟩ := closes hnetwork hy ht' (.inr (.inl hs))
      have hdrops := Step.drops (hwaits'.calls t _ ht' hhas) hs hclosed
      exact ⟨_, reaches_trans hreaches (reaches_trans hreaches' (reaches_step hdrops (by simp))), rfl, hnetwork'⟩

end Runs

end WorkAgent.AppRunner
