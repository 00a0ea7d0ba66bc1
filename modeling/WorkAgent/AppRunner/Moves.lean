import WorkAgent.AppRunner.Runner

namespace WorkAgent.AppRunner

open Library Function

variable {w w' : World} {e : Event} {t o i j : ℕ} {key k : Key} {preview : Bool} {s s' r : Start} {c c₀ : Call} {x y : Instance}
  {stage : Stage} {target : Target}

structure Kin (s s' : Start) : Prop where
  key : s'.key = s.key
  preview : s'.preview = s.preview
  validation : s'.validation = s.validation
  stage : s'.stage = s.stage
  stopped : s.stopped = true → s'.stopped = true

theorem Kin.refl (s : Start) : Kin s s := ⟨rfl, rfl, rfl, rfl, id⟩

theorem Kin.stop (s : Start) : Kin s s.stop := ⟨rfl, rfl, rfl, rfl, fun _ => rfl⟩

structure Aged (x y : Instance) : Prop where
  key : y.key = x.key
  preview : y.preview = x.preview
  validation : y.validation = x.validation
  starter : y.starter = x.starter
  launched : y.launched = x.launched
  alive : y.alive = true → x.alive = true ∧ (y.closing = x.closing ∨ y.closing = .begun)
  closing : x.closing = .closed → y.closing = .closed

theorem Aged.refl (x : Instance) : Aged x x := ⟨rfl, rfl, rfl, rfl, rfl, fun h => ⟨h, .inl rfl⟩, id⟩

structure Ages (w w' : World) : Prop where
  forth : ∀ i x, w.instances i = some x → ∃ y, w'.instances i = some y ∧ Aged x y
  back : ∀ i y, w'.instances i = some y → ∃ x, w.instances i = some x ∧ Aged x y
  begun : ∀ i x y, w.instances i = some x → w'.instances i = some y → x.closing = .no → y.closing ≠ .no →
    x.launched = true ∨ ∃ t c, w.calls t = some c ∧ w.Wants i c

theorem Ages.of_eq (h : w'.instances = w.instances) : Ages w w' := by
  refine ⟨?_, ?_, ?_⟩
  · intro i x hx
    exact ⟨x, h ▸ hx, .refl x⟩
  · intro i y hy
    exact ⟨y, h ▸ hy, .refl y⟩
  · intro i x y hx hy hno hy'
    rw [h] at hy
    cases hx.symm.trans hy
    exact absurd hno hy'

theorem Ages.of_put (hx : w.instances i = some x) (hxy : Aged x y)
    (hbegun : x.closing = .no → y.closing ≠ .no → x.launched = true ∨ ∃ t c, w.calls t = some c ∧ w.Wants i c)
    (h : w'.instances = Function.update w.instances i (some y)) : Ages w w' := by
  refine ⟨?_, ?_, ?_⟩
  · intro j z hz
    rw [h]
    by_cases hj : j = i
    · subst hj
      rw [hx] at hz
      cases hz
      exact ⟨y, update_self .., hxy⟩
    · exact ⟨z, (update_of_ne hj ..).trans hz, .refl z⟩
  · intro j z hz
    rw [h] at hz
    by_cases hj : j = i
    · subst hj
      rw [update_self] at hz
      cases hz
      exact ⟨x, hx, hxy⟩
    · rw [update_of_ne hj] at hz
      exact ⟨z, hz, .refl z⟩
  · intro j z u hz hu hno hu'
    rw [h] at hu
    by_cases hj : j = i
    · subst hj
      rw [update_self] at hu
      cases hu
      cases hx.symm.trans hz
      exact hbegun hno hu'
    · rw [update_of_ne hj] at hu
      cases hz.symm.trans hu
      exact absurd hno hu'

structure Eased (w w' : World) : Prop where
  back : ∀ t s', w'.Pending t s' → ∃ s, w.Pending t s ∧ Kin s s'
  forth : ∀ t s, w.Pending t s → ∃ s', w'.Pending t s' ∧ Kin s s'
  running : ∀ k i, w'.running k = some i → w.running k = some i
  gone : ∀ k i, w.running k = some i → w'.running k = some i ∨ w'.Leaving i ∨ w.IsClosed i
  left : ∀ i, w'.Leaving i → w.Leaving i ∨ ∃ k, w.running k = some i ∧ w'.running k ≠ some i
  kept : ∀ i, w.Leaving i → w'.Leaving i ∨ w.IsClosed i
  ages : Ages w w'

def Goes (w : World) (t : ℕ) (s' : Start) (w' : World) : Prop := ∀ o r, w'.Pending o r ↔ (o = t ∧ r = s') ∨ (o ≠ t ∧ w.Pending o r)

def Over (w : World) (t : ℕ) (w' : World) : Prop := ∀ o r, w'.Pending o r ↔ o ≠ t ∧ w.Pending o r

structure Quiet (w w' : World) : Prop where
  running : w'.running = w.running
  leaving : ∀ i, w'.Leaving i ↔ w.Leaving i

def Stage.Unlaunched : Stage → Prop
  | .brokered _ | .authorizing _ | .granted _ => True
  | _ => False

inductive Moves (w : World) : Event → World → Prop
  | eased {e : Event} {w' : World} (h : Eased w w') : Moves w e w'
  | staged {e : Event} {w' : World} {t : ℕ} {s : Start} {stage : Stage} (ht : w.Pending t s) (hs : s.stage ≠ .building)
      (hinstance : stage.instance? = s.stage.instance?) (hpreparing : stage ≠ .preparing) (hbuilding : stage ≠ .building)
      (hunlaunched : stage.Unlaunched → s.stage.Unlaunched)
      (hlaunched : ∀ i, stage = .launched i ∨ stage = .discarding i → s.stage = .launched i)
      (hgoes : Goes w t (s.on stage) w') (hquiet : Quiet w w') (hsame : w'.instances = w.instances) : Moves w e w'
  | validated {w' : World} {t : ℕ} {s : Start} (ht : w.Pending t s) (hs : s.stage = .building) (hgoes : Goes w t (s.on .preparing) w')
      (hquiet : Quiet w w') (hsame : w'.instances = w.instances) : Moves w (.validates t s.key) w'
  | brokered {e : Event} {w' : World} {t i : ℕ} {s : Start} (ht : w.Pending t s) (hs : s.stage = .preparing) (hi : w.instances i = none)
      (hgoes : Goes w t (s.on (.brokered i)) w') (hquiet : Quiet w w')
      (hnew : w'.instances = Function.update w.instances i (some ⟨s.key, s.preview, s.validation, t, false, false, 0, .no⟩)) : Moves w e w'
  | launched {e : Event} {w' : World} {t i : ℕ} {s : Start} {x : Instance} (ht : w.Pending t s) (hs : s.stage = .granted i)
      (hx : w.instances i = some x) (hgoes : Goes w t (s.on (.launched i)) w') (hquiet : Quiet w w')
      (hnew : w'.instances = Function.update w.instances i (some { x with launched := true, alive := true })) : Moves w e w'
  | registered {w' : World} {t : ℕ} {key : Key} {preview : Bool} (ht : ∀ s, ¬ w.Pending t s) (hopen : w.closed = false)
      (hnone : ∀ o conflict, ¬ w.Starting key preview o conflict) (hway : ∀ i, ¬ w.InTheWay key preview i)
      (hgoes : Goes w t ⟨key, preview, false, false, .preparing⟩ w') (hquiet : Quiet w w') (hsame : w'.instances = w.instances) :
      Moves w (.registers t key preview) w'
  | built {e : Event} {w' : World} {t : ℕ} {key : Key} {preview : Bool} (ht : ∀ s, ¬ w.Pending t s) (hopen : w.closed = false)
      (hbusy : ∀ o s, w.Pending o s → s.validation = true → s.key ≠ key)
      (hgoes : Goes w t ⟨key, preview, true, false, .building⟩ w') (hquiet : Quiet w w') (hsame : w'.instances = w.instances) : Moves w e w'
  | ended {e : Event} {w' : World} {t : ℕ} {s : Start} (ht : w.Pending t s) (hclosed : ∀ i, s.stage.instance? = some i → w.IsClosed i)
      (hover : Over w t w') (hquiet : Quiet w w') (hsame : w'.instances = w.instances) : Moves w e w'
  | landed {e : Event} {w' : World} {t i : ℕ} {s : Start} {x : Instance} (ht : w.Pending t s) (hs : s.stage = .launched i)
      (hacquire : s.validation = false) (hstopped : s.stopped = false) (hx : w.instances i = some x) (hover : Over w t w')
      (hrunning : w'.running = Function.update w.running s.key (some i)) (hleaving : ∀ i, w'.Leaving i ↔ w.Leaving i)
      (hnew : w'.instances = Function.update w.instances i (some { x with active := x.active + 1 })) : Moves w e w'
  | crashed {e : Event} {w' : World} (hpending : ∀ t s, ¬ w'.Pending t s) (hrunning : ∀ k, w'.running k = none)
      (hleaving : ∀ i, ¬ w'.Leaving i) (hinstances : ∀ i, w'.instances i = none) : Moves w e w'

section Calls

theorem pending_call : (w.call t c).Pending o s ↔ (o = t ∧ c = .starting s) ∨ (o ≠ t ∧ w.Pending o s) := by
  unfold World.Pending World.call
  by_cases ho : o = t
  · subst ho
    simp
  · simp [ho]

theorem pending_congr (h : w'.calls = w.calls) : w'.Pending t s ↔ w.Pending t s := by
  unfold World.Pending
  rw [h]

theorem leaving_congr (h : w'.calls = w.calls) : w'.Leaving i ↔ w.Leaving i := by
  unfold World.Leaving
  rw [h]

theorem leaving_call (h : c.takenOut = (w.calls t).elim ∅ Call.takenOut) : (w.call t c).Leaving i ↔ w.Leaving i := by
  constructor
  · rintro ⟨o, d, ho, hd⟩
    by_cases hot : o = t
    · subst hot
      obtain rfl : c = d := by simpa [World.call] using ho
      cases hc : w.calls o with
      | none =>
        rw [h, hc] at hd
        exact absurd hd (Set.notMem_empty i)
      | some c₀ =>
        rw [h, hc] at hd
        exact ⟨o, c₀, hc, hd⟩
    · exact ⟨o, d, (update_of_ne hot ..).symm.trans ho, hd⟩
  · rintro ⟨o, d, ho, hd⟩
    by_cases hot : o = t
    · subst hot
      refine ⟨o, c, update_self .., ?_⟩
      rw [h, ho]
      exact hd
    · exact ⟨o, d, (update_of_ne hot ..).trans ho, hd⟩

def Call.IsStart (c : Call) : Prop := ∃ s, c = .starting s

theorem eased_call (h₀ : ∀ c₀, w.calls t = some c₀ → ¬ c₀.IsStart) (h : ¬ c.IsStart)
    (htaken : c.takenOut = (w.calls t).elim ∅ Call.takenOut) (hcalls : w'.calls = (w.call t c).calls) (hrunning : w'.running = w.running)
    (hages : Ages w w') : Eased w w' := by
  have hpending (o : ℕ) (s : Start) : w'.Pending o s ↔ w.Pending o s := by
    rw [pending_congr hcalls, pending_call]
    constructor
    · rintro (⟨-, rfl⟩ | ⟨-, ho⟩)
      · exact absurd ⟨s, rfl⟩ h
      · exact ho
    · intro ho
      by_cases hot : o = t
      · subst hot
        exact absurd ⟨s, rfl⟩ (h₀ _ ho)
      · exact .inr ⟨hot, ho⟩
  have hleaving (i : ℕ) : w'.Leaving i ↔ w.Leaving i := (leaving_congr hcalls).trans (leaving_call htaken)
  refine ⟨?_, ?_, ?_, ?_, ?_, ?_, hages⟩
  · exact fun o s ho => ⟨s, (hpending o s).mp ho, .refl s⟩
  · exact fun o s ho => ⟨s, (hpending o s).mpr ho, .refl s⟩
  · exact fun k i hk => hrunning ▸ hk
  · exact fun k i hk => .inl (hrunning ▸ hk)
  · exact fun i hi => .inl ((hleaving i).mp hi)
  · exact fun i hi => .inl ((hleaving i).mpr hi)

theorem eased_same (hcalls : w'.calls = w.calls) (hrunning : w'.running = w.running) (hages : Ages w w') : Eased w w' := by
  refine ⟨?_, ?_, ?_, ?_, ?_, ?_, hages⟩
  · exact fun o s ho => ⟨s, (pending_congr hcalls).mp ho, .refl s⟩
  · exact fun o s ho => ⟨s, (pending_congr hcalls).mpr ho, .refl s⟩
  · exact fun k i hk => hrunning ▸ hk
  · exact fun k i hk => .inl (hrunning ▸ hk)
  · exact fun i hi => .inl ((leaving_congr hcalls).mp hi)
  · exact fun i hi => .inl ((leaving_congr hcalls).mpr hi)

theorem goes_call (hcalls : w'.calls = (w.call t (.starting s)).calls) : Goes w t s w' := by
  intro o r
  rw [pending_congr hcalls, pending_call]
  simp [eq_comm]

theorem over_call (h : ¬ c.IsStart) (hcalls : w'.calls = (w.call t c).calls) : Over w t w' := by
  intro o r
  rw [pending_congr hcalls, pending_call]
  constructor
  · rintro (⟨-, rfl⟩ | ho)
    · exact absurd ⟨r, rfl⟩ h
    · exact ho
  · exact .inr

theorem quiet_call (ht : w.Pending t s) (htaken : c.takenOut = ∅) (hcalls : w'.calls = (w.call t c).calls)
    (hrunning : w'.running = w.running) : Quiet w w' := by
  refine ⟨hrunning, fun i => (leaving_congr hcalls).trans (leaving_call ?_)⟩
  have hcall : w.calls t = some (.starting s) := ht
  rw [hcall, htaken]
  rfl

end Calls

structure Locked (w : World) : Prop where
  fresh : ∀ t, w.next ≤ t → w.calls t = none
  clearing : ∀ t key preview, w.calls t = some (.clearing key preview) →
    w.mu = some t ∧ w.closed = false ∧ ∀ o conflict, ¬ w.Starting key preview o conflict
  discarding : ∀ t s i, w.Pending t s → s.stage = .discarding i → w.mu = some t

def Stage.Fits (x : Instance) : Stage → Prop
  | .brokered _ | .authorizing _ | .granted _ => x.launched = false ∧ x.closing = .no
  | .launched _ | .discarding _ => x.launched = true
  | _ => True

structure Placed (w : World) : Prop where
  alive : ∀ i x, w.instances i = some x → x.alive = true → x.launched = true ∧ (x.closing = .no ∨ x.closing = .begun)
  staged : ∀ t s i, w.Pending t s → s.stage.instance? = some i → ∃ x, w.instances i = some x ∧ x.key = s.key ∧ x.preview = s.preview ∧
    x.validation = s.validation ∧ x.starter = t ∧ s.stage.Fits x
  placed : ∀ i x, w.instances i = some x → x.closing ≠ .closed → (∃ s, w.Pending x.starter s ∧ s.stage.instance? = some i) ∨
    (x.validation = false ∧ x.launched = true ∧ (w.running x.key = some i ∨ w.Leaving i))
  ran : ∀ key i, w.running key = some i → ∃ x, w.instances i = some x ∧ x.key = key ∧ x.validation = false ∧ x.launched = true
  leaving : ∀ i, w.Leaving i → (∃ x, w.instances i = some x ∧ x.validation = false ∧ x.launched = true) ∧ ∀ k, w.running k ≠ some i
  apart : ∀ t s i, w.Pending t s → s.stage.instance? = some i → (∀ k, w.running k ≠ some i) ∧ ¬ w.Leaving i
  uniqueKey : ∀ t o s r, w.Pending t s → w.Pending o r → s.validation = r.validation → s.key = r.key → t = o
  uniqueSlot : ∀ t o s r, w.Pending t s → w.Pending o r → s.validation = false → r.validation = false → s.key.id = r.key.id →
    s.preview = r.preview → t = o
  way : ∀ t s, w.Pending t s → s.validation = false → ∀ i, ¬ w.InTheWay s.key s.preview i

section Steps

theorem kin_stop (target : Target) (h : w.calls t = some c) (hs : c.stop target = .starting s') : ∃ s, c = .starting s ∧ Kin s s' := by
  cases c with
  | starting s =>
    refine ⟨s, rfl, ?_⟩
    simp only [Call.stop] at hs
    by_cases hcovers : target.Covers s.key.id
    · rw [if_pos hcovers] at hs
      cases hs
      exact .stop _
    · rw [if_neg hcovers] at hs
      cases hs
      exact .refl _
  | _ => cases hs

theorem takenOut_stop (target : Target) (c : Call) : (c.stop target).takenOut = c.takenOut := by
  cases c with
  | starting s =>
    simp only [Call.stop]
    by_cases hcovers : target.Covers s.key.id
    · rw [if_pos hcovers]
      rfl
    · rw [if_neg hcovers]
  | _ => rfl

theorem takeOut_calls_ne (hot : o ≠ t) : (w.takeOut t target).calls o = (w.calls o).map (Call.stop target) := by
  simp [World.takeOut, hot]

theorem takeOut_calls_self : (w.takeOut t target).calls t =
    some (.closing target {i | ∃ k, target.Covers k.id ∧ w.running k = some i} {t | ∃ s, w.Pending t s ∧ target.Covers s.key.id}) := by
  simp [World.takeOut]

theorem takeOut_running (hk : (w.takeOut t target).running k = some i) : w.running k = some i ∧ ¬ target.Covers k.id := by
  simp only [World.takeOut] at hk
  split at hk
  · cases hk
  · exact ⟨hk, ‹_›⟩

theorem eased_takeOut (ht : w.calls t = some (.stopping target)) : Eased w (w.takeOut t target) := by
  have hself {s : Start} : ¬ w.Pending t s := by
    intro hs
    cases ht.symm.trans hs
  refine ⟨?_, ?_, fun k i hk => (takeOut_running hk).1, ?_, ?_, ?_, .of_eq rfl⟩
  · intro o _ ho
    by_cases hot : o = t
    · subst hot
      cases takeOut_calls_self.symm.trans ho
    · have hmap := (takeOut_calls_ne hot).symm.trans ho
      obtain ⟨c, hc, hs'⟩ := Option.map_eq_some_iff.mp hmap
      obtain ⟨s, rfl, hkin⟩ := kin_stop target hc hs'
      exact ⟨s, hc, hkin⟩
  · intro o s ho
    by_cases hot : o = t
    · subst hot
      exact absurd ho hself
    · have hcall : w.calls o = some (.starting s) := ho
      by_cases hcovers : target.Covers s.key.id
      · refine ⟨s.stop, ?_, .stop s⟩
        refine (takeOut_calls_ne hot).trans ?_
        simp [hcall, Call.stop, hcovers]
      · refine ⟨s, ?_, .refl s⟩
        refine (takeOut_calls_ne hot).trans ?_
        simp [hcall, Call.stop, hcovers]
  · intro k i hk
    by_cases hcovers : target.Covers k.id
    · exact .inr (.inl ⟨t, _, takeOut_calls_self, k, hcovers, hk⟩)
    · left
      simp [World.takeOut, hcovers, hk]
  · rintro i ⟨o, c, ho, hi⟩
    by_cases hot : o = t
    · subst hot
      cases takeOut_calls_self.symm.trans ho
      obtain ⟨k, hcovers, hk⟩ := hi
      refine .inr ⟨k, hk, ?_⟩
      intro hk'
      exact (takeOut_running hk').2 hcovers
    · obtain ⟨d, hd, rfl⟩ := Option.map_eq_some_iff.mp ((takeOut_calls_ne hot).symm.trans ho)
      rw [takenOut_stop] at hi
      exact .inl ⟨o, d, hd, hi⟩
  · rintro i ⟨o, c, ho, hi⟩
    by_cases hot : o = t
    · subst hot
      cases ht.symm.trans ho
      exact absurd hi (Set.notMem_empty i)
    · refine .inl ⟨o, c.stop target, ?_, ?_⟩
      · refine (takeOut_calls_ne hot).trans ?_
        rw [ho]
        rfl
      · rwa [takenOut_stop]

theorem reapOut_running {todo : Finset ℕ} : (w.reapOut todo).running k = some i ↔ w.running k = some i ∧ i ∉ todo := by
  simp [World.reapOut, Option.filter_eq_some_iff]

theorem eased_reapOut {todo : Finset ℕ} (hw : Locked w) (hidle : ∀ i ∈ todo, ∃ k x, w.running k = some i ∧ w.instances i = some x ∧ x.active = 0) :
    Eased w (w.reapOut todo) := by
  have hfresh := hw.fresh w.next le_rfl
  have hcalls : (w.reapOut todo).calls = (w.call w.next (.reaping ↑todo)).calls := rfl
  have hpending (o : ℕ) (s : Start) : (w.reapOut todo).Pending o s ↔ w.Pending o s := by
    rw [pending_congr hcalls, pending_call]
    constructor
    · rintro (⟨-, h⟩ | ⟨-, ho⟩)
      · cases h
      · exact ho
    · intro ho
      refine .inr ⟨?_, ho⟩
      rintro rfl
      cases hfresh.symm.trans ho
  refine ⟨fun o s ho => ⟨s, (hpending o s).mp ho, .refl s⟩, fun o s ho => ⟨s, (hpending o s).mpr ho, .refl s⟩, ?_, ?_, ?_, ?_, .of_eq rfl⟩
  · exact fun k i hk => (reapOut_running.mp hk).1
  · intro k i hk
    by_cases hi : i ∈ todo
    · exact .inr (.inl ⟨w.next, _, update_self .., hi⟩)
    · exact .inl (reapOut_running.mpr ⟨hk, hi⟩)
  · rintro i ⟨o, c, ho, hi⟩
    by_cases hot : o = w.next
    · subst hot
      obtain rfl : Call.reaping ↑todo = c := by simpa [World.reapOut] using ho
      obtain ⟨k, x, hk, -, -⟩ := hidle i hi
      refine .inr ⟨k, hk, ?_⟩
      intro hk'
      exact (reapOut_running.mp hk').2 hi
    · exact .inl ⟨o, c, (update_of_ne hot ..).symm.trans ho, hi⟩
  · rintro i ⟨o, c, ho, hi⟩
    refine .inl ⟨o, c, (update_of_ne ?_ ..).trans ho, hi⟩
    rintro rfl
    cases hfresh.symm.trans ho

theorem eased_conflict (ht : w.calls t = some (.acquiring key preview)) (hs : w.Pending o s) :
    Eased w ((w.call o (.starting s.stop)).call t (.awaiting key preview o true)) := by
  have hne : o ≠ t := by
    rintro rfl
    cases ht.symm.trans hs
  have hcall : (w.call o (.starting s.stop)).calls t = some (.acquiring key preview) := (update_of_ne hne.symm ..).trans ht
  have hpending (p : ℕ) (r : Start) : ((w.call o (.starting s.stop)).call t (.awaiting key preview o true)).Pending p r ↔
      (p = o ∧ r = s.stop) ∨ (p ≠ o ∧ w.Pending p r) := by
    rw [pending_call, pending_call]
    constructor
    · rintro (⟨-, h⟩ | ⟨-, ⟨rfl, h⟩ | h⟩)
      · cases h
      · exact .inl ⟨rfl, (Call.starting.inj h).symm⟩
      · exact .inr h
    · rintro (⟨rfl, rfl⟩ | ⟨hpo, h⟩)
      · exact .inr ⟨hne, .inl ⟨rfl, rfl⟩⟩
      · refine .inr ⟨?_, .inr ⟨hpo, h⟩⟩
        rintro rfl
        cases ht.symm.trans h
  have hleaving (i : ℕ) : ((w.call o (.starting s.stop)).call t (.awaiting key preview o true)).Leaving i ↔ w.Leaving i := by
    rw [leaving_call, leaving_call]
    · have hstart : w.calls o = some (.starting s) := hs
      rw [hstart]
      rfl
    · rw [hcall]
      rfl
  refine ⟨?_, ?_, fun _ _ hk => hk, fun _ _ hk => .inl hk, fun i hi => .inl ((hleaving i).mp hi), fun i hi => .inl ((hleaving i).mpr hi),
    .of_eq rfl⟩
  · intro p r hp
    rcases (hpending p r).mp hp with ⟨rfl, rfl⟩ | ⟨-, hp⟩
    · exact ⟨s, hs, .stop s⟩
    · exact ⟨r, hp, .refl r⟩
  · intro p r hp
    by_cases hpo : p = o
    · subst hpo
      obtain rfl : s = r := Call.starting.inj (Option.some.inj (hs.symm.trans hp))
      exact ⟨s.stop, (hpending p s.stop).mpr (.inl ⟨rfl, rfl⟩), .stop s⟩
    · exact ⟨r, (hpending p r).mpr (.inr ⟨hpo, hp⟩), .refl r⟩

theorem eased_delete (hclosed : w.IsClosed i) (hrunning : w.running k = some i) : Eased w (w.run k none) := by
  refine ⟨fun o s ho => ⟨s, ho, .refl s⟩, fun o s ho => ⟨s, ho, .refl s⟩, ?_, ?_, fun i hi => .inl hi, fun i hi => .inl hi, .of_eq rfl⟩
  · intro l j hl
    by_cases hlk : l = k
    · subst hlk
      simp [World.run] at hl
    · simpa [World.run, hlk] using hl
  · intro l j hl
    by_cases hlk : l = k
    · subst hlk
      cases hrunning.symm.trans hl
      exact .inr (.inr hclosed)
    · left
      simpa [World.run, hlk] using hl

theorem eased_forget {todo : Set ℕ} (ht : w.calls t = some c₀) (h₀ : ¬ c₀.IsStart) (htodo : c₀.takenOut = todo)
    (hclosed : ∀ i ∈ todo, w.IsClosed i) (h : ¬ c.IsStart) (htaken : c.takenOut = ∅) (hcalls : w'.calls = (w.call t c).calls)
    (hrunning : w'.running = w.running) (hsame : w'.instances = w.instances) : Eased w w' := by
  have hpending (o : ℕ) (s : Start) : w'.Pending o s ↔ w.Pending o s := by
    rw [pending_congr hcalls, pending_call]
    constructor
    · rintro (⟨-, rfl⟩ | ⟨-, ho⟩)
      · exact absurd ⟨s, rfl⟩ h
      · exact ho
    · intro ho
      refine .inr ⟨?_, ho⟩
      rintro rfl
      cases ht.symm.trans ho
      exact h₀ ⟨s, rfl⟩
  refine ⟨fun o s ho => ⟨s, (hpending o s).mp ho, .refl s⟩, fun o s ho => ⟨s, (hpending o s).mpr ho, .refl s⟩, ?_, ?_, ?_, ?_, .of_eq hsame⟩
  · exact fun k i hk => hrunning ▸ hk
  · exact fun k i hk => .inl (hrunning ▸ hk)
  · rintro i ⟨o, d, ho, hd⟩
    rw [hcalls] at ho
    by_cases hot : o = t
    · subst hot
      obtain rfl : c = d := by simpa [World.call] using ho
      rw [htaken] at hd
      exact absurd hd (Set.notMem_empty i)
    · exact .inl ⟨o, d, (update_of_ne hot ..).symm.trans ho, hd⟩
  · rintro i ⟨o, d, ho, hd⟩
    by_cases hot : o = t
    · subst hot
      cases ht.symm.trans ho
      exact .inr (hclosed i (htodo ▸ hd))
    · refine .inl ⟨o, d, ?_, hd⟩
      rw [hcalls]
      exact (update_of_ne hot ..).trans ho

end Steps

section Classify

theorem moves_call (ht : w.calls t = some c₀) (h₀ : ¬ c₀.IsStart) (htaken₀ : c₀.takenOut = ∅) (h : ¬ c.IsStart) (htaken : c.takenOut = ∅)
    (hcalls : w'.calls = (w.call t c).calls) (hrunning : w'.running = w.running) (hages : Ages w w') : Moves w e w' := by
  refine .eased (eased_call ?_ h ?_ hcalls hrunning hages)
  · intro _ hc₁
    cases ht.symm.trans hc₁
    exact h₀
  · rw [ht, htaken]
    exact htaken₀.symm

theorem moves_begin (hw : Locked w) (h : ¬ c.IsStart) (htaken : c.takenOut = ∅) : Moves w e (w.begin c) := by
  have hfresh := hw.fresh w.next le_rfl
  refine .eased (eased_call (t := w.next) ?_ h ?_ rfl rfl (.of_eq rfl))
  · intro _ hc₁
    cases hfresh.symm.trans hc₁
  · rw [hfresh, htaken]
    rfl

theorem moves_aged (hx : w.instances i = some x) (hxy : Aged x y)
    (hbegun : x.closing = .no → y.closing ≠ .no → x.launched = true ∨ ∃ t c, w.calls t = some c ∧ w.Wants i c)
    (hcalls : w'.calls = w.calls) (hrunning : w'.running = w.running)
    (hinstances : w'.instances = Function.update w.instances i (some y)) : Moves w e w' :=
  .eased (eased_same hcalls hrunning (.of_put hx hxy hbegun hinstances))

theorem moves_staged (ht : w.Pending t s) (hs : s.stage ≠ .building) (hinstance : stage.instance? = s.stage.instance?)
    (hpreparing : stage ≠ .preparing) (hbuilding : stage ≠ .building) (hunlaunched : stage.Unlaunched → s.stage.Unlaunched)
    (hlaunched : ∀ i, stage = .launched i ∨ stage = .discarding i → s.stage = .launched i)
    (hcalls : w'.calls = (w.call t (.starting (s.on stage))).calls) (hrunning : w'.running = w.running)
    (hsame : w'.instances = w.instances) : Moves w e w' :=
  .staged ht hs hinstance hpreparing hbuilding hunlaunched hlaunched (goes_call hcalls) (quiet_call ht rfl hcalls hrunning) hsame

theorem moves_over (ht : w.Pending t s) (hclosed : ∀ i, s.stage.instance? = some i → w.IsClosed i) (h : ¬ c.IsStart)
    (htaken : c.takenOut = ∅) (hcalls : w'.calls = (w.call t c).calls) (hrunning : w'.running = w.running)
    (hsame : w'.instances = w.instances) : Moves w e w' :=
  .ended ht hclosed (over_call h hcalls) (quiet_call ht htaken hcalls hrunning) hsame

theorem not_pending (ht : w.calls t = some c) (h : ¬ c.IsStart) : ¬ w.Pending t s := by
  intro hs
  cases ht.symm.trans hs
  exact h ⟨s, rfl⟩

theorem quiet_of_call (ht : w.calls t = some c₀) (htaken : c.takenOut = c₀.takenOut) (hcalls : w'.calls = (w.call t c).calls)
    (hrunning : w'.running = w.running) : Quiet w w' := by
  refine ⟨hrunning, fun i => (leaving_congr hcalls).trans (leaving_call ?_)⟩
  rw [ht, htaken]
  rfl

theorem aged_dead {y : Closing} (halive : x.alive = true → x.closing = .no ∨ x.closing = .begun)
    (hclosing : x.closing ≠ .no ∧ x.closing ≠ .begun) (hy : x.closing = .closed → y = .closed) : Aged x { x with closing := y } := by
  refine ⟨rfl, rfl, rfl, rfl, rfl, ?_, hy⟩
  intro h
  rcases halive h with h | h
  · exact absurd h hclosing.1
  · exact absurd h hclosing.2

theorem moves_step (hw : Locked w) (hp : Placed w) (h : Step w e w') : Moves w e w' := by
  cases h with
  | acquires | snapshots | stops => exact moves_begin hw (by simp [Call.IsStart]) rfl
  | gives ht hc =>
    rcases hc with ⟨key, preview, rfl⟩ | ⟨key, preview, _, _, rfl⟩ | ⟨key, preview, rfl⟩
    all_goals exact moves_call ht (by simp [Call.IsStart]) rfl (by simp [Call.IsStart]) rfl rfl rfl (.of_eq rfl)
  | waits ht | retries ht | clears ht | sweepRevokes ht | sweepFails ht | sweepEnds ht =>
    exact moves_call ht (by simp [Call.IsStart]) rfl (by simp [Call.IsStart]) rfl rfl rfl (.of_eq rfl)
  | conflicts ht _ _ _ _ hs => exact .eased (eased_conflict ht hs)
  | @serves _ _ _ _ x ht _ _ _ _ hx =>
    have hages : Aged x { x with active := x.active + 1 } := ⟨rfl, rfl, rfl, rfl, rfl, fun h => ⟨h, .inl rfl⟩, id⟩
    exact moves_call ht (by simp [Call.IsStart]) rfl (by simp [Call.IsStart]) rfl rfl rfl (.of_put hx hages (fun h h' => absurd h h') rfl)
  | deletes _ hrunning _ hclosed => exact .eased (eased_delete hclosed hrunning)
  | @registers t key preview ht hway =>
    obtain ⟨-, hopen, hnone⟩ := hw.clearing _ _ _ ht
    have hquiet : Quiet w (w.call t (.starting ⟨key, preview, false, false, .preparing⟩)).unlock :=
      quiet_of_call (c := .starting ⟨key, preview, false, false, .preparing⟩) ht rfl rfl rfl
    exact .registered (fun s => not_pending ht (by simp [Call.IsStart])) hopen hnone hway (goes_call rfl) hquiet rfl
  | @builds t key preview ht _ hopen hbusy =>
    have hquiet : Quiet w (w.call t (.starting ⟨key, preview, true, false, .building⟩)) :=
      quiet_of_call (c := .starting ⟨key, preview, true, false, .building⟩) ht rfl rfl rfl
    exact .built (fun s => not_pending ht (by simp [Call.IsStart])) hopen hbusy (goes_call rfl) hquiet rfl
  | validates ht hs => exact .validated ht hs (goes_call rfl) (quiet_call ht rfl rfl rfl) rfl
  | brokers ht hs hi => exact .brokered ht hs hi (goes_call rfl) (quiet_call ht rfl rfl rfl) rfl
  | leases ht hs | grants ht hs =>
    exact moves_staged ht (by simp [hs]) (by simp [hs, Stage.instance?]) (by simp) (by simp) (by simp [hs, Stage.Unlaunched]) (by simp) rfl rfl rfl
  | leaseBreaks ht hs | denies ht hs =>
    exact moves_staged ht (by simp [hs]) (by simp [hs, Stage.instance?]) (by simp) (by simp) (by simp [Stage.Unlaunched]) (by simp) rfl rfl rfl
  | launches ht hs hx => exact .launched ht hs hx (goes_call rfl) (quiet_call ht rfl rfl rfl) rfl
  | @fails _ s ht hs =>
    have hinstance : (Stage.failing s.stage.instance?).instance? = s.stage.instance? := rfl
    refine moves_staged ht ?_ hinstance (by simp) (by simp) (by simp [Stage.Unlaunched]) (by simp) rfl rfl rfl
    intro hbuilding
    rw [hbuilding] at hs
    exact hs
  | @lands t i s x ht hs hacquire _ _ hstopped hx =>
    refine .landed ht hs hacquire hstopped hx (over_call (c := .serving i) (by simp [Call.IsStart]) rfl) rfl ?_ rfl
    intro j
    have hcall : ((w.put i { x with active := x.active + 1 }).run s.key (some i)).calls t = some (.starting s) := ht
    refine leaving_call ?_
    rw [hcall]
    rfl
  | discards ht hs =>
    exact moves_staged ht (by simp [hs]) (by simp [hs, Stage.instance?]) (by simp) (by simp) (by simp [Stage.Unlaunched]) (by simp [hs]) rfl rfl rfl
  | @drops _ _ _ ht hs hclosed =>
    refine moves_over ht ?_ (by simp [Call.IsStart]) (c := .failed) rfl rfl rfl rfl
    intro j hj
    rw [hs] at hj
    cases hj
    exact hclosed
  | @ends _ _ _ ht hs _ hclosed =>
    refine moves_over ht ?_ (by simp [Call.IsStart]) (c := .failed) rfl rfl rfl rfl
    intro j hj
    rw [hs] at hj
    exact hclosed j hj
  | @snapshotEnds _ _ ht _ _ hs =>
    refine moves_over ht ?_ (by simp [Call.IsStart]) (c := .released) rfl rfl rfl rfl
    intro j hj
    rcases hs with hs | ⟨i, hs, hclosed⟩
    · rw [hs] at hj
      cases hj
    · rw [hs] at hj
      cases hj
      exact hclosed
  | @begins _ x hx hclosing hwanted =>
    have hages : Aged x { x with closing := .begun } := ⟨rfl, rfl, rfl, rfl, rfl, fun h => ⟨h, .inr rfl⟩, by simp [hclosing]⟩
    exact moves_aged hx hages (fun _ _ => hwanted) rfl rfl rfl
  | @kills _ x hx hclosing =>
    have hages : Aged x { x with closing := .killed, alive := false } := ⟨rfl, rfl, rfl, rfl, rfl, by simp, by simp [hclosing]⟩
    exact moves_aged hx hages (by simp [hclosing]) rfl rfl rfl
  | @asks i x hx hclosing =>
    have hages : Aged x { x with closing := .revoking } :=
      aged_dead (fun h => (hp.alive i x hx h).2) (by simp [hclosing]) (by simp [hclosing])
    exact moves_aged hx hages (by simp [hclosing]) rfl rfl rfl
  | @revokes i x hx hclosing | @refuses i x _ _ hx hclosing | @refusalBreaks i x _ hx hclosing =>
    have hages : Aged x { x with closing := .closed } := aged_dead (fun h => (hp.alive i x hx h).2) (by simp [hclosing]) (by simp)
    exact moves_aged hx hages (by simp [hclosing]) rfl rfl rfl
  | @exits _ x hx =>
    have hages : Aged x { x with alive := false } := ⟨rfl, rfl, rfl, rfl, rfl, by simp, id⟩
    exact moves_aged hx hages (fun h h' => absurd h h') rfl rfl rfl
  | @releases _ _ x ht _ hx =>
    have hages : Aged x { x with active := x.active - 1 } := ⟨rfl, rfl, rfl, rfl, rfl, fun h => ⟨h, .inl rfl⟩, id⟩
    exact moves_call ht (by simp [Call.IsStart]) rfl (by simp [Call.IsStart]) rfl rfl rfl (.of_put hx hages (fun h h' => absurd h h') rfl)
  | takes ht => exact .eased (eased_takeOut ht)
  | stopped ht htodo | sweeps ht htodo =>
    exact .eased (eased_forget ht (by simp [Call.IsStart]) rfl htodo (by simp [Call.IsStart]) rfl rfl rfl rfl)
  | reaps _ _ hidle => exact .eased (eased_reapOut hw hidle)
  | crashes =>
    refine .crashed ?_ (fun _ => rfl) ?_ (fun _ => rfl)
    · rintro t s ⟨⟩
    · rintro i ⟨t, c, ⟨⟩, -⟩

end Classify

end WorkAgent.AppRunner
