import Mathlib.Data.Set.Card
import WorkAgent.AppRunner.Places

namespace WorkAgent.AppRunner

open Library Function

variable {w w' : World} {e : Event} {t o i j : ℕ} {key : Key} {preview : Bool} {s : Start} {x y : Instance} {c c₀ : Call} {target : Target}
  {todo : Set ℕ}

def World.servers (w : World) (i : ℕ) : Set ℕ := {t | w.calls t = some (.serving i)}

/-- `active` is the number of calls that use the process, and nobody uses one that `reap` has taken out. -/
structure Served (w : World) : Prop where
  serving : ∀ t i, w.calls t = some (.serving i) → ∃ x, w.instances i = some x
  counted : ∀ i x, w.instances i = some x → x.active = (w.servers i).ncard
  idle : ∀ t todo, w.calls t = some (.reaping todo) → ∀ i ∈ todo, w.servers i = ∅

theorem servers_finite (hw : Locked w) (i : ℕ) : (w.servers i).Finite := by
  apply (Set.finite_lt_nat w.next).subset
  intro t ht
  by_contra hlt
  have hcall : w.calls t = some (.serving i) := ht
  rw [hw.fresh t (not_lt.mp hlt)] at hcall
  cases hcall

structure SameServers (w w' : World) : Prop where
  serving : ∀ t i, w'.calls t = some (.serving i) ↔ w.calls t = some (.serving i)
  reaping : ∀ t todo, w'.calls t = some (.reaping todo) → w.calls t = some (.reaping todo)

theorem SameServers.of_eq (h : w'.calls = w.calls) : SameServers w w' := by
  refine ⟨?_, ?_⟩
  · intro t i
    rw [h]
  · rw [h]
    exact fun _ _ ht => ht

theorem same_call (h₀ : ∀ i, w.calls t ≠ some (.serving i)) (hserving : ∀ i, c ≠ .serving i) (hreaping : ∀ todo, c ≠ .reaping todo)
    (hcalls : w'.calls = (w.call t c).calls) : SameServers w w' := by
  refine ⟨?_, ?_⟩
  · intro o i
    rw [hcalls]
    by_cases hot : o = t
    · subst hot
      simp [World.call, h₀ i, hserving i]
    · simp [World.call, hot]
  · intro o todo ho
    rw [hcalls] at ho
    by_cases hot : o = t
    · subst hot
      have hc : c = .reaping todo := by simpa [World.call] using ho
      exact absurd hc (hreaping todo)
    · exact (update_of_ne hot ..).symm.trans ho

theorem same_of_call (ht : w.calls t = some c₀) (h₀ : ∀ i, c₀ ≠ .serving i) (hserving : ∀ i, c ≠ .serving i)
    (hreaping : ∀ todo, c ≠ .reaping todo) (hcalls : w'.calls = (w.call t c).calls) : SameServers w w' := by
  refine same_call ?_ hserving hreaping hcalls
  intro i hi
  exact h₀ i (Option.some.inj (ht.symm.trans hi))

theorem SameServers.trans {w'' : World} (h : SameServers w w') (h' : SameServers w' w'') : SameServers w w'' :=
  ⟨fun t i => (h'.serving t i).trans (h.serving t i), fun t todo ht => h.reaping t todo (h'.reaping t todo ht)⟩

theorem same_takeOut (ht : w.calls t = some (.stopping target)) : SameServers w (w.takeOut t target) := by
  have hkeeps {o : ℕ} {d : Call} (hot : o ≠ t) (hd : ∀ s, d ≠ .starting s) :
      (w.takeOut t target).calls o = some d ↔ w.calls o = some d := by
    rw [takeOut_calls_ne hot, Option.map_eq_some_iff]
    constructor
    · rintro ⟨c, hc, hstop⟩
      rw [hc]
      cases c with
      | starting =>
        simp only [Call.stop] at hstop
        split at hstop
        · exact absurd hstop.symm (hd _)
        · exact absurd hstop.symm (hd _)
      | _ => exact congrArg some hstop
    · intro ho
      refine ⟨d, ho, ?_⟩
      cases d with
      | starting s => exact absurd rfl (hd s)
      | _ => rfl
  refine ⟨?_, ?_⟩
  · intro o i
    by_cases hot : o = t
    · subst hot
      rw [takeOut_calls_self, ht]
      simp
    · exact hkeeps hot (by simp)
  · intro o _ ho
    by_cases hot : o = t
    · subst hot
      cases takeOut_calls_self.symm.trans ho
    · exact (hkeeps hot (by simp)).mp ho

theorem SameServers.servers (h : SameServers w w') (i : ℕ) : w'.servers i = w.servers i := by
  ext t
  exact h.serving t i

section

variable (h : Served w)
include h

theorem Served.same (hsame : SameServers w w') (hforth : ∀ i x, w.instances i = some x → ∃ y, w'.instances i = some y)
    (hback : ∀ i y, w'.instances i = some y → (∃ x, w.instances i = some x ∧ y.active = x.active) ∨ (w.instances i = none ∧ y.active = 0)) :
    Served w' := by
  refine ⟨?_, ?_, ?_⟩
  · intro t i ht
    obtain ⟨x, hx⟩ := h.serving t i ((hsame.serving t i).mp ht)
    exact hforth i x hx
  · intro i y hy
    rw [hsame.servers]
    rcases hback i y hy with ⟨x, hx, hactive⟩ | ⟨hnone, hactive⟩
    · rw [hactive]
      exact h.counted i x hx
    · have hempty : w.servers i = ∅ := by
        apply Set.eq_empty_of_forall_notMem
        intro t ht
        obtain ⟨x, hx⟩ := h.serving t i ht
        cases hnone.symm.trans hx
      rw [hactive, hempty, Set.ncard_empty]
  · intro t todo ht i hi
    rw [hsame.servers]
    exact h.idle t todo (hsame.reaping t todo ht) i hi

theorem Served.keep (hsame : SameServers w w') (hinstances : w'.instances = w.instances) : Served w' := by
  refine h.same hsame ?_ ?_
  · exact fun i x hx => ⟨x, hinstances ▸ hx⟩
  · exact fun i y hy => .inl ⟨y, hinstances ▸ hy, rfl⟩

theorem Served.put (hsame : SameServers w w') (hx : w.instances i = some x)
    (hinstances : w'.instances = Function.update w.instances i (some y)) (hactive : y.active = x.active) : Served w' := by
  refine h.same hsame ?_ ?_
  · intro j z hz
    rw [hinstances]
    by_cases hj : j = i
    · subst hj
      exact ⟨y, update_self ..⟩
    · exact ⟨z, (update_of_ne hj ..).trans hz⟩
  · intro j z hz
    rw [hinstances] at hz
    by_cases hj : j = i
    · subst hj
      rw [update_self] at hz
      cases hz
      exact .inl ⟨x, hx, hactive⟩
    · rw [update_of_ne hj] at hz
      exact .inl ⟨z, hz, rfl⟩

theorem Served.serves (hw : Locked w) (ht : w.calls t = some c₀) (h₀ : ∀ i, c₀ ≠ .serving i) (hx : w.instances i = some x)
    (hstays : ¬ w.Leaving i) (hcalls : w'.calls = (w.call t (.serving i)).calls)
    (hinstances : w'.instances = Function.update w.instances i (some { x with active := x.active + 1 })) : Served w' := by
  have hservers (j : ℕ) : w'.servers j = if j = i then insert t (w.servers i) else w.servers j := by
    ext o
    have hself (j : ℕ) : w.calls t ≠ some (.serving j) := fun hj => h₀ j (Option.some.inj (ht.symm.trans hj))
    by_cases hot : o = t
    · subst hot
      by_cases hj : j = i
      · subst hj
        simp [World.servers, hcalls, World.call]
      · simp [World.servers, hcalls, World.call, hj, hself j, Ne.symm hj]
    · by_cases hj : j = i
      · subst hj
        simp [World.servers, hcalls, World.call, hot]
      · simp [World.servers, hcalls, World.call, hot, hj]
  have hnew : t ∉ w.servers i := fun hin => h₀ i (Option.some.inj (ht.symm.trans hin))
  refine ⟨?_, ?_, ?_⟩
  · intro o j ho
    rw [hinstances]
    by_cases hj : j = i
    · subst hj
      exact ⟨_, update_self ..⟩
    · have ho' : o ∈ w'.servers j := ho
      rw [hservers, if_neg hj] at ho'
      obtain ⟨y, hy⟩ := h.serving o j ho'
      exact ⟨y, (update_of_ne hj ..).trans hy⟩
  · intro j y hy
    rw [hinstances] at hy
    rw [hservers]
    by_cases hj : j = i
    · subst hj
      rw [update_self] at hy
      cases hy
      rw [if_pos rfl, Set.ncard_insert_of_notMem hnew (servers_finite hw j), ← h.counted j x hx]
    · rw [update_of_ne hj] at hy
      rw [if_neg hj]
      exact h.counted j y hy
  · intro o todo ho j hj
    have ho' : w.calls o = some (.reaping todo) := by
      rw [hcalls] at ho
      by_cases hot : o = t
      · subst hot
        simp [World.call] at ho
      · exact (update_of_ne hot ..).symm.trans ho
    have hne : j ≠ i := by
      rintro rfl
      exact hstays ⟨o, _, ho', hj⟩
    rw [hservers, if_neg hne]
    exact h.idle o todo ho' j hj

theorem Served.releases (ht : w.calls t = some (.serving i)) (hx : w.instances i = some x)
    (hcalls : w'.calls = (w.call t .released).calls)
    (hinstances : w'.instances = Function.update w.instances i (some { x with active := x.active - 1 })) : Served w' := by
  have hservers (j : ℕ) : w'.servers j = if j = i then w.servers i \ {t} else w.servers j := by
    ext o
    by_cases hot : o = t
    · subst hot
      by_cases hj : j = i
      · subst hj
        simp [World.servers, hcalls, World.call]
      · simp [World.servers, hcalls, World.call, hj, ht, Ne.symm hj]
    · by_cases hj : j = i
      · subst hj
        simp [World.servers, hcalls, World.call, hot]
      · simp [World.servers, hcalls, World.call, hot, hj]
  refine ⟨?_, ?_, ?_⟩
  · intro o j ho
    rw [hinstances]
    by_cases hj : j = i
    · subst hj
      exact ⟨_, update_self ..⟩
    · have ho' : o ∈ w'.servers j := ho
      rw [hservers, if_neg hj] at ho'
      obtain ⟨y, hy⟩ := h.serving o j ho'
      exact ⟨y, (update_of_ne hj ..).trans hy⟩
  · intro j y hy
    rw [hinstances] at hy
    rw [hservers]
    by_cases hj : j = i
    · subst hj
      rw [update_self] at hy
      cases hy
      have hin : t ∈ w.servers j := ht
      rw [if_pos rfl, Set.ncard_sdiff_singleton_of_mem hin, ← h.counted j x hx]
    · rw [update_of_ne hj] at hy
      rw [if_neg hj]
      exact h.counted j y hy
  · intro o todo ho j hj
    have ho' : w.calls o = some (.reaping todo) := by
      rw [hcalls] at ho
      by_cases hot : o = t
      · subst hot
        simp [World.call] at ho
      · exact (update_of_ne hot ..).symm.trans ho
    have hempty := h.idle o todo ho' j hj
    rw [hservers]
    by_cases hne : j = i
    · subst hne
      rw [if_pos rfl, hempty, Set.empty_sdiff]
    · rw [if_neg hne]
      exact hempty

theorem Served.reaps (hw : Locked w) (todo : Finset ℕ)
    (hidle : ∀ i ∈ todo, ∃ k x, w.running k = some i ∧ w.instances i = some x ∧ x.active = 0) : Served (w.reapOut todo) := by
  have hfresh := hw.fresh w.next le_rfl
  have hkeeps {o : ℕ} (hot : o ≠ w.next) : (w.reapOut todo).calls o = w.calls o := update_of_ne hot ..
  have hself : (w.reapOut todo).calls w.next = some (.reaping ↑todo) := update_self ..
  have hservers (i : ℕ) : (w.reapOut todo).servers i = w.servers i := by
    ext o
    by_cases hot : o = w.next
    · subst hot
      simp [World.servers, hself, hfresh]
    · simp [World.servers, hkeeps hot]
  refine ⟨?_, ?_, ?_⟩
  · intro o i ho
    have ho' : o ∈ (w.reapOut todo).servers i := ho
    rw [hservers] at ho'
    exact h.serving o i ho'
  · intro i y hy
    rw [hservers]
    exact h.counted i y hy
  · intro o taken ho i hi
    rw [hservers]
    by_cases hot : o = w.next
    · subst hot
      cases hself.symm.trans ho
      obtain ⟨k, x, -, hx, hactive⟩ := hidle i hi
      rw [h.counted i x hx] at hactive
      exact (Set.ncard_eq_zero (servers_finite hw i)).mp hactive
    · rw [hkeeps hot] at ho
      exact h.idle o taken ho i hi

theorem Served.step (hw : Locked w) (hp : Placed w) (hstep : Step w e w') : Served w' := by
  cases hstep with
  | acquires | snapshots | stops =>
    refine h.keep (same_call (t := w.next) ?_ (by simp) (by simp) rfl) rfl
    intro i hi
    cases (hw.fresh w.next le_rfl).symm.trans hi
  | gives ht hc =>
    rcases hc with ⟨key, preview, rfl⟩ | ⟨key, preview, other, _, rfl⟩ | ⟨key, preview, rfl⟩
    all_goals exact h.keep (same_of_call ht (by simp) (by simp) (by simp) rfl) rfl
  | waits ht | retries ht | clears ht | registers ht | builds ht | validates ht | leases ht | leaseBreaks ht | grants ht | denies ht | fails ht
  | discards ht | drops ht | ends ht | snapshotEnds ht | stopped ht | sweeps ht | sweepRevokes ht | sweepFails ht | sweepEnds ht =>
    exact h.keep (same_of_call ht (by simp) (by simp) (by simp) rfl) rfl
  | @conflicts t other key preview s ht _ _ _ _ hs =>
    have hne : t ≠ other := by
      rintro rfl
      cases ht.symm.trans hs
    have hfirst : SameServers w (w.call other (.starting s.stop)) := same_of_call hs (by simp) (by simp) (by simp) rfl
    have ht' : (w.call other (.starting s.stop)).calls t = some (.acquiring key preview) := (update_of_ne hne ..).trans ht
    exact h.keep (hfirst.trans (same_of_call ht' (by simp) (by simp) (by simp) rfl)) rfl
  | @serves _ i key _ _ ht _ _ _ hrunning hx =>
    refine h.serves hw ht (by simp) hx ?_ rfl rfl
    intro hleave
    exact (hp.leaving i hleave).2 key hrunning
  | deletes => exact h.keep (.of_eq rfl) rfl
  | @brokers _ i _ ht _ hi =>
    refine h.same (same_of_call ht (by simp) (by simp) (by simp) rfl) ?_ ?_
    · intro j y hy
      have hj : j ≠ i := by
        rintro rfl
        cases hi.symm.trans hy
      exact ⟨y, (update_of_ne hj ..).trans hy⟩
    · intro j y hy
      by_cases hj : j = i
      · subst hj
        cases (update_self j _ w.instances).symm.trans hy
        exact .inr ⟨hi, rfl⟩
      · exact .inl ⟨y, (update_of_ne hj ..).symm.trans hy, rfl⟩
  | launches ht _ hx => exact h.put (same_of_call ht (by simp) (by simp) (by simp) rfl) hx rfl rfl
  | @lands t i s _ ht hs _ _ _ _ hx => exact h.serves hw ht (by simp) hx (hp.apart t s i ht (by rw [hs]; rfl)).2 rfl rfl
  | begins hx | kills hx | asks hx | revokes hx | refuses hx | refusalBreaks hx | exits hx => exact h.put (.of_eq rfl) hx rfl rfl
  | releases ht _ hx => exact h.releases ht hx rfl rfl
  | takes ht => exact h.keep (same_takeOut ht) rfl
  | reaps todo _ hidle => exact h.reaps hw todo hidle
  | crashes => exact ⟨fun _ _ h => (by cases h), fun _ _ h => (by cases h), fun _ _ h => (by cases h)⟩

end

end WorkAgent.AppRunner
