import WorkAgent.AppRunner.Permission
import WorkAgent.AppRunner.Progress
import WorkAgent.AppRunner.Requests
import WorkAgent.AppRunner.Stops

namespace WorkAgent.AppRunner

open Library Function

variable {w w' : World} {e : Event} {es : List Event} {t o i : ℕ} {key : Key} {preview : Bool} {s : Start} {x y : Instance}

inductive DataDirectory
  | app (id : String)
  | version (key : Key)
  deriving DecidableEq

def Instance.dataDirectory (x : Instance) : DataDirectory := if x.preview || x.validation then .version x.key else .app x.key.id

/-- What holds of the slots, of the requests, after `Stop` and `Close` and of the permissions in every state. -/
structure Lawful (w : World) : Prop where
  slots : ∀ i j x y, w.instances i = some x → w.instances j = some y → x.alive = true → y.alive = true → x.validation = false →
    y.validation = false → x.key.id = y.key.id → x.preview = y.preview → i = j
  data : ∀ i j x y, w.instances i = some x → w.instances j = some y → x.alive = true → y.alive = true →
    x.dataDirectory = y.dataDirectory → i = j
  idle : ∀ t todo, w.calls t = some (.reaping todo) → ∀ i ∈ todo, ∃ x, w.instances i = some x ∧ x.active = 0 ∧
    ∀ o, w.calls o ≠ some (.serving i)
  stopped : ∀ t id, w.calls t = some (.stopped (some id)) → ∀ i x, w.instances i = some x → x.validation = false → x.key.id = id →
    x.starter < t → x.alive = false
  closed : ∀ t, w.calls t = some (.stopped none) → ∀ i x, w.instances i = some x → x.alive = false
  permitted : ∀ key i x, w.running key = some i → w.instances i = some x → x.Standing → key ∈ w.permitted
  leased : ∀ key ∈ w.permitted, w.leases key = .written
  swept : ∀ t found tried, w.calls t = some (.swept found tried) → found ⊆ tried
  unblocked : ∃ w', w.Reaches w' ∧ w'.mu = none ∧ w'.network = none

structure Sound (w : World) : Prop where
  locked : Locked w
  placed : Placed w
  exclusive : Exclusive w
  permits : Permits w
  halted : Halted w
  served : Served w
  held : Held w
  swept : ∀ t found tried, w.calls t = some (.swept found tried) → found ⊆ tried

theorem swept_call {c : Call} (h : ∀ t found tried, w.calls t = some (.swept found tried) → found ⊆ tried)
    (hc : ∀ found tried, c = .swept found tried → found ⊆ tried) (hcalls : w'.calls = (w.call t c).calls) :
    ∀ t found tried, w'.calls t = some (.swept found tried) → found ⊆ tried := by
  intro o found tried ho
  rw [hcalls] at ho
  by_cases hot : o = t
  · subst hot
    exact hc found tried (by simpa [World.call] using ho)
  · exact h o found tried ((update_of_ne hot ..).symm.trans ho)

theorem swept_step (h : ∀ t found tried, w.calls t = some (.swept found tried) → found ⊆ tried) (hstep : Step w e w')
    (hcareful : Careful w e) : ∀ t found tried, w'.calls t = some (.swept found tried) → found ⊆ tried := by
  cases hstep with
  | acquires | snapshots | stops => exact swept_call (t := w.next) h (by simp) rfl
  | gives | waits | retries | serves | clears | registers | builds | validates | brokers | leases | leaseBreaks | grants | denies | launches |
    fails | lands | discards | drops | ends | snapshotEnds | releases | stopped | sweeps | sweepRevokes =>
    exact swept_call h (by simp) rfl
  | @conflicts _ other key preview s =>
    exact swept_call (c := .awaiting key preview other true) (swept_call (c := .starting s.stop) h (by simp) rfl) (by simp) rfl
  | deletes | begins | kills | asks | revokes | refuses | refusalBreaks | exits => exact h
  | @takes t =>
    intro o found tried ho
    by_cases hot : o = t
    · subst hot
      cases takeOut_calls_self.symm.trans ho
    · obtain ⟨c, hc, hstop⟩ := Option.map_eq_some_iff.mp ((takeOut_calls_ne hot).symm.trans ho)
      apply h o found tried
      rw [hc]
      cases c with
      | starting =>
        simp only [Call.stop] at hstop
        split at hstop <;> cases hstop
      | _ => exact congrArg some hstop
  | reaps todo => exact swept_call (t := w.next) (c := .reaping ↑todo) h (by simp) rfl
  | @sweepFails _ key found tried _ ht =>
    refine swept_call (c := .swept found (insert key tried)) h ?_ rfl
    rintro found' tried' ⟨⟩
    exact hcareful found tried ht
  | @sweepEnds _ found tried _ hall =>
    refine swept_call (c := .swept found tried) h ?_ rfl
    rintro _ _ ⟨⟩
    exact hall
  | crashes => exact fun _ _ _ h => by cases h

theorem Sound.step (h : Sound w) (hstep : CarefulStep w e w') : Sound w' := by
  obtain ⟨hstep, hcareful⟩ := hstep
  have hmoves := moves_step h.locked h.placed hstep
  exact ⟨h.locked.step hmoves hstep, h.placed.moves hmoves, h.exclusive.moves h.placed hmoves hcareful,
    h.permits.step h.placed h.exclusive hstep hcareful, h.halted.step h.locked h.placed hstep hcareful, h.served.step h.locked h.placed hstep,
    h.held.step h.locked hstep, swept_step h.swept hstep hcareful⟩

theorem Sound.data (h : Sound w) (i j : ℕ) (x y : Instance) (hx : w.instances i = some x) (hy : w.instances j = some y)
    (hxlives : x.alive = true) (hylives : y.alive = true) (hdata : x.dataDirectory = y.dataDirectory) : i = j := by
  have hkeys (hkey : x.key = y.key) : i = j :=
    h.exclusive.keys i j x y hx hy (h.placed.open_of_alive hx hxlives) (h.placed.open_of_alive hy hylives) hkey
  unfold Instance.dataDirectory at hdata
  split at hdata
  · split at hdata
    · exact hkeys (DataDirectory.version.inj hdata)
    · cases hdata
  · split at hdata
    · cases hdata
    · rename_i hxapp hyapp
      have hxkind : x.preview = false ∧ x.validation = false := by simpa using hxapp
      have hykind : y.preview = false ∧ y.validation = false := by simpa using hyapp
      exact h.exclusive.slots i j x y hx hy hxlives hylives hxkind.2 hykind.2 (DataDirectory.app.inj hdata) (hxkind.1.trans hykind.1.symm)

theorem Halted.dead {target : Target} (h : Halted w) (hp : Placed w) (ht : w.calls t = some (.stopped target)) (hx : w.instances i = some x)
    (hconcerns : target.Concerns t x.starter x.validation x.key.id) : x.alive = false := by
  by_contra hlives
  rw [Bool.not_eq_false] at hlives
  have hhalts : w.Halts t target ∅ ∅ := .inr ⟨ht, rfl, rfl⟩
  rcases h.alive t target ∅ ∅ hhalts i x hx hlives hconcerns with hin | ⟨s, hs, hi⟩
  · exact hin
  · obtain ⟨y, hy, hkey, -, hvalidation, -⟩ := hp.staged _ s i hs hi
    cases hx.symm.trans hy
    rw [hvalidation, hkey] at hconcerns
    exact (h.starts t target ∅ ∅ hhalts _ s hs hconcerns).1

theorem Sound.lawful (h : Sound w) : Lawful w := by
  refine ⟨h.exclusive.slots, h.data, ?_, ?_, ?_, ?_, h.permits.leased, h.swept, h.held.frees h.placed⟩
  · intro t todo ht i hi
    obtain ⟨x, hx, -⟩ := (h.placed.leaving i ⟨t, _, ht, hi⟩).1
    have hempty := h.served.idle t todo ht i hi
    refine ⟨x, hx, ?_, ?_⟩
    · rw [h.served.counted i x hx, hempty, Set.ncard_empty]
    · intro o ho
      have hin : o ∈ w.servers i := ho
      rw [hempty] at hin
      exact hin
  · intro t _ ht i x hx hvalidation hid hbefore
    apply h.halted.dead h.placed ht hx
    rintro _ ⟨⟩
    exact ⟨hid.symm, hvalidation, hbefore⟩
  · intro t ht i x hx
    exact h.halted.dead h.placed ht hx (fun _ h => by cases h)
  · intro key i x hk hx hstands
    obtain ⟨y, hy, hkey, -, hlaunched⟩ := h.placed.ran key i hk
    cases hx.symm.trans hy
    exact hkey ▸ (h.permits.granted i x hx hstands (.inl hlaunched)).1

def World.fresh : World :=
  ⟨false, fun _ => none, fun _ => none, fun _ => none, 0, none, none, ∅, fun _ => .absent, ∅⟩

theorem sound_fresh : Sound World.fresh := by
  have hcall {t : ℕ} {c : Call} (h : World.fresh.calls t = some c) : False := by cases h
  have hrun {k : Key} {i : ℕ} (h : World.fresh.running k = some i) : False := by cases h
  have hinstance {i : ℕ} {x : Instance} (h : World.fresh.instances i = some x) : False := by cases h
  have hpending {t : ℕ} {s : Start} (h : World.fresh.Pending t s) : False := hcall h
  have hleaving {i : ℕ} (h : World.fresh.Leaving i) : False := by
    obtain ⟨t, c, ht, -⟩ := h
    exact hcall ht
  have hhalts {t : ℕ} {target : Target} {todo pending : Set ℕ} (h : World.fresh.Halts t target todo pending) : False := by
    rcases h with h | ⟨h, -⟩
    · exact hcall h
    · exact hcall h
  refine ⟨?_, ?_, ?_, ?_, ?_, ?_, ?_, fun _ _ _ h => (hcall h).elim⟩
  · exact ⟨fun _ _ => rfl, fun _ _ _ h => (hcall h).elim, fun _ _ _ h => (hpending h).elim⟩
  · exact ⟨fun _ _ h => (hinstance h).elim, fun _ _ _ h => (hpending h).elim, fun _ _ h => (hinstance h).elim, fun _ _ h => (hrun h).elim,
      fun _ h => (hleaving h).elim, fun _ _ _ h => (hpending h).elim, fun _ _ _ _ h => (hpending h).elim, fun _ _ _ _ h => (hpending h).elim,
      fun _ _ h => (hpending h).elim⟩
  · exact ⟨fun _ _ h => (hpending h).elim, fun _ _ _ _ h => (hinstance h).elim, fun _ _ _ _ h => (hinstance h).elim,
      fun _ _ _ _ h => (hpending h).elim, fun _ _ _ _ h => (hpending h).elim, fun _ _ _ _ h => (hpending h).elim⟩
  · exact ⟨fun _ _ h => (hinstance h).elim, fun key h => absurd h (Set.notMem_empty key), fun _ _ _ h => (hpending h).elim,
      fun _ _ h => (hinstance h).elim, fun _ _ _ h => (hcall h).elim⟩
  · exact ⟨fun _ _ _ _ h => (hhalts h).elim, fun _ _ _ _ h => (hhalts h).elim, fun _ _ _ h => (hhalts h).elim⟩
  · exact ⟨fun _ _ h => (hcall h).elim, fun _ _ h => (hinstance h).elim, fun _ _ h => (hcall h).elim⟩
  · refine ⟨fun _ h => (by cases h), fun _ h => (by cases h), ?_⟩
    simp [World.fresh]

/-- In every run whose steps meet the condition the laws hold of every state. -/
theorem lawful_of_careful (hrun : Execution CarefulStep World.fresh es w) : Lawful w :=
  (hrun.invariant sound_fresh fun _ _ _ => Sound.step).lawful

section Overlap

def World.launch (w : World) (t i : ℕ) (s : Start) : World :=
  ⟨w.closed, w.running, Function.update w.instances i (some ⟨s.key, s.preview, s.validation, t, true, true, 0, .no⟩),
    Function.update w.calls t (some (.starting (s.on (.launched i)))), w.next, w.mu, none, w.cleanup \ {s.key},
    Function.update w.leases s.key .written, insert s.key w.permitted⟩

theorem pending_self : (w.call t (.starting s)).Pending t s := update_self ..

theorem pending_unlock : (w.call t (.starting s)).unlock.Pending t s := update_self ..

theorem launches_run (ht : w.Pending t s) (hs : s.stage = .preparing) (hi : w.instances i = none) (hnetwork : w.network = none) :
    Execution CarefulStep w ([] ++ [.other] ++ [.other] ++ [.other] ++ [.other]) (w.launch t i s) := by
  let x : Instance := ⟨s.key, s.preview, s.validation, t, false, false, 0, .no⟩
  let brokered := (w.put i x).call t (.starting (s.on (.brokered i)))
  let authorizing := ((brokered.lease s.key .written).hold (.starter t)).call t (.starting (s.on (.authorizing i)))
  let granted := (((authorizing.permit (insert s.key authorizing.permitted)).clean (authorizing.cleanup \ {s.key})).free).call t
    (.starting (s.on (.granted i)))
  let launched := (granted.put i { x with launched := true, alive := true }).call t (.starting (s.on (.launched i)))
  have hbrokers : Step w .other brokered := .brokers ht hs hi
  have hleases : Step brokered .other authorizing := .leases (s := s.on (.brokered i)) pending_self rfl hnetwork
  have hgrants : Step authorizing .other granted := .grants (s := s.on (.authorizing i)) pending_self rfl
  have hlaunches : Step granted .other launched :=
    .launches (s := s.on (.granted i)) (x := x) pending_self rfl (update_self ..)
  have hworld : launched = w.launch t i s := by
    simp [launched, granted, authorizing, brokered, x, World.launch, World.call, World.put, World.lease, World.hold, World.permit, World.clean,
      World.free]
  rw [← hworld]
  exact (((Execution.start.step ⟨hbrokers, trivial⟩).step ⟨hleases, trivial⟩).step ⟨hgrants, trivial⟩).step ⟨hlaunches, trivial⟩

theorem not_starting (hpending : ∀ o s, ¬ w.Pending o s) (o : ℕ) (conflict : Bool) : ¬ w.Starting key preview o conflict := by
  rintro ⟨s, hs, -⟩
  exact hpending o s hs

def World.acquire (w : World) (key : Key) (preview : Bool) : World :=
  ((w.begin (.acquiring key preview)).call w.next (.clearing key preview)).lock w.next

theorem clears_run (hmu : w.mu = none) (hopen : w.closed = false) (hpending : ∀ o s, ¬ w.Pending o s) (hrunning : w.running key = none) :
    Execution CarefulStep w ([] ++ [.other] ++ [.other]) (w.acquire key preview) := by
  have hclears : Step (w.begin (.acquiring key preview)) .other (w.acquire key preview) := by
    refine .clears (update_self ..) hmu hopen (not_starting ?_) ?_
    · intro o s hs
      by_cases hot : o = w.next
      · subst hot
        have hcall : (w.begin (.acquiring key preview)).calls w.next = some (.starting s) := hs
        simp [World.begin] at hcall
      · exact hpending o s ((update_of_ne hot ..).symm.trans hs)
    · intro i hi
      cases hrunning.symm.trans hi
  exact (Execution.start.step ⟨.acquires key preview, trivial⟩).step ⟨hclears, trivial⟩

def begun (key : Key) : Start := ⟨key, false, false, false, .preparing⟩

def World.acquired (w : World) (key : Key) (i : ℕ) : World :=
  ((w.acquire key false).call w.next (.starting (begun key))).unlock.launch w.next i (begun key)

theorem registers_step (hrunning : ∀ k, w.running k = none) :
    Step (w.acquire key false) (.registers w.next key false) ((w.acquire key false).call w.next (.starting (begun key))).unlock := by
  refine .registers (update_self ..) ?_
  rintro i ⟨k, x, hk, -⟩
  cases (hrunning k).symm.trans hk

def app : Key := ⟨"app-01", "v1"⟩

theorem first_run : Execution CarefulStep World.fresh ([] ++ [.other] ++ [.other] ++ [.registers 0 app false] ++
    ([] ++ [.other] ++ [.other] ++ [.other] ++ [.other])) (World.fresh.acquired app 0) := by
  have hclears : Execution CarefulStep World.fresh ([] ++ [.other] ++ [.other]) (World.fresh.acquire app false) :=
    clears_run rfl rfl (fun _ _ h => (by cases h)) rfl
  have hcareful : Careful (World.fresh.acquire app false) (.registers 0 app false) := by
    have hcalls (o : ℕ) (c : Call) (ho : (World.fresh.acquire app false).calls o = some c) : c = .clearing app false := by
      by_cases h : o = 0
      · subst h
        simpa [World.acquire, World.call, World.lock, World.fresh, eq_comm] using ho
      · simp [World.acquire, World.call, World.lock, World.begin, World.fresh, h] at ho
    refine ⟨?_, ?_, ?_⟩
    · rintro i x ⟨o, c, ho, hi⟩
      cases hcalls o c ho
      exact absurd hi (Set.notMem_empty i)
    · intro o s ho
      cases hcalls o _ ho
    · rintro o target - (⟨todo, pending, ho⟩ | ho)
      · cases hcalls o _ ho
      · cases hcalls o _ ho
  have hlaunches := launches_run (i := 0) (pending_unlock (w := World.fresh.acquire app false) (t := 0) (s := begun app)) rfl rfl rfl
  exact (hclears.step ⟨registers_step (fun _ => rfl), hcareful⟩).trans hlaunches

theorem first_run_lawful : (∃ x, (World.fresh.acquired app 0).instances 0 = some x ∧ x.alive = true) ∧ Lawful (World.fresh.acquired app 0) :=
  ⟨⟨_, rfl, rfl⟩, lawful_of_careful first_run⟩

def serving : World :=
  (((World.fresh.acquired app 0).put 0 ⟨app, false, false, 0, true, true, 1, .no⟩).run app (some 0)).call 0 (.serving 0)

def taken : World := (serving.begin (.stopping (some app.id))).takeOut 1 (some app.id)

theorem taken_run : ∃ es, Execution Step World.fresh es taken := by
  have hlands : Step (World.fresh.acquired app 0) .other serving :=
    .lands (s := (begun app).on (.launched 0)) (x := ⟨app, false, false, 0, true, true, 0, .no⟩) rfl rfl rfl rfl rfl rfl rfl
  have hstops : Step serving .other (serving.begin (.stopping (some app.id))) := .stops (some app.id)
  have htakes : Step (serving.begin (.stopping (some app.id))) (.takes 1 (some app.id)) taken := .takes rfl rfl
  have hfirst : Execution Step World.fresh _ (World.fresh.acquired app 0) := first_run.mono fun _ _ _ h => h.1
  exact ⟨_, ((hfirst.step hlands).step hstops).step htakes⟩

/-- Another request starts a second process of the application while the first still runs. -/
theorem slots_overlap : ∃ es w, Execution Step World.fresh es w ∧ ¬ Lawful w := by
  obtain ⟨_, hes⟩ := taken_run
  have hrunning (k : Key) : taken.running k = none := by
    by_cases hk : k = app
    · subst hk
      rfl
    · simp [taken, serving, World.takeOut, World.begin, World.call, World.run, World.put, World.acquired, World.launch, World.unlock,
        World.acquire, World.lock, World.fresh, hk]
  have hpending (o : ℕ) (s : Start) : ¬ taken.Pending o s := by
    intro hs
    by_cases h1 : o = 1
    · subst h1
      cases takeOut_calls_self.symm.trans hs
    · have hcall := (takeOut_calls_ne h1).symm.trans hs
      by_cases h0 : o = 0
      · subst h0
        cases hcall
      · simp [serving, World.begin, World.call, World.run, World.put, World.acquired, World.launch, World.unlock, World.acquire, World.lock,
          World.fresh, h0, h1] at hcall
  have hclears : Execution CarefulStep taken ([] ++ [.other] ++ [.other]) (taken.acquire app false) := clears_run rfl rfl hpending (hrunning app)
  have hregisters : Step (taken.acquire app false) _ _ := registers_step hrunning
  have hlaunches := launches_run (i := 1) (pending_unlock (w := taken.acquire app false) (t := taken.next) (s := begun app)) rfl rfl rfl
  have hrun := ((hes.trans (hclears.mono fun _ _ _ h => h.1)).step hregisters).trans (hlaunches.mono fun _ _ _ h => h.1)
  refine ⟨_, _, hrun, ?_⟩
  intro hlawful
  have hsame := hlawful.slots 0 1 ⟨app, false, false, 0, true, true, 1, .no⟩ ⟨app, false, false, 2, true, true, 0, .no⟩ rfl rfl rfl rfl rfl rfl
    rfl rfl
  cases hsame

end Overlap

end WorkAgent.AppRunner
