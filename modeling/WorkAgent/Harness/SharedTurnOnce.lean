import WorkAgent.Harness.SharedTurnRuns

namespace WorkAgent.Harness

open Library Quota Function List SharedTurnQuotaJournal Protocol.Run
open Event (invokes)

def Charged (history : List Event) (x : String) (u n : ℕ) : Prop := n = u ∨ (.failed x ∈ history ∧ n = 0)

namespace JournalEntries

variable {m m' : JournalEntries} {history history' : List Event} {x : String} {u : ℕ}
  {e : SharedTurnQuotaEntry}

def Bills (m : JournalEntries) (history : List Event) (x : String) (u : ℕ) (e : SharedTurnQuotaEntry) : Prop :=
  e.estimatedUnits = u ∧ ∀ n, m.actualUnits e = some n → Charged history x u n

def Keeps (m : JournalEntries) (history : List Event) (x : String) (u : ℕ) : Prop :=
  ∃ e ∈ m.table, e.runId = x ∧ m.Bills history x u e

theorem Bills.mono (h : m.Bills history x u e) (hh : .failed x ∈ history → .failed x ∈ history')
    (hu : m'.actualUnits e = m.actualUnits e) : m'.Bills history' x u e := by
  refine ⟨h.1, ?_⟩
  intro n hn
  rw [hu] at hn
  rcases h.2 n hn with hn | ⟨hf, hn⟩
  · exact .inl hn
  · exact .inr ⟨hh hf, hn⟩

theorem Keeps.mono (h : m.Keeps history x u) (hh : .failed x ∈ history → .failed x ∈ history')
    (hm : m.Agrees x m') : m'.Keeps history' x u := by
  obtain ⟨e, he, hrun, hb⟩ := h
  exact ⟨e, (hm.mem e hrun).mpr he, hrun, hb.mono hh (hm.units e hrun)⟩

end JournalEntries

def Runtime.Queued (r : Runtime) (e : SharedTurnQuotaEntry) : Prop :=
  e ∈ r.journal.memory.table ∨ ∃ p, r.reconciling = some p ∧ e ∈ p.rest

/-- Nobody has started the run `x`: all that holds an entry of it holds the journal's. -/
structure Open (x : String) (r : Runtime) : Prop where
  history : ∀ ev ∈ r.history, ev.run ≠ x
  turns : ∀ t ∈ r.turns, t.entry.runId = x → (∃ n, t.awaits = .reserve n) ∧
    t.entry ∈ r.journal.memory.table ∧ t.entry ∈ r.journal.file.table
  recovery : ∀ p, r.reconciling = some p → p.entry.runId = x →
    (∃ n, p.awaits = .lookup n) ∧ p.entry ∈ r.journal.memory.table
  rest : ∀ p, r.reconciling = some p → ∀ e ∈ p.rest, e.runId = x → e ∈ r.journal.memory.table
  unset : ∀ e ∈ r.journal.memory.table, e.runId = x → r.journal.memory.actualUnits e = none
  unsetFile : ∀ e ∈ r.journal.file.table, e.runId = x → r.journal.file.actualUnits e = none

structure Spent (x : String) (c : Config Store Call Outcome) (r : Runtime) : Prop where
  taken : c.store.IsTaken x
  answers : ∀ t ∈ r.turns, t.entry.runId = x → ∀ n, t.awaits = .reserve n → NeverFresh c.returned n

structure Idle (x : String) (r : Runtime) : Prop where
  history : ∀ u, .invoked x u ∉ r.history ∧ .succeeded x u ∉ r.history
  turns : ∀ t ∈ r.turns, t.entry.runId = x → t.awaits ≠ .inner

structure Executed (x : String) (u : ℕ) (c : Config Store Call Outcome) (r : Runtime) : Prop where
  pos : 0 < u
  count : r.history.countP (Event.invokes x) = 1
  invoked : .invoked x u ∈ r.history
  memory : r.journal.memory.Keeps r.history x u ∨ c.store.IsSettled x
  file : r.journal.file.Keeps r.history x u ∨ c.store.IsSettled x
  inner : ∀ t ∈ r.turns, t.entry.runId = x → t.awaits = .inner →
    t.entry.estimatedUnits = u ∧ (∀ v, .succeeded x v ∉ r.history) ∧ .failed x ∉ r.history
  settle : ∀ t ∈ r.turns, t.entry.runId = x → ∀ n k, t.awaits = .settle n k → Charged r.history x u k
  rest : ∀ p, r.reconciling = some p → ∀ e ∈ p.rest, e.runId = x →
    r.journal.memory.Bills r.history x u e ∨ c.store.IsSettled x
  lookup : ∀ p, r.reconciling = some p → p.entry.runId = x → ∀ n, p.awaits = .lookup n →
    r.journal.memory.Bills r.history x u p.entry ∨ (c.store.IsSettled x ∧ OnlySettled c.returned n)
  recovery : ∀ p, r.reconciling = some p → p.entry.runId = x → ∀ n k, p.awaits = .settle n k →
    Charged r.history x u k
  sent : ∀ k, .settle x k ∈ r.history → Charged r.history x u k
  succeeded : ∀ v, .succeeded x v ∈ r.history → v = u ∧ .failed x ∉ r.history

inductive Phase (x : String) (c : Config Store Call Outcome) (r : Runtime) : Prop
  | opened (h : Open x r)
  | spent (h : Spent x c r) (hi : Idle x r)
  | executed (u : ℕ) (h : Spent x c r) (he : Executed x u c r)

structure Calm (x : String) (answers : List (Call × Outcome)) (r r' : Runtime) : Prop where
  turns : ∀ t ∈ r'.turns, t.entry.runId = x → t ∈ r.turns ∨
    ∃ n, t.awaits = .reserve n ∧ NeverFresh answers n
  recovery : ∀ p, r'.reconciling = some p → p.entry.runId = x → r.reconciling = some p ∨
    ∃ n, p.awaits = .lookup n ∧ OnlySettled answers n ∧ r.Queued p.entry
  rest : ∀ p, r'.reconciling = some p → ∀ e ∈ p.rest, e.runId = x → r.Queued e
  history : ∃ evs, r'.history = evs ++ r.history ∧ ∀ ev ∈ evs, ev.run ≠ x

namespace Calm

variable {x : String} {answers : List (Call × Outcome)} {r r' : Runtime}

theorem mem_history (h : Calm x answers r r') {ev : Event} (hev : ev.run = x) :
    ev ∈ r'.history ↔ ev ∈ r.history := by
  obtain ⟨_, heq, hne⟩ := h.history
  rw [heq, mem_append]
  constructor
  · rintro (hmem | hmem)
    · exact absurd hev (hne ev hmem)
    · exact hmem
  · exact .inr

theorem count (h : Calm x answers r r') :
    r'.history.countP (invokes x) = r.history.countP (invokes x) := by
  obtain ⟨evs, heq, hne⟩ := h.history
  rw [heq, countP_append]
  have hzero : evs.countP (invokes x) = 0 := by
    rw [countP_eq_zero]
    intro ev hev hinv
    exact hne ev hev (Event.run_of_invokes hinv)
  omega

theorem charged (h : Calm x answers r r') {u n : ℕ} (hc : Charged r.history x u n) :
    Charged r'.history x u n := by
  rcases hc with hn | ⟨hf, hn⟩
  · exact .inl hn
  · exact .inr ⟨(h.mem_history rfl).mpr hf, hn⟩

variable {c : Config Store Call Outcome}

theorem spent (h : Calm x c.returned r r') (hs : Spent x c r) : Spent x c r' := by
  refine ⟨hs.taken, ?_⟩
  intro t ht hx n hn
  rcases h.turns t ht hx with hold | ⟨m, hm, hfresh⟩
  · exact hs.answers t hold hx n hn
  · cases hn.symm.trans hm
    exact hfresh

theorem idle (h : Calm x c.returned r r') (hi : Idle x r) : Idle x r' := by
  refine ⟨?_, ?_⟩
  · intro u
    rw [h.mem_history rfl, h.mem_history rfl]
    exact hi.history u
  · intro t ht hx hinner
    rcases h.turns t ht hx with hold | ⟨m, hm, -⟩
    · exact hi.turns t hold hx hinner
    · rw [hinner] at hm
      cases hm

end Calm

namespace Executed

variable {x : String} {u : ℕ} {c : Config Store Call Outcome} {r r' : Runtime}

theorem queued (h : Executed x u c r) {e : SharedTurnQuotaEntry} (hx : e.runId = x) (hq : r.Queued e) :
    r.journal.memory.Bills r.history x u e ∨ c.store.IsSettled x := by
  rcases hq with hmem | ⟨p, hp, hmem⟩
  · rcases h.memory with ⟨_, he', hx', hb⟩ | hs
    · obtain rfl := Table.eq_of_key he' hmem (hx'.trans hx.symm)
      exact .inl hb
    · exact .inr hs
  · exact h.rest p hp e hmem hx

theorem calm (h : Executed x u c r) (hc : Calm x c.returned r r')
    (hb : ∀ e, e.runId = x → r.journal.memory.Bills r.history x u e →
      r'.journal.memory.Bills r'.history x u e)
    (hm : r'.journal.memory.Keeps r'.history x u ∨ c.store.IsSettled x)
    (hf : r'.journal.file.Keeps r'.history x u ∨ c.store.IsSettled x) : Executed x u c r' where
  pos := h.pos
  count := by rw [hc.count, h.count]
  invoked := (hc.mem_history rfl).mpr h.invoked
  memory := hm
  file := hf
  inner t ht hx hinner := by
    have hfailed : .failed x ∈ r'.history ↔ .failed x ∈ r.history := hc.mem_history rfl
    have hsucceeded (v : ℕ) : .succeeded x v ∈ r'.history ↔ .succeeded x v ∈ r.history := hc.mem_history rfl
    simp only [hfailed, hsucceeded]
    rcases hc.turns t ht hx with hold | ⟨m, hm, -⟩
    · exact h.inner t hold hx hinner
    · rw [hinner] at hm
      cases hm
  settle t ht hx n k hn := by
    rcases hc.turns t ht hx with hold | ⟨m, hm, -⟩
    · exact hc.charged (h.settle t hold hx n k hn)
    · rw [hn] at hm
      cases hm
  rest p hp e he hx := by
    rcases h.queued hx (hc.rest p hp e he hx) with hbill | hs
    · exact .inl (hb e hx hbill)
    · exact .inr hs
  lookup p hp hx n hn := by
    rcases hc.recovery p hp hx with hold | ⟨m, hm, honly, hq⟩
    · rcases h.lookup p hold hx n hn with hbill | hs
      · exact .inl (hb _ hx hbill)
      · exact .inr hs
    · rcases h.queued hx hq with hbill | hs
      · exact .inl (hb _ hx hbill)
      · cases hn.symm.trans hm
        exact .inr ⟨hs, honly⟩
  recovery p hp hx n k hn := by
    rcases hc.recovery p hp hx with hold | ⟨m, hm, -⟩
    · exact hc.charged (h.recovery p hold hx n k hn)
    · rw [hn] at hm
      cases hm
  sent k hk := hc.charged (h.sent k ((hc.mem_history rfl).mp hk))
  succeeded v hv := by
    rw [hc.mem_history rfl]
    exact h.succeeded v ((hc.mem_history rfl).mp hv)

end Executed

structure Quiet (x : String) (answers : List (Call × Outcome)) (r r' : Runtime) : Prop
    extends Calm x answers r r' where
  journal : r.journal.Frame x r'.journal
  held : ∀ t ∈ r'.turns, t.entry.runId = x → (∃ t₀ ∈ r.turns, t₀.entry = t.entry) ∨
    (t.entry ∈ r'.journal.memory.table ∧ t.entry ∈ r'.journal.file.table)

namespace SharedTurnQuotaJournal.Frame

variable {x : String} {j j' : SharedTurnQuotaJournal}

theorem mem_file (h : j.Frame x j') {e : SharedTurnQuotaEntry} (hx : e.runId = x) (hm : e ∈ j.memory.table)
    (hf : e ∈ j.file.table) : e ∈ j'.file.table := by
  rcases h.file with hold | hsaved
  · exact (hold.mem e hx).mpr hf
  · exact (hsaved.mem e hx).mpr ((h.memory.mem e hx).mpr hm)

theorem keeps_file (h : j.Frame x j') {history history' : List Event} {u : ℕ}
    (hh : .failed x ∈ history → .failed x ∈ history') {P : Prop} (hm : j.memory.Keeps history x u ∨ P)
    (hf : j.file.Keeps history x u ∨ P) : j'.file.Keeps history' x u ∨ P := by
  rcases h.file with hold | hsaved
  · exact hf.imp_left (fun hk => hk.mono hh hold)
  · exact hm.imp_left (fun hk => (hk.mono hh h.memory).mono id hsaved)

end SharedTurnQuotaJournal.Frame

theorem Open.queued {x : String} {r : Runtime} (h : Open x r) {e : SharedTurnQuotaEntry} (hx : e.runId = x)
    (hq : r.Queued e) : e ∈ r.journal.memory.table := by
  rcases hq with hmem | ⟨p, hp, hmem⟩
  · exact hmem
  · exact h.rest p hp e hmem hx

theorem Quiet.opened {x : String} {answers : List (Call × Outcome)} {r r' : Runtime}
    (h : Quiet x answers r r') (ho : Open x r) : Open x r' where
  history ev hev hx := ho.history ev ((h.mem_history hx).mp hev) hx
  turns t ht hx := by
    refine ⟨?_, ?_⟩
    · rcases h.turns t ht hx with hold | ⟨n, hn, -⟩
      · exact (ho.turns t hold hx).1
      · exact ⟨n, hn⟩
    · rcases h.held t ht hx with ⟨t₀, hold, heq⟩ | hnew
      · obtain ⟨-, hm, hf⟩ := ho.turns t₀ hold (by rw [heq, hx])
        rw [heq] at hm hf
        exact ⟨(h.journal.memory.mem _ hx).mpr hm, h.journal.mem_file hx hm hf⟩
      · exact hnew
  recovery p hp hx := by
    rcases h.recovery p hp hx with hold | ⟨n, hn, -, hq⟩
    · obtain ⟨hn, hm⟩ := ho.recovery p hold hx
      exact ⟨hn, (h.journal.memory.mem _ hx).mpr hm⟩
    · exact ⟨⟨n, hn⟩, (h.journal.memory.mem _ hx).mpr (ho.queued hx hq)⟩
  rest p hp e he hx := (h.journal.memory.mem _ hx).mpr (ho.queued hx (h.rest p hp e he hx))
  unset e he hx := by
    rw [h.journal.memory.units e hx]
    exact ho.unset e ((h.journal.memory.mem e hx).mp he) hx
  unsetFile e he hx := by
    rcases h.journal.file with hold | hsaved
    · rw [hold.units e hx]
      exact ho.unsetFile e ((hold.mem e hx).mp he) hx
    · rw [hsaved.units e hx, h.journal.memory.units e hx]
      exact ho.unset e ((h.journal.memory.mem e hx).mp ((hsaved.mem e hx).mp he)) hx

namespace Phase

variable {x : String} {c : Config Store Call Outcome} {r r' : Runtime}

theorem quiet (h : Phase x c r) (hq : Quiet x c.returned r r') : Phase x c r' := by
  cases h with
  | opened ho => exact .opened (hq.opened ho)
  | spent hs hi => exact .spent (hq.spent hs) (hq.idle hi)
  | executed u hs he =>
    have hfailed : .failed x ∈ r.history → .failed x ∈ r'.history := (hq.mem_history rfl).mpr
    refine .executed u (hq.spent hs) (he.calm hq.toCalm ?_ ?_ ?_)
    · intro e hx hb
      exact hb.mono hfailed (hq.journal.memory.units e hx)
    · exact he.memory.imp_left (fun hk => hk.mono hfailed hq.journal.memory)
    · exact hq.journal.keeps_file hfailed he.memory he.file

theorem service {sid : String} {w : World Store Call Outcome Runtime} {d : Config Store Call Outcome}
    (hw : (sharedTurns sid).Reachable w) (hs : system.Step w.service d)
    (hd : (sharedTurns sid).Reachable { w with service := d }) (ho : Orderly sid w.posted w.client)
    (h : Phase x w.service w.client) : Phase x d w.client := by
  have hlater := step_later hw.service hs
  have hspent (hsp : Spent x w.service w.client) : Spent x d w.client := by
    refine ⟨hsp.taken.later hlater, ?_⟩
    intro t ht hx n hn
    obtain ⟨env, hpost⟩ := ho.reserve t ht n hn
    have htaken : w.service.store.IsTaken t.entry.runId := hx ▸ hsp.taken
    exact NeverFresh.step hw hs hd hpost t.entry.payer_named htaken (hsp.answers t ht hx n hn)
  cases h with
  | opened hopen => exact .opened hopen
  | spent hsp hi => exact .spent (hspent hsp) hi
  | executed u hsp he =>
    have hsettled : w.service.store.IsSettled x → d.store.IsSettled x := fun hset => hset.later hlater
    refine .executed u (hspent hsp) { he with
      memory := he.memory.imp_right hsettled
      file := he.file.imp_right hsettled
      rest := ?_
      lookup := ?_ }
    · intro p hp e hmem hx
      exact (he.rest p hp e hmem hx).imp_right hsettled
    · intro p hp hx n hn
      rcases he.lookup p hp hx n hn with hb | ⟨hset, honly⟩
      · exact .inl hb
      · obtain ⟨_, hpost⟩ := ho.lookup p n hp hn
        have hset' : w.service.store.IsSettled p.entry.runId := hx ▸ hset
        exact .inr ⟨hsettled hset, OnlySettled.step hw hs hd hpost hset' honly⟩

end Phase

section Moves

variable {x : String} {answers : List (Call × Outcome)} {r r₁ r' : Runtime}

theorem calm_of_subset (ht : ∀ t ∈ r'.turns, t.entry.runId = x → t ∈ r.turns)
    (hr : r'.reconciling = r.reconciling)
    (hh : ∃ evs, r'.history = evs ++ r.history ∧ ∀ ev ∈ evs, ev.run ≠ x) : Calm x answers r r' where
  turns t hmem hx := .inl (ht t hmem hx)
  recovery p hp _ := .inl (by rw [← hr, hp])
  rest p hp e he _ := .inr ⟨p, by rw [← hr, hp], he⟩
  history := hh

theorem quiet_of_subset (hj : r.journal.Frame x r'.journal)
    (ht : ∀ t ∈ r'.turns, t.entry.runId = x → t ∈ r.turns) (hr : r'.reconciling = r.reconciling)
    (hh : ∃ evs, r'.history = evs ++ r.history ∧ ∀ ev ∈ evs, ev.run ≠ x) : Quiet x answers r r' where
  toCalm := calm_of_subset ht hr hh
  journal := hj
  held t hmem hx := .inl ⟨t, ht t hmem hx, rfl⟩

variable {rest : List SharedTurnQuotaEntry}

section

variable {sid : String} {name : ℕ} {env : ℕ → Env} {requests : List Call} (hr : r₁.resume sid name env rest = (requests, r'))
include hr

theorem calm_resume (ht : r₁.turns = r.turns) (hh : r₁.history = r.history) (hq : ∀ e ∈ rest, r.Queued e)
    (hnew : ∀ i ∈ requests, OnlySettled answers i.name) : Calm x answers r r' := by
  rcases resume_cases hr with ⟨rfl, rfl⟩ | ⟨e, _, hsub, -, rfl, rfl⟩
  · refine ⟨?_, ?_, ?_, ⟨[], by simpa using hh, by simp⟩⟩
    · intro t hmem _
      rw [← ht]
      exact .inl hmem
    · intro p hp
      cases hp
    · intro p hp
      cases hp
  · refine ⟨?_, ?_, ?_, ⟨[], by simpa using hh, by simp⟩⟩
    · intro t hmem _
      rw [← ht]
      exact .inl hmem
    · intro p hp _
      cases hp
      exact .inr ⟨name, rfl, hnew _ mem_cons_self, hq e (hsub e mem_cons_self)⟩
    · intro p hp y hy _
      cases hp
      exact hq y (hsub y (mem_cons_of_mem e hy))

theorem journal_resume : r'.journal = r₁.journal ∧ r'.turns = r₁.turns := by
  rcases resume_cases hr with ⟨-, rfl⟩ | ⟨e, _, -, -, -, rfl⟩
  · exact ⟨rfl, rfl⟩
  · exact ⟨rfl, rfl⟩

theorem quiet_resume (hj : r.journal.Frame x r₁.journal) (ht : r₁.turns = r.turns) (hh : r₁.history = r.history)
    (hq : ∀ e ∈ rest, r.Queued e) (hnew : ∀ i ∈ requests, OnlySettled answers i.name) : Quiet x answers r r' where
  toCalm := calm_resume hr ht hh hq hnew
  journal := by
    rw [(journal_resume hr).1]
    exact hj
  held t hmem _ := by
    rw [(journal_resume hr).2, ht] at hmem
    exact .inl ⟨t, hmem, rfl⟩

end

end Moves

theorem Open.idle {x : String} {r : Runtime} (h : Open x r) : Idle x r := by
  refine ⟨fun u => ⟨fun hu => h.history _ hu rfl, fun hu => h.history _ hu rfl⟩, ?_⟩
  intro t ht hx hinner
  obtain ⟨⟨n, hn⟩, -⟩ := h.turns t ht hx
  rw [hinner] at hn
  cases hn

namespace SharedTurnQuotaJournal

variable {j : SharedTurnQuotaJournal}

theorem units_track (entry : SharedTurnQuotaEntry) (written : Bool) :
    (j.track entry written).memory.actualUnits = j.memory.actualUnits := by
  unfold track
  rw [memory_save]

theorem units_release (runId : String) (written : Bool) :
    (j.release runId written).memory.actualUnits = j.memory.actualUnits := by
  unfold release
  split
  · rfl
  · rw [memory_save]

theorem mem_memory_track {entry e : SharedTurnQuotaEntry} {written : Bool} :
    e ∈ (j.track entry written).memory.table ↔ e = entry ∨ (e ∈ j.memory.table ∧ e.runId ≠ entry.runId) := by
  unfold track
  rw [memory_save]
  exact Table.mem_set

end SharedTurnQuotaJournal

namespace Phase

variable {x : String} {c : Config Store Call Outcome} {r r' : Runtime}

theorem newEntry (h : Phase x c r) {request : SharedTurnRuntimeRequest} (hx : request.runId = x)
    (hnone : r.journal.memory.table.find? x = none) {written : Bool}
    (hj : r'.journal = (r.admitted request written).journal)
    (hc : Calm x c.returned r r')
    (hheld : ∀ t ∈ r'.turns, t.entry.runId = x → t ∈ r.turns ∨
      (t.entry = r.journal.entryFor request ∧ t.entry ∈ r'.journal.file.table)) : Phase x c r' := by
  have hno (e : SharedTurnQuotaEntry) (he : e.runId = x) : e ∉ r.journal.memory.table :=
    fun hmem => Table.find?_eq_none.mp hnone e hmem he
  have hentry : r.journal.entryFor request = request.entry r.journal.next := by
    unfold entryFor
    rw [hx, hnone, Option.getD_none]
  have halloc : r.journal.allocate request =
      { r.journal.assign (request.entry r.journal.next) none with next := r.journal.next + 1 } := by
    unfold allocate
    rw [hx, hnone]
  unfold Runtime.admitted at hj
  have hunits : r'.journal.memory.actualUnits =
      Function.update r.journal.memory.actualUnits (request.entry r.journal.next) none := by
    rw [hj, SharedTurnQuotaJournal.units_track, halloc]
    rfl
  have hmem (e : SharedTurnQuotaEntry) (he : e.runId = x) (hm : e ∈ r'.journal.memory.table) :
      e = request.entry r.journal.next := by
    rw [hj, SharedTurnQuotaJournal.mem_memory_track, halloc, hentry] at hm
    rcases hm with hm | ⟨hm, -⟩
    · exact hm
    · exact absurd hm (hno e he)
  cases h with
  | opened ho =>
    have hunset (e : SharedTurnQuotaEntry) (hm : e ∈ r'.journal.memory.table) (he : e.runId = x) :
        r'.journal.memory.actualUnits e = none := by
      rw [hunits, hmem e he hm]
      exact update_self _ _ _
    refine .opened ⟨?_, ?_, ?_, ?_, hunset, ?_⟩
    · intro ev hev hrun
      exact ho.history ev ((hc.mem_history hrun).mp hev) hrun
    · intro t ht hrun
      rcases hheld t ht hrun with hold | ⟨heq, hfile⟩
      · exact absurd (ho.turns t hold hrun).2.1 (hno _ hrun)
      · refine ⟨?_, ?_, hfile⟩
        · rcases hc.turns t ht hrun with hold | ⟨n, hn, -⟩
          · exact (ho.turns t hold hrun).1
          · exact ⟨n, hn⟩
        · rw [heq, hj]
          exact mem_track _ _
    · intro p hp hrun
      rcases hc.recovery p hp hrun with hold | ⟨n, -, -, hq⟩
      · exact absurd (ho.recovery p hold hrun).2 (hno _ hrun)
      · exact absurd (ho.queued hrun hq) (hno _ hrun)
    · intro p hp e he hrun
      exact absurd (ho.queued hrun (hc.rest p hp e he hrun)) (hno _ hrun)
    · intro e he hrun
      cases written with
      | false =>
        have hfile : r'.journal.file = r.journal.file := by
          rw [hj, halloc]
          rfl
        rw [hfile] at he ⊢
        exact ho.unsetFile e he hrun
      | true =>
        have hfile : r'.journal.file = r'.journal.memory := by
          rw [hj]
          rfl
        rw [hfile] at he ⊢
        exact hunset e he hrun
  | spent hs hi => exact .spent (hc.spent hs) (hc.idle hi)
  | executed u hs he =>
    have hset : c.store.IsSettled x := by
      rcases he.memory with ⟨e, hm, hrun, -⟩ | hset
      · exact absurd hm (hno e hrun)
      · exact hset
    refine .executed u (hc.spent hs) (he.calm hc ?_ (.inr hset) (.inr hset))
    intro e _ hb
    refine ⟨hb.1, ?_⟩
    intro n hn
    rw [hunits] at hn
    by_cases heq : e = request.entry r.journal.next
    · rw [heq, update_self] at hn
      cases hn
    · rw [update_of_ne heq] at hn
      exact hc.charged (hb.2 n hn)

theorem release (h : Phase x c r) {written : Bool} (hj : r'.journal = r.journal.release x written)
    (hc : Calm x c.returned r r') (hset : c.store.IsSettled x) (hsp : Spent x c r') : Phase x c r' := by
  cases h with
  | opened ho => exact .spent hsp (hc.idle ho.idle)
  | spent _ hi => exact .spent hsp (hc.idle hi)
  | executed u _ he =>
    refine .executed u hsp (he.calm hc ?_ (.inr hset) (.inr hset))
    intro e _ hb
    apply hb.mono (hc.mem_history rfl).mpr
    rw [hj, SharedTurnQuotaJournal.units_release]

theorem invoke {sid : String} {posted : List Call} (hord : Orderly sid posted r) (ho : Open x r)
    {before after : List Turn} {t : Turn} (ht : r.turns = before ++ t :: after) (hx : t.entry.runId = x)
    (htaken : c.store.IsTaken x) :
    Phase x c ((r.log (.invoked t.entry.runId t.entry.estimatedUnits)).wait before after t .inner) := by
  have htmem : t ∈ r.turns := by simp [ht]
  obtain ⟨-, hmem, hfile⟩ := ho.turns t htmem hx
  have hbill (e : SharedTurnQuotaEntry) (he : e ∈ r.journal.memory.table) (hrun : e.runId = x)
      (history : List Event) : r.journal.memory.Bills history x t.entry.estimatedUnits e := by
    obtain rfl := Table.eq_of_key he hmem (hrun.trans hx.symm)
    refine ⟨rfl, ?_⟩
    intro n hn
    rw [ho.unset _ he hrun] at hn
    cases hn
  have honly (t' : Turn) (h' : t' ∈ (r.wait before after t .inner).turns) (hrun : t'.entry.runId = x) :
      t' = { t with awaits := .inner } := by
    rcases mem_wait h' with hmem' | heq
    · exact absurd (hrun.trans hx.symm) (hord.ne_of_distinct ht hmem')
    · exact heq
  have hhistory (ev : Event) (hev : ev.run = x)
      (h : ev ∈ Event.invoked t.entry.runId t.entry.estimatedUnits :: r.history) :
      ev = .invoked t.entry.runId t.entry.estimatedUnits := by
    rcases mem_cons.mp h with h | h
    · exact h
    · exact absurd hev (ho.history ev h)
  refine .executed t.entry.estimatedUnits ⟨htaken, ?_⟩ ?_
  · intro t' h' hrun n hn
    rw [honly t' h' hrun] at hn
    cases hn
  · refine ⟨t.entry.estimated_pos, ?_, ?_, ?_, ?_, ?_, ?_, ?_, ?_, ?_, ?_, ?_⟩
    · have hzero : r.history.countP (invokes x) = 0 := by
        rw [countP_eq_zero]
        intro ev hev hinv
        exact ho.history ev hev (Event.run_of_invokes hinv)
      have hinv : invokes x (.invoked t.entry.runId t.entry.estimatedUnits) = true := by
        simp [invokes, hx]
      change (Event.invoked t.entry.runId t.entry.estimatedUnits :: r.history).countP _ = 1
      rw [countP_cons_of_pos hinv]
      omega
    · rw [← hx]
      exact mem_cons_self
    · exact .inl ⟨t.entry, hmem, hx, hbill _ hmem hx _⟩
    · refine .inl ⟨t.entry, hfile, hx, rfl, ?_⟩
      intro n hn
      have hnone := ho.unsetFile _ hfile hx
      change r.journal.file.actualUnits t.entry = some n at hn
      rw [hnone] at hn
      cases hn
    · intro t' h' hrun _
      rw [honly t' h' hrun]
      refine ⟨rfl, ?_, ?_⟩
      · intro v hv
        cases hhistory _ rfl hv
      · intro hv
        cases hhistory _ rfl hv
    · intro t' h' hrun n k hn
      rw [honly t' h' hrun] at hn
      cases hn
    · intro p hp e he hrun
      exact .inl (hbill e (ho.rest p hp e he hrun) hrun _)
    · intro p hp hrun n hn
      exact .inl (hbill _ (ho.recovery p hp hrun).2 hrun _)
    · intro p hp hrun n k hn
      obtain ⟨⟨m, hm⟩, -⟩ := ho.recovery p hp hrun
      rw [hn] at hm
      cases hm
    · intro k hk
      cases hhistory _ rfl hk
    · intro v hv
      cases hhistory _ rfl hv

theorem sends (h : Phase x c r) {k : ℕ} (hj : r'.journal = r.journal)
    (hh : r'.history = .settle x k :: r.history)
    (ht : ∀ t ∈ r'.turns, t.entry.runId = x → t ∈ r.turns ∨ ∃ n, t.awaits = .settle n k)
    (hp : ∀ p, r'.reconciling = some p → ∃ q, r.reconciling = some q ∧ p.entry = q.entry ∧ p.rest = q.rest ∧
      (p.awaits = q.awaits ∨ ∃ n, p.awaits = .settle n k))
    (hsp : Spent x c r') (hk : ∀ u, Executed x u c r → Charged r.history x u k) : Phase x c r' := by
  have hidle (hi : Idle x r) : Idle x r' := by
    refine ⟨?_, ?_⟩
    · intro u
      rw [hh]
      simpa using hi.history u
    · intro t hmem hx hinner
      rcases ht t hmem hx with hold | ⟨n, hn⟩
      · exact hi.turns t hold hx hinner
      · rw [hinner] at hn
        cases hn
  cases h with
  | opened ho => exact .spent hsp (hidle ho.idle)
  | spent _ hi => exact .spent hsp (hidle hi)
  | executed u _ he =>
    have hfailed : .failed x ∈ r.history → .failed x ∈ r'.history := by
      rw [hh]
      exact mem_cons_of_mem _
    have hcharged (n : ℕ) (hc : Charged r.history x u n) : Charged r'.history x u n :=
      hc.imp_right (fun hf => ⟨hfailed hf.1, hf.2⟩)
    refine .executed u hsp ⟨he.pos, ?_, ?_, ?_, ?_, ?_, ?_, ?_, ?_, ?_, ?_, ?_⟩
    · rw [hh, countP_cons_of_neg (by simp [invokes]), he.count]
    · rw [hh]
      exact mem_cons_of_mem _ he.invoked
    · rw [hj]
      exact he.memory.imp_left (fun hm => hm.mono hfailed (.refl x _))
    · rw [hj]
      exact he.file.imp_left (fun hm => hm.mono hfailed (.refl x _))
    · intro t hmem hx hinner
      rcases ht t hmem hx with hold | ⟨n, hn⟩
      · rw [hh]
        simpa using he.inner t hold hx hinner
      · rw [hinner] at hn
        cases hn
    · intro t hmem hx n m hn
      rcases ht t hmem hx with hold | ⟨_, hn'⟩
      · exact hcharged m (he.settle t hold hx n m hn)
      · cases hn.symm.trans hn'
        exact hcharged _ (hk u he)
    · intro p hrec e hmem hx
      obtain ⟨q, hq, -, hrest, -⟩ := hp p hrec
      rw [hrest] at hmem
      rw [hj]
      exact (he.rest q hq e hmem hx).imp_left (fun hb => hb.mono hfailed rfl)
    · intro p hrec hx n hn
      obtain ⟨q, hq, hentry, -, haw | ⟨m, haw⟩⟩ := hp p hrec
      · rw [hentry] at hx ⊢
        rw [hj]
        exact (he.lookup q hq hx n (haw ▸ hn)).imp_left (fun hb => hb.mono hfailed rfl)
      · rw [hn] at haw
        cases haw
    · intro p hrec hx n m hn
      obtain ⟨q, hq, hentry, -, haw | ⟨_, haw⟩⟩ := hp p hrec
      · rw [hentry] at hx
        exact hcharged m (he.recovery q hq hx n m (haw ▸ hn))
      · cases hn.symm.trans haw
        exact hcharged _ (hk u he)
    · intro m hm
      rw [hh] at hm
      rcases mem_cons.mp hm with hm | hm
      · cases hm
        exact hcharged _ (hk u he)
      · exact hcharged m (he.sent m hm)
    · intro v hv
      rw [hh] at hv ⊢
      simpa using he.succeeded v (by simpa using hv)

theorem restart (h : Phase x c r) :
    Phase x c { r with journal := r.journal.reopen, active := [], cancelled := [], turns := [], reconciling := none } := by
  cases h with
  | opened ho =>
    refine .opened ⟨ho.history, ?_, ?_, ?_, ho.unsetFile, ho.unsetFile⟩
    · intro t ht
      cases ht
    · intro p hp
      cases hp
    · intro p hp
      cases hp
  | spent hs hi =>
    refine .spent ⟨hs.taken, ?_⟩ ⟨hi.history, ?_⟩
    · intro t ht
      cases ht
    · intro t ht
      cases ht
  | executed u hs he =>
    refine .executed u ⟨hs.taken, ?_⟩ ⟨he.pos, he.count, he.invoked, he.file, he.file, ?_, ?_, ?_, ?_, ?_,
      he.sent, he.succeeded⟩
    · intro t ht
      cases ht
    · intro t ht
      cases ht
    · intro t ht
      cases ht
    · intro p hp
      cases hp
    · intro p hp
      cases hp
    · intro p hp
      cases hp

end Phase

section Conclude

variable {sid x : String} {posted : List Call} {c : Config Store Call Outcome} {r r' : Runtime}
  {before after : List Turn} {t : Turn} {k name : ℕ} {env : ℕ → Env} {written : Bool} {requests : List Call}

theorem conclude_cases (h : r.conclude sid name env before after t k written = (requests, r')) :
    r'.journal = (r.journal.assign t.entry (some k)).track t.entry written ∧
    r'.reconciling = r.reconciling ∧
    (r'.history = r.history ∨ r'.history = .settle t.entry.runId k :: r.history) ∧
    ∀ t' ∈ r'.turns, t' ∈ before ++ after ∨ ∃ n, t' = { t with awaits := .settle n k } := by
  cases written with
  | false =>
    cases h
    exact ⟨rfl, rfl, .inl rfl, fun t' ht' => .inl ht'⟩
  | true =>
    have hunits : ((r.journal.assign t.entry (some k)).track t.entry true).settleUnits t.entry = k := by
      unfold settleUnits
      rw [SharedTurnQuotaJournal.units_track]
      change (Function.update r.journal.memory.actualUnits t.entry (some k) t.entry).getD _ = k
      rw [update_self, Option.getD_some]
    cases h
    unfold Runtime.charge
    simp only [hunits]
    refine ⟨rfl, rfl, .inr rfl, ?_⟩
    intro _ ht'
    exact (mem_wait ht').imp_right (fun heq => ⟨name, heq⟩)

theorem conclude_quiet (hne : t.entry.runId ≠ x) (ht : r.turns = before ++ t :: after)
    (h : r.conclude sid name env before after t k written = (requests, r')) {answers : List (Call × Outcome)} :
    Quiet x answers r r' := by
  obtain ⟨hj, hrec, hh, hturns⟩ := conclude_cases h
  refine quiet_of_subset ?_ ?_ hrec ?_
  · rw [hj]
    exact (frame_assign hne).trans (frame_track (.inl hne))
  · intro t' hmem hx
    rcases hturns t' hmem with hmem | ⟨n, rfl⟩
    · exact mem_leave ht hmem
    · exact absurd hx hne
  · rcases hh with hh | hh
    · exact ⟨[], hh, by simp⟩
    · exact ⟨[_], hh, by simpa [Event.run] using hne⟩

theorem Open.concludes (ho : Open x r) (hord : Orderly sid posted r) (ht : r.turns = before ++ t :: after)
    (hx : t.entry.runId = x) (htaken : c.store.IsTaken x)
    (h : r.conclude sid name env before after t k written = (requests, r')) : Phase x c r' := by
  obtain ⟨-, -, hh, hturns⟩ := conclude_cases h
  have honly (t' : Turn) (hmem : t' ∈ r'.turns) (hrun : t'.entry.runId = x) :
      ∃ n, t' = { t with awaits := .settle n k } := by
    rcases hturns t' hmem with hmem | heq
    · exact absurd (hrun.trans hx.symm) (hord.ne_of_distinct ht hmem)
    · exact heq
  refine .spent ⟨htaken, ?_⟩ ⟨?_, ?_⟩
  · intro t' hmem hrun n hn
    obtain ⟨m, rfl⟩ := honly t' hmem hrun
    cases hn
  · intro u
    rcases hh with hh | hh
    · rw [hh]
      exact ho.idle.history u
    · rw [hh]
      simpa using ho.idle.history u
  · intro t' hmem hrun hinner
    obtain ⟨m, rfl⟩ := honly t' hmem hrun
    cases hinner

section

variable (hord : Orderly sid posted r) (ht : r.turns = before ++ t :: after) (hinner : t.awaits = .inner) {ev : Event}
  (hev : (ev = .succeeded t.entry.runId t.entry.estimatedUnits ∧ k = t.entry.estimatedUnits) ∨
    (ev = .failed t.entry.runId ∧ k = 0))
  (h : (r.log ev).conclude sid name env before after t k written = (requests, r'))
include hord ht hinner hev h

theorem Executed.concludes {u : ℕ} (hs : Spent x c r) (he : Executed x u c r) (hx : t.entry.runId = x) : Phase x c r' := by
  have htmem : t ∈ r.turns := by simp [ht]
  obtain ⟨hu, hnot, hnofail⟩ := he.inner t htmem hx hinner
  obtain ⟨hj, hrec, hh, hturns⟩ := conclude_cases h
  have hevmem : ev ∈ r'.history := by
    rcases hh with hh | hh
    · rw [hh]
      exact mem_cons_self
    · rw [hh]
      exact mem_cons_of_mem _ mem_cons_self
  have hsub : ∀ ev' ∈ r'.history, ev' = .settle x k ∨ ev' = ev ∨ ev' ∈ r.history := by
    intro ev' hmem
    rw [← hx]
    rcases hh with hh | hh
    · rw [hh] at hmem
      exact .inr (mem_cons.mp hmem)
    · rw [hh] at hmem
      exact (mem_cons.mp hmem).imp_right mem_cons.mp
  have hold (ev' : Event) (hmem : ev' ∈ r.history) : ev' ∈ r'.history := by
    rcases hh with hh | hh
    · rw [hh]
      exact mem_cons_of_mem _ hmem
    · rw [hh]
      exact mem_cons_of_mem _ (mem_cons_of_mem _ hmem)
  have hk : Charged r'.history x u k := by
    rcases hev with ⟨-, hk⟩ | ⟨rfl, hk⟩
    · exact .inl (hk.trans hu)
    · rw [hx] at hevmem
      exact .inr ⟨hevmem, hk⟩
  have hcharged (n : ℕ) (hc : Charged r.history x u n) : Charged r'.history x u n :=
    hc.imp_right (fun hf => ⟨hold _ hf.1, hf.2⟩)
  have honly (t' : Turn) (hmem : t' ∈ r'.turns) (hrun : t'.entry.runId = x) :
      ∃ n, t' = { t with awaits := .settle n k } := by
    rcases hturns t' hmem with hmem | heq
    · exact absurd (hrun.trans hx.symm) (hord.ne_of_distinct ht hmem)
    · exact heq
  have hunits : r'.journal.memory.actualUnits =
      Function.update r.journal.memory.actualUnits t.entry (some k) := by
    rw [hj, SharedTurnQuotaJournal.units_track]
    rfl
  have hbill (e : SharedTurnQuotaEntry) (hb : r.journal.memory.Bills r.history x u e) :
      r'.journal.memory.Bills r'.history x u e := by
    refine ⟨hb.1, ?_⟩
    intro n hn
    rw [hunits] at hn
    by_cases heq : e = t.entry
    · rw [heq, update_self] at hn
      cases hn
      exact hk
    · rw [update_of_ne heq] at hn
      exact hcharged n (hb.2 n hn)
  have hmemory : r'.journal.memory.Keeps r'.history x u := by
    refine ⟨t.entry, ?_, hx, hu, ?_⟩
    · rw [hj]
      exact mem_track _ _
    · intro n hn
      rw [hunits, update_self] at hn
      cases hn
      exact hk
  refine .executed u ⟨hs.taken, ?_⟩ ⟨he.pos, ?_, hold _ he.invoked, .inl hmemory, ?_, ?_, ?_, ?_, ?_, ?_, ?_, ?_⟩
  · intro t' hmem hrun n hn
    obtain ⟨m, rfl⟩ := honly t' hmem hrun
    cases hn
  · have hevinv : ¬ invokes x ev = true := by
      rcases hev with ⟨rfl, -⟩ | ⟨rfl, -⟩ <;> simp [invokes]
    have hlog : (ev :: r.history).countP (invokes x) = 1 := by
      rw [countP_cons_of_neg hevinv, he.count]
    rcases hh with hh | hh
    · rw [hh]
      exact hlog
    · rw [hh, countP_cons_of_neg (by simp [invokes])]
      exact hlog
  · cases written with
    | false =>
      have hfile : r'.journal.file = r.journal.file := by
        rw [hj]
        rfl
      rw [hfile]
      exact he.file.imp_left (fun hm => hm.mono (hold _) (.refl x _))
    | true =>
      have hfile : r'.journal.file = r'.journal.memory := by
        rw [hj]
        rfl
      rw [hfile]
      exact .inl hmemory
  · intro t' hmem hrun hin
    obtain ⟨m, rfl⟩ := honly t' hmem hrun
    cases hin
  · intro t' hmem hrun n m hn
    obtain ⟨_, rfl⟩ := honly t' hmem hrun
    cases hn
    exact hk
  · intro p hp e hmem hrun
    rw [hrec] at hp
    exact (he.rest p hp e hmem hrun).imp_left (hbill e)
  · intro p hp hrun n hn
    rw [hrec] at hp
    exact (he.lookup p hp hrun n hn).imp_left (hbill p.entry)
  · intro p hp hrun n m hn
    rw [hrec] at hp
    exact hcharged m (he.recovery p hp hrun n m hn)
  · intro m hm
    rcases hsub _ hm with hm | hm | hm
    · cases hm
      exact hk
    · rcases hev with ⟨rfl, -⟩ | ⟨rfl, -⟩ <;> cases hm
    · exact hcharged m (he.sent m hm)
  · intro v hv
    rcases hsub _ hv with hv | hv | hv
    · cases hv
    · rcases hev with ⟨rfl, -⟩ | ⟨rfl, -⟩
      · cases hv
        refine ⟨hu, ?_⟩
        intro hf
        rcases hsub _ hf with hf | hf | hf
        · cases hf
        · cases hf
        · exact hnofail hf
      · cases hv
    · exact absurd hv (hnot v)

theorem Phase.ends (hphase : Phase x c r) : Phase x c r' := by
  have htmem : t ∈ r.turns := by simp [ht]
  by_cases hx : t.entry.runId = x
  · cases hphase with
    | opened ho =>
      obtain ⟨⟨n, hn⟩, -⟩ := ho.turns t htmem hx
      rw [hinner] at hn
      cases hn
    | spent _ hi => exact absurd hinner (hi.turns t htmem hx)
    | executed _ hs he => exact he.concludes hord ht hinner hev h hs hx
  · have hrun : ev.run ≠ x := by
      rcases hev with ⟨rfl, -⟩ | ⟨rfl, -⟩ <;> exact hx
    have hlog : Quiet x c.returned r (r.log ev) :=
      quiet_of_subset (.refl x _) (fun _ hmem _ => hmem) rfl ⟨[_], rfl, by simpa using hrun⟩
    exact (hphase.quiet hlog).quiet (conclude_quiet (r := r.log _) hx ht h)

end

end Conclude

theorem frame_admitted {x : String} {r : Runtime} {request : SharedTurnRuntimeRequest} {written : Bool}
    (h : request.runId ≠ x ∨ ∃ e, r.journal.memory.table.find? request.runId = some e) :
    r.journal.Frame x (r.admitted request written).journal := by
  change r.journal.Frame x ((r.journal.allocate request).track (r.journal.entryFor request) written)
  rcases h with hne | ⟨e, he⟩
  · refine (frame_allocate hne).trans (frame_track (.inl ?_))
    rw [entryFor_runId]
    exact hne
  · have hentry : r.journal.entryFor request = e := by
      unfold entryFor
      rw [he, Option.getD_some]
    have halloc : r.journal.allocate request = r.journal := by
      unfold allocate
      rw [he]
    rw [halloc, hentry]
    exact frame_track (.inr (Table.find?_eq_some.mp he).1)

theorem Phase.moves {sid x : String} {c : Config Store Call Outcome} {posted : List Call} {r r' : Runtime}
    {dropped : List Call}
    (hw : (sharedTurns sid).Reachable ⟨c, posted, dropped, r⟩) (hord : Orderly sid posted r) {requests : List Call}
    (hm : TurnMoves sid c.returned r requests r')
    (hnew : ∀ i ∈ requests, NeverFresh c.returned i.name ∧ OnlySettled c.returned i.name)
    (h : Phase x c r) : Phase x c r' := by
  have hnil : ∃ evs : List Event, r.history = evs ++ r.history ∧ ∀ ev ∈ evs, ev.run ≠ x := ⟨[], rfl, by simp⟩
  have honly : ∀ i ∈ requests, OnlySettled c.returned i.name := fun i hi => (hnew i hi).2
  have hqueued (p : Recovery) (hp : r.reconciling = some p) : ∀ e ∈ p.rest, r.Queued e :=
    fun e he => .inr ⟨p, hp, he⟩
  have hleave (before after : List Turn) (t : Turn) (ht : r.turns = before ++ t :: after) :
      Phase x c (r.leave before after t.entry.runId) :=
    h.quiet (quiet_of_subset (.refl x _) (fun t' hmem _ => mem_leave ht hmem) rfl hnil)
  have hresume (rest : List SharedTurnQuotaEntry) (hq : ∀ e ∈ rest, r.Queued e) (name : ℕ) (env : ℕ → Env)
      (hr : r.resume sid name env rest = (requests, r')) : Phase x c r' :=
    h.quiet (quiet_resume hr (.refl x _) rfl rfl hq honly)
  -- a turn that leaves after its run was settled
  have hgone (before after : List Turn) (t : Turn) (ht : r.turns = before ++ t :: after) (written : Bool)
      (hset : c.store.IsSettled t.entry.runId) :
      Phase x c ((r.release t.entry.runId written).leave before after t.entry.runId) := by
    have hsub (t' : Turn) (hmem : t' ∈ before ++ after) : t' ∈ r.turns := mem_leave ht hmem
    by_cases hx : t.entry.runId = x
    · rw [hx] at hset ⊢
      refine h.release rfl (calm_of_subset (fun t' hmem _ => hsub t' hmem) rfl hnil) hset ⟨.inr hset, ?_⟩
      intro t' hmem hrun
      exact absurd (hrun.trans hx.symm) (hord.ne_of_distinct ht hmem)
    · exact h.quiet (quiet_of_subset (frame_release hx)
        (fun t' hmem _ => hsub t' hmem) rfl hnil)
  -- nothing ran yet for a turn whose claim is fresh
  have hclaimed {t : Turn} (ht : t ∈ r.turns) (hx : t.entry.runId = x) {n : ℕ} {v : Reservation} {replayed : Bool}
      (ha : t.awaits = .reserve n) (hrec : Received c.returned n (.ok (.reservation v replayed))) (hv : Fresh v) :
      Open x r ∧ c.store.IsTaken x := by
    obtain ⟨_, hpost⟩ := hord.reserve t ht n ha
    obtain ⟨i, hi, hname⟩ := hrec.returned
    cases h with
    | opened ho => exact ⟨ho, hx ▸ (reserve_answer hw hpost t.entry.payer_named hrec).1⟩
    | spent hs | executed _ hs => exact absurd hv (hs.answers t ht hx n ha i v replayed hi hname)
  have hspent {p : Recovery} (hp : r.reconciling = some p) {n units : ℕ} (ha : p.awaits = .settle n units)
      (hx : p.entry.runId = x) : Spent x c r := by
    cases h with
    | opened ho =>
      obtain ⟨⟨m, hm⟩, -⟩ := ho.recovery p hp hx
      rw [ha] at hm
      cases hm
    | spent hs | executed _ hs => exact hs
  -- an entry that the recovery finds settled
  have hrecovered (p : Recovery) (hp : r.reconciling = some p) (written : Bool) (name : ℕ) (env : ℕ → Env)
      (hset : c.store.IsSettled p.entry.runId) (hsp : p.entry.runId = x → Spent x c r)
      (hr : (r.release p.entry.runId written).resume sid name env p.rest = (requests, r')) : Phase x c r' := by
    by_cases hx : p.entry.runId = x
    · have hcalm : Calm x c.returned r r' := calm_resume hr rfl rfl (hqueued p hp) honly
      rw [hx] at hset hr
      have hjournal : r'.journal = r.journal.release x written := (journal_resume hr).1
      exact h.release hjournal hcalm hset (hcalm.spent (hsp hx))
    · exact h.quiet (quiet_resume hr (frame_release hx) rfl rfl (hqueued p hp) honly)
  cases hm with
  | execute request name =>
    have hfresh := hnew _ mem_cons_self
    have hjournal : (r.enter request name).journal = (r.admitted request true).journal := rfl
    have hframe (h : request.runId ≠ x ∨ ∃ e, r.journal.memory.table.find? request.runId = some e) :
        r.journal.Frame x (r.enter request name).journal := by
      rw [hjournal]
      exact frame_admitted h
    have hcalm : Calm x c.returned r (r.enter request name) := by
      refine ⟨?_, fun p hp _ => .inl hp, fun p hp e he _ => .inr ⟨p, hp, he⟩, hnil⟩
      intro t ht hrun
      rcases mem_append.mp ht with ht | ht
      · exact .inl ht
      · obtain rfl := mem_singleton.mp ht
        exact .inr ⟨name, rfl, hfresh.1⟩
    by_cases hx : request.runId = x
    · cases hfind : r.journal.memory.table.find? request.runId with
      | none =>
        refine h.newEntry hx (hx ▸ hfind) hjournal hcalm ?_
        intro t ht hrun
        rcases mem_append.mp ht with ht | ht
        · exact .inl ht
        · obtain rfl := mem_singleton.mp ht
          exact .inr ⟨rfl, mem_file_track _⟩
      | some e =>
        refine h.quiet ⟨hcalm, hframe (.inr ⟨e, hfind⟩), ?_⟩
        intro t ht hrun
        rcases mem_append.mp ht with ht | ht
        · exact .inl ⟨t, ht, rfl⟩
        · obtain rfl := mem_singleton.mp ht
          exact .inr ⟨mem_track _ _, mem_file_track _⟩
    · have hrunId := entryFor_runId (j := r.journal) request
      refine h.quiet ⟨hcalm, hframe (.inl hx), ?_⟩
      intro t ht hrun
      rcases mem_append.mp ht with ht | ht
      · exact .inl ⟨t, ht, rfl⟩
      · obtain rfl := mem_singleton.mp ht
        exact absurd (hrunId.symm.trans hrun) hx
  | executeUnwritten request =>
    have hsub : ∀ t ∈ r.turns ++ [], t.entry.runId = x → t ∈ r.turns := by
      intro t ht _
      simpa using ht
    have hjournal : ((r.admitted request false).leave r.turns [] request.runId).journal =
        (r.admitted request false).journal := rfl
    have hframe (h : request.runId ≠ x ∨ ∃ e, r.journal.memory.table.find? request.runId = some e) :
        r.journal.Frame x ((r.admitted request false).leave r.turns [] request.runId).journal := by
      rw [hjournal]
      exact frame_admitted h
    by_cases hx : request.runId = x
    · cases hfind : r.journal.memory.table.find? request.runId with
      | none =>
        exact h.newEntry hx (hx ▸ hfind) hjournal (calm_of_subset hsub rfl hnil)
          (fun t ht hrun => .inl (hsub t ht hrun))
      | some e => exact h.quiet (quiet_of_subset (hframe (.inr ⟨e, hfind⟩)) hsub rfl hnil)
    · exact h.quiet (quiet_of_subset (hframe (.inl hx)) hsub rfl hnil)
  | reserveAgain _ _ t _ name _ _ ht =>
    have hfresh := hnew _ mem_cons_self
    have htmem : t ∈ r.turns := by simp [ht]
    refine h.quiet ⟨⟨?_, fun p hp _ => .inl hp, fun p hp y hy _ => .inr ⟨p, hp, hy⟩, hnil⟩, .refl x _, ?_⟩
    · intro t' hmem _
      rcases mem_wait hmem with hmem | rfl
      · exact .inl (mem_leave ht hmem)
      · exact .inr ⟨name, rfl, hfresh.1⟩
    · intro t' hmem _
      rcases mem_wait hmem with hmem | rfl
      · exact .inl ⟨t', mem_leave ht hmem, rfl⟩
      · exact .inl ⟨t, htmem, rfl⟩
  | reserveFails before after t _ ht | alreadyAccepted before after t _ _ _ ht | settleFails before after t _ _ ht => exact hleave before after t ht
  | alreadySettled before after t n _ _ written ht ha hrec hv =>
    obtain ⟨env, hpost⟩ := hord.reserve t (by simp [ht]) n ha
    exact hgone before after t ht written ((reserve_answer hw hpost t.entry.payer_named hrec).2 hv)
  | cancelledBefore _ _ t n v replayed _ _ _ ht ha hrec hv _ _ _ hr =>
    have htmem : t ∈ r.turns := by simp [ht]
    by_cases hx : t.entry.runId = x
    · obtain ⟨ho, htaken⟩ := hclaimed htmem hx ha hrec hv
      exact ho.concludes hord ht hx htaken hr
    · exact h.quiet (conclude_quiet hx ht hr)
  | invoke _ _ t n v replayed ht ha hrec hv =>
    have htmem : t ∈ r.turns := by simp [ht]
    by_cases hx : t.entry.runId = x
    · obtain ⟨ho, htaken⟩ := hclaimed htmem hx ha hrec hv
      exact Phase.invoke hord ho ht hx htaken
    · refine h.quiet (quiet_of_subset (.refl x _) ?_ rfl ⟨[_], rfl, by simpa [Event.run] using hx⟩)
      intro t' hmem hrun
      rcases mem_wait hmem with hmem | rfl
      · exact mem_leave ht hmem
      · exact absurd hrun hx
  | innerSucceeds _ _ _ _ _ _ ht ha _ _ hr => exact h.ends hord ht ha (.inl ⟨rfl, rfl⟩) hr
  | innerFails _ _ _ _ _ _ ht ha _ _ hr => exact h.ends hord ht ha (.inr ⟨rfl, rfl⟩) hr
  | settled before after t n units written ht ha hrec =>
    obtain ⟨env, hpost⟩ := hord.settle t (by simp [ht]) n units ha
    exact hgone before after t ht written (settle_answer hw hpost hrec)
  | settleAgain before after t n units name _ ht ha =>
    have htmem : t ∈ r.turns := by simp [ht]
    have hwait (t' : Turn) (hmem : t' ∈ (r.wait before after t (.settle name units)).turns) :
        t' ∈ r.turns ∨ ∃ m, t'.awaits = .settle m units := by
      rcases mem_wait hmem with hmem | rfl
      · exact .inl (mem_leave ht hmem)
      · exact .inr ⟨name, rfl⟩
    by_cases hx : t.entry.runId = x
    · have hspent : Spent x c r := by
        cases h with
        | opened ho =>
          obtain ⟨⟨m, hm⟩, -⟩ := ho.turns t htmem hx
          rw [ha] at hm
          cases hm
        | spent hs | executed _ hs => exact hs
      refine h.sends rfl (by rw [← hx]; rfl) (fun t' hmem _ => hwait t' hmem)
        (fun p hp => ⟨p, hp, rfl, rfl, .inl rfl⟩) ⟨hspent.taken, ?_⟩ ?_
      · intro t' hmem hrun m hm
        rcases hwait t' hmem with hold | ⟨_, hm'⟩
        · exact hspent.answers t' hold hrun m hm
        · rw [hm] at hm'
          cases hm'
      · intro u he
        exact he.settle t htmem hx n units ha
    · refine h.quiet (quiet_of_subset (.refl x _) ?_ rfl ⟨[_], rfl, by simpa [Event.run] using hx⟩)
      intro t' hmem hrun
      rcases mem_wait hmem with hmem | rfl
      · exact mem_leave ht hmem
      · exact absurd hrun hx
  | cancelSharedTurn =>
    exact h.quiet (quiet_of_subset (.refl x _) (fun _ hmem _ => hmem) rfl hnil)
  | reconcileInterrupted name env _ _ _ hr => exact hresume _ (fun e he => .inl he) name env hr
  | lookupActive p _ _ _ name env hp _ _ _ _ _ hr | lookupUnaccepted p _ _ _ name env hp _ _ _ _ _ _ _ hr
  | recoveryFails p name env hp _ _ hr =>
    exact hresume p.rest (hqueued p hp) name env hr
  | lookupSettled p n _ _ written name env hp ha hrec hactive hv _ _ hr =>
    obtain ⟨env', hpost⟩ := hord.lookup p n hp ha
    have hset := (lookup_answer hw hpost hrec).1 hv
    refine hrecovered p hp written name env hset ?_ hr
    intro hx
    refine ⟨.inr (hx ▸ hset), ?_⟩
    intro t hmem hrun
    exact absurd (hord.active t hmem) (by rw [hrun, ← hx]; exact hactive)
  | lookupAccepted p n v replayed name _ hp ha hrec hactive hv hacc =>
    obtain ⟨env', hpost⟩ := hord.lookup p n hp ha
    have htaken := (lookup_answer hw hpost hrec).2 hacc
    by_cases hx : p.entry.runId = x
    · refine h.sends rfl (by rw [← hx]; rfl) (fun t' hmem _ => .inl hmem) ?_ ⟨hx ▸ htaken, ?_⟩ ?_
      · intro q hq
        cases hq
        exact ⟨p, hp, rfl, rfl, .inr ⟨name, rfl⟩⟩
      · intro t hmem hrun
        exact absurd (hord.active t hmem) (by rw [hrun, ← hx]; exact hactive)
      · intro u he
        rcases he.lookup p hp hx n ha with hb | ⟨-, honly'⟩
        · unfold settleUnits
          cases hunits : r.journal.memory.actualUnits p.entry with
          | none => exact .inl hb.1
          | some k => exact hb.2 k hunits
        · obtain ⟨i, hi, hname⟩ := hrec.returned
          rw [honly' i v replayed hi hname] at hv
          cases hv
    · refine h.quiet ⟨⟨fun t hmem _ => .inl hmem, ?_, ?_, ⟨[_], rfl, by simpa [Event.run] using hx⟩⟩,
        .refl x _, fun t hmem _ => .inl ⟨t, hmem, rfl⟩⟩
      · intro q hq hrun
        cases hq
        exact absurd hrun hx
      · intro q hq e he _
        cases hq
        exact .inr ⟨p, hp, he⟩
  | recovered p n units written name env hp ha hrec _ _ hr =>
    obtain ⟨_, hpost⟩ := hord.recovery p n units hp ha
    exact hrecovered p hp written name env (settle_answer hw hpost hrec) (hspent hp ha) hr
  | recoverAgain p n units name _ hp ha =>
    by_cases hx : p.entry.runId = x
    · have hspent := hspent hp ha hx
      refine h.sends rfl (by rw [← hx]; rfl) (fun t' hmem _ => .inl hmem) ?_ ⟨hspent.taken, hspent.answers⟩ ?_
      · intro q hq
        cases hq
        exact ⟨p, hp, rfl, rfl, .inr ⟨name, rfl⟩⟩
      · intro u he
        exact he.recovery p hp hx n units ha
    · refine h.quiet ⟨⟨fun t hmem _ => .inl hmem, ?_, ?_, ⟨[_], rfl, by simpa [Event.run] using hx⟩⟩,
        .refl x _, fun t hmem _ => .inl ⟨t, hmem, rfl⟩⟩
      · intro q hq hrun
        cases hq
        exact absurd hrun hx
      · intro q hq e he _
        cases hq
        exact .inr ⟨p, hp, he⟩
  | restart => exact h.restart

theorem reachable_phase {sid : String} {w : World Store Call Outcome Runtime}
    (hw : (sharedTurns sid).Reachable w) (x : String) :
    Orderly sid w.posted w.client ∧ Phase x w.service w.client := by
  apply hw.invariant (I := fun w => Orderly sid w.posted w.client ∧ Phase x w.service w.client)
  · refine ⟨⟨?_, ?_, ?_, ?_, ?_, nodup_nil⟩, .opened ⟨?_, ?_, ?_, ?_, ?_, ?_⟩⟩
    · intro t ht
      cases ht
    · intro t ht
      cases ht
    · intro p n hp
      cases hp
    · intro p n _ hp
      cases hp
    · intro t ht
      cases ht
    · intro _ hev
      cases hev
    · intro t ht
      cases ht
    · intro p hp
      cases hp
    · intro p hp
      cases hp
    · intro e he
      cases he
    · intro e he
      cases he
  · intro w d hw hd hs h
    have hphase := Phase.service hw hs hd h.1 h.2
    exact ⟨h.1, hphase⟩
  · intro w _ g hw hm hnew h
    refine ⟨h.1.moves hm, h.2.moves hw h.1 hm ?_⟩
    intro i hi
    exact ⟨neverFresh_of_new hw (hnew i hi), onlySettled_of_new hw (hnew i hi)⟩
  · intro w i _ _ h
    exact h

/-- A shared turn is executed at most once, and one that succeeded is charged its journalled units. -/
theorem shared_turn_executed_once {sid : String} {w : World Store Call Outcome Runtime}
    (hw : (sharedTurns sid).Reachable w) (runId : String) :
    w.client.history.countP (Event.invokes runId) ≤ 1 ∧
    ∀ units, .succeeded runId units ∈ w.client.history →
      units ≠ 0 ∧ .invoked runId units ∈ w.client.history ∧
      (∀ actualUnits, .settle runId actualUnits ∈ w.client.history → actualUnits = units) ∧
      (w.service.store.IsSettled runId ∨
        ∃ e ∈ w.client.journal.file.table, e.runId = runId ∧ e.estimatedUnits = units) := by
  have hzero (h : ∀ u, .invoked runId u ∉ w.client.history) :
      w.client.history.countP (Event.invokes runId) = 0 := by
    rw [countP_eq_zero]
    intro ev hev hinv
    cases ev <;> simp [Event.invokes] at hinv
    subst hinv
    exact h _ hev
  cases (reachable_phase hw runId).2 with
  | opened ho =>
    refine ⟨by rw [hzero (fun u => (ho.idle.history u).1)]; omega, ?_⟩
    intro units hsucc
    exact absurd hsucc (ho.idle.history units).2
  | spent _ hi =>
    refine ⟨by rw [hzero (fun u => (hi.history u).1)]; omega, ?_⟩
    intro units hsucc
    exact absurd hsucc (hi.history units).2
  | executed _ _ he =>
    refine ⟨by rw [he.count], ?_⟩
    intro units hsucc
    obtain ⟨rfl, hnofail⟩ := he.succeeded units hsucc
    refine ⟨Nat.pos_iff_ne_zero.mp he.pos, he.invoked, ?_, ?_⟩
    · intro k hk
      rcases he.sent k hk with hk | ⟨hf, -⟩
      · exact hk
      · exact absurd hf hnofail
    · rcases he.file with ⟨e, hmem, hx, hb⟩ | hset
      · exact .inr ⟨e, hmem, hx, hb.1⟩
      · exact .inl hset

namespace SharedTurnExample

def budget : Call := ⟨0, fun _ => .still ⟨0⟩, .setBudget ⟨"S-1-1", "model", "daily", 100000⟩⟩

def admission : Call :=
  ⟨1, fun _ => .still ⟨0⟩, .reserveSharedRun ⟨"run", "S-1-5", "S-1-1", "model", "codex", 1025⟩⟩

def request : SharedTurnRuntimeRequest := ⟨"run", "codex", "model", none, "hi", "S-1-1", by decide⟩

def turn (awaits : Await) : Turn := ⟨"codex", request.entry 0, awaits⟩

def claim : Call := postReserve "S-1-5" 2 (fun _ => .still ⟨0⟩) ((request.entry 0).reserveRequest "codex")

def invoking : Runtime :=
  ((Runtime.empty.enter request 2).log (.invoked "run" (request.entry 0).estimatedUnits)).wait [] []
    (turn (.reserve 2)) .inner

def concluding : List Call × Runtime :=
  (invoking.log (.succeeded "run" (request.entry 0).estimatedUnits)).conclude "S-1-5" 3
    (fun _ => .still ⟨0⟩) [] [] (turn .inner) (request.entry 0).estimatedUnits true

theorem executed_run : ∃ w, (sharedTurns "S-1-5").Reachable w ∧ w.client = concluding.2 := by
  obtain ⟨returned, hquota⟩ := reachable_calls [budget, admission] (by decide)
  have hstart : (sharedTurns "S-1-5").Reachable
      ⟨⟨storeAfter [budget, admission], [], [admission, budget], returned⟩, [], [], .empty⟩ :=
    of_service hquota (by simp [sharedTurns, quotaProtocol])
  have hexecute := hstart.tail (.client _ [claim] (Runtime.empty.enter request 2)
    (.execute .empty request 2 (fun _ => .still ⟨0⟩) (by decide)) (by
      intro i hi
      obtain rfl := mem_singleton.mp hi
      exact (Protocol.new_iff _).mpr ⟨not_mem_nil, by change 2 ∉ [1, 0]; decide⟩) (by simp))
  have hallowed : system.allowed [admission, budget] returned claim := by
    change 2 ∉ [1, 0]
    decide
  have hclaim := Protocol.Reachable.run hexecute (of_request hallowed mem_cons_self not_mem_nil)
  obtain ⟨v, hv, hfresh⟩ : ∃ v, (claim.prog.run (storeAfter [budget, admission])).1 =
      .ok (.reservation v true) ∧ Fresh v := ⟨_, rfl, rfl, rfl⟩
  have hreceived : Received ((claim, (claim.prog.run (storeAfter [budget, admission])).1) :: returned) 2
      (.ok (.reservation v true)) := by
    rw [hv]
    exact .answer claim _ mem_cons_self rfl
  have hinvoke := hclaim.tail (.client _ [] invoking
    (.invoke _ [] [] (turn (.reserve 2)) 2 v true rfl rfl hreceived hfresh not_mem_nil) (by simp) (by simp))
  have hconclude := hinvoke.tail (.client _ concluding.1 concluding.2
    (.innerSucceeds _ [] [] (turn .inner) true 3 (fun _ => .still ⟨0⟩) rfl rfl _ _ rfl) (by
      intro i hi
      obtain rfl := mem_singleton.mp hi
      exact (Protocol.new_iff _).mpr ⟨by change 3 ∉ [2]; decide, by change 3 ∉ [2, 1, 0]; decide⟩)
    (nodup_singleton 3))
  exact ⟨_, hconclude, rfl⟩

theorem shared_turn_executed_once_run : ∃ w, (sharedTurns "S-1-5").Reachable w ∧
    w.client.history.countP (Event.invokes "run") ≤ 1 ∧ .succeeded "run" 1025 ∈ w.client.history ∧
    .settle "run" 1025 ∈ w.client.history ∧
    ∀ actualUnits, .settle "run" actualUnits ∈ w.client.history → actualUnits = 1025 := by
  obtain ⟨w, hw, hclient⟩ := executed_run
  have hhistory : w.client.history =
      [.settle "run" 1025, .succeeded "run" 1025, .invoked "run" 1025] := by
    rw [hclient]
    decide +kernel
  have hsucceeded : .succeeded "run" 1025 ∈ w.client.history := by simp [hhistory]
  obtain ⟨hcount, hcharged⟩ := shared_turn_executed_once hw "run"
  exact ⟨w, hw, hcount, hsucceeded, by simp [hhistory], (hcharged 1025 hsucceeded).2.2.1⟩

end SharedTurnExample

end WorkAgent.Harness
