import WorkAgent.Library.Client
import WorkAgent.Quota.RuntimeAnswers

namespace WorkAgent.Harness

open Library Quota

structure QuotaReserveRequest where
  runId : String
  engine : String
  modelId : String
  estimatedUnits : ℕ
  payerSid : String

structure QuotaSettleRequest where
  runId : String
  actualUnits : ℕ
  payerSid : String

section Post

variable (sid : String) (name : ℕ) (env : ℕ → Env)

def postReserve (r : QuotaReserveRequest) : Call :=
  ⟨name, env, .reserveRuntime sid r.payerSid
    ⟨r.runId, "", r.modelId, Int64.ofNat r.estimatedUnits, .zero, r.engine⟩⟩

def postSettle (r : QuotaSettleRequest) : Call :=
  ⟨name, env, .settleRuntime sid r.payerSid ⟨r.runId, Int64.ofNat r.actualUnits⟩⟩

def postLookup (runId : String) : Call := ⟨name, env, .lookupRuntimeRun sid runId⟩

end Post

inductive Received (answers : List (Call × Outcome)) (name : ℕ) : Outcome → Prop
  | answer (i : Call) (out : Outcome) (h : (i, out) ∈ answers) (hn : i.name = name) :
      Received answers name out
  | lost : Received answers name (.error (.wrapped "fetch failed"))

def retriesReserve (e : QuotaError) : Prop := e = .usagePending ∨ e = .usageStale

def quotaProtocol {γ : Type} (others : Call → Prop) (init : γ)
    (moves : List (Call × Outcome) → γ → List Call → γ → Prop) : Protocol Store Call Outcome γ :=
  ⟨system, Call.name, others, init, moves⟩

def Fresh (v : Reservation) : Prop := v.status = .reserved ∧ v.alreadyAccepted = false

def NeverFresh (answers : List (Call × Outcome)) (name : ℕ) : Prop :=
  ∀ i v replayed, (i, .ok (.reservation v replayed)) ∈ answers → i.name = name → ¬ Fresh v

def OnlySettled (answers : List (Call × Outcome)) (name : ℕ) : Prop :=
  ∀ i v replayed, (i, .ok (.reservation v replayed)) ∈ answers → i.name = name → v.status = .settled

section Answers

variable {γ : Type} {others : Call → Prop} {init : γ}
  {moves : List (Call × Outcome) → γ → List Call → γ → Prop}
  {w : World Store Call Outcome γ} {sid : String} {name : ℕ} {env : ℕ → Env}

theorem Received.returned {out : Answer} {answers : List (Call × Outcome)}
    (h : Received answers name (.ok out)) : ∃ i, (i, .ok out) ∈ answers ∧ i.name = name := by
  generalize hout : (Except.ok out : Outcome) = o at h
  cases h with
  | answer i _ h hn => exact ⟨i, h, hn⟩
  | lost => cases hout

theorem answer_earlier (hw : (quotaProtocol others init moves).Reachable w) {j : Call} (hj : j ∈ w.posted)
    (hname : j.name = name) {out : Answer} (h : Received w.service.returned name (.ok out)) :
    ∃ s t, Returns j (.ok out) s t ∧ Later t w.service.store := by
  obtain ⟨i, hi, hn⟩ := h.returned
  obtain rfl := hw.answer hi hj (hn.trans hname.symm)
  exact returned_earlier hw.service hi

theorem answer_step (hw : (quotaProtocol others init moves).Reachable w) {d : Config Store Call Outcome}
    (hs : system.Step w.service d) (hd : (quotaProtocol others init moves).Reachable { w with service := d })
    {i j : Call} {out : Outcome} (hj : j ∈ w.posted) (h : (i, out) ∈ d.returned) (hn : i.name = j.name) :
    (i, out) ∈ w.service.returned ∨ Returns j out w.service.store d.store := by
  obtain rfl := hd.answer h hj hn
  exact returned_step hw.service hs h

variable {r : QuotaReserveRequest} {v : Reservation} {replayed : Bool}

section

variable (hw : (quotaProtocol others init moves).Reachable w)
include hw

theorem reserve_answer
    (hpost : postReserve sid name env r ∈ w.posted) (hp : r.payerSid ≠ "")
    (h : Received w.service.returned name (.ok (.reservation v replayed))) :
    w.service.store.IsTaken r.runId ∧ (v.status = .settled → w.service.store.IsSettled r.runId) := by
  obtain ⟨s, t, hret, hlater⟩ := answer_earlier hw hpost rfl h
  obtain ⟨htaken, hsettled, -⟩ := hret.claimed rfl hp
  exact ⟨htaken.later hlater, fun hst => (hsettled hst).later hlater⟩

theorem lookup_answer {x : String}
    (hpost : postLookup sid name env x ∈ w.posted)
    (h : Received w.service.returned name (.ok (.reservation v replayed))) :
    (v.status = .settled → w.service.store.IsSettled x) ∧
      (v.accepted = true → w.service.store.IsTaken x) := by
  obtain ⟨s, t, hret, hlater⟩ := answer_earlier hw hpost rfl h
  obtain ⟨rfl, hsettled, htaken⟩ := hret.found rfl
  exact ⟨fun hst => (hsettled.mp hst).later hlater, fun hacc => (htaken hacc).later hlater⟩

theorem settle_answer {q : QuotaSettleRequest}
    (hpost : postSettle sid name env q ∈ w.posted) (h : Received w.service.returned name (.ok .done)) :
    w.service.store.IsSettled q.runId := by
  obtain ⟨s, t, hret, hlater⟩ := answer_earlier hw hpost rfl h
  have hsettled : t.IsSettled q.runId := hret.closed rfl
  exact hsettled.later hlater

end

variable {d : Config Store Call Outcome}

section

variable (hw : (quotaProtocol others init moves).Reachable w)
include hw

theorem NeverFresh.step (hs : system.Step w.service d)
    (hd : (quotaProtocol others init moves).Reachable { w with service := d })
    (hpost : postReserve sid name env r ∈ w.posted) (hp : r.payerSid ≠ "")
    (htaken : w.service.store.IsTaken r.runId) (h : NeverFresh w.service.returned name) :
    NeverFresh d.returned name := by
  intro i v replayed hi hn hfresh
  rcases answer_step hw hs hd hpost hi hn with hold | hret
  · exact h i v replayed hold hn hfresh
  · obtain ⟨-, -, hfirst⟩ := hret.claimed rfl hp
    exact hfirst hfresh.1 hfresh.2 htaken

theorem OnlySettled.step (hs : system.Step w.service d)
    (hd : (quotaProtocol others init moves).Reachable { w with service := d }) {x : String}
    (hpost : postLookup sid name env x ∈ w.posted) (hsettled : w.service.store.IsSettled x)
    (h : OnlySettled w.service.returned name) : OnlySettled d.returned name := by
  intro i v replayed hi hn
  rcases answer_step hw hs hd hpost hi hn with hold | hret
  · exact h i v replayed hold hn
  · obtain ⟨-, hiff, -⟩ := hret.found rfl
    exact hiff.mpr hsettled

theorem neverFresh_of_new {n : ℕ}
    (hn : (quotaProtocol others init moves).New w n) : NeverFresh w.service.returned n :=
  fun _ _ _ h hname => absurd hname (hw.not_answered hn h)

theorem onlySettled_of_new {n : ℕ}
    (hn : (quotaProtocol others init moves).New w n) : OnlySettled w.service.returned n :=
  fun _ _ _ h hname => absurd hname (hw.not_answered hn h)

end

end Answers

end WorkAgent.Harness
