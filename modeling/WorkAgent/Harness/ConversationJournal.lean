import WorkAgent.Harness.ConversationRuns
import WorkAgent.Quota.PersonalRuns

namespace WorkAgent.Quota

open Library

def Store.IsReserved (s : Store) (x : String) : Prop :=
  ∃ r, s.reservationByRun x = some r ∧ r.status = .reserved

theorem Store.IsReserved.not_isSettled {s : Store} {x : String} (h : s.IsReserved x) : ¬ s.IsSettled x := by
  obtain ⟨r, hr, hs⟩ := h
  rintro ⟨_, hr', hs'⟩
  cases hr.symm.trans hr'
  rw [hs] at hs'
  cases hs'

theorem step_new_run {c d : Config Store Call Outcome} (hc : system.Reachable c) (hs : system.Step c d)
    {x : String} (hnone : c.store.reservationByRun x = none) {r : ReservationRow}
    (hr : d.store.reservationByRun x = some r) :
    ∃ i ∈ c.running.map Prod.fst, ∃ a request auth v, i.admission = some (request, auth) ∧
      request.runID = x ∧ c.store.reserve a (request.dated (i.env 0)) auth = .ok (v, d.store) := by
  have hsame (h : d.store = c.store) : False := by
    rw [h, hnone] at hr
    cases hr
  rcases sequential.moves (sequential.holds hc) hs with ⟨h, -⟩ | ⟨i, hi, hG, -⟩ | ⟨i, a, h | ⟨hi, hG⟩, -, -⟩ | ⟨h, -⟩
  · exact (hsame h).elim
  · exact ⟨i, hi, hG.new_run hnone hr⟩
  · exact (hsame h).elim
  · exact ⟨i, hi, hG.new_run hnone hr⟩
  · exact (hsame (Eq.symm h)).elim

end WorkAgent.Quota

namespace WorkAgent.Harness

open Library Quota

theorem runNamed_of_admission {i : Call} {request : ReserveRequest} {auth : Option RunAuthorization}
    (h : i.admission = some (request, auth)) : runNamed i.op = some request.runID := by
  unfold Call.admission at h
  unfold runNamed
  split at h <;> cases h <;> rename_i hop <;> rw [hop]

structure Posted (sid : String) (own : String → Prop) (w : World Store Call Outcome Conversations) : Prop where
  traced : w.client.Traced own
  drawn : ∀ i ∈ w.posted, ∀ x, own x → runNamed i.op = some x → x ∈ w.client.drawn
  kinds : ∀ i ∈ w.posted, (∃ name env b x, i = postReserve sid name env (BeginRequest.reserveRequest b x)) ∨
    ∃ name env x units, i = postSettle sid name env ⟨x, units, ""⟩
  reserving : ∀ b x n, .reserving b x n ∈ w.client.tasks →
    ∃ env, postReserve sid n env (b.reserveRequest x) ∈ w.posted
  settling : ∀ r ∈ w.client.settling, ∃ env, postSettle sid r.name env ⟨r.runId, r.actualUnits, ""⟩ ∈ w.posted
  owned : ∀ x, own x → w.service.store.OwnedBy sid x
  stored : ∀ x, own x → ∀ r, w.service.store.reservationByRun x = some r → x ∈ w.client.drawn

section Service

variable {sid : String} {own : String → Prop} {w : World Store Call Outcome Conversations}
  {d : Config Store Call Outcome} {x : String}

section

variable (hw : (conversations sid own).Reachable w)
include hw

section

variable (h : Posted sid own w) (hs : system.Step w.service d) (hown : own x)
include h hs hown

theorem own_new_run (hnone : w.service.store.reservationByRun x = none) {r : ReservationRow} (hr : d.store.reservationByRun x = some r) :
    (∃ name env b, w.UnderWay (postReserve sid name env (BeginRequest.reserveRequest b x))) ∧
      d.store.OwnedBy sid x := by
  obtain ⟨i, hi, a, _, _, v, hadm, hx, hres⟩ := step_new_run hw.service hs hnone hr
  have hstarted : i ∈ w.service.started :=
    hw.service.calls_subperm.subset (List.mem_append_left _ hi)
  have hnamed : runNamed i.op = some x := by rw [← hx]; exact runNamed_of_admission hadm
  have hposted : i ∈ w.posted := by
    rcases hw.started_cases hstarted with hposted | hother
    · exact hposted
    · exact absurd hnamed (hother x hown)
  rcases h.kinds i hposted with ⟨name, env, b, y, rfl⟩ | ⟨name, env, y, _, rfl⟩
  · cases hnamed
    refine ⟨⟨name, env, b, hposted, ?_, fun _ => hi⟩, ?_⟩
    · exact fun hdrop => (hw.not_started_of_dropped hdrop).2 hstarted
    · cases hadm
      have howned := Store.reserve_ownedBy hres
      rwa [runID_dated] at howned
  · cases hadm

theorem owned_step : d.store.OwnedBy sid x := by
  cases hold : w.service.store.reservationByRun x with
  | some r => exact (h.owned x hown).later (step_later hw.service hs) ⟨r, hold⟩
  | none =>
    intro r hr
    exact (own_new_run hw h hs hown hold hr).2 r hr

theorem stored_step {r : ReservationRow} (hr : d.store.reservationByRun x = some r) : x ∈ w.client.drawn := by
  cases hold : w.service.store.reservationByRun x with
  | some r => exact h.stored x hown r hold
  | none =>
    obtain ⟨⟨_, _, b, hunder⟩, -⟩ := own_new_run hw h hs hown hold hr
    exact h.drawn _ hunder.1 x hown rfl

end

theorem reachable_posted : Posted sid own w := by
  apply hw.invariant (I := Posted sid own)
  · refine ⟨⟨?_, ?_, ?_, ?_, ?_⟩, ?_, ?_, ?_, ?_, ?_, ?_⟩
    · exact fun y hy => absurd hy List.not_mem_nil
    · exact fun y hy => absurd hy List.not_mem_nil
    · exact fun y hy => absurd hy List.not_mem_nil
    · intro t ht y hy
      rw [List.mem_singleton.mp ht] at hy
      exact absurd hy List.not_mem_nil
    · exact fun r hr => absurd hr List.not_mem_nil
    · exact fun i hi => absurd hi List.not_mem_nil
    · exact fun i hi => absurd hi List.not_mem_nil
    · intro b y n h
      cases List.mem_singleton.mp h
    · exact fun r hr => absurd hr List.not_mem_nil
    · intro y _ r hr
      cases hr
    · intro y _ r hr
      cases hr
  · intro w d hw _ hs h
    refine { h with owned := ?_, stored := ?_ }
    · exact fun y hy => owned_step hw h hs hy
    · exact fun y hy r hr => stored_step (w := w) hw h hs hy hr
  · intro w _ _ _ hm _ h
    have hchange := Conversations.Change.of_moves h.traced hm
    refine ⟨hchange.traced, ?_, ?_, ?_, ?_, h.owned, fun y hy r hr => hchange.drawn (h.stored y hy r hr)⟩
    · intro i hi y hy hnamed
      rcases List.mem_append.mp hi with hi | hi
      · cases hchange.asks i hi with
        | settle _ _ _ _ hx =>
          cases hnamed
          exact hchange.drawn (hx hy)
        | draw _ _ _ _ _ hd =>
          cases hnamed
          exact hd
        | again _ _ _ z _ _ ht =>
          cases hnamed
          exact hchange.drawn (h.traced.tasks _ ht z List.mem_cons_self)
      · exact hchange.drawn (h.drawn i hi y hy hnamed)
    · intro i hi
      rcases List.mem_append.mp hi with hi | hi
      · cases hchange.asks i hi with
        | settle name env runId units => exact .inr ⟨name, env, runId, units, rfl⟩
        | draw name env b z | again name env b z => exact .inl ⟨name, env, b, z, rfl⟩
      · exact h.kinds i hi
    · intro b y n hy
      rcases hchange.tasks b y n hy with hold | ⟨env, hnew⟩
      · obtain ⟨env, hmem⟩ := h.reserving b y n hold
        exact ⟨env, List.mem_append_right _ hmem⟩
      · exact ⟨env, List.mem_append_left _ hnew⟩
    · intro r hr
      rcases hchange.settling r hr with hold | ⟨env, hnew⟩
      · obtain ⟨env, hmem⟩ := h.settling r hold
        exact ⟨env, List.mem_append_right _ hmem⟩
      · exact ⟨env, List.mem_append_left _ hnew⟩
  · intro w i _ _ h
    exact ⟨h.traced, h.drawn, h.kinds, h.reserving, h.settling, h.owned, h.stored⟩

end

end Service

def Reserves (i : Call) (x : String) : Prop :=
  ∃ sid payerSID r, i.op = .reserveRuntime sid payerSID r ∧ r.runID = x

def Settles (i : Call) (x : String) : Prop :=
  ∃ sid payerSID r, i.op = .settleRuntime sid payerSID r ∧ r.runID = x

/-- The run may still be reserved: a request for it is under way, or `reserve` has an answer to the
last one on which it posts another. -/
def MayReserve (w : World Store Call Outcome Conversations) (x : String) : Prop :=
  (∃ i, w.UnderWay i ∧ Reserves i x) ∨
    ∃ b i e, .reserving b x i.name ∈ w.client.tasks ∧ (i, .error e) ∈ w.service.returned ∧ retriesReserve e

/-- Nobody answers a settlement by `quota_reservation_not_found` whose run may still be reserved. -/
def Careful (w w' : World Store Call Outcome Conversations) : Prop :=
  ∀ i ∈ w.posted, ∀ x, Settles i x → (i, .error .reservationNotFound) ∈ w'.service.returned →
    (i, .error .reservationNotFound) ∉ w.service.returned → ¬ MayReserve w x

def CarefulRun (sid : String) (own : String → Prop) :
    World Store Call Outcome Conversations → World Store Call Outcome Conversations → Prop :=
  Relation.ReflTransGen (fun w w' => (conversations sid own).Step w w' ∧ Careful w w')

def Live (w : World Store Call Outcome Conversations) (x : String) : Prop :=
  w.service.store.IsReserved x ∨ (MayReserve w x ∧ ¬ w.service.store.IsSettled x)

def Refused (w : World Store Call Outcome Conversations) (x : String) : Prop :=
  ∃ i ∈ w.posted, Settles i x ∧ (i, .error .reservationNotFound) ∈ w.service.returned

theorem Live.not_isSettled {w : World Store Call Outcome Conversations} {x : String} (h : Live w x) :
    ¬ w.service.store.IsSettled x := by
  rcases h with hres | ⟨-, hnot⟩
  · exact hres.not_isSettled
  · exact hnot

section Live

variable {sid : String} {own : String → Prop} {w w' : World Store Call Outcome Conversations}
  {d : Config Store Call Outcome} {x : String}

theorem mayReserve_of_service (hw : (conversations sid own).Reachable w) (hs : system.Step w.service d)
    (hd : (conversations sid own).Reachable { w with service := d })
    (h : MayReserve { w with service := d } x) : MayReserve w x := by
  have hfresh (started : List Call) (returned : List (Call × Outcome)) (i : Call)
      (h : system.allowed started returned i) : i ∉ started := by
    intro hi
    exact h (List.mem_map_of_mem hi)
  rcases h with ⟨i, ⟨hpost, hdrop, hrun⟩, hi⟩ | ⟨b, i, e, ht, hret, he⟩
  · refine .inl ⟨i, ⟨hpost, hdrop, ?_⟩, hi⟩
    intro hold
    exact hs.running_of_started hfresh hold (hrun (hs.started_subset hold))
  · by_cases hold : (i, .error e) ∈ w.service.returned
    · exact .inr ⟨b, i, e, ht, hold, he⟩
    · obtain ⟨_, hpost⟩ := (reachable_posted hw).reserving b x i.name ht
      have hi := hd.answer hret hpost rfl
      rw [← hi] at hpost
      refine .inl ⟨i, Protocol.Reachable.underWay hd hs hfresh hpost (.inr ⟨_, hret, hold⟩), ?_⟩
      rw [hi]
      exact ⟨_, _, _, rfl, rfl⟩

theorem live_of_service (hw : (conversations sid own).Reachable w) (hs : system.Step w.service d)
    (hd : (conversations sid own).Reachable { w with service := d }) (hown : own x)
    (h : Live { w with service := d } x) : Live w x := by
  have hlater := step_later hw.service hs
  have hnot : ¬ w.service.store.IsSettled x := fun hold => h.not_isSettled (hold.later hlater)
  rcases h with ⟨r, hr, -⟩ | ⟨hmay, -⟩
  · cases hold : w.service.store.reservationByRun x with
    | none =>
      obtain ⟨⟨_, _, b, hunder⟩, -⟩ := own_new_run hw (reachable_posted hw) hs hown hold hr
      exact .inr ⟨.inl ⟨_, hunder, ⟨_, _, _, rfl, rfl⟩⟩, hnot⟩
    | some r₀ =>
      cases hst : r₀.status with
      | reserved => exact .inl ⟨r₀, hold, hst⟩
      | settled => exact absurd ⟨r₀, hold, hst⟩ hnot
  · exact .inr ⟨mayReserve_of_service hw hs hd hmay, hnot⟩

variable {requests : List Call} {c' : Conversations}

section

variable (hw : (conversations sid own).Reachable w) (hc : Conversations.Change sid own w.service.returned w.client requests c')
  (hnew : ∀ i ∈ requests, (conversations sid own).New w i.name)
include hw hc hnew

theorem mayReserve_of_client (h : MayReserve { w with posted := requests ++ w.posted, client := c' } x) :
    MayReserve w x ∨ (x ∉ w.client.drawn ∧ c'.Names x) := by
  rcases h with ⟨i, ⟨hpost, hdrop, hrun⟩, hi⟩ | ⟨b, i, e, ht, hret, he⟩
  · rcases List.mem_append.mp hpost with hreq | hpost
    · obtain ⟨_, _, _, hop, hx⟩ := hi
      cases hc.asks i hreq with
      | settle => cases hop
      | draw _ _ _ _ hy _ hn =>
        cases hop
        cases hx
        exact .inr ⟨hy, hn⟩
      | again _ _ b _ _ e ht he hrec =>
        cases hop
        cases hx
        generalize hout : (Except.error e : Outcome) = out at hrec
        cases hrec with
        | answer j _ hj hname =>
          subst hname hout
          exact .inl (.inr ⟨b, j, e, ht, hj, he⟩)
        | lost =>
          cases hout
          rcases he with he | he <;> cases he
    · exact .inl (.inl ⟨i, ⟨hpost, hdrop, hrun⟩, hi⟩)
  · rcases hc.tasks b x i.name ht with hold | ⟨_, hreq⟩
    · exact .inl (.inr ⟨b, i, e, hold, hret, he⟩)
    · exact absurd rfl (hw.not_answered (hnew _ hreq) hret)

theorem live_of_client (h : Live { w with posted := requests ++ w.posted, client := c' } x) :
    Live w x ∨ (x ∉ w.client.drawn ∧ c'.Names x) := by
  rcases h with hres | ⟨hmay, hnot⟩
  · exact .inl (.inl hres)
  · exact (mayReserve_of_client hw hc hnew hmay).imp_left (fun hmay => .inr ⟨hmay, hnot⟩)

end

theorem live_of_drop {i : Call} (h : Live { w with dropped := i :: w.dropped } x) : Live w x := by
  rcases h with hres | ⟨⟨j, ⟨hpost, hdrop, hrun⟩, hj⟩ | hmay, hnot⟩
  · exact .inl hres
  · refine .inr ⟨.inl ⟨j, ⟨hpost, fun hmem => hdrop ?_, hrun⟩, hj⟩, hnot⟩
    exact List.mem_cons_of_mem _ hmem
  · exact .inr ⟨.inr hmay, hnot⟩

theorem drawn_of_live (hposted : Posted sid own w) (hown : own x) (h : Live w x) : x ∈ w.client.drawn := by
  rcases h with ⟨r, hr, -⟩ | ⟨⟨i, ⟨hpost, -⟩, ⟨_, _, _, hop, hx⟩⟩ | ⟨b, i, e, ht, -⟩, -⟩
  · exact hposted.stored x hown r hr
  · exact hposted.drawn i hpost x hown (by rw [hop, ← hx]; rfl)
  · exact hposted.traced.tasks _ ht x List.mem_cons_self

section

variable (hw : (conversations sid own).Reachable w) (hs : (conversations sid own).Step w w') (hx : x ∈ w.client.drawn)
include hw hs hx

theorem live_step (h : Live w' x) : Live w x := by
  have htraced := (reachable_posted hw).traced
  have hnext := hw.tail hs
  cases hs with
  | service _ hd => exact live_of_service hw hd hnext (htraced.drawn x hx) h
  | client _ _ hm hnew =>
    rcases live_of_client hw (.of_moves htraced hm) hnew h with hlive | ⟨hnot, -⟩
    · exact hlive
    · exact absurd hx hnot
  | drop => exact live_of_drop h

theorem drawn_step : x ∈ w'.client.drawn := by
  cases hs with
  | service | drop => exact hx
  | client _ _ hm => exact (Conversations.Change.of_moves (reachable_posted hw).traced hm).drawn hx

end

end Live

structure Journalled (w : World Store Call Outcome Conversations) : Prop where
  names : ∀ x ∈ w.client.drawn, Live w x → w.client.Names x
  refused : ∀ x ∈ w.client.drawn, Refused w x → ¬ Live w x

section Runs

variable {sid : String} {own : String → Prop} {w w' : World Store Call Outcome Conversations} {x : String}

section

variable (hw : (conversations sid own).Reachable w)
include hw

theorem CarefulRun.reachable (h : CarefulRun sid own w w') :
    (conversations sid own).Reachable w' :=
  hw.run (Relation.ReflTransGen.mono (fun _ _ h => h.1) _ _ h)

theorem Journalled.not_live (h : Journalled w)
    (hx : x ∈ w.client.drawn) (hc : Conversations.Concludes w.service.returned w.client x) : ¬ Live w x := by
  obtain ⟨r, hr, rfl, out, hrec, hout⟩ := hc
  obtain ⟨_, hpost⟩ := (reachable_posted hw).settling r hr
  rcases hout with rfl | rfl
  · have hsettled := settle_answer hw hpost hrec
    exact fun hlive => hlive.not_isSettled hsettled
  · generalize hout : (Except.error .reservationNotFound : Outcome) = out at hrec
    cases hrec with
    | lost => cases hout
    | answer _ _ hi hname =>
      subst hout
      obtain rfl := hw.answer hi hpost hname
      exact h.refused r.runId hx ⟨_, hpost, ⟨_, _, _, rfl, rfl⟩, hi⟩

theorem Journalled.step
    (hs : (conversations sid own).Step w w') (hcare : Careful w w') (h : Journalled w) : Journalled w' := by
  have hposted := reachable_posted hw
  have hback (x : String) (hx : x ∈ w.client.drawn) (hlive : Live w' x) : Live w x := live_step hw hs hx hlive
  cases hs with
  | service _ hd =>
    refine ⟨fun x hx hlive => h.names x hx (hback x hx hlive), ?_⟩
    rintro x hx ⟨i, hi, hsettles, hret⟩ hlive
    have hlive := hback x hx hlive
    by_cases hold : (i, .error .reservationNotFound) ∈ w.service.returned
    · exact h.refused x hx ⟨i, hi, hsettles, hold⟩ hlive
    · have hmay := hcare i hi x hsettles hret hold
      rcases hlive with ⟨r, hr, -⟩ | ⟨hlive, -⟩
      · obtain ⟨caller, _, q, hop, rfl⟩ := hsettles
        have hcaller : caller = sid := by
          rcases hposted.kinds i hi with ⟨_, _, _, _, rfl⟩ | ⟨_, _, _, _, rfl⟩ <;> cases hop
          rfl
        subst hcaller
        have hnone := Quota.refused hw.service hd hop (hposted.owned _ (hposted.traced.drawn _ hx)) hret hold
        rw [hnone] at hr
        cases hr
      · exact hmay hlive
  | client _ _ hm hnew =>
    have hc := Conversations.Change.of_moves hposted.traced hm
    constructor
    · intro x hx hlive
      rcases live_of_client hw hc hnew hlive with hlive | ⟨-, hnames⟩
      · have hx := drawn_of_live hposted (hc.traced.drawn x hx) hlive
        rcases hc.names x (h.names x hx hlive) with hnames | hconc
        · exact hnames
        · exact absurd hlive (h.not_live hw hx hconc)
      · exact hnames
    · rintro x hx ⟨i, hi, hsettles, hret⟩ hlive
      rcases List.mem_append.mp hi with hreq | hi
      · exact hw.not_answered (hnew i hreq) hret rfl
      · have hdrawn : x ∈ w.client.drawn := by
          obtain ⟨_, _, _, hop, hq⟩ := hsettles
          exact hposted.drawn i hi x (hc.traced.drawn x hx) (by rw [hop, ← hq]; rfl)
        exact h.refused x hdrawn ⟨i, hi, hsettles, hret⟩ (hback x hdrawn hlive)
  | drop i =>
    refine ⟨fun x hx hlive => h.names x hx (hback x hx hlive), ?_⟩
    rintro x hx ⟨i, hi, hsettles, hret⟩ hlive
    exact h.refused x hx ⟨i, hi, hsettles, hret⟩ (hback x hx hlive)

theorem CarefulRun.journalled (hj : Journalled w)
    (h : CarefulRun sid own w w') : Journalled w' := by
  induction h with
  | refl => exact hj
  | @tail _ _ hrun hs ih => exact ih.step (CarefulRun.reachable hw hrun) hs.1 hs.2

theorem CarefulRun.live (hx : x ∈ w.client.drawn)
    (h : CarefulRun sid own w w') : x ∈ w'.client.drawn ∧ (Live w' x → Live w x) := by
  induction h with
  | refl => exact ⟨hx, id⟩
  | @tail _ _ hrun hs ih =>
    have hu := CarefulRun.reachable hw hrun
    exact ⟨drawn_step hu hs.1 ih.1, fun hlive => ih.2 (live_step hu hs.1 ih.1 hlive)⟩

end

theorem returned_subset (hs : (conversations sid own).Step w w') : w.service.returned ⊆ w'.service.returned := by
  cases hs with
  | service _ hd => exact hd.returned_suffix.subset
  | client | drop => exact List.Subset.refl _

theorem CarefulRun.of_run (h : (conversations sid own).Run w w')
    (hnone : ∀ i, (i, .error .reservationNotFound) ∉ w'.service.returned) : CarefulRun sid own w w' := by
  induction h with
  | refl => exact .refl
  | @tail _ _ _ hs ih =>
    refine (ih (fun i hi => hnone i (returned_subset hs hi))).tail ⟨hs, ?_⟩
    exact fun i _ x _ hret _ => absurd hret (hnone i)

theorem journalled_start : Journalled (conversations sid own).start :=
  ⟨fun _ hx => absurd hx List.not_mem_nil, fun _ hx => absurd hx List.not_mem_nil⟩

/-- The journal and its file name each run of `begin` that is reserved now or later. -/
theorem conversation_reservation_named (hw : CarefulRun sid own (conversations sid own).start w)
    (h : CarefulRun sid own w w') (hx : x ∈ w.client.drawn) (hr : w'.service.store.IsReserved x) :
    w.client.Names x := by
  have hreach := CarefulRun.reachable .refl hw
  have hjournalled := CarefulRun.journalled .refl journalled_start hw
  exact hjournalled.names x hx ((CarefulRun.live hreach hx h).2 (.inl hr))

end Runs

namespace ConversationExample

def budget : Call := ⟨0, fun _ => .still ⟨0⟩, .setBudget ⟨"S-1-5", "model", "daily", 100000⟩⟩

def input : BeginRequest := ⟨"session", "model", "hi", none, some "codex"⟩

def reserving : Call := postReserve "S-1-5" 1 (fun _ => .still ⟨0⟩) (input.reserveRequest "run")

def settling : Call := postSettle "S-1-5" 2 (fun _ => .still ⟨0⟩) ⟨"run", 0, ""⟩

def begun : Conversations :=
  { Conversations.empty with
    entries := [input.entry "run"], file := [input.entry "run"], ready := some true
    tasks := [.reserving input "run" 1], drawn := ["run"] }

def own (x : String) : Prop := x = "run"

def answers (calls : List Call) (s : Store) : List (Call × Outcome) :=
  match calls with
  | [] => []
  | i :: rest => (i, (i.prog.run (rest.foldr (fun i s => (i.prog.run s).2) s)).1) :: answers rest s

def after (calls : List Call) : Config Store Call Outcome :=
  ⟨calls.foldr (fun i s => (i.prog.run s).2) .empty, [], calls, answers calls .empty⟩

theorem begun_run : (conversations "S-1-5" own).Reachable ⟨after [budget], [reserving], [], begun⟩ := by
  have hallowed : system.allowed [] [] budget := List.not_mem_nil
  have hstart : (conversations "S-1-5" own).Reachable ⟨after [budget], [], [], .empty⟩ :=
    Protocol.Run.of_service (System.Run.call hallowed)
      (by simp [conversations, quotaProtocol, budget, runNamed, after])
  have hready := hstart.tail (.client _ [] _ (.recovered _ [] [] rfl) (by simp) (by simp))
  have hbegin := hready.tail (.client _ [] _ (.begin _ input) (by simp) (by simp))
  have hadmit := hbegin.tail (.client _ [] _
    (.ready _ [] [] input rfl rfl List.not_mem_nil) (by simp) (by simp))
  have hloop := hadmit.tail (.client _ [] _
    (.settledOthers _ [] [] input [] rfl (by simp)) (by simp) (by simp))
  exact hloop.tail (.client _ [reserving] begun
    (.reserve _ [] [] input "run" 1 (fun _ => .still ⟨0⟩) rfl List.not_mem_nil rfl List.not_mem_nil) (by
      intro i hi
      obtain rfl := List.mem_singleton.mp hi
      exact (Protocol.new_iff _).mpr ⟨List.not_mem_nil, by change 1 ∉ [0]; decide⟩) (List.nodup_singleton 1))

theorem reserved_run : (conversations "S-1-5" own).Run ⟨after [budget], [reserving], [], begun⟩
    ⟨after [reserving, budget], [reserving], [], begun⟩ := by
  have hallowed : system.allowed [budget] (after [budget]).returned reserving := by
    change 1 ∉ [0]
    decide
  exact Protocol.Run.of_request hallowed List.mem_cons_self List.not_mem_nil

theorem conversation_reservation_named_run : ∃ w w',
    CarefulRun "S-1-5" own (conversations "S-1-5" own).start w ∧ CarefulRun "S-1-5" own w w' ∧
    ¬ w.service.store.IsReserved "run" ∧ w'.service.store.IsReserved "run" ∧ w.client.Names "run" := by
  have hanswers : answers [reserving, budget] .empty =
      [(reserving, (reserving.prog.run (after [budget]).store).1), (budget, .ok .done)] := rfl
  have hgranted : ∃ v, (reserving.prog.run (after [budget]).store).1 = .ok v := ⟨_, rfl⟩
  have hnone (i : Call) : (i, .error .reservationNotFound) ∉ answers [reserving, budget] .empty := by
    obtain ⟨v, hv⟩ := hgranted
    rw [hanswers, hv]
    simp
  have hbegun := CarefulRun.of_run begun_run (fun i hi => hnone i (List.mem_cons_of_mem _ hi))
  have hrun := CarefulRun.of_run reserved_run hnone
  have hreserved : (after [reserving, budget]).store.IsReserved "run" := ⟨_, rfl, rfl⟩
  refine ⟨_, _, hbegun, hrun, ?_, hreserved, conversation_reservation_named hbegun hrun List.mem_cons_self hreserved⟩
  rintro ⟨r, hr, -⟩
  cases hr

/-- The reservation comes in after the settlement that was told there is none. -/
theorem conversation_reservation_orphaned : ∃ w, (conversations "S-1-5" own).Reachable w ∧
    "run" ∈ w.client.drawn ∧ w.service.store.IsReserved "run" ∧ w.client.entries = [] ∧ w.client.file = [] := by
  have hfail := begun_run.tail (.client _ [settling] _
    (.reserveFails _ [] [] input "run" 1 rfl true 2 (fun _ => .still ⟨0⟩) 0 _ _ rfl) (by
      intro i hi
      obtain rfl := List.mem_singleton.mp hi
      exact (Protocol.new_iff _).mpr ⟨by change 2 ∉ [1]; decide, by change 2 ∉ [0]; decide⟩)
    (List.nodup_singleton 2))
  have hallowed : system.allowed [budget] (after [budget]).returned settling := by
    change 2 ∉ [0]
    decide
  have hsettle := Protocol.Reachable.run hfail
    (Protocol.Run.of_request hallowed List.mem_cons_self List.not_mem_nil)
  have hreceived : Received (after [settling, budget]).returned 2 (.error .reservationNotFound) :=
    .answer settling _ List.mem_cons_self rfl
  have hdropped := hsettle.tail (.client _ [] _
    (.settled _ ⟨0, "run", 2, 0⟩ List.mem_cons_self true _ hreceived (.inr rfl)) (by simp) (by simp))
  have hallowed : system.allowed [settling, budget] (after [settling, budget]).returned reserving := by
    change 1 ∉ [2, 0]
    decide
  have hreserve := Protocol.Reachable.run hdropped
    (Protocol.Run.of_request hallowed (List.mem_cons_of_mem _ List.mem_cons_self) List.not_mem_nil)
  exact ⟨_, hreserve, List.mem_cons_self, ⟨_, rfl, rfl⟩, rfl, rfl⟩

end ConversationExample

end WorkAgent.Harness
