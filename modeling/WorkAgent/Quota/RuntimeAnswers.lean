import WorkAgent.Quota.SharedAuthority

namespace WorkAgent.Quota

open Library

namespace Store

variable (s : Store)

def IsSettled (runID : String) : Prop := ∃ r, s.reservationByRun runID = some r ∧ r.status = .settled

def IsTaken (runID : String) : Prop :=
  (∃ a, s.authorizationByRun runID = some a ∧ a.acceptedAt.isSome) ∨ s.IsSettled runID

variable {s}

theorem IsSettled.later {t : Store} {runID : String} (h : s.IsSettled runID) (hlater : Later s t) :
    t.IsSettled runID := by
  obtain ⟨r, hr, hst⟩ := h
  obtain ⟨r', hr', -, heq⟩ := hlater.reservation runID r hr
  exact ⟨r', hr', by rw [heq hst]; exact hst⟩

theorem IsTaken.later {t : Store} {runID : String} (h : s.IsTaken runID) (hlater : Later s t) :
    t.IsTaken runID := by
  rcases h with ⟨a, ha, hacc⟩ | h
  · obtain ⟨ms, hms⟩ := Option.isSome_iff_exists.mp hacc
    obtain ⟨a', ha', hext⟩ := hlater.authorization runID a ha
    exact .inl ⟨a', ha', by rw [hext.acceptedAt ms hms]; rfl⟩
  · exact .inr (h.later hlater)

theorem settle_isSettled {env : Env} {sid runtimeSID runID : String} {actual : Units} {t : Store}
    (h : s.settle env sid runtimeSID runID actual = .ok (.ok (), t)) : t.IsSettled runID := by
  obtain ⟨r, hr, -, hset⟩ := settle_ok h
  obtain rfl := runID_of_reservation hr
  generalize hres : (Except.ok () : Except QuotaError Unit) = result at hset
  cases hset with
  | replay hs => exact ⟨r, hr, hs⟩
  | pending => cases hres
  | closed _ hs hc =>
    obtain ⟨_, _, _, _, hclosed⟩ := hc.closed ((held_reservationByRun ..).trans hr) hs
    exact ⟨_, hclosed.run, rfl⟩

end Store

section Answers

variable {i : Call} {s t : Store} {v : Reservation} {replayed : Bool}

theorem Returns.claimed {sid payerSID : String} {r : ReserveRequest}
    (h : Returns i (.ok (.reservation v replayed)) s t) (hop : i.op = .reserveRuntime sid payerSID r)
    (hp : payerSID ≠ "") : t.IsTaken r.runID ∧ (v.status = .settled → t.IsSettled r.runID) ∧
      (v.status = .reserved → v.alreadyAccepted = false → ¬ s.IsTaken r.runID) := by
  generalize hout : (Except.ok (.reservation v replayed) : Outcome) = out at h
  cases h with
  | reserve _ _ _ _ _ _ _ hunnamed => exact absurd (hunnamed sid payerSID r hop) hp
  | claim _ _ _ w _ _ hcl h =>
    cases hop.symm.trans hcl
    cases hout
    generalize hw : some v = w at h
    cases Store.claimRuntime_ok h with
    | unknown => cases hw
    | settled existing _ hc hs =>
      cases hw
      have hsettled : Store.IsSettled _ r.runID := ⟨existing, hc.reservation, hs⟩
      refine ⟨.inr hsettled, fun _ => hsettled, ?_⟩
      intro hst
      rw [show (existing.reservation).status = existing.status from rfl, hs] at hst
      cases hst
    | accepted existing a hc hs =>
      cases hw
      obtain ⟨a', ha', -, hacc⟩ := accept_acceptedAt ((i.env 0).now 0).unixMilli hc.authorization
      refine ⟨.inl ⟨a', ha', hacc⟩, ?_, ?_⟩
      · intro hst
        rw [show (existing.reservation).status = existing.status from rfl, hs] at hst
        cases hst
      · rintro - hfresh (⟨a'', ha'', hacc''⟩ | ⟨r', hr', hst'⟩)
        · cases hc.authorization.symm.trans ha''
          rw [show a.acceptedAt.isSome = false from hfresh] at hacc''
          cases hacc''
        · cases hc.reservation.symm.trans hr'
          rw [hs] at hst'
          cases hst'
  | lookup _ _ _ _ hq => rw [hop] at hq; cases hq
  | _ => cases hout

theorem Returns.found {sid x : String} (h : Returns i (.ok (.reservation v replayed)) s t)
    (hop : i.op = .lookupRuntimeRun sid x) : t = s ∧ (v.status = .settled ↔ s.IsSettled x) ∧
      (v.accepted = true → s.IsTaken x) := by
  generalize hout : (Except.ok (.reservation v replayed) : Outcome) = out at h
  cases h with
  | lookup _ _ _ _ hq h =>
    cases hop.symm.trans hq
    cases hout
    unfold Store.lookupRuntimeRun at h
    split at h
    · rename_i r a hr ha
      split at h
      · cases h
      · cases h
        refine ⟨rfl, ⟨fun hst => ⟨r, hr, hst⟩, ?_⟩, fun hacc => .inl ⟨a, ha, hacc⟩⟩
        rintro ⟨_, hr', hst⟩
        cases hr.symm.trans hr'
        exact hst
    · cases h
  | reserve _ _ _ _ _ _ hadm =>
    unfold Call.admission at hadm
    rw [hop] at hadm
    cases hadm
  | claim _ _ _ _ _ _ hq => rw [hop] at hq; cases hq
  | _ => cases hout

theorem Returns.closed {sid payerSID : String} {r : SettleRequest} (h : Returns i (.ok .done) s t)
    (hop : i.op = .settleRuntime sid payerSID r) : t.IsSettled r.runID := by
  have hset : i.settlement = some ("", sid, r) := by
    unfold Call.settlement
    rw [hop]
  obtain ⟨_, -, -, -, h⟩ := h.settled hset
  exact Store.settle_isSettled h

end Answers

theorem returned_earlier {c : Config Store Call Outcome} (hc : system.Reachable c) {i : Call} {out : Outcome}
    (h : (i, out) ∈ c.returned) : ∃ s t, Returns i out s t ∧ Later t c.store := by
  obtain ⟨s, t, hlater, hret⟩ := (sequential.holds hc).returned i out h
  exact ⟨s, t, hret, hlater⟩

theorem returned_step {c d : Config Store Call Outcome} (hc : system.Reachable c) (hs : system.Step c d)
    {i : Call} {out : Outcome} (h : (i, out) ∈ d.returned) :
    (i, out) ∈ c.returned ∨ Returns i out c.store d.store := by
  rcases sequential.moves (sequential.holds hc) hs with ⟨-, hr⟩ | ⟨j, -, -, hr⟩ | ⟨j, b, -, hq, hr⟩ | ⟨-, hr⟩
  · exact .inl (hr ▸ h)
  · exact .inl (hr ▸ h)
  · rw [hr] at h
    rcases List.mem_cons.mp h with h | h
    · cases h
      exact .inr hq
    · exact .inl h
  · exact .inl (hr ▸ h)

theorem step_later {c d : Config Store Call Outcome} (hc : system.Reachable c) (hs : system.Step c d) :
    Later c.store d.store := sequential.rely_step (sequential.holds hc) hs

end WorkAgent.Quota
