import WorkAgent.McpOAuth.Grants

namespace WorkAgent.McpOAuth

open Library
open Phase (Writes fresh live named window)

variable {w : World} {i j : ℕ} {p q : Phase} {r r' server : Server} {c id : String} {answer : Answer} {token : OAuthToken}

section Turns

variable {phase : Option Phase} {result : World × Option Phase} {failed : Option Phase}

theorem reading_eq {found : Server → Option Phase} (h : reading w answer failed id found = some result) :
    result = (w, failed) ∨ ∃ r ∈ w.servers, r.id = id ∧ result = (w, found r) := by
  unfold reading at h
  split at h
  · exact .inl (Option.some.inj h).symm
  · split at h
    · exact .inl (Option.some.inj h).symm
    · rename_i server hserver
      obtain ⟨hmem, hid⟩ := Table.find?_eq_some.mp hserver
      exact .inr ⟨server, hmem, hid, (Option.some.inj h).symm⟩
  · cases h

theorem replacing_eq (h : replacing w server answer failed phase = some result) (hr : ∃ r ∈ w.servers, r.id = server.id) :
    (answer = .failed ∧ result = (w, failed)) ∨ (answer = .done ∧ result = (w.replace server, phase)) ∨
      (answer = .unreported ∧ result = (w.replace server, failed)) := by
  have hhas : w.servers.has server.id = true := Table.has_eq_true.mpr hr
  unfold replacing at h
  split at h
  · exact .inl ⟨rfl, (Option.some.inj h).symm⟩
  · rw [if_pos hhas] at h
    exact .inr (.inl ⟨rfl, (Option.some.inj h).symm⟩)
  · rw [if_pos hhas] at h
    exact .inr (.inr ⟨rfl, (Option.some.inj h).symm⟩)
  · cases h

theorem Phase.Blank.enters (h : q.Blank) : Enters w i q := by
  refine ⟨?_, ?_, ?_, ?_, ?_, ?_⟩
  · simp [h.window]
  · simp [h.window]
  · simp [h.named]
  · simp [h.fresh]
  · simp [h.fresh]
  · simp [h.live]

theorem Sound.moves (h : Sound w) (hp : w.calls i = some p) (hquiet : p.unsettled = none) (henters : ∀ q, phase = some q → Enters w i q) :
    Sound (w.call i phase) := by
  refine h.goes hp henters ?_
  intro s hs
  rw [hquiet] at hs
  cases hs

theorem Sound.rests (h : Sound w) (hp : w.calls i = some p) (hquiet : p.unsettled = none) (hblank : ∀ q, phase = some q → q.Blank) :
    Sound (w.call i phase) := h.moves hp hquiet fun q hq => (hblank q hq).enters

theorem enters_window (hr : r ∈ w.servers) (hwindow : q.window = some r) (hold : ∀ id, q.old = some id → r.authorization = some id)
    (hnamed : q.named = none) (hfresh : q.fresh = none) (hlive : q.live = none) : Enters w i q := by
  refine ⟨?_, ?_, ?_, ?_, ?_, ?_⟩
  · intro r' hr'
    rw [← Option.some.inj (hwindow.symm.trans hr')]
    exact hr
  · intro _ id hr' hid
    rw [← Option.some.inj (hwindow.symm.trans hr')]
    exact hold id hid
  · simp [hnamed]
  · simp [hfresh]
  · simp [hfresh]
  · simp [hlive]

theorem Sound.reads (h : Sound w) (hp : w.calls i = some p) (hquiet : p.unsettled = none) {found : Server → Option Phase}
    (ht : reading w answer failed id found = some result) (hfailed : ∀ q, failed = some q → q.Blank)
    (hfound : ∀ r ∈ w.servers, ∀ q, found r = some q → Enters w i q) : Sound (result.1.call i result.2) := by
  rcases reading_eq ht with rfl | ⟨r, hr, -, rfl⟩
  · exact h.rests hp hquiet hfailed
  · exact h.moves hp hquiet (hfound r hr)

theorem Sound.flows {pending issued : List Flow} {flights : List String} {accepted : List Accepted} (h : Sound w) :
    Sound { w with pending := pending, flights := flights, issued := issued, accepted := accepted } :=
  ⟨h.ready, h.apart, h.window, h.old, h.known, h.stored, h.named, h.fresh, h.own, h.live, h.idle⟩

theorem blank_none (q : Phase) (h : none = some q) : q.Blank := by cases h

section Authorizing

variable {flow : Flow}

theorem Sound.discover {redirect : String} (h : Sound w) (hp : w.calls i = some (.discover id redirect))
    (ht : discover w id redirect answer = some result) : Sound (result.1.call i result.2) := by
  unfold McpOAuth.discover at ht
  split at ht
  · cases ht
    exact h.rests hp rfl blank_none
  · split at ht
    · split at ht
      · cases ht
        exact h.flows.rests hp rfl blank_none
      · cases ht
        exact h.flows.rests hp rfl blank_none
    · cases ht
  · cases ht

theorem Sound.complete {flowID state code : String} (h : Sound w) (hp : w.calls i = some (.complete id flowID state code))
    (ht : complete w id flowID state code answer = some result) : Sound (result.1.call i result.2) := by
  unfold McpOAuth.complete at ht
  split at ht
  · split at ht
    · cases ht
      exact h.rests hp rfl blank_none
    · split at ht
      · cases ht
        exact h.flows.rests hp rfl blank_none
      · dsimp only at ht
        split at ht
        · cases ht
          exact h.flows.rests hp rfl blank_none
        · cases ht
          refine h.flows.rests hp rfl ?_
          intro q hq
          cases hq
          exact ⟨rfl, rfl, rfl, rfl, rfl⟩
  · cases ht

theorem Sound.store (h : Sound w) (hp : w.calls i = some (.store flow token r)) (ht : store w token r answer = some result) :
    Sound (result.1.call i result.2) := by
  unfold McpOAuth.store at ht
  split at ht
  · cases ht
    exact h.rests hp rfl blank_none
  · split at ht
    · cases ht
    · rename_i hnew
      cases ht
      exact (h.putOAuth (.inl hnew)).rests hp rfl blank_none
  · rename_i n
    split at ht
    · cases ht
    · rename_i hnew
      cases ht
      have hput : Sound (w.putOAuth n token) := h.putOAuth (.inl hnew)
      have hr : r ∈ (w.putOAuth n token).servers := h.window i _ r hp rfl
      have hfresh (id : String) (hid : some n = some id) : (w.putOAuth n token).OAuth id ∧ (w.putOAuth n token).Live id ∧
          ∀ r ∈ (w.putOAuth n token).servers, r.authorization ≠ some id := by
        cases hid
        refine ⟨oauth_putOAuth (.inr rfl), live_putOAuth (.inr rfl), ?_⟩
        intro r hr hrid
        exact hnew (h.known r hr n hrid)
      have hown (id : String) (j : ℕ) (p : Phase) (hid : some n = some id) (hj : w.calls j = some p) (hjid : p.fresh = some id) : j = i := by
        cases hid
        obtain ⟨⟨c, hc, -⟩, -, -⟩ := h.fresh j p n hj hjid
        exact absurd (h.stored n c hc) hnew
      refine hput.moves hp rfl ?_
      intro q hq
      cases hq
      split
      · exact ⟨by simp [Phase.window], by simp [Phase.window], by simp [Phase.named], hfresh, hown, by simp [Phase.live]⟩
      · split
        · refine ⟨?_, by simp [Phase.old], by simp [Phase.named], hfresh, hown, by simp [Phase.live]⟩
          intro r' hr'
          rw [← Option.some.inj hr']
          exact hr
        · rename_i old hold
          refine ⟨?_, ?_, by simp [Phase.named], hfresh, hown, by simp [Phase.live]⟩
          · intro r' hr'
            rw [← Option.some.inj hr']
            exact hr
          · intro _ _ hr' hid
            rw [← Option.some.inj hr', ← Option.some.inj hid]
            exact hold
  · cases ht

theorem Sound.keepsFresh (h : Sound w) (hp : w.calls i = some p) (hfresh : q.fresh = p.fresh)
    (hwindow : ∀ r, q.window = some r → r ∈ w.servers) (hold : q.old = none) (hnamed : q.named = none) (hlive : q.live = none) : Enters w i q := by
  refine ⟨hwindow, ?_, ?_, ?_, ?_, ?_⟩
  · simp [hold]
  · simp [hnamed]
  · rw [hfresh]
    exact fun id hid => h.fresh i p id hp hid
  · rw [hfresh]
    exact fun id j p' hid hj hjid => h.own j p' i p id hj hp hjid hid
  · simp [hlive]

theorem Sound.authorizes (h : Sound w) (hc : Careful w (.continues i answer)) (hp : w.calls i = some p)
    (hphase : (∃ r n old, p = .revokeOld r n old) ∨ (∃ r n, p = .install r n) ∨ ∃ n, p = .reject n) (ht : turn w p answer = some result) :
    Sound (result.1.call i result.2) := by
  rcases hphase with ⟨r, n, _, rfl⟩ | ⟨r, n, rfl⟩ | ⟨n, rfl⟩
  · cases answer with
    | failed =>
      cases ht
      refine h.moves hp rfl ?_
      intro q hq
      cases hq
      exact h.keepsFresh hp rfl (by simp [Phase.window]) rfl rfl rfl
    | done =>
      cases ht
      refine h.revokes hp rfl rfl ?_ ?_ rfl rfl rfl
      · exact hc.alone i _ .done r rfl hp (by simp [Phase.Writes]) rfl
      · refine h.keepsFresh hp rfl ?_ rfl rfl rfl
        intro r' hr'
        rw [← Option.some.inj hr']
        exact h.window i _ r hp rfl
    | _ => cases ht
  · have hr : r ∈ w.servers := h.window i _ r hp rfl
    have hreplace : replacing w (r.ready n) answer (some (.reject n)) none = some result := ht
    rcases replacing_eq hreplace ⟨r, hr, rfl⟩ with ⟨rfl, rfl⟩ | ⟨rfl, rfl⟩ | ⟨rfl, -⟩
    · refine h.goes hp ?_ ?_
      · intro q hq
        cases hq
        exact h.keepsFresh hp rfl (by simp [Phase.window]) rfl rfl rfl
      · intro s hs
        cases hs
        right
        intro r' hr' hid
        obtain rfl := Table.eq_of_key hr' hr hid
        exact hc.settled i _ r' rfl hp rfl
    · obtain ⟨hoauth, hlive, hnone⟩ := h.fresh i _ n hp rfl
      refine h.replaces hp rfl ?_ blank_none rfl ?_ ?_
      · exact hc.alone i _ .done r rfl hp (by simp [Phase.Writes]) rfl
      · exact fun _ => ⟨n, rfl, hoauth, hlive⟩
      · intro c hcn
        cases hcn
        obtain ⟨cred, hcred, -⟩ := hoauth
        exact ⟨h.stored n cred hcred, fun _ => .inr rfl⟩
    · exact absurd hp (hc.reported i r n rfl)
  · cases answer with
    | failed =>
      cases ht
      exact h.rests hp rfl blank_none
    | done =>
      cases ht
      obtain ⟨_, -, hnone⟩ := h.fresh i _ n hp rfl
      have hreturned : Sound (w.call i none) := h.rests hp rfl blank_none
      refine hreturned.revoke ?_ ?_ ?_
      · intro r hr _ hrn
        exact absurd hrn (hnone r hr)
      · intro j q hq hqn
        rcases calls_cases hq with ⟨-, hnone⟩ | ⟨hji, hq⟩
        · cases hnone
        · exact hji (h.own j q i _ n hq hp hqn rfl)
      · intro j q hq hqn
        rcases calls_cases hq with ⟨-, hnone⟩ | ⟨-, hq⟩
        · cases hnone
        · obtain ⟨r, hr, hold, -⟩ := h.holder hq hqn
          exact hnone r hr hold
    | _ => cases ht

end Authorizing

section LoggingOut

theorem Sound.logsOut {revoked : Bool} (h : Sound w) (hp : w.calls i = some p) (hwindow : p.window = some r)
    (halone : ∀ j q r', j ≠ i → w.calls j = some q → q.window = some r' → r'.id ≠ r.id) (hblank : ∀ q, phase = some q → q.Blank) :
    Sound ((w.replace (r.loggedOut revoked)).call i phase) := by
  have hr : r ∈ w.servers := h.window i p r hp hwindow
  refine h.replaces hp hwindow halone hblank rfl (fun hready => by cases hready) ?_
  intro c hc
  have hold : r.authorization = some c := by
    cases revoked with
    | true => cases hc
    | false => exact hc
  exact ⟨h.known r hr c hold, fun _ => .inl hold⟩

theorem Sound.gives (h : Sound w) (hc : Careful w (.continues i .failed)) (hp : w.calls i = some p) (hwindow : p.window = some r)
    (hsettles : p.unsettled = none ∨ p.settles = some r) (hblank : ∀ q, phase = some q → q.Blank) : Sound (w.call i phase) := by
  refine h.goes hp (fun q hq => (hblank q hq).enters) ?_
  intro s hs
  right
  intro r' hr' hid
  rcases hsettles with hnone | hsettles
  · rw [hnone] at hs
    cases hs
  · rw [Phase.unsettled_id hwindow hs] at hid
    obtain rfl := Table.eq_of_key hr' (h.window i p r hp hwindow) hid
    exact hc.settled i p r' rfl hp hsettles

theorem Sound.clears {revoked : Bool} (h : Sound w) (hc : Careful w (.continues i answer)) (hp : w.calls i = some (.clear r revoked))
    (ht : turn w (.clear r revoked) answer = some result) : Sound (result.1.call i result.2) := by
  have hr : r ∈ w.servers := h.window i _ r hp rfl
  have hreplace : replacing w (r.loggedOut revoked) answer none none = some result := ht
  rcases replacing_eq hreplace ⟨r, hr, rfl⟩ with ⟨rfl, rfl⟩ | ⟨rfl, rfl⟩ | ⟨rfl, rfl⟩
  · refine h.gives hc hp rfl ?_ blank_none
    cases revoked with
    | true => exact .inr rfl
    | false => exact .inl rfl
  · exact h.logsOut hp rfl (hc.alone i _ .done r rfl hp (by simp [Writes]) rfl) blank_none
  · exact h.logsOut hp rfl (hc.alone i _ .unreported r rfl hp (by simp [Writes]) rfl) blank_none

theorem Sound.logs (h : Sound w) (hc : Careful w (.continues i answer)) (hp : w.calls i = some p)
    (hphase : (∃ id, p = .logout id) ∨ (∃ r id, p = .inspect r id) ∨ ∃ r id, p = .revoke r id) (ht : turn w p answer = some result) :
    Sound (result.1.call i result.2) := by
  rcases hphase with ⟨id, rfl⟩ | ⟨r, id, rfl⟩ | ⟨r, id, rfl⟩
  · refine h.reads hp rfl ht blank_none ?_
    intro r hr q hq
    split at hq
    · cases hq
    · split at hq
      · cases hq
        exact enters_window hr rfl (by simp [Phase.old]) rfl rfl rfl
      · rename_i hold
        cases hq
        refine enters_window hr rfl ?_ rfl rfl rfl
        intro c hc
        rw [← Option.some.inj hc]
        exact hold
  · have hr : r ∈ w.servers := h.window i _ r hp rfl
    have hkept : Enters w i (.clear r false) := enters_window hr rfl (by simp [Phase.old]) rfl rfl rfl
    have hclear : Sound (w.call i (some (.clear r false))) := by
      refine h.moves hp rfl ?_
      intro q hq
      cases hq
      exact hkept
    cases answer with
    | failed =>
      cases ht
      exact hclear
    | done =>
      simp only [turn] at ht
      split at ht
      · cases ht
        exact hclear
      · cases ht
        split
        · refine h.moves hp rfl ?_
          intro q hq
          cases hq
          refine enters_window hr rfl ?_ rfl rfl rfl
          intro c hc
          rw [← Option.some.inj hc]
          exact h.old i _ r id hp rfl rfl
        · exact hclear
    | _ => cases ht
  · cases answer with
    | failed =>
      cases ht
      exact h.rests hp rfl blank_none
    | done =>
      simp only [turn] at ht
      split at ht
      · cases ht
        refine h.revokes hp rfl rfl ?_ ?_ rfl rfl rfl
        · exact hc.alone i _ .done r rfl hp (by simp [Writes]) rfl
        · exact enters_window (h.window i _ r hp rfl) rfl (by simp [Phase.old]) rfl rfl rfl
      · cases ht
        exact h.rests hp rfl blank_none
    | _ => cases ht

end LoggingOut

section Refreshing

variable {rest : List (String × String)}

theorem blank_scanning : (Phase.scanning rest).Blank := ⟨rfl, rfl, rfl, rfl, rfl⟩

theorem blank_leave : (Phase.leave id rest).Blank := ⟨rfl, rfl, rfl, rfl, rfl⟩

section

variable (h : Sound w)
include h

theorem Sound.leaves (hp : w.calls i = some p) (hquiet : p.unsettled = none) : Sound (w.call i (some (.leave id rest))) := by
  refine h.rests hp hquiet ?_
  intro q hq
  cases hq
  exact blank_leave

theorem Sound.scans (hp : w.calls i = some p) (hquiet : p.unsettled = none) : Sound (w.call i (some (.scanning rest))) := by
  refine h.rests hp hquiet ?_
  intro q hq
  cases hq
  exact blank_scanning

theorem Sound.scanning (hp : w.calls i = some (.scanning rest)) (ht : scanning w rest answer = some result) :
    Sound (result.1.call i result.2) := by
  unfold McpOAuth.scanning at ht
  split at ht
  · cases ht
    exact h.rests hp rfl blank_none
  · cases ht
    exact h.scans hp rfl
  · split at ht
    · cases ht
      exact h.scans hp rfl
    · split at ht
      · cases ht
        exact h.scans hp rfl
      · split at ht
        · cases ht
          refine h.rests hp rfl ?_
          intro q hq
          cases hq
          exact ⟨rfl, rfl, rfl, rfl, rfl⟩
        · cases ht
          exact h.scans hp rfl
  · cases ht

theorem Sound.holds (hp : w.calls i = some p) (hwindow : p.window = some r) (hold : p.old = some id)
    (hwindow' : q.window = some r) (hold' : q.old = some id) (hnamed : q.named = none) (hfresh : q.fresh = none)
    (hlive : q.live = none ∨ (w.OAuth id ∧ w.Live id)) : Enters w i q := by
  refine ⟨?_, ?_, ?_, ?_, ?_, ?_⟩
  · intro r' hr'
    rw [← Option.some.inj (hwindow'.symm.trans hr')]
    exact h.window i p r hp hwindow
  · intro _ c hr' hc
    rw [← Option.some.inj (hwindow'.symm.trans hr'), ← Option.some.inj (hold'.symm.trans hc)]
    exact h.old i p r id hp hwindow hold
  · simp [hnamed]
  · simp [hfresh]
  · simp [hfresh]
  · intro c hc
    rcases hlive with hnone | hlive
    · rw [hnone] at hc
      cases hc
    · have hsame : q.live = none ∨ q.live = q.old := by
        cases q <;> simp [Phase.live, Phase.old]
      rcases hsame with hnone | hsame
      · rw [hnone] at hc
        cases hc
      · rw [← hsame, hc] at hold'
        cases hold'
        exact ⟨hsame ▸ hc, hlive⟩

theorem Sound.resolve (hp : w.calls i = some (.resolve r id rest)) (ht : resolve w r id rest answer = some result) :
    Sound (result.1.call i result.2) := by
  unfold McpOAuth.resolve at ht
  split at ht
  · cases ht
    exact h.leaves hp rfl
  · split at ht
    · cases ht
      exact h.leaves hp rfl
    · rename_i c hcred
      split at ht
      · cases ht
        exact h.leaves hp rfl
      · rename_i hready
        obtain ⟨hkind, hstate⟩ := not_or.mp hready
        split at ht
        · cases ht
          exact h.leaves hp rfl
        · split at ht
          · cases ht
            refine h.moves hp rfl ?_
            intro q hq
            cases hq
            exact h.holds hp rfl rfl rfl rfl rfl rfl (.inl rfl)
          · cases ht
            refine h.moves hp rfl ?_
            intro q hq
            cases hq
            refine h.holds hp rfl rfl rfl rfl rfl rfl (.inr ⟨⟨c, hcred, not_not.mp hkind⟩, c, hcred, ?_⟩)
            rw [not_not.mp hstate]
            simp
  · cases ht

theorem Sound.renews (hc : Careful w (.continues i answer)) (hp : w.calls i = some p)
    (hphase : (∃ s, p = .renew s id rest) ∨ (∃ r token, p = .refresh r id token rest) ∨ (∃ r token, p = .keep r id token rest) ∨
      ∃ r, p = .discard r id rest) (ht : turn w p answer = some result) : Sound (result.1.call i result.2) := by
  rcases hphase with ⟨s, rfl⟩ | ⟨r, token, rfl⟩ | ⟨r, token, rfl⟩ | ⟨r, rfl⟩
  · refine h.reads hp rfl ht ?_ ?_
    · intro q hq
      cases hq
      exact blank_leave
    · intro r hr q hq
      split at hq
      · rename_i hold
        cases hq
        refine enters_window hr rfl ?_ rfl rfl rfl
        intro c hc
        rw [← Option.some.inj hc]
        exact hold
      · cases hq
        exact blank_leave.enters
  · obtain ⟨-, hgrant⟩ := h.live i _ id hp rfl
    cases answer with
    | failed =>
      cases ht
      exact h.leaves hp rfl
    | invalidGrant =>
      cases ht
      refine h.moves hp rfl ?_
      intro q hq
      cases hq
      exact h.holds hp rfl rfl rfl rfl rfl rfl (.inl rfl)
    | granted =>
      cases ht
      dsimp only
      split
      · refine h.moves hp rfl ?_
        intro q hq
        cases hq
        exact h.holds hp rfl rfl rfl rfl rfl rfl (.inr hgrant)
      · exact h.leaves hp rfl
    | _ => cases ht
  · obtain ⟨-, hoauth, -⟩ := h.live i _ id hp rfl
    have hput : Sound (w.putOAuth id token) := h.putOAuth (.inr hoauth)
    cases answer with
    | failed =>
      cases ht
      exact h.leaves hp rfl
    | done | unreported =>
      cases ht
      exact hput.leaves hp rfl
    | _ => cases ht
  · cases answer with
    | failed =>
      cases ht
      exact h.leaves hp rfl
    | done =>
      cases ht
      refine h.revokes hp rfl rfl ?_ ?_ rfl rfl rfl
      · exact hc.alone i _ .done r rfl hp (by simp [Writes]) rfl
      · exact h.holds hp rfl rfl rfl rfl rfl rfl (.inl rfl)
    | _ => cases ht

theorem Sound.invalidates (hc : Careful w (.continues i answer)) (hp : w.calls i = some (.invalidate r id rest))
    (ht : turn w (.invalidate r id rest) answer = some result) : Sound (result.1.call i result.2) := by
  have hr : r ∈ w.servers := h.window i _ r hp rfl
  have hreplace : replacing w (r.loggedOut true) answer (some (.leave id rest)) (some (.leave id rest)) = some result := ht
  have hblank (q : Phase) (hq : some (.leave id rest) = some q) : q.Blank := by
    cases hq
    exact blank_leave
  rcases replacing_eq hreplace ⟨r, hr, rfl⟩ with ⟨rfl, rfl⟩ | ⟨rfl, rfl⟩ | ⟨rfl, rfl⟩
  · exact h.gives hc hp rfl (.inr rfl) hblank
  · exact h.logsOut hp rfl (hc.alone i _ .done r rfl hp (by simp [Writes]) rfl) hblank
  · exact h.logsOut hp rfl (hc.alone i _ .unreported r rfl hp (by simp [Writes]) rfl) hblank

theorem Sound.passes (hp : w.calls i = some p)
    (hphase : (∃ s, p = .enter s id rest) ∨ p = .await id rest ∨ p = .leave id rest)
    (ht : turn w p answer = some result) : Sound (result.1.call i result.2) := by
  rcases hphase with ⟨s, rfl⟩ | rfl | rfl
  · cases answer with
    | done =>
      simp only [turn] at ht
      split at ht
      · cases ht
        refine h.rests hp rfl ?_
        intro q hq
        cases hq
        exact ⟨rfl, rfl, rfl, rfl, rfl⟩
      · cases ht
        refine h.flows.rests hp rfl ?_
        intro q hq
        cases hq
        exact ⟨rfl, rfl, rfl, rfl, rfl⟩
    | _ => cases ht
  · cases answer with
    | failed =>
      cases ht
      exact h.scans hp rfl
    | done =>
      simp only [turn] at ht
      split at ht
      · cases ht
      · cases ht
        exact h.scans hp rfl
    | _ => cases ht
  · cases answer with
    | done =>
      cases ht
      exact h.flows.scans hp rfl
    | _ => cases ht

end

end Refreshing

section Editing

variable {mutation : Mutation}

theorem credential_of_validReference {now : ℤ} {transport : Transport} (h : w.validReference now transport = true)
    (hid : transport.authorization = some id) : ∃ c, w.credentials id = some c := by
  unfold World.validReference at h
  rw [hid] at h
  dsimp only at h
  split at h
  · cases h
  · exact ⟨_, ‹_›⟩

theorem Sound.checks (h : Sound w) (hp : w.calls i = some (.check r mutation)) (ht : turn w (.check r mutation) answer = some result) :
    Sound (result.1.call i result.2) := by
  have hr : r ∈ w.servers := h.window i _ r hp rfl
  cases answer with
  | failed =>
    cases ht
    exact h.rests hp rfl blank_none
  | clock =>
    cases ht
    dsimp only
    split
    · rename_i hvalid
      refine h.moves hp rfl ?_
      intro q hq
      cases hq
      refine ⟨?_, by simp [Phase.old], ?_, by simp [Phase.fresh], by simp [Phase.fresh], by simp [Phase.live]⟩
      · intro _ hr'
        rw [← Option.some.inj hr']
        exact hr
      · intro c hc
        cases htransport : mutation.transport with
        | none =>
          refine h.known r hr c ?_
          simpa [Phase.named, Server.edited, Server.authorization, htransport] using hc
        | some transport =>
          have hauth : transport.authorization = some c := by
            simpa [Phase.named, Server.edited, Server.authorization, htransport] using hc
          obtain ⟨cred, hcred⟩ := credential_of_validReference (hvalid transport htransport) hauth
          exact h.stored c cred hcred
    · exact h.rests hp rfl blank_none
  | _ => cases ht

theorem Sound.saves (h : Sound w) (hc : Careful w (.continues i answer)) (hp : w.calls i = some (.save r mutation))
    (ht : turn w (.save r mutation) answer = some result) : Sound (result.1.call i result.2) := by
  have hr : r ∈ w.servers := h.window i _ r hp rfl
  obtain ⟨hkept, howned⟩ := hc.edited i r mutation answer rfl hp
  have hreplace : replacing w (r.edited mutation) answer none none = some result := ht
  have hsaved (halone : ∀ j q r', j ≠ i → w.calls j = some q → q.window = some r' → r'.id ≠ r.id) :
      Sound ((w.replace (r.edited mutation)).call i none) := by
    refine h.replaces hp rfl halone blank_none rfl ?_ ?_
    · intro hready
      obtain ⟨c, hold, hoauth, hlive | ⟨j, q, hq, hunsettled⟩⟩ := h.ready r hr hready
      · exact ⟨c, (hkept hready).trans hold, hoauth, hlive⟩
      · obtain ⟨r', -, hr', hid⟩ := Phase.settles_of_unsettled hunsettled
        have hji : j ≠ i := by
          rintro rfl
          rw [hp] at hq
          rw [← Option.some.inj hq] at hunsettled
          cases hunsettled
        exact absurd hid (halone j q r' hji hq hr')
    · intro c hedited
      exact ⟨h.named i _ c hp hedited, fun hoauth => .inl (howned c hedited hoauth)⟩
  rcases replacing_eq hreplace ⟨r, hr, rfl⟩ with ⟨rfl, rfl⟩ | ⟨rfl, rfl⟩ | ⟨rfl, rfl⟩
  · exact h.rests hp rfl blank_none
  · exact hsaved (hc.alone i _ .done r rfl hp (by simp [Writes]) rfl)
  · exact hsaved (hc.alone i _ .unreported r rfl hp (by simp [Writes]) rfl)

theorem Sound.validates (h : Sound w) (hp : w.calls i = some (.validate server)) (ht : turn w (.validate server) answer = some result) :
    Sound (result.1.call i result.2) := by
  cases answer with
  | clock =>
    cases ht
    dsimp only
    split
    · rename_i hvalid
      refine h.moves hp rfl ?_
      intro q hq
      cases hq
      refine ⟨by simp [Phase.window], by simp [Phase.window], ?_, by simp [Phase.fresh], by simp [Phase.fresh], by simp [Phase.live]⟩
      intro c hc
      obtain ⟨cred, hcred⟩ := credential_of_validReference hvalid.2.2 hc
      exact h.stored c cred hcred
    · exact h.rests hp rfl blank_none
  | _ => cases ht

theorem Sound.inserts (h : Sound w) (hc : Careful w (.continues i answer)) (hp : w.calls i = some (.create server))
    (ht : turn w (.create server) answer = some result) : Sound (result.1.call i result.2) := by
  have hoauth := hc.created i server answer rfl hp
  cases answer with
  | failed =>
    cases ht
    exact h.rests hp rfl blank_none
  | drew id | drewUnreported id =>
    simp only [turn] at ht
    split at ht
    · cases ht
    · rename_i hnew
      cases ht
      exact h.creates hp (by simpa using hnew) hoauth
  | _ => cases ht

theorem Sound.deletes (h : Sound w) (hc : Careful w (.continues i answer)) (hp : w.calls i = some (.remove r))
    (ht : turn w (.remove r) answer = some result) : Sound (result.1.call i result.2) := by
  cases answer with
  | failed =>
    cases ht
    exact h.rests hp rfl blank_none
  | done =>
    cases ht
    exact h.removes hp rfl (hc.alone i _ .done r rfl hp (by simp [Writes]) rfl)
  | _ => cases ht

end Editing

theorem Sound.turn (h : Sound w) (hc : Careful w (.continues i answer)) (hp : w.calls i = some p) (ht : turn w p answer = some result) :
    Sound (result.1.call i result.2) := by
  have hopens {p : Phase} (hp : w.calls i = some p) (hquiet : p.unsettled = none) {id : String} {found : Server → Option Phase}
      (ht : reading w answer none id found = some result) (hfound : ∀ r ∈ w.servers, ∀ q, found r = some q → Enters w i q) :
      Sound (result.1.call i result.2) := h.reads hp hquiet ht blank_none hfound
  cases p with
  | start =>
    refine hopens hp rfl ht ?_
    intro r hr q hq
    split at hq
    · cases hq
    · cases hq
      exact Phase.Blank.enters ⟨rfl, rfl, rfl, rfl, rfl⟩
  | discover => exact h.discover hp ht
  | complete => exact h.complete hp ht
  | exchange =>
    cases answer with
    | failed =>
      cases ht
      exact h.rests hp rfl blank_none
    | granted =>
      cases ht
      dsimp only
      split
      · refine h.rests hp rfl ?_
        intro q hq
        cases hq
        exact ⟨rfl, rfl, rfl, rfl, rfl⟩
      · exact h.rests hp rfl blank_none
    | _ => cases ht
  | fetch =>
    refine hopens hp rfl ht ?_
    intro r hr q hq
    cases hq
    exact enters_window hr rfl (by simp [Phase.old]) rfl rfl rfl
  | store => exact h.store hp ht
  | revokeOld => exact h.authorizes hc hp (.inl ⟨_, _, _, rfl⟩) ht
  | install => exact h.authorizes hc hp (.inr (.inl ⟨_, _, rfl⟩)) ht
  | reject => exact h.authorizes hc hp (.inr (.inr ⟨_, rfl⟩)) ht
  | logout => exact h.logs hc hp (.inl ⟨_, rfl⟩) ht
  | inspect => exact h.logs hc hp (.inr (.inl ⟨_, _, rfl⟩)) ht
  | revoke => exact h.logs hc hp (.inr (.inr ⟨_, _, rfl⟩)) ht
  | clear => exact h.clears hc hp ht
  | scan =>
    cases answer with
    | failed =>
      cases ht
      exact h.rests hp rfl blank_none
    | done =>
      cases ht
      exact h.scans hp rfl
    | _ => cases ht
  | scanning => exact h.scanning hp ht
  | enter => exact h.passes hp (.inl ⟨_, rfl⟩) ht
  | await => exact h.passes hp (.inr (.inl rfl)) ht
  | renew => exact h.renews hc hp (.inl ⟨_, rfl⟩) ht
  | resolve => exact h.resolve hp ht
  | refresh => exact h.renews hc hp (.inr (.inl ⟨_, _, rfl⟩)) ht
  | keep => exact h.renews hc hp (.inr (.inr (.inl ⟨_, _, rfl⟩))) ht
  | discard => exact h.renews hc hp (.inr (.inr (.inr ⟨_, rfl⟩))) ht
  | invalidate => exact h.invalidates hc hp ht
  | leave => exact h.passes hp (.inr (.inr rfl)) ht
  | update | delete =>
    refine hopens hp rfl ht ?_
    intro r hr q hq
    split at hq
    · cases hq
    · cases hq
      exact enters_window hr rfl (by simp [Phase.old]) rfl rfl rfl
  | check => exact h.checks hp ht
  | save => exact h.saves hc hp ht
  | validate => exact h.validates hp ht
  | create => exact h.inserts hc hp ht
  | remove => exact h.deletes hc hp ht

end Turns

end WorkAgent.McpOAuth
