import WorkAgent.McpOAuth.Turns

namespace WorkAgent.McpOAuth

open Library List

variable {w w' : World} {i : ℕ} {p q : Phase} {r r' server : Server} {c id : String} {answer : Answer} {e : Event} {es : List Event}
  {result : World × Option Phase} {phase failed : Option Phase}

section Steps

theorem sound_initial (h : Initial w) : Sound w := by
  have hoauth (id : String) : ¬ w.OAuth id := by
    rintro ⟨c, hc, hkind⟩
    exact h.credentials id c hc hkind
  refine ⟨?_, ?_, ?_, ?_, ?_, ?_, ?_, ?_, ?_, ?_, ?_⟩
  · exact fun r hr hready => absurd hready (h.servers r hr)
  · exact fun r hr r' hr' id hid hid' hgrant => absurd hgrant (hoauth id)
  · simp [h.calls]
  · simp [h.calls]
  · exact fun r hr id hid => h.drawn id (.inr ⟨r, hr, hid⟩)
  · exact fun id c hc => h.drawn id (.inl ⟨c, hc⟩)
  · simp [h.calls]
  · simp [h.calls]
  · simp [h.calls]
  · simp [h.calls]
  · exact fun i _ => h.calls i

theorem Sound.restarts (h : Sound w) (hc : Careful w .restarts) : Sound { w with calls := fun _ => none, pending := [], flights := [] } := by
  refine ⟨?_, h.apart, by simp, by simp, h.known, h.stored, by simp, by simp, by simp, by simp, fun _ _ => rfl⟩
  intro r hr hready
  obtain ⟨c, hc', hoauth, hlive | ⟨i, p, hp, hunsettled⟩⟩ := h.ready r hr hready
  · exact ⟨c, hc', hoauth, .inl hlive⟩
  · obtain ⟨r', hsettles, hwindow, hid⟩ := Phase.settles_of_unsettled hunsettled
    obtain rfl := Table.eq_of_key (h.window i p r' hp hwindow) hr hid
    exact absurd hready (hc.settledRestart rfl i p r' hp hsettles)

theorem Request.blank (request : Request) : request.phase.Blank := by
  cases request <;> exact ⟨rfl, rfl, rfl, rfl, rfl⟩

theorem next_continues (h : next w (.continues i answer) = some w') :
    ∃ p result, w.calls i = some p ∧ turn w p answer = some result ∧ w' = result.1.call i result.2 := by
  obtain ⟨p, hp, hresult⟩ := Option.bind_eq_some_iff.mp h
  obtain ⟨result, ht, rfl⟩ := Option.map_eq_some_iff.mp hresult
  exact ⟨p, result, hp, ht, rfl⟩

theorem CarefulStep.sound (hstep : CarefulStep w e w') (h : Sound w) : Sound w' := by
  obtain ⟨hnext, hc⟩ := hstep
  cases e with
  | arrives request =>
    cases hnext
    refine h.calls (w.started + 1) (by omega) (by omega) ?_ ?_
    · intro q hq
      cases hq
      exact request.blank.enters
    · intro p s hp
      rw [h.idle w.started le_rfl] at hp
      cases hp
  | continues =>
    obtain ⟨p, _, hp, ht, rfl⟩ := next_continues hnext
    exact h.turn hc hp ht
  | restarts =>
    cases hnext
    exact h.restarts hc

theorem sound_reached {w₀ : World} (h₀ : Initial w₀) (h : Execution CarefulStep w₀ es w) : Sound w :=
  h.invariant (sound_initial h₀) fun _ _ _ hs hstep => hstep.sound hs

end Steps

section Revocations

def Rewrites (w : World) (p : Phase) (w' : World) : Prop :=
  w'.credentials = w.credentials ∨
    (∃ id token, w'.credentials = (w.putOAuth id token).credentials ∧ (id ∉ w.drawn ∨ p.live = some id)) ∨
    ∃ id, w'.credentials = (w.revoke id).credentials

theorem Rewrites.revoked (h : Rewrites w p w') (hs : Sound w) (hp : w.calls i = some p) (hc : w.Revoked c) : w'.Revoked c := by
  obtain ⟨cred, hcred, hstate⟩ := hc
  rcases h with hsame | ⟨id, _, hput, hid⟩ | ⟨id, hrevoke⟩
  · exact ⟨cred, by rw [hsame, hcred], hstate⟩
  · have hne : c ≠ id := by
      rintro rfl
      rcases hid with hnew | hlive
      · exact hnew (hs.stored c cred hcred)
      · obtain ⟨-, -, _, hcred', hready⟩ := hs.live i p c hp hlive
        obtain rfl := Option.some.inj (hcred.symm.trans hcred')
        exact hready hstate
    refine ⟨cred, ?_, hstate⟩
    rw [hput, credentials_putOAuth, if_neg hne, hcred]
  · unfold World.Revoked
    rw [hrevoke, credentials_revoke]
    by_cases hsame : c = id
    · subst hsame
      rw [if_pos rfl, hcred]
      exact ⟨_, rfl, rfl⟩
    · rw [if_neg hsame]
      exact ⟨cred, hcred, hstate⟩

structure Frame (w : World) (p : Phase) (w' : World) : Prop where
  credentials : Rewrites w p w'
  pending : w'.pending = w.pending
  issued : w'.issued = w.issued
  accepted : w'.accepted = w.accepted

theorem frame_reading {found : Server → Option Phase} (h : reading w answer failed id found = some result) : Frame w p result.1 := by
  rcases reading_eq h with rfl | ⟨-, -, -, rfl⟩
  · exact ⟨.inl rfl, rfl, rfl, rfl⟩
  · exact ⟨.inl rfl, rfl, rfl, rfl⟩

theorem frame_replacing (h : replacing w server answer failed phase = some result) : Frame w p result.1 := by
  unfold replacing at h
  split at h
  · cases h
    exact ⟨.inl rfl, rfl, rfl, rfl⟩
  · split at h
    · cases h
      exact ⟨.inl rfl, rfl, rfl, rfl⟩
    · cases h
      exact ⟨.inl rfl, rfl, rfl, rfl⟩
  · split at h
    · cases h
      exact ⟨.inl rfl, rfl, rfl, rfl⟩
    · cases h
  · cases h

theorem frame_turn (ht : turn w p answer = some result) (hdiscover : ∀ server redirect, p ≠ .discover server redirect)
    (hcomplete : ∀ server flow state code, p ≠ .complete server flow state code) : Frame w p result.1 := by
  cases p with
  | start id redirect | fetch flow token | logout id | renew id c due | update id mutation | delete id => exact frame_reading ht
  | install server id | clear server revoked | invalidate server id due | save server mutation => exact frame_replacing ht
  | discover server redirect => exact absurd rfl (hdiscover server redirect)
  | complete server flow state code => exact absurd rfl (hcomplete server flow state code)
  | store _ token server =>
    have hd : store w token server answer = some result := ht
    unfold store at hd
    split at hd
    · cases hd
      exact ⟨.inl rfl, rfl, rfl, rfl⟩
    · split at hd
      · cases hd
      · rename_i hnew
        cases hd
        exact ⟨.inr (.inl ⟨_, token, rfl, .inl hnew⟩), rfl, rfl, rfl⟩
    · split at hd
      · cases hd
      · rename_i hnew
        cases hd
        exact ⟨.inr (.inl ⟨_, token, rfl, .inl hnew⟩), rfl, rfl, rfl⟩
    · cases hd
  | exchange flow code | scan | enter server id due | await id due | refresh server id token due | leave id due | check server mutation
  | validate =>
    cases answer
    all_goals simp only [turn, reduceCtorEq] at ht
    all_goals repeat' split at ht
    all_goals cases ht
    all_goals exact ⟨.inl rfl, rfl, rfl, rfl⟩
  | revokeOld server id old | reject id | discard server id due =>
    cases answer with
    | failed =>
      cases ht
      exact ⟨.inl rfl, rfl, rfl, rfl⟩
    | done =>
      cases ht
      exact ⟨.inr (.inr ⟨_, rfl⟩), rfl, rfl, rfl⟩
    | _ => cases ht
  | inspect =>
    cases answer with
    | failed =>
      cases ht
      exact ⟨.inl rfl, rfl, rfl, rfl⟩
    | done =>
      simp only [turn] at ht
      split at ht
      · cases ht
        exact ⟨.inl rfl, rfl, rfl, rfl⟩
      · cases ht
        exact ⟨.inl rfl, rfl, rfl, rfl⟩
    | _ => cases ht
  | revoke _ id =>
    cases answer with
    | failed =>
      cases ht
      exact ⟨.inl rfl, rfl, rfl, rfl⟩
    | done =>
      simp only [turn] at ht
      split at ht
      · cases ht
        exact ⟨.inr (.inr ⟨id, rfl⟩), rfl, rfl, rfl⟩
      · cases ht
        exact ⟨.inl rfl, rfl, rfl, rfl⟩
    | _ => cases ht
  | scanning due =>
    have hd : scanning w due answer = some result := ht
    unfold scanning at hd
    repeat' split at hd
    all_goals cases hd
    all_goals exact ⟨.inl rfl, rfl, rfl, rfl⟩
  | resolve server id due =>
    have hd : resolve w server id due answer = some result := ht
    unfold resolve at hd
    repeat' split at hd
    all_goals cases hd
    all_goals exact ⟨.inl rfl, rfl, rfl, rfl⟩
  | keep _ id token =>
    cases answer with
    | failed =>
      cases ht
      exact ⟨.inl rfl, rfl, rfl, rfl⟩
    | done | unreported =>
      cases ht
      exact ⟨.inr (.inl ⟨id, token, rfl, .inr rfl⟩), rfl, rfl, rfl⟩
    | _ => cases ht
  | create =>
    cases answer with
    | failed =>
      cases ht
      exact ⟨.inl rfl, rfl, rfl, rfl⟩
    | drew id | drewUnreported id =>
      simp only [turn] at ht
      split at ht
      · cases ht
      · cases ht
        exact ⟨.inl rfl, rfl, rfl, rfl⟩
    | _ => cases ht
  | remove =>
    cases answer with
    | failed | done =>
      cases ht
      exact ⟨.inl rfl, rfl, rfl, rfl⟩
    | _ => cases ht

end Revocations

section Flows

structure Flows (w : World) : Prop where
  ids : (w.issued.map Flow.id).Nodup
  pending : ∀ f ∈ w.pending, f ∈ w.issued
  once : (w.accepted.map fun a => a.flow.id).Nodup
  gone : ∀ a ∈ w.accepted, ∀ f ∈ w.pending, f.id ≠ a.flow.id
  own : ∀ a ∈ w.accepted, a.flow ∈ w.issued ∧ a.state = a.flow.state ∧ a.serverID = a.flow.serverID ∧ a.time < a.flow.expiresAt

inductive FlowMove (w w' : World) : Prop
  | keeps (pending : ∀ f ∈ w'.pending, f ∈ w.pending) (issued : w'.issued = w.issued) (accepted : w'.accepted = w.accepted)
  | issues (flow : Flow) (hnew : ∀ f ∈ w.issued, f.id ≠ flow.id) (pending : ∀ f ∈ w'.pending, f = flow ∨ f ∈ w.pending)
      (issued : w'.issued = flow :: w.issued) (accepted : w'.accepted = w.accepted)
  | accepts (a : Accepted) (hpending : a.flow ∈ w.pending) (pending : ∀ f ∈ w'.pending, f ∈ w.pending ∧ f.id ≠ a.flow.id)
      (issued : w'.issued = w.issued) (accepted : w'.accepted = a :: w.accepted) (hstate : a.state = a.flow.state)
      (hserver : a.serverID = a.flow.serverID) (htime : a.time < a.flow.expiresAt)

theorem FlowMove.flows (hmove : FlowMove w w') (h : Flows w) : Flows w' := by
  cases hmove with
  | keeps pending issued accepted =>
    refine ⟨?_, ?_, ?_, ?_, ?_⟩
    · rw [issued]
      exact h.ids
    · rw [issued]
      exact fun f hf => h.pending f (pending f hf)
    · rw [accepted]
      exact h.once
    · rw [accepted]
      exact fun a ha f hf => h.gone a ha f (pending f hf)
    · rw [accepted, issued]
      exact h.own
  | issues _ hnew pending issued accepted =>
    refine ⟨?_, ?_, ?_, ?_, ?_⟩
    · rw [issued, map_cons, nodup_cons]
      refine ⟨?_, h.ids⟩
      intro hin
      obtain ⟨f, hf, hid⟩ := mem_map.mp hin
      exact hnew f hf hid
    · intro f hf
      rw [issued]
      rcases pending f hf with rfl | hf
      · exact mem_cons_self
      · exact mem_cons_of_mem _ (h.pending f hf)
    · rw [accepted]
      exact h.once
    · rw [accepted]
      intro a ha f hf
      rcases pending f hf with rfl | hf
      · exact (hnew _ (h.own a ha).1).symm
      · exact h.gone a ha f hf
    · rw [accepted, issued]
      intro a ha
      exact ⟨mem_cons_of_mem _ (h.own a ha).1, (h.own a ha).2⟩
  | accepts a hpending pending issued accepted hstate hserver htime =>
    refine ⟨?_, ?_, ?_, ?_, ?_⟩
    · rw [issued]
      exact h.ids
    · rw [issued]
      exact fun f hf => h.pending f (pending f hf).1
    · rw [accepted, map_cons, nodup_cons]
      refine ⟨?_, h.once⟩
      intro hin
      obtain ⟨b, hb, hid⟩ := mem_map.mp hin
      exact h.gone b hb a.flow hpending hid.symm
    · rw [accepted]
      intro b hb f hf
      rcases mem_cons.mp hb with rfl | hb
      · exact (pending f hf).2
      · exact h.gone b hb f (pending f hf).1
    · rw [accepted, issued]
      intro b hb
      rcases mem_cons.mp hb with rfl | hb
      · exact ⟨h.pending _ hpending, hstate, hserver, htime⟩
      · exact h.own b hb

variable {redirect flowID state code : String}

theorem mem_purge {now : ℤ} {f : Flow} (hf : f ∈ (w.purge now).pending) : f ∈ w.pending ∧ now < f.expiresAt := by
  simpa using mem_filter.mp hf

theorem discover_moves (h : discover w id redirect answer = some result) : FlowMove w result.1 ∧ result.1.credentials = w.credentials := by
  unfold discover at h
  split at h
  · cases h
    exact ⟨.keeps (fun _ hf => hf) rfl rfl, rfl⟩
  · split at h
    · rename_i hflow
      obtain ⟨-, -, -, hnew⟩ := hflow
      split at h
      · cases h
        exact ⟨.keeps (fun _ hf => (mem_purge hf).1) rfl rfl, rfl⟩
      · cases h
        refine ⟨.issues _ hnew ?_ rfl rfl, rfl⟩
        intro f hf
        rcases mem_cons.mp hf with rfl | hf
        · exact .inl rfl
        · exact .inr (mem_purge hf).1
    · cases h
  · cases h

theorem complete_moves (h : complete w id flowID state code answer = some result) :
    FlowMove w result.1 ∧ result.1.credentials = w.credentials := by
  unfold complete at h
  split at h
  · split at h
    · cases h
      exact ⟨.keeps (fun _ hf => hf) rfl rfl, rfl⟩
    · split at h
      · cases h
        exact ⟨.keeps (fun _ hf => (mem_purge hf).1) rfl rfl, rfl⟩
      · rename_i flow hflow
        dsimp only at h
        split at h
        · cases h
          exact ⟨.keeps (fun _ hf => (mem_purge (mem_filter.mp hf).1).1) rfl rfl, rfl⟩
        · rename_i hmatch
          obtain ⟨hstate, hserver⟩ := not_or.mp hmatch
          cases h
          obtain ⟨hpending, htime⟩ := mem_purge (mem_of_find?_eq_some hflow)
          have hid : flow.id = flowID := by simpa using find?_some hflow
          refine ⟨.accepts ⟨flow, id, state, _⟩ hpending ?_ rfl rfl (not_not.mp hstate).symm (not_not.mp hserver).symm htime, rfl⟩
          intro f hf
          obtain ⟨hf, hne⟩ := mem_filter.mp hf
          refine ⟨(mem_purge hf).1, ?_⟩
          rw [hid]
          simpa using hne
  · cases h

theorem turn_moves (ht : turn w p answer = some result) : FlowMove w result.1 ∧ Rewrites w p result.1 := by
  by_cases hdiscover : ∃ server redirect, p = .discover server redirect
  · obtain ⟨server, redirect, rfl⟩ := hdiscover
    obtain ⟨hmove, hsame⟩ := discover_moves (show discover w server redirect answer = some result from ht)
    exact ⟨hmove, .inl hsame⟩
  by_cases hcomplete : ∃ server flow state code, p = .complete server flow state code
  · obtain ⟨server, flow, state, code, rfl⟩ := hcomplete
    obtain ⟨hmove, hsame⟩ := complete_moves (show complete w server flow state code answer = some result from ht)
    exact ⟨hmove, .inl hsame⟩
  have hframe := frame_turn ht (fun server redirect hp => hdiscover ⟨server, redirect, hp⟩)
    (fun server flow state code hp => hcomplete ⟨server, flow, state, code, hp⟩)
  refine ⟨.keeps ?_ hframe.issued hframe.accepted, hframe.credentials⟩
  rw [hframe.pending]
  exact fun _ hf => hf

theorem step_flows (hstep : Step w e w') (h : Flows w) : Flows w' := by
  cases e with
  | arrives =>
    cases hstep
    exact ⟨h.ids, h.pending, h.once, h.gone, h.own⟩
  | continues =>
    obtain ⟨p, _, -, ht, rfl⟩ := next_continues hstep
    obtain ⟨hmove, -⟩ := turn_moves ht
    have hafter := hmove.flows h
    exact ⟨hafter.ids, hafter.pending, hafter.once, hafter.gone, hafter.own⟩
  | restarts =>
    cases hstep
    exact ⟨h.ids, by simp, h.once, by simp, h.own⟩

theorem flows_reached {w₀ : World} (h₀ : Initial w₀) (h : Execution Step w₀ es w) : Flows w := by
  refine h.invariant ?_ fun _ _ _ hs hstep => step_flows hstep hs
  refine ⟨?_, ?_, ?_, ?_, ?_⟩
  · simp [h₀.issued]
  · simp [h₀.pending]
  · simp [h₀.accepted]
  · simp [h₀.accepted]
  · simp [h₀.accepted]

end Flows

section Laws

theorem CarefulStep.revoked (hstep : CarefulStep w e w') (h : Sound w) (hc : w.Revoked c) : w'.Revoked c := by
  obtain ⟨hnext, -⟩ := hstep
  cases e with
  | arrives | restarts =>
    cases hnext
    exact hc
  | continues =>
    obtain ⟨p, _, hp, ht, rfl⟩ := next_continues hnext
    exact (turn_moves ht).2.revoked h hp hc

def Phase.writesBack : Phase → Option (Server × Bool)
  | .clear server revoked => some (server, revoked)
  | .invalidate server _ _ => some (server, true)
  | _ => none

theorem writesBack_current {back : Server × Bool} (h : Sound w) (hp : w.calls i = some p) (hback : p.writesBack = some back)
    (hstep : Step w (.continues i answer) w') : back.1 ∈ w.servers ∧
      ∀ r ∈ w'.servers, r ∈ w.servers ∨ r = back.1.loggedOut back.2 := by
  have hwindow : p.window = some back.1 := by
    cases p with
    | clear server revoked | invalidate server id due => rw [← Option.some.inj hback]; rfl
    | _ => cases hback
  have hr := h.window i p back.1 hp hwindow
  refine ⟨hr, ?_⟩
  obtain ⟨q, result, hq, ht, rfl⟩ := next_continues hstep
  obtain rfl := Option.some.inj (hp.symm.trans hq)
  have hset : result.1 = w ∨ result.1 = w.replace (back.1.loggedOut back.2) := by
    cases p with
    | clear server revoked =>
      cases hback
      have hreplace : replacing w (server.loggedOut revoked) answer none none = some result := ht
      rcases replacing_eq hreplace ⟨server, hr, rfl⟩ with ⟨-, rfl⟩ | ⟨-, rfl⟩ | ⟨-, rfl⟩
      · exact .inl rfl
      · exact .inr rfl
      · exact .inr rfl
    | invalidate server id due =>
      cases hback
      have hreplace : replacing w (server.loggedOut true) answer (some (.leave id due)) (some (.leave id due)) = some result := ht
      rcases replacing_eq hreplace ⟨server, hr, rfl⟩ with ⟨-, rfl⟩ | ⟨-, rfl⟩ | ⟨-, rfl⟩
      · exact .inl rfl
      · exact .inr rfl
      · exact .inr rfl
    | _ => cases hback
  intro r hr'
  rcases hset with hsame | hset
  · rw [hsame] at hr'
    exact .inl hr'
  · rw [hset] at hr'
    exact (Table.mem_set.mp hr').symm.imp_left And.left

structure Lasting (w : World) : Prop where
  flows : Flows w
  revoked : ∀ e w', CarefulStep w e w' → ∀ id, w.Revoked id → w'.Revoked id
  current : ∀ i p back answer w', w.calls i = some p → p.writesBack = some back → Step w (.continues i answer) w' →
    back.1 ∈ w.servers ∧ ∀ r ∈ w'.servers, r ∈ w.servers ∨ r = back.1.loggedOut back.2
  renewed : ∀ i r id token due, w.calls i = some (.keep r id token due) → r ∈ w.servers ∧ r.authorization = some id
  ready : (∀ i, w.calls i = none) → ∀ r ∈ w.servers, r.oauthState = .ready →
    ∃ id c, r.authorization = some id ∧ w.credentials id = some c ∧ c.state ≠ .revoked

theorem lasting_of_careful {w₀ : World} (h₀ : Initial w₀) (h : Execution CarefulStep w₀ es w) : Lasting w := by
  have hsound := sound_reached h₀ h
  refine ⟨flows_reached h₀ (h.mono fun _ _ _ hstep => hstep.1), ?_, ?_, ?_, ?_⟩
  · exact fun e w' hstep id hrevoked => hstep.revoked hsound hrevoked
  · exact fun i p back answer w' hp hback hstep => writesBack_current hsound hp hback hstep
  · intro i r id _ _ hp
    exact ⟨hsound.window i _ r hp rfl, hsound.old i _ r id hp rfl rfl⟩
  · intro hquiet r hr hready
    obtain ⟨id, hid, -, ⟨c, hc, hlive⟩ | ⟨i, p, hp, -⟩⟩ := hsound.ready r hr hready
    · exact ⟨id, c, hid, hc, hlive⟩
    · rw [hquiet i] at hp
      cases hp

theorem careful_arrives (request : Request) : Careful w (.arrives request) := by
  refine ⟨?_, ?_, ?_, ?_, ?_, ?_⟩
  all_goals simp

def exampleServer : Server := ⟨"s", "Search", false, true, ⟨.http, "https://mcp.example", none, ""⟩, .none, .unknown, ""⟩

def exampleWorld : World := ⟨⟨[exampleServer], by simp⟩, fun _ => none, [], [], fun _ => none, 0, ∅, [], []⟩

def exampleFlow : Flow := ⟨"f", "s", "https://mcp.example", "http://localhost", "client", "https://token", "", "state", "verifier", oauthFlowLifetime⟩

theorem initial_exampleWorld : Initial exampleWorld := by
  refine ⟨fun _ => rfl, rfl, rfl, rfl, ?_, ?_, ?_⟩
  · intro r hr
    rw [mem_singleton.mp hr]
    decide
  · intro id c hc
    cases hc
  · rintro _ (⟨c, hc⟩ | ⟨r, hr, hid⟩)
    · cases hc
    · rw [mem_singleton.mp hr] at hid
      cases hid

def readsRecord : World := { exampleWorld.call 0 (some (.logout "s")) with started := 1 }

theorem careful_readsRecord : Careful readsRecord (.continues 0 .done) := by
  have hcall : readsRecord.calls 0 = some (.logout "s") := rfl
  refine ⟨?_, ?_, ?_, ?_, ?_, ?_⟩
  · rintro i p answer r ⟨⟩ hp hwrites
    obtain rfl := Option.some.inj (hcall.symm.trans hp)
    cases hwrites
  · rintro i p r ⟨⟩
  · rintro i r _ ⟨⟩
  · rintro i r _ answer ⟨⟩ hp
    cases hcall.symm.trans hp
  · rintro i r _ ⟨⟩ hp
    cases hcall.symm.trans hp
  · simp

theorem lasting_of_logout : Lasting (readsRecord.call 0 (some (.clear exampleServer false))) :=
  lasting_of_careful initial_exampleWorld
    ((Execution.single (show CarefulStep exampleWorld (.arrives (.logout "s")) readsRecord from ⟨rfl, careful_arrives _⟩)).step
      (show CarefulStep readsRecord (.continues 0 .done) _ from ⟨rfl, careful_readsRecord⟩))

end Laws

section Failure

def failedLogout : List Event :=
  [.arrives (.start "s" "http://localhost"), .continues 0 .done, .continues 0 (.discovered exampleFlow 0 0),
    .arrives (.complete "s" "f" "state" "code"), .continues 1 (.clock 1), .continues 1 (.granted ⟨"a", "r", "bearer", 3600⟩ 2),
    .continues 1 .done, .continues 1 (.drew "c"), .continues 1 .done, .arrives (.logout "s"), .continues 2 .done, .continues 2 .done,
    .continues 2 .done, .continues 2 .failed]

theorem execution_of_foldlM (h : es.foldlM next w = some w') : Execution Step w es w' := by
  induction es generalizing w with
  | nil =>
    cases h
    exact .start
  | cons _ _ ih =>
    rw [foldlM_cons] at h
    obtain ⟨u, hu, hrest⟩ := Option.bind_eq_some_iff.mp h
    exact (Execution.single hu).trans (ih hrest)

/-- A logout that fails midway leaves the server ready with a credential that is revoked. -/
theorem ready_with_revoked : ¬ ∀ (w₀ w : World) (es : List Event), Initial w₀ → Execution Step w₀ es w → (∀ i, w.calls i = none) →
    ∀ r ∈ w.servers, r.oauthState = .ready → ∃ id c, r.authorization = some id ∧ w.credentials id = some c ∧ c.state ≠ .revoked := by
  intro h
  obtain ⟨w, hrun, hcalls, hservers, hcredential⟩ : ∃ w, failedLogout.foldlM next exampleWorld = some w ∧ (∀ i, w.calls i = none) ∧
      w.servers.rows = [exampleServer.ready "c"] ∧ (w.credentials "c").map Credential.state = some .revoked := by
    refine ⟨_, rfl, ?_, by decide, by decide⟩
    rintro (_ | _ | _ | i)
    · rfl
    · rfl
    · rfl
    · rfl
  have hmem : exampleServer.ready "c" ∈ w.servers := by
    rw [← Table.mem_rows, hservers]
    exact mem_singleton.mpr rfl
  obtain ⟨id, c, hid, hc, hlive⟩ := h exampleWorld w failedLogout initial_exampleWorld (execution_of_foldlM hrun) hcalls _ hmem rfl
  obtain rfl : "c" = id := Option.some.inj hid
  rw [hc] at hcredential
  exact hlive (Option.some.inj hcredential)

end Failure

end WorkAgent.McpOAuth
