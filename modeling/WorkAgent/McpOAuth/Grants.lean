import WorkAgent.Library.Executions
import WorkAgent.McpOAuth.Manager

namespace WorkAgent.McpOAuth

open Library Table

variable {w w' : World} {i j : ℕ} {p q : Phase} {r r' server : Server} {c id : String} {answer : Answer} {token : OAuthToken}

section Views

def Phase.window : Phase → Option Server
  | .store _ _ server | .revokeOld server _ _ | .install server _ | .inspect server _ | .revoke server _ | .clear server _
  | .resolve server _ _ | .refresh server _ _ _ | .keep server _ _ _ | .discard server _ _ | .invalidate server _ _ | .check server _
  | .save server _ | .remove server => some server
  | _ => none

def Phase.old : Phase → Option String
  | .revokeOld _ _ id | .inspect _ id | .revoke _ id | .resolve _ id _ | .refresh _ id _ _ | .keep _ id _ _ | .discard _ id _
  | .invalidate _ id _ => some id
  | _ => none

def Phase.fresh : Phase → Option String
  | .revokeOld _ id _ | .install _ id | .reject id => some id
  | _ => none

def Phase.live : Phase → Option String
  | .refresh _ id _ _ | .keep _ id _ _ => some id
  | _ => none

def Phase.unsettled : Phase → Option String
  | .install server _ | .clear server true | .invalidate server _ _ => some server.id
  | _ => none

def Phase.named : Phase → Option String
  | .save server mutation => (server.edited mutation).authorization
  | .create server => server.authorization
  | _ => none

end Views

namespace World

def OAuth (w : World) (id : String) : Prop := ∃ c, w.credentials id = some c ∧ c.kind = .mcpOAuth

def Revoked (w : World) (id : String) : Prop := ∃ c, w.credentials id = some c ∧ c.state = .revoked

def Live (w : World) (id : String) : Prop := ∃ c, w.credentials id = some c ∧ c.state ≠ .revoked

end World

section Careful

def Phase.Writes : Phase → Answer → Prop
  | .revokeOld _ _ _, answer | .install _ _, answer | .revoke _ _, answer | .clear _ _, answer | .discard _ _ _, answer
  | .invalidate _ _ _, answer | .save _ _, answer | .remove _, answer => answer ≠ .failed
  | _, _ => False

def Phase.settles : Phase → Option Server
  | .install server _ | .clear server true | .invalidate server _ _ => some server
  | _ => none

structure Careful (w : World) (e : Event) : Prop where
  alone : ∀ i p answer r, e = .continues i answer → w.calls i = some p → p.Writes answer → p.window = some r →
    ∀ j q r', j ≠ i → w.calls j = some q → q.window = some r' → r'.id ≠ r.id
  settled : ∀ i p r, e = .continues i .failed → w.calls i = some p → p.settles = some r → r.oauthState ≠ .ready
  reported : ∀ i r id, e = .continues i .unreported → w.calls i ≠ some (.install r id)
  edited : ∀ i r mutation answer, e = .continues i answer → w.calls i = some (.save r mutation) →
    (r.oauthState = .ready → (r.edited mutation).authorization = r.authorization) ∧
      ∀ id, (r.edited mutation).authorization = some id → w.OAuth id → r.authorization = some id
  created : ∀ i r answer, e = .continues i answer → w.calls i = some (.create r) → ∀ id, r.authorization = some id → ¬ w.OAuth id
  settledRestart : e = .restarts → ∀ i p r, w.calls i = some p → p.settles = some r → r.oauthState ≠ .ready

def CarefulStep (w : World) (e : Event) (w' : World) : Prop := Step w e w' ∧ Careful w e

end Careful

structure Sound (w : World) : Prop where
  ready : ∀ r ∈ w.servers, r.oauthState = .ready → ∃ id, r.authorization = some id ∧ w.OAuth id ∧
    (w.Live id ∨ ∃ i p, w.calls i = some p ∧ p.unsettled = some r.id)
  apart : ∀ r ∈ w.servers, ∀ r' ∈ w.servers, ∀ id, r.authorization = some id → r'.authorization = some id → w.OAuth id → r = r'
  window : ∀ i p r, w.calls i = some p → p.window = some r → r ∈ w.servers
  old : ∀ i p r id, w.calls i = some p → p.window = some r → p.old = some id → r.authorization = some id
  known : ∀ r ∈ w.servers, ∀ id, r.authorization = some id → id ∈ w.drawn
  stored : ∀ id c, w.credentials id = some c → id ∈ w.drawn
  named : ∀ i p id, w.calls i = some p → p.named = some id → id ∈ w.drawn
  fresh : ∀ i p id, w.calls i = some p → p.fresh = some id → w.OAuth id ∧ w.Live id ∧ ∀ r ∈ w.servers, r.authorization ≠ some id
  own : ∀ i p j q id, w.calls i = some p → w.calls j = some q → p.fresh = some id → q.fresh = some id → i = j
  live : ∀ i p id, w.calls i = some p → p.live = some id → p.old = some id ∧ w.OAuth id ∧ w.Live id
  idle : ∀ i, w.started ≤ i → w.calls i = none

structure Enters (w : World) (i : ℕ) (q : Phase) : Prop where
  window : ∀ r, q.window = some r → r ∈ w.servers
  old : ∀ r id, q.window = some r → q.old = some id → r.authorization = some id
  named : ∀ id, q.named = some id → id ∈ w.drawn
  fresh : ∀ id, q.fresh = some id → w.OAuth id ∧ w.Live id ∧ ∀ r ∈ w.servers, r.authorization ≠ some id
  own : ∀ id j p, q.fresh = some id → w.calls j = some p → p.fresh = some id → j = i
  live : ∀ id, q.live = some id → q.old = some id ∧ w.OAuth id ∧ w.Live id

section Calls

theorem calls_call {phase : Option Phase} : (w.call i phase).calls j = if j = i then phase else w.calls j := by
  rw [World.call]
  exact Function.update_apply ..

theorem calls_cases {phase : Option Phase} (hq : (w.call i phase).calls j = some q) :
    (j = i ∧ phase = some q) ∨ (j ≠ i ∧ w.calls j = some q) := by
  rw [calls_call] at hq
  split at hq
  · exact .inl ⟨‹_›, hq⟩
  · exact .inr ⟨‹_›, hq⟩

theorem Sound.calls (n : ℕ) (h : Sound w) (hn : w.started ≤ n) (hi : i < n) {phase : Option Phase}
    (henters : ∀ q, phase = some q → Enters w i q)
    (hsettles : ∀ p s, w.calls i = some p → p.unsettled = some s → (∃ q, phase = some q ∧ q.unsettled = some s) ∨
      ∀ r ∈ w.servers, r.id = s → r.oauthState ≠ .ready) : Sound { w.call i phase with started := n } := by
  refine ⟨?_, h.apart, ?_, ?_, h.known, h.stored, ?_, ?_, ?_, ?_, ?_⟩
  · intro r hr hready
    obtain ⟨id, hid, hoauth, hlive | ⟨j, q, hq, hunsettled⟩⟩ := h.ready r hr hready
    · exact ⟨id, hid, hoauth, .inl hlive⟩
    refine ⟨id, hid, hoauth, .inr ?_⟩
    by_cases hji : j = i
    · subst hji
      rcases hsettles q _ hq hunsettled with ⟨q, hphase, hq⟩ | hnone
      · refine ⟨j, q, ?_, hq⟩
        exact calls_call.trans ((if_pos rfl).trans hphase)
      · exact absurd hready (hnone r hr rfl)
    · refine ⟨j, q, ?_, hunsettled⟩
      exact calls_call.trans ((if_neg hji).trans hq)
  · intro j q r hq hr
    rcases calls_cases hq with ⟨-, hphase⟩ | ⟨-, hq⟩
    · exact (henters q hphase).window r hr
    · exact h.window j q r hq hr
  · intro j q r id hq hr hid
    rcases calls_cases hq with ⟨-, hphase⟩ | ⟨-, hq⟩
    · exact (henters q hphase).old r id hr hid
    · exact h.old j q r id hq hr hid
  · intro j q id hq hid
    rcases calls_cases hq with ⟨-, hphase⟩ | ⟨-, hq⟩
    · exact (henters q hphase).named id hid
    · exact h.named j q id hq hid
  · intro j q id hq hid
    rcases calls_cases hq with ⟨-, hphase⟩ | ⟨-, hq⟩
    · exact (henters q hphase).fresh id hid
    · exact h.fresh j q id hq hid
  · intro j q k q' id hq hq' hid hid'
    rcases calls_cases hq with ⟨rfl, hphase⟩ | ⟨-, hold⟩
    · rcases calls_cases hq' with ⟨rfl, -⟩ | ⟨-, hold'⟩
      · rfl
      · exact ((henters q hphase).own id k q' hid hold' hid').symm
    · rcases calls_cases hq' with ⟨rfl, hphase⟩ | ⟨-, hold'⟩
      · exact (henters q' hphase).own id j q hid' hold hid
      · exact h.own j q k q' id hold hold' hid hid'
  · intro j q id hq hid
    rcases calls_cases hq with ⟨-, hphase⟩ | ⟨-, hq⟩
    · exact (henters q hphase).live id hid
    · exact h.live j q id hq hid
  · intro j hj
    have hj' : n ≤ j := hj
    refine calls_call.trans ((if_neg ?_).trans (h.idle j (hn.trans hj')))
    omega

theorem Sound.goes (h : Sound w) (hp : w.calls i = some p) {phase : Option Phase} (henters : ∀ q, phase = some q → Enters w i q)
    (hsettles : ∀ s, p.unsettled = some s → (∃ q, phase = some q ∧ q.unsettled = some s) ∨
      ∀ r ∈ w.servers, r.id = s → r.oauthState ≠ .ready) : Sound (w.call i phase) := by
  have hi : i < w.started := by
    by_contra hidle
    rw [h.idle i (not_lt.mp hidle)] at hp
    cases hp
  refine h.calls w.started le_rfl hi henters ?_
  intro _ s hp' hs
  obtain rfl := Option.some.inj (hp.symm.trans hp')
  exact hsettles s hs

end Calls

section Credentials

theorem credentials_putOAuth : (w.putOAuth id token).credentials c =
    if c = id then some ⟨.mcpOAuth, some token, .ready, token.expiresAt.map unixMilli⟩ else w.credentials c := by
  rw [World.putOAuth, World.put]
  exact Function.update_apply ..

theorem oauth_putOAuth (h : w.OAuth c ∨ c = id) : (w.putOAuth id token).OAuth c := by
  unfold World.OAuth
  rw [credentials_putOAuth]
  by_cases hc : c = id
  · rw [if_pos hc]
    exact ⟨_, rfl, rfl⟩
  · rw [if_neg hc]
    exact h.resolve_right hc

theorem live_putOAuth (h : w.Live c ∨ c = id) : (w.putOAuth id token).Live c := by
  unfold World.Live
  rw [credentials_putOAuth]
  by_cases hc : c = id
  · rw [if_pos hc]
    exact ⟨_, rfl, by simp⟩
  · rw [if_neg hc]
    exact h.resolve_right hc

theorem oauth_of_putOAuth (h : (w.putOAuth id token).OAuth c) : w.OAuth c ∨ c = id := by
  unfold World.OAuth at h
  rw [credentials_putOAuth] at h
  by_cases hc : c = id
  · exact .inr hc
  · rw [if_neg hc] at h
    exact .inl h

theorem Sound.putOAuth (h : Sound w) (hid : id ∉ w.drawn ∨ w.OAuth id) : Sound (w.putOAuth id token) := by
  have hdrawn {c : String} (hc : c ∈ w.drawn) : c ∈ (w.putOAuth id token).drawn := Finset.mem_insert_of_mem hc
  refine ⟨?_, ?_, h.window, h.old, ?_, ?_, ?_, ?_, h.own, ?_, h.idle⟩
  · intro r hr hready
    obtain ⟨c, hc, hoauth, hlive⟩ := h.ready r hr hready
    exact ⟨c, hc, oauth_putOAuth (.inl hoauth), hlive.imp_left fun hlive => live_putOAuth (.inl hlive)⟩
  · intro r hr r' hr' c hc hc' hoauth
    refine h.apart r hr r' hr' c hc hc' ?_
    rcases oauth_of_putOAuth hoauth with hoauth | rfl
    · exact hoauth
    · exact hid.resolve_left fun hnew => hnew (h.known r hr c hc)
  · exact fun r hr c hc => hdrawn (h.known r hr c hc)
  · intro c cred hc
    rw [credentials_putOAuth] at hc
    by_cases hsame : c = id
    · rw [hsame]
      exact Finset.mem_insert_self ..
    · rw [if_neg hsame] at hc
      exact hdrawn (h.stored c cred hc)
  · exact fun i p c hp hc => hdrawn (h.named i p c hp hc)
  · intro i p c hp hc
    obtain ⟨hoauth, hlive, hnone⟩ := h.fresh i p c hp hc
    exact ⟨oauth_putOAuth (.inl hoauth), live_putOAuth (.inl hlive), hnone⟩
  · intro i p c hp hc
    obtain ⟨hold, hoauth, hlive⟩ := h.live i p c hp hc
    exact ⟨hold, oauth_putOAuth (.inl hoauth), live_putOAuth (.inl hlive)⟩

theorem credentials_revoke : (w.revoke id).credentials c =
    if c = id then (w.credentials id).map fun c => { c with secret := none, state := .revoked } else w.credentials c := by
  rw [World.revoke]
  exact Function.update_apply ..

theorem oauth_revoke : (w.revoke id).OAuth c ↔ w.OAuth c := by
  unfold World.OAuth
  rw [credentials_revoke]
  by_cases hc : c = id
  · subst hc
    rw [if_pos rfl]
    cases w.credentials c with
    | none | some => simp
  · rw [if_neg hc]

theorem live_revoke (h : w.Live c) (hc : c ≠ id) : (w.revoke id).Live c := by
  unfold World.Live
  rw [credentials_revoke, if_neg hc]
  exact h

theorem Sound.revoke (h : Sound w) (hready : ∀ r ∈ w.servers, r.oauthState = .ready → r.authorization = some id →
      ∃ i p, w.calls i = some p ∧ p.unsettled = some r.id)
    (hfresh : ∀ i p, w.calls i = some p → p.fresh ≠ some id) (hlive : ∀ i p, w.calls i = some p → p.live ≠ some id) : Sound (w.revoke id) := by
  refine ⟨?_, ?_, h.window, h.old, h.known, ?_, h.named, ?_, h.own, ?_, h.idle⟩
  · intro r hr hr'
    obtain ⟨c, hc, hoauth, hlive⟩ := h.ready r hr hr'
    refine ⟨c, hc, oauth_revoke.mpr hoauth, ?_⟩
    by_cases hsame : c = id
    · exact .inr (hready r hr hr' (hsame ▸ hc))
    · exact hlive.imp_left fun hlive => live_revoke hlive hsame
  · intro r hr r' hr' c hc hc' hoauth
    exact h.apart r hr r' hr' c hc hc' (oauth_revoke.mp hoauth)
  · intro c cred hc
    rw [credentials_revoke] at hc
    by_cases hsame : c = id
    · rw [if_pos hsame] at hc
      obtain ⟨old, hold, -⟩ := Option.map_eq_some_iff.mp hc
      exact hsame ▸ h.stored id old hold
    · rw [if_neg hsame] at hc
      exact h.stored c cred hc
  · intro i p c hp hc
    obtain ⟨hoauth, hlive, hnone⟩ := h.fresh i p c hp hc
    have hne : c ≠ id := fun hsame => hfresh i p hp (hsame ▸ hc)
    exact ⟨oauth_revoke.mpr hoauth, live_revoke hlive hne, hnone⟩
  · intro i p c hp hc
    obtain ⟨hold, hoauth, hlived⟩ := h.live i p c hp hc
    have hne : c ≠ id := fun hsame => hlive i p hp (hsame ▸ hc)
    exact ⟨hold, oauth_revoke.mpr hoauth, live_revoke hlived hne⟩

theorem Sound.holder (h : Sound w) (hp : w.calls i = some p) (hlive : p.live = some id) :
    ∃ r ∈ w.servers, r.authorization = some id ∧ p.window = some r := by
  have hold := (h.live i p id hp hlive).1
  cases p with
  | refresh r _ _ _ | keep r _ _ _ => exact ⟨r, h.window i _ r hp rfl, h.old i _ r id hp rfl hold, rfl⟩
  | _ => cases hlive

theorem Sound.revokes (h : Sound w) (hp : w.calls i = some p) (hwindow : p.window = some r) (hold : p.old = some id)
    (halone : ∀ j q r', j ≠ i → w.calls j = some q → q.window = some r' → r'.id ≠ r.id) (henters : Enters w i q)
    (hunsettled : q.unsettled = some r.id) (hlive : q.live = none) (hquiet : p.unsettled = none) : Sound ((w.revoke id).call i (some q)) := by
  have hr : r ∈ w.servers := h.window i p r hp hwindow
  have hid : r.authorization = some id := h.old i p r id hp hwindow hold
  have hmoved : Sound (w.call i (some q)) := by
    refine h.goes hp (fun q' hq' => ?_) ?_
    · cases hq'
      exact henters
    · intro s hs
      rw [hquiet] at hs
      cases hs
  have hnow : (w.call i (some q)).calls i = some q := by rw [calls_call, if_pos rfl]
  refine hmoved.revoke ?_ ?_ ?_
  · intro r' hr' hready hid'
    obtain ⟨c, hc, hoauth, -⟩ := h.ready r' hr' hready
    obtain rfl : id = c := Option.some.inj (hid'.symm.trans hc)
    obtain rfl := h.apart r hr r' hr' id hid hid' hoauth
    exact ⟨i, q, hnow, hunsettled⟩
  · intro j p' hp' hfresh
    exact (hmoved.fresh j p' id hp' hfresh).2.2 r hr hid
  · intro j p' hp' hlived
    have hji : j ≠ i := by
      rintro rfl
      obtain rfl : q = p' := Option.some.inj (hnow.symm.trans hp')
      rw [hlive] at hlived
      cases hlived
    rw [calls_call, if_neg hji] at hp'
    obtain ⟨-, hoauth, -⟩ := h.live j p' id hp' hlived
    obtain ⟨r', hr', hid', hwindow'⟩ := h.holder hp' hlived
    have hsame := h.apart r hr r' hr' id hid hid' hoauth
    exact halone j p' r' hji hp' hwindow' (congrArg Server.id hsame.symm)

end Credentials

section Records

structure Phase.Blank (q : Phase) : Prop where
  window : q.window = none
  fresh : q.fresh = none
  live : q.live = none
  unsettled : q.unsettled = none
  named : q.named = none

theorem Phase.settles_of_unsettled {s : String} (h : p.unsettled = some s) : ∃ r, p.settles = some r ∧ p.window = some r ∧ r.id = s := by
  cases p with
  | install server id | invalidate server id due => exact ⟨server, rfl, rfl, Option.some.inj h⟩
  | clear server revoked =>
    cases revoked with
    | true => exact ⟨server, rfl, rfl, Option.some.inj h⟩
    | false => cases h
  | _ => cases h

theorem Sound.rewrite (s : String) (h : Sound w) {phase : Option Phase} {servers : Table Server.id} (hp : w.calls i = some p)
    (hown : ∀ s', p.unsettled = some s' → s' = s)
    (halone : ∀ j q r', j ≠ i → w.calls j = some q → q.window = some r' → r'.id ≠ s) (hblank : ∀ q, phase = some q → q.Blank)
    (hothers : ∀ x ∈ w.servers, x.id ≠ s → x ∈ servers)
    (hservers : ∀ x ∈ servers, (x ∈ w.servers ∧ x.id ≠ s) ∨ (x.id = s ∧
      (x.oauthState = .ready → ∃ c, x.authorization = some c ∧ w.OAuth c ∧ w.Live c) ∧
      ∀ c, x.authorization = some c → c ∈ w.drawn ∧
        (w.OAuth c → (∃ r ∈ w.servers, r.id = s ∧ r.authorization = some c) ∨ p.fresh = some c))) :
    Sound (({ w with servers := servers } : World).call i phase) := by
  have hquiet {j : ℕ} {q : Phase} (hq : (({ w with servers := servers } : World).call i phase).calls j = some q) :
      (j ≠ i ∧ w.calls j = some q) ∨ q.Blank := by
    rcases calls_cases hq with ⟨-, hphase⟩ | ⟨hji, hq⟩
    · exact .inr (hblank q hphase)
    · exact .inl ⟨hji, hq⟩
  refine ⟨?_, ?_, ?_, ?_, ?_, h.stored, ?_, ?_, ?_, ?_, ?_⟩
  · intro x hx hready
    rcases hservers x hx with ⟨hx, hne⟩ | ⟨-, hlive, -⟩
    · obtain ⟨c, hc, hoauth, hlive | ⟨j, q, hq, hunsettled⟩⟩ := h.ready x hx hready
      · exact ⟨c, hc, hoauth, .inl hlive⟩
      have hji : j ≠ i := by
        rintro rfl
        obtain rfl : p = q := Option.some.inj (hp.symm.trans hq)
        exact hne (hown _ hunsettled)
      refine ⟨c, hc, hoauth, .inr ⟨j, q, ?_, hunsettled⟩⟩
      rw [calls_call, if_neg hji]
      exact hq
    · obtain ⟨c, hc, hoauth, hlived⟩ := hlive hready
      exact ⟨c, hc, hoauth, .inl hlived⟩
  · have hmixed (x y : Server) (hx : x ∈ w.servers) (hne : x.id ≠ s) (c : String) (hc : x.authorization = some c) (hoauth : w.OAuth c)
        (hy : (∃ r ∈ w.servers, r.id = s ∧ r.authorization = some c) ∨ p.fresh = some c) : x = y := by
      rcases hy with ⟨r, hr, hid, hold⟩ | hfresh
      · exact absurd ((congrArg Server.id (h.apart x hx r hr c hc hold hoauth)).trans hid) hne
      · exact absurd hc ((h.fresh i p c hp hfresh).2.2 x hx)
    intro x hx y hy c hc hc' hoauth
    rcases hservers x hx with ⟨hx, hne⟩ | ⟨hxid, -, hauth⟩
    · rcases hservers y hy with ⟨hy, -⟩ | ⟨-, -, hauth⟩
      · exact h.apart x hx y hy c hc hc' hoauth
      · exact hmixed x y hx hne c hc hoauth ((hauth c hc').2 hoauth)
    · rcases hservers y hy with ⟨hy, hne⟩ | ⟨hyid, -, -⟩
      · exact (hmixed y x hy hne c hc' hoauth ((hauth c hc).2 hoauth)).symm
      · exact eq_of_key hx hy (hxid.trans hyid.symm)
  · intro j q x hq hx
    rcases hquiet hq with ⟨hji, hq⟩ | hblank
    · exact hothers x (h.window j q x hq hx) (halone j q x hji hq hx)
    · rw [hblank.window] at hx
      cases hx
  · intro j q x c hq hx hc
    rcases hquiet hq with ⟨-, hq⟩ | hblank
    · exact h.old j q x c hq hx hc
    · rw [hblank.window] at hx
      cases hx
  · intro x hx c hc
    rcases hservers x hx with ⟨hx, -⟩ | ⟨-, -, hauth⟩
    · exact h.known x hx c hc
    · exact (hauth c hc).1
  · intro j q c hq hc
    rcases hquiet hq with ⟨-, hq⟩ | hblank
    · exact h.named j q c hq hc
    · rw [hblank.named] at hc
      cases hc
  · intro j q c hq hc
    rcases hquiet hq with ⟨hji, hq⟩ | hblank
    · obtain ⟨hoauth, hlive, hnone⟩ := h.fresh j q c hq hc
      refine ⟨hoauth, hlive, ?_⟩
      intro x hx hxc
      rcases hservers x hx with ⟨hx, -⟩ | ⟨-, -, hauth⟩
      · exact hnone x hx hxc
      · rcases (hauth c hxc).2 hoauth with ⟨r, hr, -, hold⟩ | hfresh
        · exact hnone r hr hold
        · exact hji (h.own j q i p c hq hp hc hfresh)
    · rw [hblank.fresh] at hc
      cases hc
  · intro j q k q' c hq hq' hc hc'
    rcases hquiet hq with ⟨-, hold⟩ | hblank
    · rcases hquiet hq' with ⟨-, hold'⟩ | hblank'
      · exact h.own j q k q' c hold hold' hc hc'
      · rw [hblank'.fresh] at hc'
        cases hc'
    · rw [hblank.fresh] at hc
      cases hc
  · intro j q c hq hc
    rcases hquiet hq with ⟨-, hq⟩ | hblank
    · exact h.live j q c hq hc
    · rw [hblank.live] at hc
      cases hc
  · intro j hj
    rw [calls_call, if_neg]
    · exact h.idle j hj
    · rintro rfl
      rw [h.idle j hj] at hp
      cases hp

theorem Phase.unsettled_id {s : String} (hwindow : p.window = some r) (h : p.unsettled = some s) : s = r.id := by
  obtain ⟨_, -, hr', rfl⟩ := Phase.settles_of_unsettled h
  rw [Option.some.inj (hwindow.symm.trans hr')]

section

variable (h : Sound w) (hp : w.calls i = some p) (hwindow : p.window = some r)
  (halone : ∀ j q r', j ≠ i → w.calls j = some q → q.window = some r' → r'.id ≠ r.id)
include h hp hwindow halone

theorem Sound.replaces {phase : Option Phase} (hblank : ∀ q, phase = some q → q.Blank) (hid : r'.id = r.id)
    (hready : r'.oauthState = .ready → ∃ c, r'.authorization = some c ∧ w.OAuth c ∧ w.Live c)
    (hauth : ∀ c, r'.authorization = some c → c ∈ w.drawn ∧ (w.OAuth c → r.authorization = some c ∨ p.fresh = some c)) :
    Sound ((w.replace r').call i phase) := by
  have hr : r ∈ w.servers := h.window i p r hp hwindow
  refine h.rewrite r.id hp (fun s hs => Phase.unsettled_id hwindow hs) halone hblank ?_ ?_
  · intro x hx hne
    exact mem_set.mpr (.inr ⟨hx, hid ▸ hne⟩)
  · intro x hx
    rcases mem_set.mp hx with rfl | ⟨hx, hne⟩
    · refine .inr ⟨hid, hready, ?_⟩
      intro c hc
      refine ⟨(hauth c hc).1, fun hoauth => ?_⟩
      exact ((hauth c hc).2 hoauth).imp_left fun hold => ⟨r, hr, rfl, hold⟩
    · exact .inl ⟨hx, hid ▸ hne⟩

theorem Sound.removes : Sound (({ w with servers := w.servers.delete fun s => s.id = r.id } : World).call i none) := by
  refine h.rewrite r.id hp (fun s hs => Phase.unsettled_id hwindow hs) halone (by simp) ?_ ?_
  · intro x hx hne
    exact mem_delete.mpr ⟨hx, hne⟩
  · intro x hx
    exact .inl (mem_delete.mp hx)

end

theorem Sound.creates (h : Sound w) (hp : w.calls i = some (.create server)) (hid : w.servers.has id = false)
    (hoauth : ∀ c, server.authorization = some c → ¬ w.OAuth c) : Sound ((w.replace (server.created id)).call i none) := by
  have hnone (x : Server) (hx : x ∈ w.servers) : x.id ≠ id := find?_eq_none.mp (has_eq_false.mp hid) x hx
  refine h.rewrite id hp (by simp [Phase.unsettled]) ?_ (by simp) ?_ ?_
  · intro j q x _ hq hx
    exact hnone x (h.window j q x hq hx)
  · intro x hx hne
    exact mem_set.mpr (.inr ⟨hx, hne⟩)
  · intro x hx
    rcases mem_set.mp hx with rfl | ⟨hx, hne⟩
    · refine .inr ⟨rfl, (fun hready => by cases hready), ?_⟩
      intro c hc
      exact ⟨h.named i _ c hp hc, fun hgrant => absurd hgrant (hoauth c hc)⟩
    · exact .inl ⟨hx, hne⟩

end Records

end WorkAgent.McpOAuth
