import WorkAgent.Accounts.Logins
import WorkAgent.Library.Guarded

namespace WorkAgent.Accounts

open Library Function List Table
open Quota (Time)

variable {server : Server} {db db' : Database} {w w' : World} {e : Event} {es : List Event} {kind : Kind} {k : ℕ} {id : ℤ}
  {token username : String} {now : Time} {r : Request} {u : User}

def Database.tokens (db : Database) : Kind → Table TokenRow.token
  | .session => db.sessions
  | .remembered => db.rememberedLogins

namespace Database

theorem userByToken_ok {tokens : Table TokenRow.token} (h : db.userByToken tokens token now = .ok u) :
    ∃ row ∈ tokens, row.token = token ∧ u ∈ db.users ∧ u.id = row.userID ∧ u.disabled = false := by
  unfold userByToken at h
  simp only [bind_eq_ok, orError_eq_ok, require_eq_ok, pure_eq_ok, Option.filter_eq_some_iff] at h
  obtain ⟨row, ⟨hrow, -⟩, _, huser, -, hdisabled, rfl⟩ := h
  obtain ⟨hmem, htoken⟩ := find?_eq_some.mp hrow
  obtain ⟨huser, hid⟩ := find?_eq_some.mp huser
  exact ⟨row, hmem, htoken, huser, hid, by simpa using hdisabled⟩

theorem exists_userByToken {tokens : Table TokenRow.token} {row : TokenRow} (hrow : row ∈ tokens) (hu : u ∈ db.users)
    (hid : u.id = row.userID) (hdisabled : u.disabled = false) : ∃ now, db.userByToken tokens row.token now = .ok u := by
  refine ⟨⟨(row.expiresAt - 1) * Time.second⟩, ?_⟩
  have hunix : Time.unix ⟨(row.expiresAt - 1) * Time.second⟩ = row.expiresAt - 1 := by
    change (row.expiresAt - 1) * 1000000000 / 1000000000 = _
    omega
  have huser : db.users.find? row.userID = some u := find?_eq_some.mpr ⟨hu, hid⟩
  unfold userByToken
  simp only [bind_eq_ok, orError_eq_ok, require_eq_ok, pure_eq_ok, Option.filter_eq_some_iff]
  refine ⟨row, ⟨find?_of_mem hrow, ?_⟩, u, huser, (), by simp [hdisabled], rfl⟩
  rw [hunix, decide_eq_true_eq]
  omega

/-- What a change of the user `id` leaves: the others, and none of the tokens of that user. -/
structure Revoked (db : Database) (id : ℤ) (db' : Database) : Prop where
  users : ∀ u' ∈ db'.users, ∃ u ∈ db.users, u.id = u'.id ∧ (u.id ≠ id → u' = u)
  tokens : ∀ kind row, row ∈ db'.tokens kind → row ∈ db.tokens kind ∧ row.userID ≠ id

theorem userByUsername_eq_some : db.userByUsername username = some u ↔ u ∈ db.users ∧ nocase u.username = nocase username := by
  unfold userByUsername
  constructor
  · intro h
    exact ⟨mem_of_find?_eq_some h, by simpa using find?_some h⟩
  · rintro ⟨hu, hname⟩
    cases hfind : db.users.rows.find? (fun u => nocase u.username = nocase username) with
    | none =>
      have hne := List.find?_eq_none.mp hfind u hu
      simp [hname] at hne
    | some v =>
      have hv : nocase v.username = nocase username := by simpa using find?_some hfind
      have hvu : v = u := inj_on_of_nodup_map db.usernames (mem_of_find?_eq_some hfind) hu (hv.trans hname.symm)
      rw [hvu]

theorem mem_updateUsers {p : User → Prop} [DecidablePred p] {f : User → User} (hid : ∀ u, (f u).id = u.id)
    (hname : ∀ u, (f u).username = u.username) {u' : User} :
    u' ∈ (db.updateUsers p f hid hname).users ↔ ∃ u ∈ db.users, u' = if p u then f u else u :=
  @Table.mem_update _ _ _ db.users u' p _ f hid

theorem change_revokes {p : User → Prop} [DecidablePred p] {f : User → User} {hid : ∀ u, (f u).id = u.id}
    {hname : ∀ u, (f u).username = u.username} {error : Error} (hu : db.userByUsername username = some u)
    (h : db.change username p f hid hname error = .ok db') : db.Revoked u.id db' := by
  unfold change at h
  simp only [bind_eq_ok, require_eq_ok, pure_eq_ok] at h
  obtain ⟨-, -, rfl⟩ := h
  obtain ⟨hmem, hsame⟩ := userByUsername_eq_some.mp hu
  -- the subquery finds the user whose row was changed
  have hfound : ∃ v, (db.updateUsers (fun u => nocase u.username = nocase username ∧ p u) f hid hname).userByUsername username = some v ∧
      v.id = u.id := by
    refine ⟨if nocase u.username = nocase username ∧ p u then f u else u, ?_, ?_⟩
    · rw [userByUsername_eq_some]
      refine ⟨(mem_updateUsers hid hname).mpr ⟨u, hmem, rfl⟩, ?_⟩
      split
      · rw [hname, hsame]
      · exact hsame
    · split
      · exact hid u
      · rfl
  obtain ⟨v, hv, hvid⟩ := hfound
  constructor
  · intro _ hu'
    obtain ⟨x, hx, rfl⟩ := (mem_updateUsers hid hname).mp hu'
    refine ⟨x, hx, ?_, ?_⟩
    · split
      · exact (hid x).symm
      · rfl
    · intro hne
      rw [if_neg]
      rintro ⟨hxname, -⟩
      have hxu : x = u := inj_on_of_nodup_map db.usernames hx hmem (hxname.trans hsame.symm)
      exact hne (by rw [hxu])
  · intro kind _ hrow
    cases kind with
    | session | remembered =>
      obtain ⟨hold, hother⟩ := mem_delete.mp hrow
      refine ⟨hold, ?_⟩
      rintro hrowid
      rw [hv, Option.map_some, hvid, hrowid] at hother
      exact hother rfl

theorem apply_revokes {change : Change} (hu : db.userByUsername change.username = some u) (h : change.apply db = .ok db') :
    db.Revoked u.id db' := by
  cases change <;> exact change_revokes hu h

structure Issued (db : Database) (kind : Kind) (row : TokenRow) (db' : Database) : Prop where
  users : db'.users = db.users
  tokens : ∀ kind' row', row' ∈ db'.tokens kind' ↔ row' ∈ db.tokens kind' ∨ (kind' = kind ∧ row' = row)
  user : ∃ u ∈ db.users, u.id = row.userID

theorem createSession_ok {expires : Time} (h : db.createSession token id expires = .ok db') :
    db.Issued .session ⟨token, id, expires.unix⟩ db' := by
  unfold createSession at h
  simp only [bind_eq_ok, insertChecked_eq_ok, pure_eq_ok] at h
  obtain ⟨_, ⟨hhas, hnone, rfl⟩, rfl⟩ := h
  refine ⟨rfl, ?_, has_eq_true.mp hhas⟩
  intro kind' _
  cases kind' with
  | session => simp [tokens, mem_insertOrIgnore, hnone]
  | remembered => simp [tokens]

theorem createRememberedLogin_ok {expires : Time} (h : db.createRememberedLogin token id expires = .ok db') :
    db.Issued .remembered ⟨token, id, expires.unix⟩ db' := by
  unfold createRememberedLogin at h
  simp only [bind_eq_ok, insertChecked_eq_ok, pure_eq_ok] at h
  obtain ⟨_, ⟨hhas, hnone, rfl⟩, rfl⟩ := h
  refine ⟨rfl, ?_, has_eq_true.mp hhas⟩
  intro kind' _
  cases kind' with
  | session => simp [tokens]
  | remembered => simp [tokens, mem_insertOrIgnore, hnone]

structure Forgot (db db' : Database) : Prop where
  users : db'.users = db.users
  tokens : ∀ kind row, row ∈ db'.tokens kind → row ∈ db.tokens kind

theorem Forgot.refl : Forgot db db := ⟨rfl, fun _ _ h => h⟩

theorem forgot_deleteSession : db.Forgot (db.deleteSession token) := by
  refine ⟨rfl, ?_⟩
  intro kind _ hrow
  cases kind with
  | session => exact (mem_delete.mp hrow).1
  | remembered => exact hrow

theorem forgot_forget {cookie : Option String} : db.Forgot (db.forget cookie) := by
  cases cookie with
  | none => exact .refl
  | some =>
    refine ⟨rfl, ?_⟩
    intro kind _ hrow
    cases kind with
    | session => exact hrow
    | remembered => exact (mem_delete.mp hrow).1

end Database

section Steps

def Stage.userID : Stage → Option ℤ
  | .checked user | .recorded user | .issued user _ | .forgotten user _ => some user.id
  | _ => none

inductive Effect (w : World) : Event → World → Prop
  | forgot {e : Event} {w' : World} (he : ∀ kind k id token, e ≠ .issued kind k id token) (hrevoked : ∀ id, e ≠ .revoked id)
      (hdrawn : w'.drawn = w.drawn) (hdb : w.db.Forgot w'.db) : Effect w e w'
  | issued {kind : Kind} {k : ℕ} {id : ℤ} {token : String} {expiresAt : ℤ} {r : Request} {w' : World} (hr : w.requests k = some r)
      (huser : r.stage.userID = some id) (hfresh : token ∉ w.drawn) (hdrawn : w'.drawn = token :: w.drawn)
      (hdb : w.db.Issued kind ⟨token, id, expiresAt⟩ w'.db) : Effect w (.issued kind k id token) w'
  | revoked {id : ℤ} {w' : World} (hdrawn : w'.drawn = w.drawn) (hdb : w.db.Revoked id w'.db) : Effect w (.revoked id) w'

structure Moves (w : World) (e : Event) (w' : World) : Prop where
  stays : ∀ j r, w.requests j = some r → r.stage ≠ .arrived → ∃ r', w'.requests j = some r' ∧ r'.stage ≠ .arrived
  users : ∀ j r' id, w'.requests j = some r' → r'.stage.userID = some id →
    (∃ r, w.requests j = some r ∧ r.stage.userID = some id) ∨ e = .checked j id
  checks : ∀ j id, e = .checked j id → (∃ r, w.requests j = some r ∧ r.stage = .arrived) ∧ ∃ r', w'.requests j = some r' ∧ r'.stage ≠ .arrived

theorem moves_of_requests (h : w'.requests = w.requests) (he : ∀ j id, e ≠ .checked j id) : Moves w e w' := by
  constructor
  · intro j r hr hstage
    rw [h]
    exact ⟨r, hr, hstage⟩
  · intro j r' id hr' hid
    rw [h] at hr'
    exact .inl ⟨r', hr', hid⟩
  · exact fun j id heq => absurd heq (he j id)

theorem moves_put {stage : Stage} (hr : w.requests k = some r) (h : w'.requests = Function.update w.requests k (some { r with stage := stage }))
    (hstage : stage ≠ .arrived) (huser : ∀ id, stage.userID = some id → r.stage.userID = some id) (he : ∀ j id, e ≠ .checked j id) :
    Moves w e w' := by
  constructor
  · intro j x hx hne
    rw [h]
    by_cases hj : j = k
    · subst hj
      exact ⟨_, update_self .., hstage⟩
    · rw [update_of_ne hj]
      exact ⟨x, hx, hne⟩
  · intro j r' id hr' hid
    rw [h] at hr'
    by_cases hj : j = k
    · subst hj
      rw [update_self] at hr'
      cases hr'
      exact .inl ⟨r, hr, huser id hid⟩
    · rw [update_of_ne hj] at hr'
      exact .inl ⟨r', hr', hid⟩
  · exact fun j id heq => absurd heq (he j id)

theorem moves_step (h : Step server w e w') : Moves w e w' := by
  cases h with
  | @arrives k r hnew hstage =>
    constructor
    · intro j x hx hne
      have hj : j ≠ k := by
        rintro rfl
        rw [hnew] at hx
        cases hx
      exact ⟨x, (update_of_ne hj ..).trans hx, hne⟩
    · intro j r' id hr' hid
      by_cases hj : j = k
      · subst hj
        obtain rfl : r = r' := by simpa [World.put] using hr'
        rw [hstage] at hid
        cases hid
      · exact .inl ⟨r', (update_of_ne hj ..).symm.trans hr', hid⟩
    · intro j id heq
      cases heq
  | @passes k r user _ hr hstage =>
    constructor
    · intro j x hx hne
      by_cases hj : j = k
      · subst hj
        exact ⟨_, update_self .., by simp⟩
      · exact ⟨x, (update_of_ne hj ..).trans hx, hne⟩
    · intro j r' id hr' hid
      by_cases hj : j = k
      · subst hj
        obtain rfl : { r with stage := .checked user } = r' := by simpa [World.put] using hr'
        cases hid
        exact .inr rfl
      · exact .inl ⟨r', (update_of_ne hj ..).symm.trans hr', hid⟩
    · rintro j _ heq
      cases heq
      exact ⟨⟨r, hr, hstage⟩, _, update_self .., by simp⟩
  | refused _ hr | forgetsLogin hr | remembers _ hr | undoes hr | logsOut hr | changesPassword hr | dies hr =>
    exact moves_put hr rfl (by simp) (by simp [Stage.userID]) (by simp)
  | recorded hr hstage => exact moves_put hr rfl (by simp) (by simp [hstage, Stage.userID]) (by simp)
  | @creates _ _ _ _ _ _ _ _ _ _ hr hstage | forgets hr hstage =>
    refine moves_put hr rfl ?_ ?_ (by simp)
    · split <;> simp
    · rw [hstage]
      split <;> simp [Stage.userID]
  | @fails _ r hr =>
    refine moves_put hr rfl ?_ ?_ (by simp)
    · cases r.stage <;> simp [Stage.failed]
    · cases r.stage <;> simp [Stage.failed, Stage.userID]
  | changes => exact moves_of_requests rfl (by simp)

theorem effect_step (h : Step server w e w') : Effect w e w' := by
  cases h with
  | arrives | passes | refused | recorded | fails | dies => exact .forgot (by simp) (by simp) rfl .refl
  | creates _ hr hstage _ hfresh hdb =>
    exact .issued hr (by rw [hstage]; rfl) hfresh rfl (Database.createSession_ok hdb)
  | forgets | forgetsLogin => exact .forgot (by simp) (by simp) rfl Database.forgot_forget
  | remembers _ hr hstage hfresh hdb =>
    exact .issued hr (by rw [hstage]; rfl) hfresh rfl (Database.createRememberedLogin_ok hdb)
  | undoes | logsOut => exact .forgot (by simp) (by simp) rfl Database.forgot_deleteSession
  | changesPassword _ _ _ _ huser hdb => exact .revoked rfl (Database.change_revokes huser hdb)
  | changes _ huser hdb => exact .revoked rfl (Database.apply_revokes huser hdb)

end Steps

section Stale

def Stale (es : List Event) (k : ℕ) : Prop := ∃ before after id, es = before ++ .checked k id :: after ∧ .revoked id ∈ after

theorem Stale.checked (h : Stale es k) : ∃ id, .checked k id ∈ es ∧ .revoked id ∈ es := by
  obtain ⟨_, _, id, rfl, hrevoked⟩ := h
  exact ⟨id, by simp, by simp [hrevoked]⟩

theorem stale_append : Stale (es ++ [e]) k ↔ Stale es k ∨ ∃ id, e = .revoked id ∧ .checked k id ∈ es := by
  constructor
  · rintro ⟨before, after, id, hsplit, hrevoked⟩
    rcases eq_nil_or_concat after with rfl | ⟨after', last, rfl⟩
    · cases hrevoked
    · rw [concat_eq_append] at hsplit hrevoked
      rw [← cons_append, ← append_assoc] at hsplit
      obtain ⟨rfl, hlast⟩ := append_inj' hsplit rfl
      obtain rfl : e = last := by simpa using hlast
      rw [mem_append, mem_singleton] at hrevoked
      rcases hrevoked with hrevoked | rfl
      · exact .inl ⟨before, after', id, rfl, hrevoked⟩
      · exact .inr ⟨id, rfl, by simp⟩
  · rintro (⟨before, after, id, rfl, hrevoked⟩ | ⟨id, rfl, hchecked⟩)
    · refine ⟨before, after ++ [e], id, by simp, ?_⟩
      simp [hrevoked]
    · obtain ⟨before, after, rfl⟩ := append_of_mem hchecked
      refine ⟨before, after ++ [.revoked id], id, by simp, ?_⟩
      simp

end Stale

def Careful (es : List Event) (w : World) : Event → Prop
  | .issued _ k id _ => ¬ (Stale es k ∧ ∃ u ∈ w.db.users, u.id = id ∧ u.disabled = false)
  | _ => True

structure Sound (es : List Event) (w : World) : Prop where
  drawn : ∀ kind k id token, .issued kind k id token ∈ es → token ∈ w.drawn
  once : ∀ kind k id token kind' k' id', .issued kind k id token ∈ es → .issued kind' k' id' token ∈ es →
    kind = kind' ∧ k = k' ∧ id = id'
  source : ∀ kind row, row ∈ w.db.tokens kind → ∃ k, .issued kind k row.userID row.token ∈ es
  checked : ∀ k id, .checked k id ∈ es → ∃ r, w.requests k = some r ∧ r.stage ≠ .arrived
  user : ∀ k id id', .checked k id ∈ es → .checked k id' ∈ es → id = id'
  stages : ∀ k r id, w.requests k = some r → r.stage.userID = some id → .checked k id ∈ es
  issued : ∀ kind k id token, .issued kind k id token ∈ es → .checked k id ∈ es
  stale : ∀ kind row k, row ∈ w.db.tokens kind → .issued kind k row.userID row.token ∈ es → Stale es k →
    ∀ u ∈ w.db.users, u.id = row.userID → u.disabled = true

namespace Sound

theorem sound_start (hrequests : w.requests = fun _ => none) (htokens : ∀ kind row, row ∉ w.db.tokens kind) : Sound [] w := by
  constructor
  case drawn => simp
  case once => simp
  case source => exact fun kind row hrow => absurd hrow (htokens kind row)
  case checked => simp
  case user => simp
  case stages =>
    intro k r _ hr
    rw [hrequests] at hr
    cases hr
  case issued => simp
  case stale => exact fun kind row k hrow => absurd hrow (htokens kind row)

section Step

variable (h : Sound es w) (hmoves : Moves w e w')
include h hmoves

theorem checked_step : ∀ k id, .checked k id ∈ es ++ [e] → ∃ r, w'.requests k = some r ∧ r.stage ≠ .arrived := by
  intro k id hmem
  rw [mem_append, mem_singleton] at hmem
  rcases hmem with hmem | rfl
  · obtain ⟨r, hr, hstage⟩ := h.checked k id hmem
    exact hmoves.stays k r hr hstage
  · exact (hmoves.checks k id rfl).2

theorem user_step : ∀ k id id', .checked k id ∈ es ++ [e] → .checked k id' ∈ es ++ [e] → id = id' := by
  have hnew : ∀ k id id', .checked k id ∈ es → e = .checked k id' → False := by
    intro k id id' hmem he
    obtain ⟨r, hr, hstage⟩ := h.checked k id hmem
    obtain ⟨⟨_, hr', hstage'⟩, -⟩ := hmoves.checks k id' he
    rw [hr] at hr'
    cases hr'
    exact hstage hstage'
  intro k id id' hmem hmem'
  rw [mem_append, mem_singleton] at hmem hmem'
  rcases hmem with hmem | rfl
  · rcases hmem' with hmem' | rfl
    · exact h.user k id id' hmem hmem'
    · exact (hnew k id id' hmem rfl).elim
  · rcases hmem' with hmem' | heq
    · exact (hnew k id' id hmem' rfl).elim
    · cases heq
      rfl

theorem stages_step : ∀ k r id, w'.requests k = some r → r.stage.userID = some id → .checked k id ∈ es ++ [e] := by
  intro k r id hr hid
  rw [mem_append, mem_singleton]
  obtain ⟨r', hr', hid'⟩ | rfl := hmoves.users k r id hr hid
  · exact .inl (h.stages k r' id hr' hid')
  · exact .inr rfl

end Step

theorem forgot_step (h : Sound es w) (hmoves : Moves w e w') (hissued : ∀ kind k id token, e ≠ .issued kind k id token)
    (hrevoked : ∀ id, e ≠ .revoked id) (hdrawn : w'.drawn = w.drawn) (hdb : w.db.Forgot w'.db) : Sound (es ++ [e]) w' := by
  have hmem (kind : Kind) (k : ℕ) (id : ℤ) (token : String) : .issued kind k id token ∈ es ++ [e] ↔ .issued kind k id token ∈ es := by
    rw [mem_append, mem_singleton]
    exact or_iff_left fun heq => hissued kind k id token heq.symm
  have hstale (k : ℕ) : Stale (es ++ [e]) k ↔ Stale es k := by
    rw [stale_append]
    exact or_iff_left fun ⟨id, heq, _⟩ => hrevoked id heq
  constructor
  case drawn =>
    intro kind k id token htoken
    rw [hdrawn]
    exact h.drawn kind k id token ((hmem kind k id token).mp htoken)
  case once =>
    intro kind k id token kind' k' id' htoken htoken'
    exact h.once kind k id token kind' k' id' ((hmem kind k id token).mp htoken) ((hmem kind' k' id' token).mp htoken')
  case source =>
    intro kind row hrow
    obtain ⟨k, hk⟩ := h.source kind row (hdb.tokens kind row hrow)
    exact ⟨k, (hmem ..).mpr hk⟩
  case checked => exact h.checked_step hmoves
  case user => exact h.user_step hmoves
  case stages => exact h.stages_step hmoves
  case issued =>
    intro kind k id token htoken
    have hchecked := h.issued kind k id token ((hmem kind k id token).mp htoken)
    simp [hchecked]
  case stale =>
    intro kind row k hrow htoken hst u hu
    rw [hdb.users] at hu
    exact h.stale kind row k (hdb.tokens kind row hrow) ((hmem ..).mp htoken) ((hstale k).mp hst) u hu

theorem issued_step {expiresAt : ℤ} (h : Sound es w) (hmoves : Moves w (.issued kind k id token) w') (hr : w.requests k = some r)
    (huser : r.stage.userID = some id) (hfresh : token ∉ w.drawn) (hdrawn : w'.drawn = token :: w.drawn)
    (hdb : w.db.Issued kind ⟨token, id, expiresAt⟩ w'.db) (hcareful : Careful es w (.issued kind k id token)) :
    Sound (es ++ [.issued kind k id token]) w' := by
  have hnew (kind' : Kind) (k' : ℕ) (id' : ℤ) : .issued kind' k' id' token ∉ es := fun hmem => hfresh (h.drawn kind' k' id' token hmem)
  have hstale (j : ℕ) : Stale (es ++ [.issued kind k id token]) j ↔ Stale es j := by
    rw [stale_append]
    apply or_iff_left
    rintro ⟨id', heq, -⟩
    cases heq
  have hmem (kind' : Kind) (k' : ℕ) (id' : ℤ) (token' : String) : .issued kind' k' id' token' ∈ es ++ [.issued kind k id token] ↔
      .issued kind' k' id' token' ∈ es ∨ (kind' = kind ∧ k' = k ∧ id' = id ∧ token' = token) := by
    rw [mem_append, mem_singleton, Event.issued.injEq]
  have hchecked : .checked k id ∈ es := h.stages k r id hr huser
  constructor
  case drawn =>
    intro kind' k' id' token' htoken
    rw [hdrawn, mem_cons]
    rcases (hmem ..).mp htoken with hold | ⟨-, -, -, rfl⟩
    · exact .inr (h.drawn kind' k' id' token' hold)
    · exact .inl rfl
  case once =>
    intro kind₁ k₁ id₁ token' kind₂ k₂ id₂ h₁ h₂
    rcases (hmem ..).mp h₁ with hold₁ | ⟨rfl, rfl, rfl, rfl⟩
    · rcases (hmem ..).mp h₂ with hold₂ | ⟨-, -, -, rfl⟩
      · exact h.once kind₁ k₁ id₁ token' kind₂ k₂ id₂ hold₁ hold₂
      · exact (hnew _ _ _ hold₁).elim
    · rcases (hmem ..).mp h₂ with hold₂ | ⟨rfl, rfl, rfl, -⟩
      · exact (hnew _ _ _ hold₂).elim
      · exact ⟨rfl, rfl, rfl⟩
  case source =>
    intro kind' row hrow
    rcases (hdb.tokens kind' row).mp hrow with hold | ⟨rfl, rfl⟩
    · obtain ⟨k', hk'⟩ := h.source kind' row hold
      exact ⟨k', (hmem ..).mpr (.inl hk')⟩
    · exact ⟨k, (hmem ..).mpr (.inr ⟨rfl, rfl, rfl, rfl⟩)⟩
  case checked => exact h.checked_step hmoves
  case user => exact h.user_step hmoves
  case stages => exact h.stages_step hmoves
  case issued =>
    intro kind' k' id' token' htoken
    rw [mem_append]
    rcases (hmem ..).mp htoken with hold | ⟨-, rfl, rfl, -⟩
    · exact .inl (h.issued kind' k' id' token' hold)
    · exact .inl hchecked
  case stale =>
    intro kind' row k' hrow htoken hst u hu hid
    rw [hdb.users] at hu
    rw [hstale] at hst
    rcases (hmem ..).mp htoken with hold | ⟨rfl, rfl, hrowid, _⟩
    · rcases (hdb.tokens kind' row).mp hrow with hrow | ⟨rfl, rfl⟩
      · exact h.stale kind' row k' hrow hold hst u hu hid
      · exact (hnew _ _ _ hold).elim
    · by_contra hdisabled
      exact hcareful ⟨hst, u, hu, hid.trans hrowid, by simpa using hdisabled⟩

theorem revoked_step (h : Sound es w) (hmoves : Moves w (.revoked id) w') (hdrawn : w'.drawn = w.drawn)
    (hdb : w.db.Revoked id w'.db) : Sound (es ++ [.revoked id]) w' := by
  have hmem (kind : Kind) (k : ℕ) (id' : ℤ) (token : String) :
      .issued kind k id' token ∈ es ++ [.revoked id] ↔ .issued kind k id' token ∈ es := by
    simp
  constructor
  case drawn =>
    intro kind k id' token htoken
    rw [hdrawn]
    exact h.drawn kind k id' token ((hmem ..).mp htoken)
  case once =>
    intro kind k id' token kind' k' id'' htoken htoken'
    exact h.once kind k id' token kind' k' id'' ((hmem ..).mp htoken) ((hmem ..).mp htoken')
  case source =>
    intro kind row hrow
    obtain ⟨k, hk⟩ := h.source kind row (hdb.tokens kind row hrow).1
    exact ⟨k, (hmem ..).mpr hk⟩
  case checked => exact h.checked_step hmoves
  case user => exact h.user_step hmoves
  case stages => exact h.stages_step hmoves
  case issued =>
    intro kind k id' token htoken
    have hchecked := h.issued kind k id' token ((hmem ..).mp htoken)
    simp [hchecked]
  case stale =>
    intro kind row k hrow htoken hst u' hu' hid
    obtain ⟨hold, hother⟩ := hdb.tokens kind row hrow
    have htoken := (hmem ..).mp htoken
    obtain ⟨u, hu, hsame, hkept⟩ := hdb.users u' hu'
    have hne : u.id ≠ id := by
      rw [hsame, hid]
      exact hother
    rw [hkept hne]
    rcases stale_append.mp hst with hst | ⟨_, heq, hchecked⟩
    · exact h.stale kind row k hold htoken hst u hu (hsame.trans hid)
    · cases heq
      exact absurd (h.user k row.userID id (h.issued kind k row.userID row.token htoken) hchecked) hother

theorem step (h : Sound es w) (hstep : Step server w e w') (hcareful : Careful es w e) : Sound (es ++ [e]) w' := by
  have hmoves := moves_step hstep
  cases effect_step hstep with
  | forgot hissued hrevoked hdrawn hdb => exact h.forgot_step hmoves hissued hrevoked hdrawn hdb
  | issued hr huser hfresh hdrawn hdb => exact h.issued_step hmoves hr huser hfresh hdrawn hdb hcareful
  | revoked hdrawn hdb => exact h.revoked_step hmoves hdrawn hdb

end Sound

/-- No token from a credential checked before a revocation is accepted, and no disabled user is. -/
structure Revoked (es : List Event) (w : World) : Prop where
  sessions : ∀ k id token now u, .issued .session k id token ∈ es → Stale es k → w.db.userBySession token now ≠ .ok u
  rememberedLogins : ∀ k id token now u, .issued .remembered k id token ∈ es → Stale es k →
    w.db.userByRememberedLogin token now ≠ .ok u
  enabled : ∀ token now u, w.db.userBySession token now = .ok u → u.disabled = false

theorem Sound.not_accepted (h : Sound es w) (htoken : .issued kind k id token ∈ es) (hst : Stale es k) :
    w.db.userByToken (w.db.tokens kind) token now ≠ .ok u := by
  intro haccepted
  obtain ⟨row, hrow, rfl, hu, hid, hdisabled⟩ := Database.userByToken_ok haccepted
  obtain ⟨k', hk'⟩ := h.source kind row hrow
  obtain ⟨-, rfl, rfl⟩ := h.once _ _ _ _ _ _ _ hk' htoken
  have htrue := h.stale kind row k' hrow htoken hst u hu hid
  rw [hdisabled] at htrue
  cases htrue

theorem Sound.revoked (h : Sound es w) : Revoked es w := by
  constructor
  · intro k id token now u htoken hst
    exact h.not_accepted htoken hst
  · intro k _ token now u htoken hst
    exact h.not_accepted htoken hst
  · intro _ _ u haccepted
    obtain ⟨-, -, -, -, -, hdisabled⟩ := Database.userByToken_ok haccepted
    exact hdisabled

theorem not_revoked (hstep : Step server w e w') (hcareful : ¬ Careful es w e) : ¬ Revoked (es ++ [e]) w' := by
  intro hrevoked
  cases effect_step hstep with
  | forgot hissued =>
    cases e with
    | issued kind k id token => exact hissued kind k id token rfl
    | _ => exact hcareful trivial
  | revoked => exact hcareful trivial
  | @issued kind k id token expiresAt _ w' _ _ _ _ hdb =>
    obtain ⟨hst, u, hu, hid, hdisabled⟩ := not_not.mp hcareful
    have hrow : ⟨token, id, expiresAt⟩ ∈ w'.db.tokens kind := (hdb.tokens kind _).mpr (.inr ⟨rfl, rfl⟩)
    rw [← hdb.users] at hu
    obtain ⟨now, haccepted⟩ := Database.exists_userByToken hrow hu hid hdisabled
    have hst' : Stale (es ++ [.issued kind k id token]) k := stale_append.mpr (.inl hst)
    have hmem : .issued kind k id token ∈ es ++ [.issued kind k id token] := by simp
    cases kind with
    | session => exact hrevoked.sessions k id token now u hmem hst' haccepted
    | remembered => exact hrevoked.rememberedLogins k id token now u hmem hst' haccepted

/-- Where no token was issued after a revocation none of before it is accepted, and the first that is breaks this. -/
theorem revoked_of_careful (hrequests : w.requests = fun _ => none) (hsessions : ∀ row, row ∉ w.db.sessions)
    (hremembered : ∀ row, row ∉ w.db.rememberedLogins) (h : Guarded (Step server) Careful w es w') :
    Revoked es w' ∧ ∀ e w'', Step server w' e w'' → (Revoked (es ++ [e]) w'' ↔ Careful es w' e) := by
  have hstart : Sound [] w := by
    apply Sound.sound_start hrequests
    intro kind
    cases kind with
    | session => exact hsessions
    | remembered => exact hremembered
  have hsound : Sound es w' := h.history hstart fun es t e u hs hcareful hstep => hs.step hstep hcareful
  refine ⟨hsound.revoked, ?_⟩
  intro e _ hstep
  constructor
  · intro hrevoked
    by_contra hcareful
    exact not_revoked hstep hcareful hrevoked
  · intro hcareful
    exact (hsound.step hstep hcareful).revoked

namespace LateLogin

def plain : Server := ⟨fun hash password => hash == password, fun a b => a == b, 12 * 3600 * Time.second⟩

def ada : User := ⟨7, "ada", "correct horse battery", false, false, false⟩

def empty : World := ⟨⟨⟨[ada], by simp⟩, by simp, .empty, .empty⟩, fun _ => none, []⟩

def login (stage : Stage) : Request := ⟨.login "ada" "correct horse battery" false false, none, none, stage⟩

def noon : Time := ⟨1790000000 * Time.second⟩

def arrived : World := empty.put 0 (login .arrived)

def checked : World := arrived.put 0 (login (.checked ada))

def recorded : World := checked.put 0 (login (.recorded ada))

theorem guarded_recorded : Guarded (Step plain) Careful empty ([] ++ [.other] ++ [.checked 0 7] ++ [.other]) recorded := by
  have harrives : Step plain empty .other arrived := .arrives rfl rfl (by decide)
  have hpasses : Step plain arrived (.checked 0 ada.id) checked := by
    refine .passes (r := login .arrived) noon rfl rfl ?_
    decide
  have hrecorded : Step plain checked .other recorded := by
    refine .recorded (r := login (.checked ada)) rfl rfl ?_
    decide
  exact ((Guarded.start.step trivial harrives).step trivial hpasses).step trivial hrecorded

def reset : World := ⟨(empty.db.resetUserPassword "ada" "another horse battery").toOption.getD empty.db, recorded.requests, recorded.drawn⟩

/-- The password is reset while the login with the old one waits to create its session. -/
theorem session_survives : ∃ es w, Execution (Step plain) empty es w ∧ ¬ Revoked es w := by
  have hreset : Step plain recorded (.revoked ada.id) reset :=
    .changes (.resetUserPassword "ada" "another horse battery") rfl rfl
  obtain ⟨db, hdb⟩ : ∃ db, reset.db.createSession "b3RhcnkgYm90dGxl" ada.id ⟨noon.ns + plain.lifetime false⟩ = .ok db := ⟨_, rfl⟩
  have hcreates : ∃ w, Step plain reset (.issued .session 0 ada.id "b3RhcnkgYm90dGxl") w := by
    refine ⟨_, .creates (r := login (.recorded ada)) noon rfl rfl rfl ?_ hdb⟩
    simp [reset, recorded, checked, arrived, empty, World.put]
  obtain ⟨w, hcreates⟩ := hcreates
  refine ⟨_, w, (guarded_recorded.execution.step hreset).step hcreates, ?_⟩
  apply not_revoked hcreates
  intro hcareful
  apply hcareful
  constructor
  · exact ⟨[.other], [.other, .revoked 7], 7, rfl, by simp⟩
  · have huser : ∃ u ∈ reset.db.users.rows, u.id = ada.id ∧ u.disabled = false := by decide
    exact huser

def given : World :=
  ⟨(recorded.db.createSession "aG9yc2UgYmF0dGVy" 7 ⟨noon.ns + plain.lifetime false⟩).toOption.getD empty.db,
    (recorded.put 0 (login (.issued ada "aG9yc2UgYmF0dGVy"))).requests, ["aG9yc2UgYmF0dGVy"]⟩

def ended : World :=
  ⟨(given.db.resetUserPassword "ada" "another horse battery").toOption.getD empty.db, given.requests, given.drawn⟩

theorem session_ends : ∃ es, .issued .session 0 7 "aG9yc2UgYmF0dGVy" ∈ es ∧ Stale es 0 ∧ Revoked es ended ∧
    ∀ e w', Step plain ended e w' → (Revoked (es ++ [e]) w' ↔ Careful es ended e) := by
  have hcreates : Step plain recorded (.issued .session 0 ada.id "aG9yc2UgYmF0dGVy") given := by
    refine .creates (r := login (.recorded ada)) noon rfl rfl rfl ?_ rfl
    simp [recorded, checked, arrived, empty, World.put]
  have hfirst : Careful ([] ++ [.other] ++ [.checked 0 7] ++ [.other]) recorded (.issued .session 0 ada.id "aG9yc2UgYmF0dGVy") := by
    rintro ⟨hst, -⟩
    obtain ⟨_, -, hrevoked⟩ := hst.checked
    simp at hrevoked
  have hreset : Step plain given (.revoked ada.id) ended := .changes (.resetUserPassword "ada" "another horse battery") rfl rfl
  have hsecond (es : List Event) : Careful es given (.revoked ada.id) := trivial
  have hrun := (guarded_recorded.step hfirst hcreates).step (hsecond _) hreset
  refine ⟨_, by simp, ⟨[.other], [.other, .issued .session 0 7 "aG9yc2UgYmF0dGVy", .revoked 7], 7, rfl, by simp⟩, ?_⟩
  exact revoked_of_careful rfl (by simp [empty]) (by simp [empty]) hrun

end LateLogin

end WorkAgent.Accounts
