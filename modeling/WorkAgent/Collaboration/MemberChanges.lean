import WorkAgent.Collaboration.Frames

namespace WorkAgent.Collaboration

open Library Table
open Quota (Time)

section Launched

def LaunchedKept (projects projects' : Table ProjectRow.id) : Prop :=
  ∀ id p, projects.find? id = some p → Launched p → ∃ q, projects'.find? id = some q ∧ Launched q

variable {projects : Table ProjectRow.id}

theorem LaunchedKept.refl : LaunchedKept projects projects := fun _ p h hl => ⟨p, h, hl⟩

theorem LaunchedKept.insert (p : ProjectRow) : LaunchedKept projects (projects.insertOrIgnore p) :=
  fun _ q h hl => ⟨q, find?_insertOrIgnore_of_some h, hl⟩

theorem LaunchedKept.update {p : ProjectRow → Prop} [DecidablePred p] {f : ProjectRow → ProjectRow}
    (h : ∀ x, p x → Launched x → Launched (f x)) (hf : ∀ r, (f r).id = r.id) :
    LaunchedKept projects (projects.update p f hf) := by
  intro _ x hx hl
  refine ⟨if p x then f x else x, by rw [find?_update, hx, Option.map_some], ?_⟩
  split
  · rename_i hp
    exact h x hp hl
  · exact hl

theorem LaunchedKept.delete {p : ProjectRow → Prop} [DecidablePred p] (h : ∀ x ∈ projects, p x → ¬ Launched x) :
    LaunchedKept projects (projects.delete p) := by
  intro _ x hx hl
  obtain ⟨hmem, rfl⟩ := find?_eq_some.mp hx
  exact ⟨x, find?_eq_some.mpr ⟨mem_delete.mpr ⟨hmem, fun hp => h x hmem hp hl⟩, rfl⟩, hl⟩

end Launched

namespace Store

theorem abortProjectProvisioning_eq_ok {s t : Store} {id : String} {owner : ℤ} {u : Unit}
    (h : s.abortProjectProvisioning id owner = .ok (u, t)) : ∃ p, s.project (trimSpace id) = some p ∧ ¬ Launched p ∧
      s.deleteProject p.id = .ok t := by
  simp only [abortProjectProvisioning, bind_eq_ok, orError_eq_ok, require_eq_ok, pure_eq_ok, Prod.mk.injEq] at h
  obtain ⟨p, hp, -, ⟨-, hstate⟩, _, ht, -, rfl⟩ := h
  refine ⟨p, hp, ?_, ht⟩
  rintro ⟨hprov, hfailed⟩
  exact hstate.elim hprov hfailed

end Store

theorem insertMember_eq_ok {s : Store} {r : MemberRow} {e : Error} {members : Table MemberRow.key}
    (h : s.insertMember r e = .ok members) : (∃ p ∈ s.projects, p.id = r.projectID) ∧
      s.members.find? r.key = none ∧ members = s.members.insertOrIgnore r := by
  simp only [Store.insertMember, insertChecked_eq_ok] at h
  obtain ⟨⟨hp, -, -⟩, hnew, rfl⟩ := h
  exact ⟨hp, hnew, rfl⟩

theorem beginMemberRemoval_eq_ok {s t : Store} {id : String} {requester target : ℤ} {m : MemberRow}
    (h : s.beginMemberRemoval id requester target = .ok (m, t)) : ∃ p m₀, s.project id = some p ∧
      Store.MayRemove p requester target ∧ s.member id target = some m₀ ∧ m₀.role = .member ∧ m₀.state = .accepted ∧
      t = { s with
        members := s.members.update (fun x => x.projectID = id ∧ x.userID = target ∧ x.state = .accepted)
          (fun x => { x with state := .removalPending }) } := by
  simp only [Store.beginMemberRemoval, bind_eq_ok, orError_eq_ok, require_eq_ok, updateOne_eq_ok, pure_eq_ok,
    Prod.mk.injEq] at h
  obtain ⟨p, hp, -, hmay, m₀, hm, -, ⟨hrole, hstate⟩, _, ⟨-, rfl⟩, -, rfl⟩ := h
  exact ⟨p, m₀, hp, hmay, hm, hrole, hstate, rfl⟩

inductive LinkUse (env : Env) (s t : Store) : Op → Option Outcome → Prop
  | begins (token user sid m l) (hl : s.inviteLinks.find? token = some l) (hactive : l.status = .active)
      (hopen : ¬ Store.Expired l.expiresAt (env.now 0))
      (ht : t.inviteLinks = s.inviteLinks.update
        (fun x => x.token = token ∧ x.status = .active ∧ x.useCount = l.useCount)
        (fun x => Store.used x (env.now 0).unixMilli) (by intro x; unfold Store.used; split <;> rfl)) :
      LinkUse env s t (.beginInviteLinkAcceptance token user sid) (some (.ok (.member m)))
  | aborts (token user l) (hl : s.inviteLinks.find? token = some l) (hpos : 0 < l.useCount)
      (ht : t.inviteLinks = s.inviteLinks.update (fun x => x.token = token) Store.restored
        (by intro x; unfold Store.restored; split <;> rfl)) :
      LinkUse env s t (.abortInviteLinkAcceptance token user) (some (.ok .done))

def Op.UsesLink : Op → Prop
  | .beginInviteLinkAcceptance .. | .abortInviteLinkAcceptance .. => True
  | _ => False

def Op.FinishesRemoval (projectID : String) (userID : ℤ) : Op → Prop
  | .completeMemberRemoval id _ target => id = projectID ∧ target = userID
  | .abortMemberRemoval id _ target => id = projectID ∧ target = userID
  | _ => False

def Op.MovesOwnership : Op → Prop
  | .beginOwnershipTransfer .. | .completeOwnershipTransfer .. => True
  | .abortOwnershipTransfer .. | .finalizeOwnershipTransfer .. => True
  | _ => False

def LeavingKept (members members' : Table MemberRow.key) : Prop :=
  ∀ m ∈ members, m.state = .removalPending → m ∈ members'

section Leaving

variable {members : Table MemberRow.key} {p : MemberRow → Prop} [DecidablePred p]

theorem LeavingKept.refl : LeavingKept members members := fun _ hm _ => hm

theorem LeavingKept.insert (r : MemberRow) : LeavingKept members (members.insertOrIgnore r) :=
  fun _ hm _ => mem_insertOrIgnore.mpr (.inl hm)

theorem LeavingKept.update {f : MemberRow → MemberRow} {hf : ∀ r, (f r).key = r.key}
    (h : ∀ m, p m → m.state ≠ .removalPending) : LeavingKept members (members.update p f hf) :=
  fun m hm hs => mem_update_of_neg hm (fun hp => h m hp hs) hf

theorem LeavingKept.delete (h : ∀ m, p m → m.state ≠ .removalPending) : LeavingKept members (members.delete p) :=
  fun m hm hs => mem_delete.mpr ⟨hm, fun hp => h m hp hs⟩

end Leaving

structure SameOwner (p q : ProjectRow) : Prop where
  id : q.id = p.id
  owner : q.ownerUserID = p.ownerUserID
  pendingOwner : q.pendingOwnerUserID = p.pendingOwnerUserID
  state : q.state = .transferPending ↔ p.state = .transferPending

/-- Members come and go without a change of owner: new ones are plain, the accepted stay but for plain members of an active project. -/
structure Staff (s : Store) (members : Table MemberRow.key) : Prop where
  kept : ∀ m ∈ s.members, m.state = .accepted →
    (∃ m' ∈ members, m'.projectID = m.projectID ∧ m'.userID = m.userID ∧ m'.role = m.role ∧ m'.state = .accepted) ∨
      (m.role = .member ∧ ∃ p ∈ s.projects, p.id = m.projectID ∧ p.state = .active)
  back : ∀ m' ∈ members, (∃ m ∈ s.members, m.projectID = m'.projectID ∧ m.userID = m'.userID ∧ m.role = m'.role) ∨
    ((∃ p ∈ s.projects, p.id = m'.projectID) ∧ m'.role = .member)

section Staff

variable {s : Store} {p : MemberRow → Prop} [DecidablePred p]

theorem Staff.refl : Staff s s.members :=
  ⟨fun m hm hstate => .inl ⟨m, hm, rfl, rfl, rfl, hstate⟩, fun m hm => .inl ⟨m, hm, rfl, rfl, rfl⟩⟩

theorem Staff.update {f : MemberRow → MemberRow} {hf : ∀ r, (f r).key = r.key}
    (hstate : ∀ m ∈ s.members, p m → m.state = .accepted → (f m).state = .accepted ∨
      (m.role = .member ∧ ∃ q ∈ s.projects, q.id = m.projectID ∧ q.state = .active))
    (hsame : ∀ m, (f m).projectID = m.projectID ∧ (f m).userID = m.userID ∧ (f m).role = m.role := by exact fun _ => ⟨rfl, rfl, rfl⟩) :
    Staff s (s.members.update p f hf) := by
  constructor
  · intro m hm haccepted
    obtain ⟨hproject, huser, hrole⟩ := hsame m
    by_cases hpm : p m
    · exact (hstate m hm hpm haccepted).imp_left fun hacc => ⟨f m, mem_update_of_pos hm hpm hf, hproject, huser, hrole, hacc⟩
    · exact .inl ⟨m, mem_update_of_neg hm hpm hf, rfl, rfl, rfl, haccepted⟩
  · intro m' hm'
    obtain ⟨m, hm, -, ⟨-, rfl⟩ | ⟨-, rfl⟩⟩ := exists_of_mem_update hm'
    · obtain ⟨hproject, huser, hrole⟩ := hsame m
      exact .inl ⟨m, hm, hproject.symm, huser.symm, hrole.symm⟩
    · exact .inl ⟨m', hm, rfl, rfl, rfl⟩

theorem Staff.delete (hstate : ∀ m, p m → m.state ≠ .accepted) : Staff s (s.members.delete p) := by
  constructor
  · intro m hm haccepted
    exact .inl ⟨m, mem_delete.mpr ⟨hm, fun hpm => hstate m hpm haccepted⟩, rfl, rfl, rfl, haccepted⟩
  · exact fun m hm => .inl ⟨m, (mem_delete.mp hm).1, rfl, rfl, rfl⟩

theorem Staff.insert {r : MemberRow} (hproject : ∃ p ∈ s.projects, p.id = r.projectID) (hrole : r.role = .member) :
    Staff s (s.members.insertOrIgnore r) := by
  constructor
  · intro m hm haccepted
    exact .inl ⟨m, mem_insertOrIgnore.mpr (.inl hm), rfl, rfl, rfl, haccepted⟩
  · intro m hm
    rcases mem_insertOrIgnore.mp hm with hm | ⟨rfl, -⟩
    · exact .inl ⟨m, hm, rfl, rfl, rfl⟩
    · exact .inr ⟨hproject, hrole⟩

end Staff

/-- What an effect on projects and members makes of the store `s`, as far as it does not depend on who may do it. -/
inductive MemberChange (env : Env) (s : Store) : Store → Op → Option Outcome → Prop
  | created (id owner sid name a) (hnew : s.projects.find? (trimSpace id) = none)
      (hnone : s.members.find? (⟨trimSpace id, owner, sid, .owner, .accepted, false, env.stamp 0⟩ : MemberRow).key = none) :
      MemberChange env s { s with
        projects := s.projects.insertOrIgnore
          ⟨trimSpace id, owner, sid, trimSpace name, .provisioning, none, env.stamp 0, env.stamp 0⟩
        members := s.members.insertOrIgnore ⟨trimSpace id, owner, sid, .owner, .accepted, false, env.stamp 0⟩ }
        (.createProject id owner sid name) a
  | deleted (id owner a p t) (hp : s.project (trimSpace id) = some p) (hl : ¬ Launched p)
      (h : s.deleteProject p.id = .ok t) : MemberChange env s t (.abortProjectProvisioning id owner) a
  | provisioned (id active a) :
      MemberChange env s { s with
        projects := s.projects.update (fun p => p.id = trimSpace id ∧ p.state = .provisioning)
          (fun p => { p with state := if active then .active else .failed, updatedAt := env.stamp 0 }) }
        (.setProvisioningResult id active) a
  | updated (op a) (p : ProjectRow → Prop) [DecidablePred p] (f) (hf : ∀ r : ProjectRow, (f r).id = r.id)
      (hop : ¬ op.UsesLink) (hsid : ∀ x, p x → (f x).ownerSID = x.ownerSID)
      (hsame : ∀ x, p x → SameOwner x (f x))
      (hlaunched : ∀ x, p x → (Launched (f x) ↔ Launched x)) :
      MemberChange env s { s with projects := s.projects.update p f hf } op a
  | moved (op a) (p : ProjectRow → Prop) [DecidablePred p] (f) (hf : ∀ r : ProjectRow, (f r).id = r.id) (members transfers)
      (hop : op.MovesOwnership) (hlaunched : ∀ x, Launched x → Launched (f x)) (hmembers : LeavingKept s.members members) :
      MemberChange env s { s with projects := s.projects.update p f hf, members, transfers } op a
  | rows (op a members invites) (hop : ¬ op.UsesLink) (hmembers : LeavingKept s.members members) (hstaff : Staff s members)
      (hinvites : ∀ i' ∈ invites, ∃ i ∈ s.invites, i.projectID = i'.projectID) :
      MemberChange env s { s with members, invites } op a
  | removal (op members) (hop : ¬ op.UsesLink)
      (hmembers : ∀ m ∈ s.members, m ∈ members ∨ op.FinishesRemoval m.projectID m.userID) (hstaff : Staff s members) :
      MemberChange env s { s with members } op (some (.ok .done))
  | link (op a members inviteLinks) (hmembers : LeavingKept s.members members) (hstaff : Staff s members)
      (huse : LinkUse env s { s with members, inviteLinks } op a) :
      MemberChange env s { s with members, inviteLinks } op a

section Change

variable {env : Env} {op : Op} {a : Option Outcome} {s t : Store}

theorem invites_kept : ∀ i' ∈ s.invites, ∃ i ∈ s.invites, i.projectID = i'.projectID := fun i hi => ⟨i, hi, rfl⟩

theorem invites_updated {p : InviteRow → Prop} [DecidablePred p] {f : InviteRow → InviteRow}
    (hproject : ∀ i, (f i).projectID = i.projectID := by intro i; cases i; rfl)
    (hf : ∀ r, (f r).id = r.id := by intro r; cases r; rfl) :
    ∀ i' ∈ s.invites.update p f hf, ∃ i ∈ s.invites, i.projectID = i'.projectID := by
  intro i' hi'
  obtain ⟨i, hi, -, ⟨-, rfl⟩ | ⟨-, rfl⟩⟩ := exists_of_mem_update hi'
  · exact ⟨i, hi, (hproject i).symm⟩
  · exact ⟨i', hi, rfl⟩

theorem MemberEffect.change (h : MemberEffect env s t op a) : MemberChange env s t op a := by
  cases h with
  | createProject id owner sid name a h =>
    simp only [Store.createProject, bind_eq_ok, insertChecked_eq_ok, pure_eq_ok, Prod.mk.injEq] at h
    obtain ⟨_, ⟨-, hnew, rfl⟩, _, hmembers, -, rfl⟩ := h
    obtain ⟨-, hnone, rfl⟩ := insertMember_eq_ok hmembers
    exact .created id owner sid name a hnew hnone
  | setProvisioningResult id active a h =>
    simp only [Store.setProvisioningResult, bind_eq_ok, updateOne_eq_ok, pure_eq_ok, Prod.mk.injEq] at h
    obtain ⟨_, ⟨-, rfl⟩, -, rfl⟩ := h
    exact .provisioned id active a
  | abortProjectProvisioning id owner a h =>
    obtain ⟨p, hp, hl, h⟩ := Store.abortProjectProvisioning_eq_ok h
    exact .deleted id owner a p t hp hl h
  | renameProject _ _ _ a h =>
    simp only [Store.renameProject, bind_eq_ok, updateOne_eq_ok, pure_eq_ok, Prod.mk.injEq] at h
    obtain ⟨_, ⟨-, rfl⟩, -, rfl⟩ := h
    exact .updated _ a _ _ _ not_false (fun _ _ => rfl) (fun _ _ => ⟨rfl, rfl, rfl, Iff.rfl⟩) (fun _ _ => Iff.rfl)
  | setHidden _ _ _ a h =>
    simp only [Store.setHidden, bind_eq_ok, updateOne_eq_ok, pure_eq_ok, Prod.mk.injEq] at h
    obtain ⟨_, ⟨-, rfl⟩, -, rfl⟩ := h
    exact .rows _ a _ _ not_false (.update fun m hp hs => by cases hp.2.2.symm.trans hs) (.update fun _ _ _ hs => .inl hs) invites_kept
  | archiveProject _ _ a h =>
    simp only [Store.archiveProject, bind_eq_ok, updateOne_eq_ok, pure_eq_ok, Prod.mk.injEq] at h
    obtain ⟨_, ⟨-, rfl⟩, -, rfl⟩ := h
    refine .updated _ a _ _ _ not_false (fun _ _ => rfl) ?_ ?_
    · rintro x ⟨-, -, hstate⟩
      exact ⟨rfl, rfl, rfl, by simp [hstate]⟩
    · rintro x ⟨-, -, hstate⟩
      simp [Launched, hstate]
  | beginInviteAcceptance _ _ _ a h =>
    simp only [Store.beginInviteAcceptance, bind_eq_ok] at h
    obtain ⟨⟨i, p⟩, -, _, -, _, -, _, -, h⟩ := h
    split at h
    · cases h
      exact .rows _ a _ _ not_false .refl .refl invites_updated
    · simp only [bind_eq_ok, updateOne_eq_ok, pure_eq_ok, Prod.mk.injEq] at h
      obtain ⟨_, hmembers, _, ⟨-, rfl⟩, -, rfl⟩ := h
      obtain ⟨hp, -, rfl⟩ := insertMember_eq_ok hmembers
      exact .rows _ a _ _ not_false (.insert _) (.insert hp rfl) invites_updated
  | completeInviteAcceptance _ _ _ a h =>
    simp only [Store.completeInviteAcceptance, bind_eq_ok, updateOne_eq_ok, pure_eq_ok, Prod.mk.injEq] at h
    obtain ⟨i, -, _, -, _, ⟨-, rfl⟩, _, ⟨-, rfl⟩, -, rfl⟩ := h
    exact .rows _ a _ _ not_false (.update fun m hp hs => by cases hp.2.2.symm.trans hs) (.update fun _ _ _ _ => .inl rfl) invites_updated
  | abortInviteAcceptance _ _ a h =>
    simp only [Store.abortInviteAcceptance, bind_eq_ok, deleteOne_eq_ok, updateOne_eq_ok, pure_eq_ok,
      Prod.mk.injEq] at h
    obtain ⟨i, -, _, -, _, ⟨-, rfl⟩, _, ⟨-, rfl⟩, -, rfl⟩ := h
    refine .rows _ a _ _ not_false (.delete fun m hp hs => by cases hp.2.2.symm.trans hs)
      (.delete fun m hp hs => by cases hp.2.2.symm.trans hs) (invites_updated ?_ ?_)
    · intro x
      split <;> rfl
    · intro x
      split <;> rfl
  | beginMemberRemoval _ _ _ m h =>
    obtain ⟨p, m₀, hp, hmay, hm, hrole, -, rfl⟩ := beginMemberRemoval_eq_ok h
    obtain ⟨hpmem, hpid⟩ := find?_eq_some.mp hp
    obtain ⟨hmem, hkey⟩ := find?_eq_some.mp hm
    refine .rows _ _ _ _ not_false (.update fun m hp hs => by cases hp.2.2.symm.trans hs) (.update ?_) invites_kept
    rintro x hx ⟨hproject, huser, -⟩ -
    have hxkey : x.key = m₀.key := by
      rw [hkey, MemberRow.key, hproject, huser]
    obtain rfl := eq_of_key hx hmem hxkey
    exact .inr ⟨hrole, p, hpmem, hpid.trans hproject.symm, hmay.1⟩
  | completeMemberRemoval id _ target h =>
    simp only [Store.completeMemberRemoval, bind_eq_ok, deleteOne_eq_ok, pure_eq_ok, Prod.mk.injEq] at h
    obtain ⟨_, ⟨-, rfl⟩, -, rfl⟩ := h
    refine .removal _ _ not_false (fun m hm => ?_) (.delete fun m hp hs => by cases hp.2.2.2.symm.trans hs)
    by_cases hthis : m.projectID = id ∧ m.userID = target
    · exact .inr ⟨hthis.1.symm, hthis.2.symm⟩
    · exact .inl (mem_delete.mpr ⟨hm, fun hp => hthis ⟨hp.1, hp.2.1⟩⟩)
  | abortMemberRemoval id _ target h =>
    simp only [Store.abortMemberRemoval, bind_eq_ok, updateOne_eq_ok, pure_eq_ok, Prod.mk.injEq] at h
    obtain ⟨_, ⟨-, rfl⟩, -, rfl⟩ := h
    refine .removal _ _ not_false (fun m hm => ?_) (.update fun _ _ _ _ => .inl rfl)
    by_cases hthis : m.projectID = id ∧ m.userID = target
    · exact .inr ⟨hthis.1.symm, hthis.2.symm⟩
    · exact .inl (mem_update_of_neg hm (fun hp => hthis ⟨hp.1, hp.2.1⟩))
  | beginOwnershipTransfer _ _ a h =>
    simp only [Store.beginOwnershipTransfer, bind_eq_ok, updateOne_eq_ok, pure_eq_ok, Prod.mk.injEq] at h
    obtain ⟨_, -, _, -, _, -, _, -, _, -, _, -, _, -, _, -, _, ⟨-, rfl⟩, -, rfl⟩ := h
    exact .moved _ a _ _ _ _ _ trivial (fun x _ => ⟨by simp, by simp⟩) .refl
  | completeOwnershipTransfer _ _ a h =>
    simp only [Store.completeOwnershipTransfer, bind_eq_ok, updateOne_eq_ok, pure_eq_ok, Prod.mk.injEq] at h
    obtain ⟨_, -, _, -, _, ⟨-, rfl⟩, _, ⟨-, rfl⟩, _, -, _, ⟨-, rfl⟩, _, -, -, rfl⟩ := h
    refine .moved _ a _ _ _ _ _ trivial (fun x _ => ⟨by simp, by simp⟩) (fun m hm hs => ?_)
    exact LeavingKept.update (fun m hp hs => by cases hp.2.2.2.symm.trans hs) m
      (LeavingKept.update (fun m hp hs => by cases hp.2.2.2.symm.trans hs) m hm hs) hs
  | abortOwnershipTransfer _ a h =>
    simp only [Store.abortOwnershipTransfer, bind_eq_ok, updateOne_eq_ok, pure_eq_ok, Prod.mk.injEq] at h
    obtain ⟨_, -, _, -, _, ⟨-, rfl⟩, _, -, -, rfl⟩ := h
    exact .moved _ a _ _ _ _ _ trivial (fun x _ => ⟨by simp, by simp⟩) .refl
  | finalizeOwnershipTransfer id a h =>
    simp only [Store.finalizeOwnershipTransfer, bind_eq_ok, pure_eq_ok, Prod.mk.injEq] at h
    obtain ⟨transfers, -, -, rfl⟩ := h
    have := @MemberChange.moved env s (.finalizeOwnershipTransfer id) a (fun _ => False) _ (fun x => x) (fun _ => rfl) s.members
      transfers trivial (fun _ hx => hx) .refl
    rwa [update_eq_self (fun _ _ => not_false)] at this
  | beginInviteLinkAcceptance token user sid _ h =>
    simp only [Store.beginInviteLinkAcceptance, bind_eq_ok, orError_eq_ok, require_eq_ok, updateOne_eq_ok,
      pure_eq_ok, Prod.mk.injEq] at h
    obtain ⟨⟨l, p⟩, hlink, -, hrevoked, -, hexhausted, -, -, -, hopen, _, hmembers, _, ⟨-, rfl⟩, -, rfl⟩ := h
    obtain ⟨hp, -, rfl⟩ := insertMember_eq_ok hmembers
    simp only [Store.linkAndProject, Option.bind_eq_bind, Option.bind_eq_some_iff, Option.some.injEq,
      Prod.mk.injEq] at hlink
    obtain ⟨l', hl, _, -, rfl, -⟩ := hlink
    have hactive : l'.status = .active := by
      cases hstatus : l'.status with
      | active => rfl
      | revoked => exact absurd hstatus hrevoked
      | exhausted => exact absurd hstatus hexhausted
    exact .link _ _ _ _ (.insert _) (.insert hp rfl) (.begins token user sid _ l' hl hactive hopen rfl)
  | completeInviteLinkAcceptance _ _ _ a h =>
    simp only [Store.completeInviteLinkAcceptance, bind_eq_ok, updateOne_eq_ok, pure_eq_ok, Prod.mk.injEq] at h
    obtain ⟨_, -, _, ⟨-, rfl⟩, -, rfl⟩ := h
    exact .rows _ a _ _ not_false (.update fun m hp hs => by cases hp.2.2.symm.trans hs) (.update fun _ _ _ _ => .inl rfl) invites_kept
  | abortInviteLinkAcceptance token user h =>
    simp only [Store.abortInviteLinkAcceptance, bind_eq_ok, orError_eq_ok, require_eq_ok, deleteOne_eq_ok,
      updateOne_eq_ok, pure_eq_ok, Prod.mk.injEq] at h
    obtain ⟨l, hl, _, ⟨-, rfl⟩, -, hpos, _, ⟨-, rfl⟩, -, rfl⟩ := h
    exact .link _ _ _ _ (.delete fun m hp hs => by cases hp.2.2.symm.trans hs) (.delete fun m hp hs => by cases hp.2.2.symm.trans hs) (.aborts token user l hl hpos rfl)

def InviteLink.row (l : InviteLink) (stamp : ℤ) : InviteLinkRow :=
  ⟨l.token, l.projectID, l.creatorUserID, l.maxUses, 0, .active, l.expiresAt.unixMilli, stamp, none⟩

inductive LinkWrite (env : Env) (s t : Store) : Op → Prop
  | same (op : Op) (hop : ¬ op.UsesLink) (h : t.inviteLinks = s.inviteLinks) : LinkWrite env s t op
  | create (l : InviteLink) (p) (hp : s.project (trimSpace l.projectID) = some p) (hl : Launched p)
      (hid : ∃ q ∈ s.projects.rows, q.id = l.projectID) (hnew : s.inviteLinks.find? l.token = none)
      (h : t.inviteLinks = s.inviteLinks.insertOrIgnore (l.row (env.stamp 0))) : LinkWrite env s t (.createInviteLink l)
  | revoke (token id owner) (h : t.inviteLinks = s.inviteLinks.update
        (fun l => l.token = token ∧ l.projectID = id ∧ l.creatorUserID = owner ∧ l.status = .active)
        (fun l => { l with status := .revoked, actedAt := some (env.stamp 0) })) :
      LinkWrite env s t (.revokeInviteLink token id owner)

theorem Op.not_usesLink {op : Op} (h : ¬ op.Commits) : ¬ op.UsesLink := by
  cases op <;> first | exact not_false | exact fun _ => h trivial

theorem InviteEffect.change (h : InviteEffect env s t op a) : (∃ invites links, t = { s with invites := invites, inviteLinks := links }) ∧
    (∀ i' ∈ t.invites, (∃ i ∈ s.invites, i.projectID = i'.projectID) ∨ ∃ p ∈ s.projects, p.id = i'.projectID) ∧ LinkWrite env s t op := by
  cases h with
  | expire op _ _ hop h =>
    subst h
    exact ⟨⟨_, _, rfl⟩, forall₂_imp (fun _ _ => .inl) invites_updated, .same op (Op.not_usesLink hop) rfl⟩
  | create _ _ h =>
    simp only [Store.insertInvite, bind_eq_ok, insertChecked_eq_ok, pure_eq_ok, Prod.mk.injEq] at h
    obtain ⟨_, ⟨⟨hp, -⟩, -, rfl⟩, -, rfl⟩ := h
    refine ⟨⟨_, _, rfl⟩, ?_, .same _ not_false rfl⟩
    intro i' hi'
    rcases mem_insertOrIgnore.mp hi' with hi' | ⟨rfl, -⟩
    · exact .inl (invites_kept i' hi')
    · exact .inr hp
  | decline _ _ _ h | revoke _ _ _ h =>
    simp only [Store.declineInvite, Store.revokeInvite, bind_eq_ok, updateOne_eq_ok, pure_eq_ok, Prod.mk.injEq] at h
    obtain ⟨_, ⟨-, rfl⟩, -, rfl⟩ := h
    exact ⟨⟨_, _, rfl⟩, forall₂_imp (fun _ _ => .inl) invites_updated, .same _ not_false rfl⟩
  | createLink l _ p hp hl h =>
    simp only [Store.insertInviteLink, bind_eq_ok, insertChecked_eq_ok, pure_eq_ok, Prod.mk.injEq] at h
    obtain ⟨_, ⟨hid, hnew, rfl⟩, -, rfl⟩ := h
    exact ⟨⟨_, _, rfl⟩, forall₂_imp (fun _ _ => .inl) invites_kept, .create l p hp hl hid hnew rfl⟩
  | revokeLink token id owner _ h =>
    simp only [Store.revokeInviteLink, bind_eq_ok, updateOne_eq_ok, pure_eq_ok, Prod.mk.injEq] at h
    obtain ⟨_, ⟨-, rfl⟩, -, rfl⟩ := h
    exact ⟨⟨_, _, rfl⟩, forall₂_imp (fun _ _ => .inl) invites_kept, .revoke token id owner rfl⟩

theorem InviteEffect.frame (h : InviteEffect env s t op a) :
    (t.projects = s.projects ∧ t.members = s.members ∧ t.transfers = s.transfers) ∧ SameConversations s t ∧
      t.tasks = s.tasks := by
  obtain ⟨⟨_, _, rfl⟩, -⟩ := h.change
  exact ⟨⟨rfl, rfl, rfl⟩, ⟨rfl, rfl, rfl, rfl, rfl, rfl⟩, rfl⟩

end Change

end WorkAgent.Collaboration
