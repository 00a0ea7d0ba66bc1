import WorkAgent.Collaboration.Rooted

namespace WorkAgent.Collaboration

open Library Table
open Quota (Time)

/-- The owner alone can revoke the pending invites and the active links of the project. -/
structure OwnerRevokes (s : Store) (p : ProjectRow) : Prop where
  invite : ∀ i ∈ s.invites, i.projectID = p.id → i.status = .pending → ∀ name env depth user,
    Succeeds (Call.prog ⟨name, env, depth, .revokeInvite i.id user⟩) s ↔ user = p.ownerUserID
  link : ∀ l ∈ s.inviteLinks, l.projectID = p.id → l.status = .active → ∀ name env depth user,
    Succeeds (Call.prog ⟨name, env, depth, .revokeInviteLink l.token p.id user⟩) s ↔ user = p.ownerUserID

section Revoke

variable {s : Store}

theorem write_succeeds {body : Store → Except Error (Unit × Store)} :
    Succeeds (write body) s ↔ ∃ t, body s = .ok ((), t) := by
  rw [succeeds_iff]
  constructor
  · rintro ⟨x, t, h⟩
    obtain ⟨⟨⟩, h, -⟩ := run_answer_transaction.mp h
    exact ⟨t, h⟩
  · rintro ⟨t, h⟩
    exact ⟨.done, t, run_answer_transaction.mpr ⟨(), h, rfl⟩⟩

theorem revokeInvite_succeeds {i : InviteRow} {p : ProjectRow} (hi : i ∈ s.invites) (hp : p ∈ s.projects)
    (hproject : i.projectID = p.id) (hpending : i.status = .pending) (user stamp : ℤ) :
    (∃ t, s.revokeInvite i.id user stamp = .ok ((), t)) ↔ user = p.ownerUserID := by
  constructor
  · rintro ⟨t, h⟩
    simp only [Store.revokeInvite, bind_eq_ok, updateOne_eq_ok] at h
    obtain ⟨_, ⟨hcount, -⟩, -⟩ := h
    obtain ⟨x, hx, hid, -, q, hq, hqid, howner⟩ := (count_eq_one (fun x hx => hx.1)).mp hcount
    obtain rfl := eq_of_key hx hi hid
    obtain rfl := eq_of_key hq hp (hqid.trans hproject)
    exact howner.symm
  · rintro rfl
    refine ⟨_, bind_eq_ok.mpr ⟨_, updateOne_eq_ok.mpr ⟨?_, rfl⟩, rfl⟩⟩
    exact (count_eq_one (fun x hx => hx.1)).mpr ⟨i, hi, rfl, hpending, p, hp, hproject.symm, rfl⟩

theorem revokeInviteLink_succeeds {l : InviteLinkRow} (hl : l ∈ s.inviteLinks) (hactive : l.status = .active)
    (user stamp : ℤ) :
    (∃ t, s.revokeInviteLink l.token l.projectID user stamp = .ok ((), t)) ↔ user = l.creatorUserID := by
  constructor
  · rintro ⟨t, h⟩
    simp only [Store.revokeInviteLink, bind_eq_ok, updateOne_eq_ok] at h
    obtain ⟨_, ⟨hcount, -⟩, -⟩ := h
    obtain ⟨x, hx, htoken, -, hcreator, -⟩ := (count_eq_one (fun x hx => hx.1)).mp hcount
    obtain rfl := eq_of_key hx hl htoken
    exact hcreator.symm
  · rintro rfl
    refine ⟨_, bind_eq_ok.mpr ⟨_, updateOne_eq_ok.mpr ⟨?_, rfl⟩, rfl⟩⟩
    exact (count_eq_one (fun x hx => hx.1)).mpr ⟨l, hl, rfl, rfl, rfl, hactive⟩

end Revoke

/-- A link listens to its creator, and so to the owner as long as the two are one. -/
theorem owner_revokes_iff {c : Config Store Call Outcome} (hc : system.Reachable c) :
    (∀ i ∈ c.store.invites, ∃ p ∈ c.store.projects, p.id = i.projectID) ∧
      (∀ l ∈ c.store.inviteLinks, ∃ p ∈ c.store.projects, p.id = l.projectID) ∧
      ∀ p ∈ c.store.projects, OwnerRevokes c.store p ↔
        ∀ l ∈ c.store.inviteLinks, l.projectID = p.id → l.status = .active → l.creatorUserID = p.ownerUserID := by
  have hrooted := rooted_reachable hc
  refine ⟨hrooted.invite, ?_, ?_⟩
  · intro l hl
    obtain ⟨p, hp, -⟩ := hrooted.link l hl
    exact ⟨p, find?_eq_some.mp hp⟩
  · intro p hp
    have hlink (l : InviteLinkRow) (hl : l ∈ c.store.inviteLinks) (hproject : l.projectID = p.id)
        (hactive : l.status = .active) (name : ℕ) (env : Env) (depth : ℕ) (user : ℤ) :
        Succeeds (Call.prog ⟨name, env, depth, .revokeInviteLink l.token p.id user⟩) c.store ↔
          user = l.creatorUserID :=
      hproject ▸ write_succeeds.trans (revokeInviteLink_succeeds hl hactive user (env.stamp 0))
    constructor
    · intro h l hl hproject hactive
      have env : Env := ⟨fun _ => ⟨0⟩, "", fun _ _ => false, fun _ => false⟩
      have hcreator := (hlink l hl hproject hactive 0 env 0 l.creatorUserID).mpr rfl
      exact (h.link l hl hproject hactive 0 env 0 l.creatorUserID).mp hcreator
    · intro h
      refine ⟨?_, ?_⟩
      · intro i hi hproject hpending name env depth user
        exact write_succeeds.trans (revokeInvite_succeeds hi hp hproject hpending user (env.stamp 0))
      · intro l hl hproject hactive name env depth user
        rw [← h l hl hproject hactive]
        exact hlink l hl hproject hactive name env depth user

namespace DoorsExample

open OwnershipExample (env reached reachable_reached)

def opened : List Op :=
  [.createProject "project-000000001" 1 "S-1-5-1" "Project", .setProvisioningResult "project-000000001" true,
    .createInviteLink ⟨"token-0000000001", "project-000000001", 1, 0, ⟨1000000000000⟩⟩,
    .createInvite ⟨"invite-0000000001", "project-000000001", 1, 2, "S-1-5-2", ⟨1000000000000⟩⟩,
    .beginInviteAcceptance "invite-0000000001" 2, .completeInviteAcceptance "invite-0000000001" 2]

def handedOver : List Op :=
  opened ++ [.beginOwnershipTransfer ⟨"transfer-00000001", "project-000000001", 2, "S-1-5-2"⟩ 1,
    .completeOwnershipTransfer "transfer-00000001"]

def project (owner : ℤ) (sid : String) : ProjectRow :=
  ⟨"project-000000001", owner, sid, "Project", .active, none, 0, 0⟩

def revoking (user : ℤ) : Call := ⟨8, env, 1, .revokeInviteLink "token-0000000001" "project-000000001" user⟩

def link : InviteLinkRow := ⟨"token-0000000001", "project-000000001", 1, 0, 0, .active, 1000000, 0, none⟩

theorem owner_revokes_before_transfer : OwnerRevokes (reached opened).store (project 1 "S-1-5-1") := by
  have hproject : project 1 "S-1-5-1" ∈ (reached opened).store.projects := by
    rw [← mem_rows]
    decide
  have hcreator : ∀ l ∈ (reached opened).store.inviteLinks.rows, l.projectID = "project-000000001" →
      l.status = .active → l.creatorUserID = 1 := by
    decide
  exact ((owner_revokes_iff (reachable_reached (by decide))).2.2 _ hproject).mpr hcreator

/-- The new owner cannot revoke the link of the old one, who can. -/
theorem owner_cannot_revoke : system.Reachable (reached handedOver) ∧
    project 2 "S-1-5-2" ∈ (reached handedOver).store.projects ∧ link ∈ (reached handedOver).store.inviteLinks ∧
    ¬ Succeeds (revoking 2).prog (reached handedOver).store ∧
    Succeeds (revoking 1).prog (reached handedOver).store := by
  refine ⟨reachable_reached (by decide), ?_, ?_, ?_, ?_⟩
  · rw [← mem_rows]
    decide
  · rw [← mem_rows]
    decide
  · rintro ⟨x, hx⟩
    have hrefused : ((revoking 2).prog.run (reached handedOver).store).1 = .error .forbidden := rfl
    rw [hrefused] at hx
    cases hx
  · exact ⟨.done, rfl⟩

end DoorsExample

end WorkAgent.Collaboration
