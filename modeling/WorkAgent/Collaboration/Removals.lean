import WorkAgent.Collaboration.Ownership

namespace WorkAgent.Collaboration

open Library Table
open Quota (Time)

structure Leaving (s : Store) (m : MemberRow) : Prop where
  row : m ∈ s.members
  role : m.role = .member
  state : m.state = .removalPending
  launched : ∃ p, s.project m.projectID = some p ∧ Launched p

section Steps

variable {env : Env} {op : Op} {a : Option Outcome} {s t : Store} {m : MemberRow}

theorem MemberEffect.leaving (h : MemberEffect env s t op a) (hm : Leaving s m) :
    m ∈ t.members ∨ (op.FinishesRemoval m.projectID m.userID ∧ ∃ x, a = some (.ok x)) := by
  cases h.change with
  | created => exact .inl (LeavingKept.insert _ m hm.row hm.state)
  | moved _ _ _ _ _ _ _ _ _ hmembers | rows _ _ _ _ _ hmembers | link _ _ _ _ hmembers => exact .inl (hmembers m hm.row hm.state)
  | deleted _ _ _ _ _ hp hl hdelete =>
    simp only [Store.deleteProject, bind_eq_ok, pure_eq_ok] at hdelete
    obtain ⟨u, hu, rfl⟩ := hdelete
    obtain ⟨-, rfl⟩ := Store.deleteConversations_eq_ok hu
    refine .inl (mem_delete.mpr ⟨hm.row, ?_⟩)
    intro hid
    obtain ⟨q, hq, hlaunched⟩ := hm.launched
    obtain ⟨hpmem, -⟩ := find?_eq_some.mp hp
    obtain ⟨hqmem, hqid⟩ := find?_eq_some.mp hq
    exact hl (eq_of_key hqmem hpmem (hqid.trans hid) ▸ hlaunched)
  | provisioned | updated => exact .inl hm.row
  | removal _ _ _ hmembers => exact (hmembers m hm.row).imp_right (fun h => ⟨h, _, rfl⟩)

theorem Effect.leaving (h : Effect env op a s t) (hm : Leaving s m) :
    Leaving t m ∨ (op.FinishesRemoval m.projectID m.userID ∧ ∃ x, a = some (.ok x)) := by
  obtain ⟨p, hp, hl⟩ := hm.launched
  have hlaunched := h.later.launched _ p hp hl
  have hrow (hrow : m ∈ t.members) : Leaving t m := ⟨hrow, hm.role, hm.state, hlaunched⟩
  cases h with
  | same h => exact .inl (h ▸ hm)
  | member h => exact (h.leaving hm).imp_left hrow
  | invite h => exact .inl (hrow (h.frame.1.2.1 ▸ hm.row))
  | conversation h | run h | task h => exact .inl (hrow (h.frame.1.members ▸ hm.row))

end Steps

def NotFinished (projectID : String) (userID : ℤ) (d e : Config Store Call Outcome) : Prop :=
  ∀ l, e.returned = l ++ d.returned → ∀ i x, (i, .ok x) ∈ l → ¬ i.op.FinishesRemoval projectID userID

theorem NotFinished.before {projectID : String} {userID : ℤ} {d e f : Config Store Call Outcome}
    (h : NotFinished projectID userID d f) (hs : e.returned <:+ f.returned) : NotFinished projectID userID d e := by
  obtain ⟨l, hl⟩ := hs
  intro l' hl' i x hmem
  refine h (l ++ l') ?_ i x (List.mem_append_right l hmem)
  rw [← hl, hl', List.append_assoc]

theorem leaving_run {m : MemberRow} {d e : Config Store Call Outcome} (hd : system.Reachable d)
    (hm : Leaving d.store m) (hrun : system.Run d e) (hopen : NotFinished m.projectID m.userID d e) :
    Leaving e.store m := by
  induction hrun with
  | refl => exact hm
  | @tail _ _ hde hstep ih =>
    have hbefore := ih (hopen.before hstep.returned_suffix)
    have hmoves := labelled.moves (hd.run hde) hstep
    cases hmoves with
    | start _ _ hstore => exact hstore.symm ▸ hbefore
    | middle _ h =>
      rcases h.leaving hbefore with hm' | ⟨-, x, hx⟩
      · exact hm'
      · cases hx
    | last i _ h _ _ hret =>
      rcases h.leaving hbefore with hm' | ⟨hfin, x, hx⟩
      · exact hm'
      · obtain ⟨l, hl⟩ := System.Run.returned_suffix hde
        cases hx
        refine absurd hfin (hopen ((i, .ok x) :: l) ?_ i x List.mem_cons_self)
        rw [hret, ← hl, List.cons_append]
    | restart h =>
      obtain ⟨_, h⟩ := h
      obtain ⟨hsame, -, -⟩ := Store.reopened_frame h
      refine ⟨hsame.members ▸ hbefore.row, hbefore.role, hbefore.state, ?_⟩
      rw [Store.project, hsame.projects]
      exact hbefore.launched

theorem leaving_begun {env : Env} {id : String} {requester target : ℤ} {x : Answer} {s t : Store}
    (h : Effect env (.beginMemberRemoval id requester target) (some (.ok x)) s t) :
    ∃ m, m.projectID = id ∧ m.userID = target ∧ Leaving t m := by
  have hlater := h.later
  cases h with
  | same _ ha => exact absurd trivial (ha x rfl)
  | member h =>
    cases h with
    | beginMemberRemoval _ _ _ _ h =>
      obtain ⟨p, m₀, hp, hmay, hm, hrole, hstate, rfl⟩ := beginMemberRemoval_eq_ok h
      obtain ⟨hmem, hkey⟩ := find?_eq_some.mp hm
      simp only [MemberRow.key, Prod.mk.injEq] at hkey
      refine ⟨{ m₀ with state := .removalPending }, hkey.1, hkey.2, ?_, hrole, rfl, ?_⟩
      · exact mem_update_of_pos hmem ⟨hkey.1, hkey.2, hstate⟩
      · dsimp only
        rw [hkey.1]
        exact hlater.launched _ p hp (launched_of_active hmay.1)
  | invite h =>
    cases h with
    | expire _ _ _ hop => exact absurd trivial hop
  | conversation h =>
    cases h with
    | create _ _ _ _ hop => cases hop
    | seedAssistant _ _ _ hop | seedSession _ _ _ _ _ hop | inviteAssistant _ _ _ hop | updateAssistant _ _ _ _ _ _ hop
    | updateModels _ _ _ _ _ _ hop => exact absurd trivial hop
  | run h =>
    cases h with
    | reserve _ _ _ _ _ _ hid => cases hid
  | task h => cases h

def Succeeds (p : Action Answer) (s : Store) : Prop := ∃ x, (p.run s).1 = .ok x

theorem authorizeMemberRemoval_eq_ok {s : Store} {id : String} {requester target : ℤ} :
    s.authorizeMemberRemoval id requester target = .ok () ↔
      ∃ p, s.project id = some p ∧ Store.MayRemove p requester target := by
  simp only [Store.authorizeMemberRemoval, bind_eq_ok, orError_eq_ok, require_eq_ok]

theorem run_query_andThen {α β : Type} {f : Store → Except Error α} {g : α → Action β} {s : Store} {x : β}
    {t : Store} : ((query f).andThen g).run s = (.ok x, t) ↔ ∃ a, f s = .ok a ∧ (g a).run s = (.ok x, t) := by
  simp only [query, Prog.andThen, Prog.run_bind, Prog.read, Prog.run_step, Prog.run_ret, id]
  cases f s with
  | error | ok => simp

theorem run_answer_transaction {α : Type} {body : Store → Except Error (α × Store)} {mk : α → Answer} {s t : Store}
    {x : Answer} : (answer (Prog.transaction body) mk).run s = (.ok x, t) ↔ ∃ a, body s = .ok (a, t) ∧ x = mk a := by
  simp only [answer, Prog.andThen, Prog.run_bind]
  cases h : body s with
  | error => simp [Prog.run_transaction_error h]
  | ok y =>
    obtain ⟨a, u⟩ := y
    simp only [Prog.run_transaction_ok h, Prog.run_ret, Prod.mk.injEq, Except.ok.injEq]
    constructor
    · rintro ⟨rfl, rfl⟩
      exact ⟨a, ⟨rfl, rfl⟩, rfl⟩
    · rintro ⟨b, ⟨rfl, rfl⟩, rfl⟩
      exact ⟨rfl, rfl⟩

theorem succeeds_iff {p : Action Answer} {s : Store} : Succeeds p s ↔ ∃ x t, p.run s = (.ok x, t) := by
  constructor
  · rintro ⟨x, hx⟩
    exact ⟨x, (p.run s).2, by rw [← hx]⟩
  · rintro ⟨x, t, h⟩
    exact ⟨x, by rw [h]⟩

section Finish

variable {s : Store} {m : MemberRow}

theorem leaving_row (hm : Leaving s m) : ∃ r ∈ s.members,
    r.projectID = m.projectID ∧ r.userID = m.userID ∧ r.role = .member ∧ r.state = .removalPending :=
  ⟨m, hm.row, rfl, rfl, hm.role, hm.state⟩

theorem member_key_of {id : String} {user : ℤ} (r : MemberRow)
    (h : r.projectID = id ∧ r.userID = user ∧ r.role = .member ∧ r.state = .removalPending) : r.key = (id, user) := by
  rw [MemberRow.key, h.1, h.2.1]

theorem succeeds_completeMemberRemoval (hm : Leaving s m) (requester : ℤ) :
    Succeeds (completeMemberRemoval m.projectID requester m.userID) s ↔
      ∃ p, s.project m.projectID = some p ∧ Store.MayRemove p requester m.userID := by
  rw [← authorizeMemberRemoval_eq_ok, succeeds_iff]
  simp only [completeMemberRemoval, run_query_andThen, write, run_answer_transaction]
  constructor
  · rintro ⟨_, _, _, hauth, -⟩
    exact hauth
  · intro hauth
    have hwrite : ∃ t, s.completeMemberRemoval m.projectID m.userID = .ok ((), t) := by
      simp only [Store.completeMemberRemoval, bind_eq_ok, deleteOne_eq_ok, pure_eq_ok, Prod.mk.injEq]
      exact ⟨_, _, ⟨(count_eq_one member_key_of).mpr (leaving_row hm), rfl⟩, trivial, rfl⟩
    obtain ⟨t, ht⟩ := hwrite
    exact ⟨.done, t, (), hauth, (), ht, rfl⟩

theorem succeeds_abortMemberRemoval (hm : Leaving s m) (requester : ℤ) :
    Succeeds (abortMemberRemoval m.projectID requester m.userID) s ↔
      ∃ p, s.project m.projectID = some p ∧ Store.MayRemove p requester m.userID := by
  rw [← authorizeMemberRemoval_eq_ok, succeeds_iff]
  simp only [abortMemberRemoval, run_query_andThen, write, run_answer_transaction]
  constructor
  · rintro ⟨_, _, _, hauth, -⟩
    exact hauth
  · intro hauth
    have hwrite : ∃ t, s.abortMemberRemoval m.projectID m.userID = .ok ((), t) := by
      simp only [Store.abortMemberRemoval, bind_eq_ok, updateOne_eq_ok, pure_eq_ok, Prod.mk.injEq]
      exact ⟨_, _, ⟨(count_eq_one member_key_of).mpr (leaving_row hm), rfl⟩, trivial, rfl⟩
    obtain ⟨t, ht⟩ := hwrite
    exact ⟨.done, t, (), hauth, (), ht, rfl⟩

theorem mayRemove_leaving (hs : Ownership s) (hm : Leaving s m) {p : ProjectRow}
    (hp : s.project m.projectID = some p) (requester : ℤ) : Store.MayRemove p requester m.userID ↔
      p.state = .active ∧ (requester = p.ownerUserID ∨ requester = m.userID) := by
  obtain ⟨hmem, hid⟩ := find?_eq_some.mp hp
  have hne : m.userID ≠ p.ownerUserID := by
    intro heq
    obtain ⟨r, hr, hproject, huser, hrole, -⟩ := (hs.owned p hmem).owner
    have hkey : r.key = m.key := by
      rw [MemberRow.key, MemberRow.key, hproject, huser, hid, heq]
    have hrm := eq_of_key hr hm.row hkey
    rw [hrm, hm.role] at hrole
    cases hrole
  simp only [Store.MayRemove, hne, ne_eq, not_false_eq_true, true_and]

end Finish

/-- From the moment the removal has begun, and until a call has finished it or undone it, both calls of the
requester succeed exactly where the project is active and the requester still is its owner or the member. -/
theorem removal_finishable_iff {c d e : Config Store Call Outcome} (hc : system.Reachable c)
    (hstep : system.Step c d) {i : Call} {x : Answer} {projectID : String} {requester target : ℤ}
    (hop : i.op = .beginMemberRemoval projectID requester target) (hbegun : d.returned = (i, .ok x) :: c.returned)
    (hrun : system.Run d e) (hopen : NotFinished projectID target d e) :
    (Succeeds (completeMemberRemoval projectID requester target) e.store ↔
      ∃ p, e.store.project projectID = some p ∧ p.state = .active ∧
        (requester = p.ownerUserID ∨ requester = target)) ∧
    (Succeeds (abortMemberRemoval projectID requester target) e.store ↔
      ∃ p, e.store.project projectID = some p ∧ p.state = .active ∧
        (requester = p.ownerUserID ∨ requester = target)) := by
  have hd : system.Reachable d := hc.run (Relation.ReflTransGen.single hstep)
  have hbegin : Effect i.env i.op (some (.ok x)) c.store d.store := by
    have hmoves := labelled.moves hc hstep
    cases hmoves with
    | start _ _ _ _ hret | middle _ _ _ _ hret | restart _ _ hret => exact absurd (congrArg List.length (hret.symm.trans hbegun)) (by simp)
    | last _ _ h _ _ hret =>
      have heq := hret.symm.trans hbegun
      simp only [List.cons.injEq, Prod.mk.injEq, and_true] at heq
      obtain ⟨rfl, rfl⟩ := heq
      exact h
  rw [hop] at hbegin
  obtain ⟨m, rfl, rfl, hm⟩ := leaving_begun hbegin
  have hleaving := leaving_run hd hm hrun hopen
  have hmay : (∃ p, e.store.project m.projectID = some p ∧ Store.MayRemove p requester m.userID) ↔
      ∃ p, e.store.project m.projectID = some p ∧ p.state = .active ∧
        (requester = p.ownerUserID ∨ requester = m.userID) := by
    refine exists_congr (fun p => and_congr_right (fun hp => ?_))
    exact mayRemove_leaving (ownership_reachable (hd.run hrun)) hleaving hp requester
  exact ⟨(succeeds_completeMemberRemoval hleaving requester).trans hmay,
    (succeeds_abortMemberRemoval hleaving requester).trans hmay⟩

namespace RemovalExample

open OwnershipExample (env reached reachable_reached)

def joined : List Op :=
  [.createProject "project-000000001" 1 "S-1-5-1" "Project", .setProvisioningResult "project-000000001" true,
    .createInvite ⟨"invite-0000000001", "project-000000001", 1, 2, "S-1-5-2", ⟨1000000000000⟩⟩,
    .beginInviteAcceptance "invite-0000000001" 2, .completeInviteAcceptance "invite-0000000001" 2]

def removing : Call := ⟨5, env, 1, .beginMemberRemoval "project-000000001" 1 2⟩

def archiving : Call := ⟨6, env, 1, .archiveProject "project-000000001" 1⟩

def begun : Config Store Call Outcome := system.after (reached joined) [removing]

def archived : Config Store Call Outcome := system.after begun [archiving]

def removed : MemberRow := ⟨"project-000000001", 2, "S-1-5-2", .member, .removalPending, false, 0⟩

theorem begun_step : ∃ c, system.Reachable c ∧ system.Step c begun ∧
    begun.returned = (removing, .ok (.member removed)) :: c.returned := by
  have hjoined : system.Reachable (reached joined) := reachable_reached (by decide)
  have hallowed : Admitted (reached joined).started (reached joined).returned removing := by
    have hall := allowedAll_of_plain (c := reached joined) (l := [removing]) (by decide) (by decide)
      (by decide)
    exact hall.1
  have hsingle : (system.prog removing).Single := by
    change (answer (.transaction (fun s => s.beginMemberRemoval "project-000000001" 1 2)) .member).Single
    exact (Prog.single_transaction _).andThen (fun m => .ok (Answer.member m))
  obtain ⟨c, hrun, -, hret, hstep⟩ := System.Run.single (s := (reached joined).store) hallowed hsingle
  refine ⟨c, hjoined.run hrun, hstep, ?_⟩
  rw [hret]
  rfl

theorem begun_archived : system.Run begun archived := by
  refine System.Run.after rfl (allowedAll_of_plain ?_ (by decide) (by decide))
  decide

theorem removal_finishable_at_once :
    Succeeds (completeMemberRemoval "project-000000001" 1 2) begun.store ∧
      Succeeds (abortMemberRemoval "project-000000001" 1 2) begun.store := by
  obtain ⟨c, hc, hstep, hret⟩ := begun_step
  have hopen : NotFinished "project-000000001" 2 begun begun := by
    intro l hl i x hmem
    rw [List.self_eq_append_left.mp hl] at hmem
    cases hmem
  have hiff := removal_finishable_iff hc hstep rfl hret Relation.ReflTransGen.refl hopen
  have hactive : ∃ p, begun.store.project "project-000000001" = some p ∧ p.state = .active ∧
      ((1 : ℤ) = p.ownerUserID ∨ (1 : ℤ) = 2) :=
    ⟨⟨"project-000000001", 1, "S-1-5-1", "Project", .active, none, 0, 0⟩, by decide, rfl, .inl rfl⟩
  exact ⟨hiff.1.mpr hactive, hiff.2.mpr hactive⟩

/-- Nobody has finished the removal, and no call of the owner's can any more. -/
theorem removal_stuck : ∃ c, system.Reachable c ∧ system.Step c begun ∧
    begun.returned = (removing, .ok (.member removed)) :: c.returned ∧ system.Run begun archived ∧
    NotFinished "project-000000001" 2 begun archived ∧
    ¬ Succeeds (completeMemberRemoval "project-000000001" 1 2) archived.store ∧
    ¬ Succeeds (abortMemberRemoval "project-000000001" 1 2) archived.store := by
  obtain ⟨c, hc, hstep, hret⟩ := begun_step
  have harchived : archived.returned = [(archiving, .ok .done)] ++ begun.returned := rfl
  have hopen : NotFinished "project-000000001" 2 begun archived := by
    intro l hl i x hmem
    rw [List.append_cancel_right (hl.symm.trans harchived)] at hmem
    cases List.mem_singleton.mp hmem
    exact not_false
  refine ⟨c, hc, hstep, hret, begun_archived, hopen, ?_, ?_⟩
  · rintro ⟨x, hx⟩
    have hrefused : ((completeMemberRemoval "project-000000001" 1 2).run archived.store).1 = .error .forbidden := rfl
    rw [hrefused] at hx
    cases hx
  · rintro ⟨x, hx⟩
    have hrefused : ((abortMemberRemoval "project-000000001" 1 2).run archived.store).1 = .error .forbidden := rfl
    rw [hrefused] at hx
    cases hx

end RemovalExample

end WorkAgent.Collaboration
