import Mathlib.Data.List.DropRight
import WorkAgent.Collaboration.Removals

namespace WorkAgent.Collaboration

open Library List Table
open Quota (Time)

theorem trimSpace_trimSpace (text : String) : trimSpace (trimSpace text) = trimSpace text := by
  have hfront : ((text.toList.dropWhile isSpace).reverse.dropWhile isSpace).reverse.dropWhile isSpace =
      ((text.toList.dropWhile isSpace).reverse.dropWhile isSpace).reverse := by
    rw [dropWhile_eq_self_iff]
    intro hpos
    have hprefix : ((text.toList.dropWhile isSpace).reverse.dropWhile isSpace).reverse <+:
        text.toList.dropWhile isSpace := by
      rw [← reverse_suffix, reverse_reverse]
      exact dropWhile_suffix isSpace
    have hlen := Nat.lt_of_lt_of_le hpos hprefix.length_le
    have hget := hprefix.getElem hpos
    have hnot := dropWhile_get_zero_not isSpace text.toList hlen
    rwa [get_eq_getElem, ← hget] at hnot
  have htext : (trimSpace text).toList = ((text.toList.dropWhile isSpace).reverse.dropWhile isSpace).reverse :=
    String.toList_ofList
  rw [trimSpace, htext, hfront, reverse_reverse, dropWhile_idempotent]
  rfl

structure MemberFrame (env : Env) (s t : Store) (op : Op) (a : Option Outcome) : Prop where
  conversations : SameConversations s t
  tasks : t.tasks = s.tasks
  invites : ∀ i' ∈ t.invites, ∃ i ∈ s.invites, i.projectID = i'.projectID
  kept : ∀ p ∈ s.projects, ∃ q ∈ t.projects, q.id = p.id
  ids : ∀ q ∈ t.projects, (∃ p ∈ s.projects, p.id = q.id) ∨ trimSpace q.id = q.id
  links : (t.inviteLinks = s.inviteLinks ∧ ¬ op.UsesLink) ∨ LinkUse env s t op a

section Frame

variable {s : Store}

theorem projects_kept {p : ProjectRow → Prop} [DecidablePred p] {f : ProjectRow → ProjectRow}
    (hf : ∀ r, (f r).id = r.id := by intro r; cases r; rfl) : ∀ x ∈ s.projects, ∃ q ∈ s.projects.update p f hf, q.id = x.id :=
  fun x hx => exists_key_update ⟨x, hx, rfl⟩ hf

theorem projects_ids {p : ProjectRow → Prop} [DecidablePred p] {f : ProjectRow → ProjectRow}
    (hf : ∀ r, (f r).id = r.id := by intro r; cases r; rfl) :
    ∀ q ∈ s.projects.update p f hf, (∃ x ∈ s.projects, x.id = q.id) ∨ trimSpace q.id = q.id := by
  intro q hq
  obtain ⟨x, hx, hid, -⟩ := exists_of_mem_update hq
  exact .inl ⟨x, hx, hid⟩

end Frame

theorem MemberEffect.frame {env : Env} {op : Op} {a : Option Outcome} {s t : Store}
    (h : MemberEffect env s t op a) : MemberFrame env s t op a ∨
      (¬ op.UsesLink ∧ ∃ id p, s.project id = some p ∧ ¬ Launched p ∧ s.deleteProject p.id = .ok t) := by
  have hkept : ∀ p ∈ s.projects, ∃ q ∈ s.projects, q.id = p.id := fun p hp => ⟨p, hp, rfl⟩
  have hids : ∀ q ∈ s.projects, (∃ p ∈ s.projects, p.id = q.id) ∨ trimSpace q.id = q.id :=
    fun q hq => .inl ⟨q, hq, rfl⟩
  cases h.change with
  | created id =>
    refine .inl ⟨⟨rfl, rfl, rfl, rfl, rfl, rfl⟩, rfl, invites_kept, ?_, ?_, .inl ⟨rfl, not_false⟩⟩
    · exact fun p hp => ⟨p, mem_insertOrIgnore.mpr (.inl hp), rfl⟩
    · intro q hq
      rcases mem_insertOrIgnore.mp hq with hq | ⟨rfl, -⟩
      · exact hids q hq
      · exact .inr (trimSpace_trimSpace id)
  | deleted _ _ _ p _ hp hl hdelete => exact .inr ⟨not_false, _, p, hp, hl, hdelete⟩
  | provisioned =>
    exact .inl ⟨⟨rfl, rfl, rfl, rfl, rfl, rfl⟩, rfl, invites_kept, projects_kept, projects_ids, .inl ⟨rfl, not_false⟩⟩
  | updated _ _ _ _ hf hop =>
    exact .inl ⟨⟨rfl, rfl, rfl, rfl, rfl, rfl⟩, rfl, invites_kept, projects_kept hf, projects_ids hf, .inl ⟨rfl, hop⟩⟩
  | moved op _ _ _ hf =>
    have hlink : ¬ op.UsesLink := by
      cases op
      all_goals simp_all [Op.MovesOwnership, Op.UsesLink]
    exact .inl ⟨⟨rfl, rfl, rfl, rfl, rfl, rfl⟩, rfl, invites_kept, projects_kept hf, projects_ids hf, .inl ⟨rfl, hlink⟩⟩
  | rows _ _ _ _ hop _ _ hinvites =>
    exact .inl ⟨⟨rfl, rfl, rfl, rfl, rfl, rfl⟩, rfl, hinvites, hkept, hids, .inl ⟨rfl, hop⟩⟩
  | removal _ _ hop =>
    exact .inl ⟨⟨rfl, rfl, rfl, rfl, rfl, rfl⟩, rfl, invites_kept, hkept, hids, .inl ⟨rfl, hop⟩⟩
  | link _ _ _ _ _ _ huse =>
    exact .inl ⟨⟨rfl, rfl, rfl, rfl, rfl, rfl⟩, rfl, invites_kept, hkept, hids, .inr huse⟩

structure Rooted (s : Store) : Prop where
  ids : ∀ p ∈ s.projects, trimSpace p.id = p.id
  invite : ∀ i ∈ s.invites, ∃ p ∈ s.projects, p.id = i.projectID
  link : ∀ l ∈ s.inviteLinks, ∃ p, s.project l.projectID = some p ∧ Launched p
  conversation : ∀ c ∈ s.conversations, ∃ p, s.project c.projectID = some p ∧ Launched p

section Rooted

variable {env : Env} {op : Op} {a : Option Outcome} {s t : Store}

def ConversationsFrom (s t : Store) : Prop :=
  ∀ c' ∈ t.conversations, (∃ c ∈ s.conversations, c.projectID = c'.projectID) ∨
    ∃ p, s.project c'.projectID = some p ∧ Launched p

def HeadsFrom (new : ConversationRow → Prop) (s t : Store) : Prop :=
  ∀ c' ∈ t.conversations, (∃ c ∈ s.conversations, SameHead c c') ∨ new c'

section Heads

variable {new : ConversationRow → Prop}

theorem HeadsFrom.same (h : t.conversations = s.conversations) : HeadsFrom new s t :=
  fun c hc => .inl ⟨c, h ▸ hc, rfl, rfl, rfl, rfl⟩

theorem HeadsFrom.updated {p : ConversationRow → Prop} [DecidablePred p] {f : ConversationRow → ConversationRow}
    (h : t.conversations.rows = s.conversations.rows.map (fun c => if p c then f c else c))
    (hhead : ∀ c, SameHead c (f c) := by intro c; cases c; exact ⟨rfl, rfl, rfl, rfl⟩) : HeadsFrom new s t := by
  intro _ hc'
  rw [← mem_rows, h, mem_map] at hc'
  obtain ⟨c, hc, rfl⟩ := hc'
  refine .inl ⟨c, hc, ?_⟩
  split
  · exact hhead c
  · exact ⟨rfl, rfl, rfl, rfl⟩

theorem HeadsFrom.subset (h : t.conversations.rows ⊆ s.conversations.rows) : HeadsFrom new s t :=
  fun c hc => .inl ⟨c, h hc, rfl, rfl, rfl, rfl⟩

theorem HeadsFrom.conversations (h : HeadsFrom new s t)
    (hnew : ∀ c, new c → ∃ p, s.project c.projectID = some p ∧ Launched p) : ConversationsFrom s t := by
  intro c' hc'
  rcases h c' hc' with ⟨c, hc, hsame⟩ | hc
  · exact .inl ⟨c, hc, hsame.projectID.symm⟩
  · exact .inr (hnew c' hc)

end Heads

theorem ConversationsFrom.same (h : t.conversations = s.conversations) : ConversationsFrom s t :=
  fun c hc => .inl ⟨c, h ▸ hc, rfl⟩

theorem ConversationsFrom.updated {p : ConversationRow → Prop} [DecidablePred p]
    {f : ConversationRow → ConversationRow}
    (h : t.conversations.rows = s.conversations.rows.map (fun c => if p c then f c else c))
    (hhead : ∀ c, SameHead c (f c) := by intro c; cases c; exact ⟨rfl, rfl, rfl, rfl⟩) : ConversationsFrom s t :=
  HeadsFrom.conversations (HeadsFrom.updated h hhead) (fun _ hc => False.elim hc)

theorem ConversationsFrom.subset (h : t.conversations.rows ⊆ s.conversations.rows) : ConversationsFrom s t :=
  fun c hc => .inl ⟨c, h hc, rfl⟩

def NewHead (s : Store) (op : Op) (c' : ConversationRow) : Prop :=
  ∃ c p, op.newConversation = some c ∧ c'.kind = c.kind ∧ c'.projectID = c.projectID ∧
    (∃ q ∈ s.projects, q.id = c.projectID) ∧ s.project (trimSpace c.projectID) = some p ∧ Launched p

theorem ConversationEffect.heads (h : ConversationEffect env s t op a) : HeadsFrom (NewHead s op) s t := by
  cases h.change.2 with
  | created row c p hop hid hkind hproject hexists hp hl h =>
    intro c' hc'
    rcases mem_insertOrIgnore.mp (h ▸ hc') with hc' | ⟨rfl, -⟩
    · exact .inl ⟨c', hc', rfl, rfl, rfl, rfl⟩
    · exact .inr ⟨c, p, hop, hkind, hproject, hexists, hp, hl⟩
  | updated p f h hf => exact .updated h hf
  | same h | posted _ _ h => exact .same h
  | deleted p h =>
    obtain ⟨-, rfl⟩ := Store.deleteConversations_eq_ok h
    exact .subset filter_sublist.subset

theorem ConversationEffect.conversationsFrom (h : ConversationEffect env s t op a) (hs : Rooted s) :
    ConversationsFrom s t := by
  refine h.heads.conversations ?_
  rintro c' ⟨c, p, -, -, hproject, ⟨q, hq, hqid⟩, hp, hl⟩
  rw [← hqid, hs.ids q hq, hqid, ← hproject] at hp
  exact ⟨p, hp, hl⟩

theorem RunEffect.heads {new : ConversationRow → Prop} (h : RunEffect env s t op a) : HeadsFrom new s t := by
  cases h with
  | reserve _ _ _ _ _ _ _ _ _ h =>
    obtain ⟨-, -, -, hres⟩ := Store.reserveAssistantRun_eq_ok h
    obtain ⟨_, rfl⟩ := hres.store
    exact .updated rfl
  | finish _ _ _ h =>
    rw [(Store.finishAIRun_eq_ok h).store]
    exact .updated rfl
  | stop _ _ _ _ _ _ h =>
    rw [(Store.stopAssistantRun_eq_ok h).store]
    exact .updated rfl

theorem RunEffect.conversationsFrom (h : RunEffect env s t op a) : ConversationsFrom s t :=
  HeadsFrom.conversations h.heads (fun _ hc => False.elim hc)

theorem TaskEffect.conversationsFrom (h : TaskEffect env s t op a) : ConversationsFrom s t := by
  cases h with
  | submit _ _ h | enroll _ _ _ _ _ _ _ h | mark _ _ _ _ h | setError _ _ _ _ h =>
    cases h
    exact .same rfl
  | record _ _ _ h =>
    simp only [Store.recordPersonalTaskSession, bind_eq_ok, pure_eq_ok, Prod.mk.injEq] at h
    obtain ⟨_, -, -, rfl⟩ := h
    exact .same rfl
  | complete _ _ h =>
    simp only [Store.completePersonalTaskCreation, bind_eq_ok, orError_eq_ok, require_eq_ok,
      insertChecked_eq_ok, pure_eq_ok, Prod.mk.injEq] at h
    obtain ⟨p, hp, _, -, _, hactive, _, -, _, ⟨-, -, rfl⟩, -, rfl⟩ := h
    simp only [Store.projectOfMember, Option.bind_eq_bind, Option.bind_eq_some_iff, Option.some.injEq] at hp
    obtain ⟨p', hp, m, -, rfl⟩ := hp
    intro c' hc'
    rcases mem_insertOrIgnore.mp hc' with hc' | ⟨rfl, -⟩
    · exact .inl ⟨c', hc', rfl⟩
    · exact .inr ⟨p', hp, launched_of_active hactive⟩
  | completeDeletion _ _ h =>
    obtain ⟨_, rfl, -⟩ := Store.completePersonalTaskDeletion_eq_ok h
    exact .subset filter_sublist.subset

theorem Rooted.empty : Rooted Store.empty := by
  refine ⟨?_, ?_, ?_, ?_⟩
  · exact forall_mem_empty
  · exact forall_mem_empty
  · exact forall_mem_empty
  · exact forall_mem_empty

theorem Rooted.of_membership (hs : Rooted s) (h : SameMembership s t) (hc : ConversationsFrom s t) : Rooted t := by
  have hproject (id : String) : t.project id = s.project id := by
    rw [Store.project, Store.project, h.projects]
  refine ⟨h.projects ▸ hs.ids, h.invites ▸ h.projects ▸ hs.invite, ?_, ?_⟩
  · intro l hl
    rw [hproject]
    exact hs.link l (h.inviteLinks ▸ hl)
  · intro c' hc'
    rw [hproject]
    rcases hc c' hc' with ⟨c, hmem, heq⟩ | hlaunched
    · exact heq ▸ hs.conversation c hmem
    · exact hlaunched

theorem LinkUse.links (h : LinkUse env s t op a) : ∀ l' ∈ t.inviteLinks, ∃ l ∈ s.inviteLinks,
    l.projectID = l'.projectID := by
  cases h with
  | begins _ _ _ _ _ _ _ _ ht =>
    intro l' hl'
    rw [ht] at hl'
    obtain ⟨x, hx, -, ⟨-, rfl⟩ | ⟨-, rfl⟩⟩ := exists_of_mem_update hl'
    · refine ⟨x, hx, ?_⟩
      unfold Store.used
      split <;> rfl
    · exact ⟨l', hx, rfl⟩
  | aborts _ _ _ _ _ ht =>
    intro l' hl'
    rw [ht] at hl'
    obtain ⟨x, hx, -, ⟨-, rfl⟩ | ⟨-, rfl⟩⟩ := exists_of_mem_update hl'
    · refine ⟨x, hx, ?_⟩
      unfold Store.restored
      split <;> rfl
    · exact ⟨l', hx, rfl⟩

structure Dropped (s t : Store) (p : ProjectRow) : Prop where
  projects : t.projects = s.projects.delete (fun q => q.id = p.id)
  invites : t.invites = s.invites.delete (fun i => i.projectID = p.id)
  inviteLinks : t.inviteLinks = s.inviteLinks
  conversations : t.conversations = s.conversations
  messages : t.messages = s.messages
  lastSeq : t.lastSeq = s.lastSeq
  runs : t.runs = s.runs
  sessions : t.sessions = s.sessions
  assistants : t.assistants = s.assistants.delete (fun a => a.projectID = p.id)
  tasks : t.tasks = s.tasks

theorem Rooted.dropped {p : ProjectRow} (hs : Rooted s) (hp : p ∈ s.projects) (hl : ¬ Launched p)
    (h : s.deleteProject p.id = .ok t) : Dropped s t p := by
  simp only [Store.deleteProject, bind_eq_ok, pure_eq_ok] at h
  obtain ⟨u, hu, rfl⟩ := h
  obtain ⟨-, rfl⟩ := Store.deleteConversations_eq_ok hu
  have hother (id : String) (hid : ∃ q, s.project id = some q ∧ Launched q) : id ≠ p.id := by
    rintro rfl
    obtain ⟨q, hq, hlaunched⟩ := hid
    rw [Store.project, find?_of_mem hp] at hq
    cases hq
    exact hl hlaunched
  have hnone (id : String) : ¬ ∃ x ∈ s.conversations.rows, x.id = id ∧ x.projectID = p.id := by
    rintro ⟨x, hx, -, hproject⟩
    exact hother _ (hs.conversation x hx) hproject
  exact ⟨rfl, rfl, delete_eq_self (fun l hmem => hother _ (hs.link l hmem)),
    delete_eq_self (fun c _ => hnone c.id), delete_eq_self (fun m _ => hnone m.conversationID), rfl,
    delete_eq_self (fun r _ => hnone r.conversationID),
    delete_eq_self (fun x _ => hnone x.conversationID), rfl, rfl⟩

theorem Rooted.drop {p : ProjectRow} (hs : Rooted s) (hp : p ∈ s.projects) (hl : ¬ Launched p)
    (h : Dropped s t p) : Rooted t := by
  have hkept (id : String) (hid : ∃ q, s.project id = some q ∧ Launched q) :
      ∃ q, t.project id = some q ∧ Launched q := by
    obtain ⟨q, hq, hlaunched⟩ := hid
    obtain ⟨hmem, rfl⟩ := find?_eq_some.mp hq
    refine ⟨q, ?_, hlaunched⟩
    rw [Store.project, h.projects, find?_eq_some, mem_delete]
    refine ⟨⟨hmem, ?_⟩, rfl⟩
    intro heq
    cases eq_of_key hmem hp heq
    exact hl hlaunched
  refine ⟨?_, ?_, ?_, ?_⟩
  · intro q hq
    rw [h.projects, mem_delete] at hq
    exact hs.ids q hq.1
  · intro i hi
    rw [h.invites, mem_delete] at hi
    obtain ⟨q, hq, hid⟩ := hs.invite i hi.1
    refine ⟨q, ?_, hid⟩
    rw [h.projects, mem_delete]
    exact ⟨hq, fun heq => hi.2 (hid.symm.trans heq)⟩
  · intro l hmem
    exact hkept _ (hs.link l (h.inviteLinks ▸ hmem))
  · intro c hmem
    exact hkept _ (hs.conversation c (h.conversations ▸ hmem))

theorem Rooted.of_frame (hs : Rooted s) (h : MemberFrame env s t op a) (hlater : Later s t) : Rooted t := by
  refine ⟨?_, ?_, ?_, ?_⟩
  · intro q hq
    rcases h.ids q hq with ⟨p, hp, hid⟩ | htrim
    · exact hid ▸ hs.ids p hp
    · exact htrim
  · intro i' hi'
    obtain ⟨i, hi, heq⟩ := h.invites i' hi'
    obtain ⟨p, hp, hid⟩ := hs.invite i hi
    obtain ⟨q, hq, hqid⟩ := h.kept p hp
    exact ⟨q, hq, hqid.trans (hid.trans heq)⟩
  · intro l' hl'
    have hold : ∃ l ∈ s.inviteLinks, l.projectID = l'.projectID := by
      rcases h.links with ⟨hlinks, -⟩ | huse
      · exact ⟨l', hlinks ▸ hl', rfl⟩
      · exact huse.links l' hl'
    obtain ⟨l, hl, heq⟩ := hold
    obtain ⟨p, hp, hlaunched⟩ := hs.link l hl
    exact heq ▸ hlater.launched _ p hp hlaunched
  · intro c hc
    obtain ⟨p, hp, hlaunched⟩ := hs.conversation c (h.conversations.conversations ▸ hc)
    exact hlater.launched _ p hp hlaunched

theorem Rooted.of_invites (hs : Rooted s) (h : InviteEffect env s t op a) (hprojects : t.projects = s.projects)
    (hconversations : t.conversations = s.conversations) : Rooted t := by
  have hproject (id : String) : t.project id = s.project id := by
    rw [Store.project, Store.project, hprojects]
  refine ⟨hprojects ▸ hs.ids, ?_, ?_, ?_⟩
  · rw [hprojects]
    intro i' hi'
    rcases h.change.2.1 i' hi' with ⟨i, hi, hsame⟩ | hp
    · exact hsame ▸ hs.invite i hi
    · exact hp
  · intro l' hl'
    rw [hproject]
    cases h.change.2.2 with
    | same _ _ hlinks => exact hs.link l' (hlinks ▸ hl')
    | create _ p hp hl hid _ hlinks =>
      rw [hlinks, mem_insertOrIgnore] at hl'
      rcases hl' with hl' | ⟨rfl, -⟩
      · exact hs.link l' hl'
      · obtain ⟨q, hq, hqid⟩ := hid
        refine ⟨p, ?_, hl⟩
        rw [← hqid, hs.ids q hq, hqid] at hp
        exact hp
    | revoke _ _ _ hlinks =>
      rw [hlinks] at hl'
      obtain ⟨x, hx, -, ⟨-, rfl⟩ | ⟨-, rfl⟩⟩ := exists_of_mem_update hl'
      · exact hs.link x hx
      · exact hs.link l' hx
  · intro c hc
    rw [hproject]
    exact hs.conversation c (hconversations ▸ hc)

theorem Effect.rooted (h : Effect env op a s t) (hs : Rooted s) : Rooted t := by
  have hlater := h.later
  cases h with
  | same h => exact h ▸ hs
  | member h =>
    rcases h.frame with hframe | ⟨-, _, p, hp, hl, hdelete⟩
    · exact hs.of_frame hframe hlater
    · have hmem := (find?_eq_some.mp hp).1
      exact hs.drop hmem hl (hs.dropped hmem hl hdelete)
  | invite h =>
    obtain ⟨⟨hprojects, -, -⟩, hconversations, -⟩ := h.frame
    exact hs.of_invites h hprojects hconversations.conversations
  | conversation h => exact hs.of_membership h.frame.1 (h.conversationsFrom hs)
  | run h | task h => exact hs.of_membership h.frame.1 h.conversationsFrom

theorem Recovered.conversationsFrom {r : RunRow} {stamp : ℤ} (h : Recovered s t r stamp) : ConversationsFrom s t := by
  obtain ⟨_, _, rfl, -⟩ := h
  exact .updated rfl

theorem reopened_rooted {stamp : ℤ} (hs : Rooted s) (h : s.reopened stamp = .ok t) : Rooted t := by
  refine Store.recovered_all (P := Rooted) ?_ ?_ h
  · intro u r v hu hr
    have hfrom := hr.conversationsFrom
    obtain ⟨_, _, rfl, -⟩ := hr
    exact hu.of_membership ⟨rfl, rfl, rfl, rfl, rfl⟩ hfrom
  · obtain ⟨_, _, he, -⟩ := Store.migrateAssistantMembers_spec s
    rw [he]
    exact hs.of_membership ⟨rfl, rfl, rfl, rfl, rfl⟩ (.same rfl)

end Rooted

theorem rooted_reachable {c : Config Store Call Outcome} (h : system.Reachable c) : Rooted c.store := by
  refine labelled.store_invariant (I := Rooted) Rooted.empty ?_ ?_ ?_ h
  · exact fun i s t hs h => h.rooted hs
  · exact fun i a s t hs h => h.rooted hs
  · rintro s t hs ⟨_, h⟩
    exact reopened_rooted hs h

end WorkAgent.Collaboration
