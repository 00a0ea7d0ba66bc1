import WorkAgent.Collaboration.Calls

namespace WorkAgent.Collaboration

open Library
open Quota (Time)

structure SameMembership (s t : Store) : Prop where
  projects : t.projects = s.projects
  members : t.members = s.members
  invites : t.invites = s.invites
  inviteLinks : t.inviteLinks = s.inviteLinks
  transfers : t.transfers = s.transfers

structure SameConversations (s t : Store) : Prop where
  conversations : t.conversations = s.conversations
  messages : t.messages = s.messages
  lastSeq : t.lastSeq = s.lastSeq
  runs : t.runs = s.runs
  assistants : t.assistants = s.assistants
  sessions : t.sessions = s.sessions

theorem SameMembership.refl (s : Store) : SameMembership s s := ⟨rfl, rfl, rfl, rfl, rfl⟩

theorem SameMembership.trans {s t u : Store} (h : SameMembership s t) (h' : SameMembership t u) :
    SameMembership s u :=
  ⟨h'.projects.trans h.projects, h'.members.trans h.members, h'.invites.trans h.invites,
    h'.inviteLinks.trans h.inviteLinks, h'.transfers.trans h.transfers⟩

structure SameHead (c c' : ConversationRow) : Prop where
  id : c'.id = c.id
  projectID : c'.projectID = c.projectID
  kind : c'.kind = c.kind
  creatorUserID : c'.creatorUserID = c.creatorUserID

structure SameThread (c c' : ConversationRow) : Prop where
  id : c'.id = c.id
  projectID : c'.projectID = c.projectID
  assistantID : c'.assistantID = c.assistantID
  state : c'.state = c.state
  lastAIMessageSeq : c'.lastAIMessageSeq = c.lastAIMessageSeq

theorem SameThread.refl (c : ConversationRow) : SameThread c c := ⟨rfl, rfl, rfl, rfl, rfl⟩

structure Posted (s t : Store) (m : MessageRow) : Prop where
  seq : m.seq = s.lastSeq + 1
  fresh : s.messages.find? m.seq = none
  unused : ∀ x ∈ s.messages.rows, x.id ≠ m.id
  messages : t.messages = s.messages.insertOrIgnore m
  lastSeq : t.lastSeq = s.lastSeq + 1

structure SessionsKept (s t : Store) : Prop where
  kept : ∀ k x, s.sessions.find? k = some x → t.sessions.find? k = some x
  origin : ∀ x ∈ t.sessions, x ∈ s.sessions ∨ (s.sessions.find? x.key = none ∧ x.lastContextSeq = 0 ∧
    ∃ c ∈ s.conversations, c.id = x.conversationID)

def AssistantsKept (s t : Store) : Prop :=
  ∀ a ∈ s.assistants, s.assistantRunning a.projectID a.assistantID → ∃ a' ∈ t.assistants, a'.key = a.key ∧
    a'.modelID = a.modelID ∧ a'.thinkingEffort = a.thinkingEffort ∧ (a.state = .accepted → a'.state = .accepted)

def Store.seeded (s : Store) (x : SessionRow) : Table SessionRow.key :=
  if ∃ y ∈ s.sessions.rows, y.sessionKey = x.sessionKey then s.sessions else s.sessions.insertOrIgnore x

structure SameWork (s t : Store) : Prop where
  runs : t.runs = s.runs
  lastSeq : t.lastSeq = s.lastSeq
  sessions : t.sessions = s.sessions
  assistants : t.assistants = s.assistants

section Kept

variable {s t : Store}

open Table

theorem SessionsKept.same (h : t.sessions = s.sessions) : SessionsKept s t :=
  ⟨fun _ _ hx => h ▸ hx, fun _ hx => .inl (h ▸ hx)⟩

theorem SessionsKept.seeded {x : SessionRow} (h : t.sessions = s.seeded x) (hlast : x.lastContextSeq = 0)
    (hc : ∃ c ∈ s.conversations, c.id = x.conversationID) : SessionsKept s t := by
  unfold Store.seeded at h
  split at h
  · exact .same h
  · refine ⟨fun k y hy => h ▸ find?_insertOrIgnore_of_some hy, ?_⟩
    intro y hy
    rw [h] at hy
    rcases mem_insertOrIgnore.mp hy with hy | ⟨rfl, hnone⟩
    · exact .inl hy
    · exact .inr ⟨hnone, hlast, hc⟩

theorem AssistantsKept.same (h : t.assistants = s.assistants) : AssistantsKept s t :=
  fun a ha _ => ⟨a, h ▸ ha, rfl, rfl, rfl, id⟩

theorem AssistantsKept.added {x : AssistantRow} (h : t.assistants = s.assistants.insertOrIgnore x) :
    AssistantsKept s t :=
  fun a ha _ => ⟨a, h ▸ mem_insertOrIgnore.mpr (.inl ha), rfl, rfl, rfl, id⟩

theorem AssistantsKept.updated {p : AssistantRow → Prop} [DecidablePred p] {f : AssistantRow → AssistantRow}
    (h : t.assistants.rows = s.assistants.rows.map (fun a => if p a then f a else a))
    (hf : ∀ a, p a → s.assistantRunning a.projectID a.assistantID → (f a).key = a.key ∧
      (f a).modelID = a.modelID ∧ (f a).thinkingEffort = a.thinkingEffort ∧
      (a.state = .accepted → (f a).state = .accepted)) : AssistantsKept s t := by
  intro a ha hrunning
  refine ⟨if p a then f a else a, ?_, ?_⟩
  · rw [← mem_rows, h]
    exact List.mem_map_of_mem ha
  · split
    · rename_i hp
      exact hf a hp hrunning
    · exact ⟨rfl, rfl, rfl, id⟩

end Kept

/-- What an effect on conversations does to them, to their messages and to what the runs rest on. -/
inductive ConversationChange (s t : Store) (op : Op) : Prop
  | created (row : ConversationRow) (c : NewConversation) (p : ProjectRow) (hop : op.newConversation = some c) (hid : row.id = c.id)
      (hkind : row.kind = c.kind) (hproject : row.projectID = c.projectID) (hexists : ∃ q ∈ s.projects, q.id = c.projectID)
      (hp : s.project (trimSpace c.projectID) = some p) (hl : Launched p) (h : t.conversations = s.conversations.insertOrIgnore row)
      (hm : t.messages = s.messages) (hnew : s.conversation row.id = none) (hstate : row.state = .idle) (hlast : row.lastAIMessageSeq = 0)
      (hwork : SameWork s t)
  | updated (p : ConversationRow → Prop) [DecidablePred p] (f : ConversationRow → ConversationRow)
      (h : t.conversations.rows = s.conversations.rows.map (fun c => if p c then f c else c)) (hf : ∀ c, SameHead c (f c))
      (hthread : ∀ c, SameThread c (f c)) (hm : t.messages = s.messages) (hwork : SameWork s t)
  | same (h : t.conversations = s.conversations) (hm : t.messages = s.messages) (hruns : t.runs = s.runs) (hseq : t.lastSeq = s.lastSeq)
      (hsessions : SessionsKept s t) (hassistants : AssistantsKept s t)
  | posted (m : MessageRow) (hc : ∃ c ∈ s.conversations, c.id = m.conversationID) (h : t.conversations = s.conversations)
      (hm : Posted s t m) (hruns : t.runs = s.runs) (hsessions : t.sessions = s.sessions) (hassistants : t.assistants = s.assistants)
  | deleted (p : String → Prop) [DecidablePred p] (h : s.deleteConversations p = .ok t)

namespace Store

variable {s t : Store}

theorem deleteConversations_eq_ok {p : String → Prop} [DecidablePred p] (h : s.deleteConversations p = .ok t) :
    ¬ s.Restricts p ∧ t = s.cascadeConversations p := by
  simp only [deleteConversations, bind_eq_ok, require_eq_ok, pure_eq_ok] at h
  obtain ⟨-, hr, rfl⟩ := h
  exact ⟨hr, rfl⟩

theorem seedSession_eq_ok {x : SessionRow} {u : Unit} (h : s.seedSession x = .ok (u, t)) :
    t = { s with sessions := s.seeded x } := by
  simp only [seedSession, bind_eq_ok, pure_eq_ok, Prod.mk.injEq] at h
  obtain ⟨_, -, -, rfl⟩ := h
  unfold seeded
  split <;> rfl

theorem insertMessage_eq_ok {r : MessageRow} (h : s.insertMessage r = .ok t) :
    (∃ c ∈ s.conversations.rows, c.id = r.conversationID) ∧ (∀ m ∈ s.messages.rows, m.id ≠ r.id) ∧
      s.messages.find? (s.lastSeq + 1) = none ∧
      t = { s with
        messages := s.messages.insertOrIgnore { r with seq := s.lastSeq + 1 }, lastSeq := s.lastSeq + 1 } := by
  simp only [insertMessage, bind_eq_ok, Table.insertChecked_eq_ok, pure_eq_ok] at h
  obtain ⟨_, ⟨⟨hc, hid⟩, hnew, rfl⟩, rfl⟩ := h
  exact ⟨hc, hid, hnew, rfl⟩

theorem insertMessageOrIgnore_eq_ok {r : MessageRow} (h : s.insertMessageOrIgnore r = .ok t) :
    ((∃ m ∈ s.messages.rows, m.id = r.id) ∧ t = s) ∨
      ((∀ m ∈ s.messages.rows, m.id ≠ r.id) ∧ s.insertMessage r = .ok t) := by
  simp only [insertMessageOrIgnore, bind_eq_ok, require_eq_ok] at h
  obtain ⟨-, -, h⟩ := h
  split at h
  · rename_i hex
    cases h
    exact .inl ⟨hex, rfl⟩
  · rename_i hex
    refine .inr ⟨fun m hm heq => hex ⟨m, hm, heq⟩, h⟩

theorem completePersonalTaskDeletion_eq_ok {o : PersonalTask} {stamp : ℤ} {t : Store}
    (h : s.completePersonalTaskDeletion o stamp = .ok ((), t)) :
    ∃ tasks, t = { s.cascadeConversations (fun id => ∃ c ∈ s.conversations.rows, c.id = id ∧ IsListRow o c) with
        tasks := tasks } ∧
      s.tasks.updateOne (fun r => r.id = o.id ∧ r.userID = o.userID ∧ r.state = .deleting)
        (fun r => { r with state := .deleted, error := "", updatedAt := stamp }) Error.conflict = .ok tasks := by
  simp only [completePersonalTaskDeletion, bind_eq_ok, pure_eq_ok, Prod.mk.injEq] at h
  obtain ⟨u, hu, tasks, htasks, -, rfl⟩ := h
  obtain ⟨-, rfl⟩ := deleteConversations_eq_ok hu
  exact ⟨tasks, rfl, htasks⟩

end Store

section Frames

variable {env : Env} {op : Op} {a : Option Outcome} {s t : Store}

theorem ConversationEffect.change (h : ConversationEffect env s t op a) :
    (SameMembership s t ∧ t.tasks = s.tasks ∧ s.lastSeq ≤ t.lastSeq) ∧ ConversationChange s t op := by
  have hframe {t : Store} (hs : SameMembership s t) (htasks : t.tasks = s.tasks) (hseq : t.lastSeq = s.lastSeq) :
      SameMembership s t ∧ t.tasks = s.tasks ∧ s.lastSeq ≤ t.lastSeq := ⟨hs, htasks, hseq.ge⟩
  cases h with
  | create _ _ c p hop hp hl h =>
    simp only [Store.insertConversation, bind_eq_ok, Table.insertChecked_eq_ok, pure_eq_ok, Prod.mk.injEq] at h
    obtain ⟨_, ⟨hproject, hnew, rfl⟩, -, rfl⟩ := h
    exact ⟨hframe ⟨rfl, rfl, rfl, rfl, rfl⟩ rfl rfl,
      .created _ c p hop rfl rfl rfl hproject hp hl rfl rfl hnew rfl rfl ⟨rfl, rfl, rfl, rfl⟩⟩
  | seedAssistant _ _ _ _ h =>
    simp only [Store.seedAssistant, bind_eq_ok, pure_eq_ok, Prod.mk.injEq] at h
    obtain ⟨_, -, -, rfl⟩ := h
    exact ⟨hframe ⟨rfl, rfl, rfl, rfl, rfl⟩ rfl rfl, .same rfl rfl rfl rfl (.same rfl) (.added rfl)⟩
  | seedSession _ _ id _ _ _ h =>
    have hc : ∃ c ∈ s.conversations.rows, c.id = id := by
      simp only [Store.seedSession, bind_eq_ok, require_eq_ok] at h
      obtain ⟨-, hc, -⟩ := h
      exact hc
    obtain rfl := Store.seedSession_eq_ok h
    exact ⟨hframe ⟨rfl, rfl, rfl, rfl, rfl⟩ rfl rfl, .same rfl rfl rfl rfl (.seeded rfl rfl hc) (.same rfl)⟩
  | setHidden _ _ _ _ h =>
    simp only [Store.setConversationHidden, bind_eq_ok, pure_eq_ok, Prod.mk.injEq] at h
    obtain ⟨_, -, -, rfl⟩ := h
    exact ⟨hframe ⟨rfl, rfl, rfl, rfl, rfl⟩ rfl rfl, .same rfl rfl rfl rfl (.same rfl) (.same rfl)⟩
  | metadata id user name pinned hidden _ h =>
    simp only [Store.updateConversationMetadata, bind_eq_ok, pure_eq_ok, Prod.mk.injEq] at h
    obtain ⟨_, -, _, -, -, rfl⟩ := h
    cases name with
    | none => cases pinned <;> cases hidden <;> exact ⟨hframe ⟨rfl, rfl, rfl, rfl, rfl⟩ rfl rfl, .same rfl rfl rfl rfl (.same rfl) (.same rfl)⟩
    | some name =>
      have hrenamed {t : Store} (h : t.conversations.rows = s.conversations.rows.map (fun c =>
          if c.id = trimSpace id then { c with name := trimSpace name, updatedAt := env.stamp 0 } else c))
          (hm : t.messages = s.messages) (hwork : SameWork s t) : ConversationChange s t (.updateConversationMetadata id user (some name) pinned hidden) :=
        .updated _ _ h (fun c => ⟨rfl, rfl, rfl, rfl⟩) (fun c => ⟨rfl, rfl, rfl, rfl, rfl⟩) hm hwork
      cases pinned <;> cases hidden <;> exact ⟨hframe ⟨rfl, rfl, rfl, rfl, rfl⟩ rfl rfl, hrenamed rfl rfl ⟨rfl, rfl, rfl, rfl⟩⟩
  | delete _ _ _ h =>
    simp only [Store.deleteConversation, bind_eq_ok, pure_eq_ok, Prod.mk.injEq] at h
    obtain ⟨_, -, _, -, _, -, u, hu, -, rfl⟩ := h
    refine ⟨?_, .deleted _ hu⟩
    obtain ⟨-, rfl⟩ := Store.deleteConversations_eq_ok hu
    exact hframe ⟨rfl, rfl, rfl, rfl, rfl⟩ rfl rfl
  | addMessage _ _ _ _ h =>
    simp only [Store.addMessage, bind_eq_ok, pure_eq_ok, Prod.mk.injEq] at h
    obtain ⟨u, hu, -, rfl⟩ := h
    obtain ⟨hc, hunused, hnew, rfl⟩ := Store.insertMessage_eq_ok hu
    exact ⟨⟨⟨rfl, rfl, rfl, rfl, rfl⟩, rfl, Nat.le_succ _⟩, .posted _ hc rfl ⟨rfl, hnew, hunused, rfl, rfl⟩ rfl rfl rfl⟩
  | touch _ _ _ _ _ _ h | updateModels _ _ _ _ _ _ _ h =>
    cases h
    exact ⟨hframe ⟨rfl, rfl, rfl, rfl, rfl⟩ rfl rfl, .updated _ _ rfl (fun c => ⟨rfl, rfl, rfl, rfl⟩) (fun c => ⟨rfl, rfl, rfl, rfl, rfl⟩) rfl ⟨rfl, rfl, rfl, rfl⟩⟩
  | found _ _ _ _ _ h =>
    subst h
    exact ⟨hframe (.refl _) rfl rfl, .same rfl rfl rfl rfl (.same rfl) (.same rfl)⟩
  | inviteAssistant _ _ _ _ h =>
    simp only [Store.insertAssistant, bind_eq_ok, pure_eq_ok, Prod.mk.injEq] at h
    obtain ⟨_, -, -, rfl⟩ := h
    refine ⟨hframe ⟨rfl, rfl, rfl, rfl, rfl⟩ rfl rfl, .same rfl rfl rfl rfl (.same rfl) ?_⟩
    change AssistantsKept s { s with assistants := Table.upsert _ _ _ }
    unfold Table.upsert
    split
    · exact .added rfl
    · exact .updated rfl (fun _ _ _ => ⟨rfl, rfl, rfl, fun _ => rfl⟩)
  | updateAssistant _ _ _ _ _ _ _ h =>
    simp only [Store.updateAssistant, bind_eq_ok, Table.updateOne_eq_ok, pure_eq_ok, Prod.mk.injEq] at h
    obtain ⟨_, ⟨-, rfl⟩, -, rfl⟩ := h
    refine ⟨hframe ⟨rfl, rfl, rfl, rfl, rfl⟩ rfl rfl, .same rfl rfl rfl rfl (.same rfl) (.updated rfl ?_)⟩
    rintro a ⟨rfl, rfl, -, hidle⟩ hrunning
    exact absurd hrunning hidle
  | removeAssistant _ _ _ _ h =>
    simp only [Store.removeAssistant, bind_eq_ok, Table.updateOne_eq_ok, pure_eq_ok, Prod.mk.injEq] at h
    obtain ⟨_, ⟨-, rfl⟩, -, rfl⟩ := h
    refine ⟨hframe ⟨rfl, rfl, rfl, rfl, rfl⟩ rfl rfl, .same rfl rfl rfl rfl (.same rfl) (.updated rfl ?_)⟩
    rintro a ⟨rfl, rfl, -, hidle⟩ hrunning
    exact absurd hrunning hidle

theorem ConversationEffect.frame (h : ConversationEffect env s t op a) :
    SameMembership s t ∧ t.tasks = s.tasks ∧ s.lastSeq ≤ t.lastSeq := h.change.1

theorem TaskEffect.frame (h : TaskEffect env s t op a) : SameMembership s t ∧ t.lastSeq = s.lastSeq := by
  cases h with
  | submit _ _ h | enroll _ _ _ _ _ _ _ h | mark _ _ _ _ h | setError _ _ _ _ h =>
    cases h
    exact ⟨⟨rfl, rfl, rfl, rfl, rfl⟩, rfl⟩
  | record _ _ _ h =>
    simp only [Store.recordPersonalTaskSession, bind_eq_ok, pure_eq_ok, Prod.mk.injEq] at h
    obtain ⟨_, -, -, rfl⟩ := h
    exact ⟨⟨rfl, rfl, rfl, rfl, rfl⟩, rfl⟩
  | complete _ _ h =>
    simp only [Store.completePersonalTaskCreation, bind_eq_ok, pure_eq_ok, Prod.mk.injEq] at h
    obtain ⟨_, -, _, -, _, -, _, -, _, -, -, rfl⟩ := h
    exact ⟨⟨rfl, rfl, rfl, rfl, rfl⟩, rfl⟩
  | completeDeletion _ _ h =>
    obtain ⟨_, rfl, -⟩ := Store.completePersonalTaskDeletion_eq_ok h
    exact ⟨⟨rfl, rfl, rfl, rfl, rfl⟩, rfl⟩

end Frames

end WorkAgent.Collaboration
