import WorkAgent.Collaboration.Rooted

namespace WorkAgent.Collaboration

open Library Table

structure ThreadsKept (s t : Store) : Prop where
  kept : ∀ c ∈ s.conversations, ∃ c' ∈ t.conversations, c'.id = c.id
  origin : ∀ c' ∈ t.conversations, (∃ c ∈ s.conversations, SameThread c c') ∨
    (s.conversation c'.id = none ∧ c'.state = .idle ∧ c'.lastAIMessageSeq = 0)

structure Kept (s t : Store) : Prop where
  runs : t.runs = s.runs
  messages : (t.messages = s.messages ∧ t.lastSeq = s.lastSeq) ∨ ∃ m, Posted s t m
  threads : ThreadsKept s t
  sessions : SessionsKept s t
  assistants : AssistantsKept s t

structure Deleted (s t : Store) (p : String → Prop) [DecidablePred p] : Prop where
  restricts : ¬ s.Restricts p
  conversations : t.conversations = s.conversations.delete (fun c => p c.id)
  messages : t.messages = s.messages.delete (fun m => p m.conversationID)
  lastSeq : t.lastSeq = s.lastSeq
  runs : t.runs = s.runs.delete (fun r => p r.conversationID)
  sessions : t.sessions = s.sessions.delete (fun x => p x.conversationID)
  assistants : t.assistants = s.assistants

section Rules

variable {s t : Store}

theorem ThreadsKept.same (h : t.conversations = s.conversations) : ThreadsKept s t :=
  ⟨fun c hc => ⟨c, h ▸ hc, rfl⟩, fun c hc => .inl ⟨c, h ▸ hc, SameThread.refl c⟩⟩

theorem ThreadsKept.updated {p : ConversationRow → Prop} [DecidablePred p] {f : ConversationRow → ConversationRow}
    (h : t.conversations.rows = s.conversations.rows.map (fun c => if p c then f c else c))
    (hf : ∀ c, SameThread c (f c) := by intro c; cases c; exact ⟨rfl, rfl, rfl, rfl, rfl⟩) : ThreadsKept s t := by
  have hsame (c : ConversationRow) : SameThread c (if p c then f c else c) := by
    split
    · exact hf c
    · exact SameThread.refl c
  refine ⟨?_, ?_⟩
  · intro c hc
    refine ⟨_, ?_, (hsame c).id⟩
    rw [← mem_rows, h]
    exact List.mem_map_of_mem hc
  · intro _ hc'
    rw [← mem_rows, h, List.mem_map] at hc'
    obtain ⟨c, hc, rfl⟩ := hc'
    exact .inl ⟨c, hc, hsame c⟩

theorem ThreadsKept.created {c : ConversationRow} (h : t.conversations = s.conversations.insertOrIgnore c)
    (hnew : s.conversation c.id = none) (hstate : c.state = .idle) (hlast : c.lastAIMessageSeq = 0) :
    ThreadsKept s t := by
  refine ⟨?_, ?_⟩
  · exact fun x hx => ⟨x, h ▸ mem_insertOrIgnore.mpr (.inl hx), rfl⟩
  · intro x hx
    rw [h] at hx
    rcases mem_insertOrIgnore.mp hx with hx | ⟨rfl, -⟩
    · exact .inl ⟨x, hx, SameThread.refl x⟩
    · exact .inr ⟨hnew, hstate, hlast⟩

theorem SameConversations.kept (h : SameConversations s t) : Kept s t :=
  ⟨h.runs, .inl ⟨h.messages, h.lastSeq⟩, .same h.conversations, .same h.sessions, .same h.assistants⟩

theorem Dropped.kept {p : ProjectRow} (hs : Rooted s) (hp : p ∈ s.projects) (hl : ¬ Launched p)
    (h : Dropped s t p) : Kept s t := by
  refine ⟨h.runs, .inl ⟨h.messages, h.lastSeq⟩, .same h.conversations, .same h.sessions, ?_⟩
  intro a ha hrunning
  refine ⟨a, ?_, rfl, rfl, rfl, id⟩
  rw [h.assistants, mem_delete]
  refine ⟨ha, ?_⟩
  intro heq
  obtain ⟨r, -, -, -, c, hc, -, hproject⟩ := hrunning
  obtain ⟨q, hq, hlaunched⟩ := hs.conversation c hc
  rw [hproject, heq, Store.project, find?_of_mem hp] at hq
  cases hq
  exact hl hlaunched

theorem Deleted.of_ok {p : String → Prop} [DecidablePred p] (h : s.deleteConversations p = .ok t) : Deleted s t p := by
  obtain ⟨hr, rfl⟩ := Store.deleteConversations_eq_ok h
  exact ⟨hr, rfl, rfl, rfl, rfl, rfl, rfl⟩

theorem Deleted.tasks {p : String → Prop} [DecidablePred p] (h : Deleted s t p) (tasks : Table TaskRow.id) :
    Deleted s { t with tasks := tasks } p :=
  ⟨h.restricts, h.conversations, h.messages, h.lastSeq, h.runs, h.sessions, h.assistants⟩

end Rules

section Effects

variable {env : Env} {op : Op} {a : Option Outcome} {s t : Store}

theorem ConversationEffect.moves (h : ConversationEffect env s t op a) : Kept s t ∨
    ∃ (p : String → Prop) (_ : DecidablePred p), Deleted s t p := by
  cases h.change.2 with
  | created _ _ _ _ _ _ _ _ _ _ h hm hnew hstate hlast hwork =>
    exact .inl ⟨hwork.runs, .inl ⟨hm, hwork.lastSeq⟩, .created h hnew hstate hlast, .same hwork.sessions, .same hwork.assistants⟩
  | updated _ _ h _ hthread hm hwork =>
    exact .inl ⟨hwork.runs, .inl ⟨hm, hwork.lastSeq⟩, .updated h hthread, .same hwork.sessions, .same hwork.assistants⟩
  | same h hm hruns hseq hsessions hassistants => exact .inl ⟨hruns, .inl ⟨hm, hseq⟩, .same h, hsessions, hassistants⟩
  | posted m _ h hm hruns hsessions hassistants => exact .inl ⟨hruns, .inr ⟨m, hm⟩, .same h, .same hsessions, .same hassistants⟩
  | deleted p h => exact .inr ⟨p, _, .of_ok h⟩

theorem TaskEffect.moves (h : TaskEffect env s t op a) : Kept s t ∨
    ∃ (p : String → Prop) (_ : DecidablePred p), Deleted s t p := by
  have hsame {t : Store} (h : SameConversations s t) : Kept s t ∨
      ∃ (p : String → Prop) (_ : DecidablePred p), Deleted s t p := .inl h.kept
  cases h with
  | submit _ _ h | enroll _ _ _ _ _ _ _ h | mark _ _ _ _ h | setError _ _ _ _ h =>
    cases h
    exact hsame ⟨rfl, rfl, rfl, rfl, rfl, rfl⟩
  | record _ _ _ h =>
    simp only [Store.recordPersonalTaskSession, bind_eq_ok, pure_eq_ok, Prod.mk.injEq] at h
    obtain ⟨_, -, -, rfl⟩ := h
    exact hsame ⟨rfl, rfl, rfl, rfl, rfl, rfl⟩
  | complete _ _ h =>
    simp only [Store.completePersonalTaskCreation, bind_eq_ok, insertChecked_eq_ok, pure_eq_ok,
      Prod.mk.injEq] at h
    obtain ⟨p, -, _, -, _, -, _, -, _, ⟨-, hnew, rfl⟩, -, rfl⟩ := h
    exact .inl ⟨rfl, .inl ⟨rfl, rfl⟩, .created rfl hnew rfl rfl, .same rfl, .same rfl⟩
  | completeDeletion _ _ h =>
    simp only [Store.completePersonalTaskDeletion, bind_eq_ok, pure_eq_ok, Prod.mk.injEq] at h
    obtain ⟨u, hu, tasks, -, -, rfl⟩ := h
    exact .inr ⟨_, _, (Deleted.of_ok hu).tasks tasks⟩

theorem Effect.moves (h : Effect env op a s t) (hs : Rooted s) : (Kept s t ∨
    ∃ (p : String → Prop) (_ : DecidablePred p), Deleted s t p) ∨ RunEffect env s t op a := by
  cases h with
  | same h =>
    subst h
    exact .inl (.inl (SameConversations.kept ⟨rfl, rfl, rfl, rfl, rfl, rfl⟩))
  | member h =>
    rcases h.frame with hframe | ⟨-, _, p, hp, hl, hdelete⟩
    · exact .inl (.inl hframe.conversations.kept)
    · have hmem := (find?_eq_some.mp hp).1
      exact .inl (.inl ((hs.dropped hmem hl hdelete).kept hs hmem hl))
  | invite h => exact .inl (.inl h.frame.2.1.kept)
  | conversation h | task h => exact .inl h.moves
  | run h => exact .inr h

end Effects

end WorkAgent.Collaboration
