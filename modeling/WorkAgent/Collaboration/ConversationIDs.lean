import Mathlib
import WorkAgent.Collaboration.RunLives

namespace WorkAgent.Collaboration

open Library Table Char List

theorem isSpace_of_stable {c : Char} (h : c.isAlphanum ∨ c = '_' ∨ c = '-') : isSpace c = false := by
  have hrange : (48 ≤ c.toNat ∧ c.toNat ≤ 57) ∨ (65 ≤ c.toNat ∧ c.toNat ≤ 90) ∨ (97 ≤ c.toNat ∧ c.toNat ≤ 122) ∨
      c.toNat = 95 ∨ c.toNat = 45 := by
    rcases h with h | rfl | rfl
    · simp only [isAlphanum, isAlpha, isUpper, isLower, isDigit, Bool.or_eq_true,
        Bool.and_eq_true, decide_eq_true_eq, UInt32.le_iff_toNat_le] at h
      change ((65 ≤ c.toNat ∧ c.toNat ≤ 90) ∨ (97 ≤ c.toNat ∧ c.toNat ≤ 122)) ∨ (48 ≤ c.toNat ∧ c.toNat ≤ 57) at h
      omega
    · decide
    · decide
  unfold isSpace
  rw [decide_eq_false_iff_not]
  omega

theorem trimSpace_of_stable {id : String} (h : stableID id = true) : trimSpace id = id := by
  simp only [stableID, Bool.decide_and, Bool.and_eq_true, decide_eq_true_eq, all_eq_true] at h
  obtain ⟨-, -, hall⟩ := h
  have hkeep (l : List Char) (hl : ∀ c ∈ l, c ∈ id.toList) : l.dropWhile isSpace = l := by
    rw [dropWhile_eq_self_iff]
    intro hpos
    have hget : isSpace l[0] = false := isSpace_of_stable (hall _ (hl _ (getElem_mem hpos)))
    rw [hget]
    exact Bool.false_ne_true
  rw [trimSpace, hkeep _ (fun c hc => hc), hkeep _ (fun c hc => mem_reverse.mp hc), reverse_reverse,
    String.ofList_toList]

/-- Messages are in conversations, whose ids have no space around them; nor has that of a task that may become
one. -/
structure Housed (s : Store) : Prop where
  ids : ∀ c ∈ s.conversations, trimSpace c.id = c.id
  tasks : ∀ r ∈ s.tasks, r.state = .creating ∨ r.state = .linking → trimSpace r.id = r.id
  messages : ∀ m ∈ s.messages, ∃ c ∈ s.conversations, c.id = m.conversationID

structure Grows (s t : Store) : Prop where
  kept : ∀ c ∈ s.conversations, ∃ c' ∈ t.conversations, c'.id = c.id
  conversations : ∀ c' ∈ t.conversations, (∃ c ∈ s.conversations, c.id = c'.id) ∨ trimSpace c'.id = c'.id
  messages : ∀ m ∈ t.messages, m ∈ s.messages ∨ ∃ c ∈ s.conversations, c.id = m.conversationID

section Rules

variable {env : Env} {op : Op} {a : Option Outcome} {s t : Store}

theorem Housed.empty : Housed Store.empty := by
  refine ⟨?_, ?_, ?_⟩
  · exact forall_mem_empty
  · exact forall_mem_empty
  · exact forall_mem_empty

theorem Grows.same (hc : t.conversations = s.conversations) (hm : t.messages = s.messages) : Grows s t :=
  ⟨fun c h => ⟨c, hc ▸ h, rfl⟩, fun c h => .inl ⟨c, hc ▸ h, rfl⟩, fun _ h => .inl (hm ▸ h)⟩

theorem messages_posted {m : MessageRow} (hc : ∃ c ∈ s.conversations, c.id = m.conversationID)
    (h : t.messages = s.messages.insertOrIgnore m) :
    ∀ x ∈ t.messages, x ∈ s.messages ∨ ∃ c ∈ s.conversations, c.id = x.conversationID := by
  intro x hx
  rw [h] at hx
  rcases mem_insertOrIgnore.mp hx with hx | ⟨rfl, -⟩
  · exact .inl hx
  · exact .inr hc

theorem Grows.updated {p : ConversationRow → Prop} [DecidablePred p] {f : ConversationRow → ConversationRow}
    (h : t.conversations.rows = s.conversations.rows.map (fun c => if p c then f c else c))
    (hf : ∀ c, (f c).id = c.id := by intro c; cases c; rfl)
    (hm : ∀ m ∈ t.messages, m ∈ s.messages ∨ ∃ c ∈ s.conversations, c.id = m.conversationID) : Grows s t := by
  have hid (c : ConversationRow) : (if p c then f c else c).id = c.id := by
    split
    · exact hf c
    · rfl
  refine ⟨?_, ?_, hm⟩
  · intro c hc
    refine ⟨_, ?_, hid c⟩
    rw [← mem_rows, h]
    exact mem_map_of_mem hc
  · intro _ hc'
    rw [← mem_rows, h, mem_map] at hc'
    obtain ⟨c, hc, rfl⟩ := hc'
    exact .inl ⟨c, hc, (hid c).symm⟩

theorem Grows.created {c : ConversationRow} (h : t.conversations = s.conversations.insertOrIgnore c)
    (hid : trimSpace c.id = c.id) (hm : t.messages = s.messages) : Grows s t := by
  refine ⟨fun x hx => ⟨x, h ▸ mem_insertOrIgnore.mpr (.inl hx), rfl⟩, ?_, fun _ hx => .inl (hm ▸ hx)⟩
  intro c' hc'
  rw [h] at hc'
  rcases mem_insertOrIgnore.mp hc' with hc' | ⟨rfl, -⟩
  · exact .inl ⟨c', hc', rfl⟩
  · exact .inr hid

theorem Grows.posted {m : MessageRow} (hc : ∃ c ∈ s.conversations, c.id = m.conversationID)
    (h : t.messages = s.messages.insertOrIgnore m) (hconversations : t.conversations = s.conversations) : Grows s t :=
  ⟨fun c hmem => ⟨c, hconversations ▸ hmem, rfl⟩, fun c hmem => .inl ⟨c, hconversations ▸ hmem, rfl⟩,
    messages_posted hc h⟩

theorem newConversation_trimmed {op : Op} {c : NewConversation} (h : op.newConversation = some c) :
    trimSpace c.id = c.id := by
  have hnormal (c : NewConversation) : trimSpace c.normal.id = c.normal.id := by
    have hid : c.normal.id = trimSpace c.id := by
      unfold NewConversation.normal
      dsimp only
      split <;> rfl
    rw [hid, trimSpace_trimSpace]
  cases op with
  | createConversation x =>
    cases h
    exact hnormal x
  | defaultConversation id =>
    cases h
    exact hnormal (discussion id)
  | _ => cases h

theorem ConversationEffect.grows (h : ConversationEffect env s t op a) : Grows s t ∨
    ∃ (p : String → Prop) (_ : DecidablePred p), Deleted s t p := by
  cases h.change.2 with
  | created row c p hop hid _ _ _ _ _ h hm _ _ _ _ =>
    have htrimmed : trimSpace row.id = row.id := by
      rw [hid]
      exact newConversation_trimmed hop
    exact .inl (.created h htrimmed hm)
  | updated p f h hf _ hm => exact .inl (.updated h (fun c => (hf c).id) (fun m hmem => .inl (hm ▸ hmem)))
  | same h hm => exact .inl (.same h hm)
  | posted m hc h hm => exact .inl (.posted hc hm.messages h)
  | deleted p h => exact .inr ⟨p, _, .of_ok h⟩

theorem RunEffect.grows (hs : RunsSound s) (h : RunEffect env s t op a) : Grows s t := by
  have hmoved (runs : Table RunRow.id) (id : String) (moved : ConversationRow → ℕ) (stamp : ℤ) {t : Store}
      (h : t.conversations = s.conversationsAfter runs id moved stamp)
      (hm : ∀ m ∈ t.messages, m ∈ s.messages ∨ ∃ c ∈ s.conversations, c.id = m.conversationID) : Grows s t := by
    refine Grows.updated (congrArg Table.rows h) ?_ hm
    exact fun c => rfl
  cases h with
  | reserve _ _ _ _ _ _ _ _ _ h =>
    obtain ⟨-, -, -, hres⟩ := Store.reserveAssistantRun_eq_ok h
    obtain ⟨_, rfl⟩ := hres.store
    exact .updated rfl (fun c => rfl) (fun m hm => .inl hm)
  | finish _ _ _ h =>
    have hend := Store.finishAIRun_eq_ok h
    obtain ⟨c, hc, hid⟩ := hend.conversation
    rw [hend.store]
    exact hmoved _ _ _ _ rfl (messages_posted ⟨c, hc, hid.trans hend.message.2.symm⟩ rfl)
  | stop _ _ _ _ _ _ h =>
    have hend := Store.stopAssistantRun_eq_ok h
    obtain ⟨r, hr, -, -, hconversation⟩ := hend.running
    obtain ⟨c, hc, hid⟩ := hs.housed r hr
    rw [hend.store]
    exact hmoved _ _ _ _ rfl (messages_posted ⟨c, hc, (hid.trans hconversation).trans hend.message.2.symm⟩ rfl)

theorem Housed.grown (hs : Housed s) (h : Grows s t) (htasks : t.tasks = s.tasks) : Housed t := by
  refine ⟨?_, htasks ▸ hs.tasks, ?_⟩
  · intro c' hc'
    rcases h.conversations c' hc' with ⟨c, hc, hid⟩ | htrim
    · exact hid ▸ hs.ids c hc
    · exact htrim
  · intro m hm
    have hold : ∃ c ∈ s.conversations, c.id = m.conversationID := by
      rcases h.messages m hm with hm | hc
      · exact hs.messages m hm
      · exact hc
    obtain ⟨c, hc, hid⟩ := hold
    obtain ⟨c', hc', hid'⟩ := h.kept c hc
    exact ⟨c', hc', hid'.trans hid⟩

theorem Housed.of_same (hs : Housed s) (hc : t.conversations = s.conversations) (hm : t.messages = s.messages)
    (ht : t.tasks = s.tasks) : Housed t :=
  ⟨hc ▸ hs.ids, ht ▸ hs.tasks, fun m hmem => hc ▸ hs.messages m (hm ▸ hmem)⟩

theorem Housed.deleted {p : String → Prop} [DecidablePred p] (hs : Housed s) (h : Deleted s t p)
    (ht : ∀ r ∈ t.tasks, r.state = .creating ∨ r.state = .linking → trimSpace r.id = r.id) : Housed t := by
  refine ⟨?_, ht, ?_⟩
  · intro c hc
    rw [h.conversations, mem_delete] at hc
    exact hs.ids c hc.1
  · intro m hm
    rw [h.messages, mem_delete] at hm
    obtain ⟨c, hc, hid⟩ := hs.messages m hm.1
    refine ⟨c, ?_, hid⟩
    rw [h.conversations, mem_delete]
    exact ⟨hc, hid ▸ hm.2⟩

def Submits (i : Call) (s t : Store) : Prop :=
  ∀ o, i.op = .beginPersonalTask o → t = s ∨ stableID o.id = true

theorem tasks_updated {p : TaskRow → Prop} [DecidablePred p] {f : TaskRow → TaskRow} (hs : Housed s)
    (h : ∀ r, p r → (f r).state = .creating ∨ (f r).state = .linking → r.state = .creating ∨ r.state = .linking)
    (hf : ∀ r, (f r).id = r.id := by intro r; cases r; rfl) :
    ∀ r ∈ s.tasks.update p f hf, r.state = .creating ∨ r.state = .linking → trimSpace r.id = r.id := by
  intro _ hr' hstate
  obtain ⟨r, hr, hid, ⟨hp, rfl⟩ | ⟨-, rfl⟩⟩ := exists_of_mem_update hr'
  · exact hid ▸ hs.tasks r hr (h r hp hstate)
  · exact hs.tasks _ hr hstate

theorem Housed.task (hs : Housed s) (h : TaskEffect env s t op a)
    (hguard : ∀ o, op = .beginPersonalTask o → t = s ∨ stableID o.id = true) : Housed t := by
  have hinsert {r : TaskRow} (hid : r.state = .creating ∨ r.state = .linking → trimSpace r.id = r.id) :
      Housed { s with tasks := s.tasks.insertOrIgnore r } := by
    refine ⟨hs.ids, ?_, hs.messages⟩
    intro x hx hstate
    rcases mem_insertOrIgnore.mp hx with hx | ⟨rfl, -⟩
    · exact hs.tasks x hx hstate
    · exact hid hstate
  cases h with
  | submit o _ h =>
    rcases hguard o rfl with rfl | hstable
    · exact hs
    · cases h
      exact hinsert (fun _ => trimSpace_of_stable hstable)
  | record _ _ _ h =>
    simp only [Store.recordPersonalTaskSession, bind_eq_ok, updateOne_eq_ok, pure_eq_ok, Prod.mk.injEq] at h
    obtain ⟨_, ⟨-, rfl⟩, -, rfl⟩ := h
    refine ⟨hs.ids, tasks_updated hs ?_, hs.messages⟩
    rintro r ⟨-, -, hold, -⟩ hnew
    rcases hold with hcreating | hdeleting
    · exact .inl hcreating
    · rw [if_pos hdeleting] at hnew
      rcases hnew with hnew | hnew <;> cases hnew
  | complete o _ h =>
    simp only [Store.completePersonalTaskCreation, bind_eq_ok, orError_eq_ok, require_eq_ok, updateOne_eq_ok,
      insertChecked_eq_ok, pure_eq_ok, Prod.mk.injEq] at h
    obtain ⟨p, -, _, -, _, -, _, ⟨hcount, rfl⟩, _, ⟨-, -, rfl⟩, -, rfl⟩ := h
    obtain ⟨r, hr, hid, -, hstate, -⟩ := (count_eq_one (fun r hr => hr.1)).mp hcount
    have htrim : trimSpace o.id = o.id := hid ▸ hs.tasks r hr (.inr hstate)
    refine ⟨?_, tasks_updated hs ?_, ?_⟩
    · intro c hc
      rcases mem_insertOrIgnore.mp hc with hc | ⟨rfl, -⟩
      · exact hs.ids c hc
      · exact htrim
    · intro r hr hnew
      rcases hnew with hnew | hnew <;> cases hnew
    · intro m hm
      obtain ⟨c, hc, hcid⟩ := hs.messages m hm
      exact ⟨c, mem_insertOrIgnore.mpr (.inl hc), hcid⟩
  | enroll _ _ _ _ _ _ _ h =>
    cases h
    refine hinsert ?_
    intro hstate
    rcases hstate with hstate | hstate <;> cases hstate
  | mark _ _ _ _ h =>
    cases h
    refine ⟨hs.ids, tasks_updated hs ?_, hs.messages⟩
    intro r hr hnew
    rcases hnew with hnew | hnew <;> cases hnew
  | completeDeletion _ _ h =>
    simp only [Store.completePersonalTaskDeletion, bind_eq_ok, updateOne_eq_ok, pure_eq_ok, Prod.mk.injEq] at h
    obtain ⟨u, hu, _, ⟨-, rfl⟩, -, rfl⟩ := h
    refine hs.deleted ((Deleted.of_ok hu).tasks _) (tasks_updated ?_ ?_)
    · obtain ⟨-, rfl⟩ := Store.deleteConversations_eq_ok hu
      exact hs.deleted (Deleted.of_ok hu) hs.tasks
    · intro r _ hnew
      rcases hnew with hnew | hnew <;> cases hnew
  | setError _ _ rejected _ h =>
    cases h
    refine ⟨hs.ids, tasks_updated hs ?_, hs.messages⟩
    rintro r ⟨-, -, hstate⟩ hnew
    cases rejected with
    | true => rcases hnew with hnew | hnew <;> cases hnew
    | false => exact hstate ▸ hnew

theorem Effect.housed (h : Effect env op a s t) (hroot : Rooted s) (hruns : RunsSound s) (hs : Housed s)
    (hguard : ∀ o, op = .beginPersonalTask o → t = s ∨ stableID o.id = true) : Housed t := by
  cases h with
  | same h => exact h ▸ hs
  | member h =>
    rcases h.frame with hframe | ⟨-, _, p, hp, hl, hdelete⟩
    · exact hs.of_same hframe.conversations.conversations hframe.conversations.messages hframe.tasks
    · have hdropped := hroot.dropped (find?_eq_some.mp hp).1 hl hdelete
      exact hs.of_same hdropped.conversations hdropped.messages hdropped.tasks
  | invite h =>
    obtain ⟨-, hconversations, htasks⟩ := h.frame
    exact hs.of_same hconversations.conversations hconversations.messages htasks
  | conversation h =>
    have htasks := h.frame.2.1
    rcases h.grows with hgrows | ⟨p, _, hdeleted⟩
    · exact hs.grown hgrows htasks
    · exact hs.deleted hdeleted (htasks ▸ hs.tasks)
  | run h => exact hs.grown (h.grows hruns) h.frame.2.1
  | task h => exact hs.task h hguard

theorem reopened_housed {stamp : ℤ} (hs : Housed s) (hruns : RunsSound s) (h : s.reopened stamp = .ok t) : Housed t := by
  have hids : (∀ c' ∈ t.conversations, ∃ c ∈ s.conversations, c.id = c'.id) ∧
      (∀ c ∈ s.conversations, ∃ c' ∈ t.conversations, c'.id = c.id) ∧ t.tasks = s.tasks := by
    refine Store.recovered_all (P := fun u => (∀ c' ∈ u.conversations, ∃ c ∈ s.conversations, c.id = c'.id) ∧
      (∀ c ∈ s.conversations, ∃ c' ∈ u.conversations, c'.id = c.id) ∧ u.tasks = s.tasks) ?_ ?_ h
    · rintro u r v ⟨hfrom, hkept, htasks⟩ ⟨messages, lastSeq, rfl, -⟩
      refine ⟨?_, ?_, htasks⟩
      · intro c' hc'
        dsimp only at hc'
        obtain ⟨c, hc, hid, -⟩ := exists_of_mem_update hc'
        exact hid ▸ hfrom c hc
      · intro c hc
        exact exists_key_update (hkept c hc)
    · obtain ⟨_, _, he, -⟩ := Store.migrateAssistantMembers_spec s
      rw [he]
      exact ⟨fun c hc => ⟨c, hc, rfl⟩, fun c hc => ⟨c, hc, rfl⟩, rfl⟩
  obtain ⟨hfrom, hkept, htasks⟩ := hids
  refine hs.grown ⟨hkept, fun c' hc' => .inl (hfrom c' hc'), ?_⟩ htasks
  intro m hm
  rcases (reopened_messages h).origin m hm with hm | ⟨-, r, hr, -, -, hconversation⟩
  · exact .inl hm
  · obtain ⟨c, hc, hid⟩ := hruns.housed r hr
    exact .inr ⟨c, hc, hid.trans hconversation.symm⟩

end Rules

theorem does_submits (i : Call) (s : Store) : Does Later (Submits i) (fun _ => Submits i) i.prog s s := by
  by_cases h : ∀ o, i.op = .beginPersonalTask o → stableID o.id = true
  · exact Does.always (fun _ _ o ho => .inr (h o ho)) (fun _ _ _ o ho => .inr (h o ho)) _ _ _
  · push Not at h
    obtain ⟨name, env, depth, _⟩ := i
    obtain ⟨o, rfl, hid⟩ := h
    have hrefused : Call.prog ⟨name, env, depth, .beginPersonalTask o⟩ =
        .ret (.error (.text "invalid personal task")) := by
      change guarded (require _ _) _ = _
      unfold require
      rw [if_neg (fun h => hid h.1)]
      rfl
    rw [hrefused]
    exact Does.ret (fun _ _ => .inl rfl)

theorem housed_reachable {c : Config Store Call Outcome} (h : system.Reachable c) : Housed c.store := by
  refine (labelled.also does_submits).invariant (J := fun c => Housed c.store) Housed.empty ?_ h
  intro c d hc hs hm
  have hroot := rooted_reachable hc
  have hruns := runsSound_reachable hc
  cases hm with
  | start _ _ hstore => exact hstore.symm ▸ hs
  | middle _ h | last _ _ h => exact h.1.housed hroot hruns hs h.2
  | restart h =>
    obtain ⟨_, h⟩ := h
    exact reopened_housed hs hruns h

end WorkAgent.Collaboration
