import WorkAgent.Collaboration.MemberChanges

namespace WorkAgent.Collaboration

open Library Table

def AIRun.row (run : AIRun) (stamp : ℤ) : RunRow :=
  ⟨run.id, run.conversationID, run.triggerMessageID, run.assistantID, run.assistantName, run.engine, .running,
    run.ownerUserID, run.ownerSID, run.contextFromSeq, run.contextThroughSeq, none, stamp, none⟩

structure Reserved (s t : Store) (run : AIRun) (message : Trigger) (key : String) (stamp : ℤ) : Prop where
  conversation : ∃ c ∈ s.conversations, c.id = run.conversationID ∧
    ∃ a ∈ s.assistants, a.key = (c.projectID, run.assistantID) ∧ a.state = .accepted
  trigger : run.triggerMessageID = message.id
  held : ∃ m ∈ s.messages.rows, m.id = message.id
  fresh : ∀ r ∈ s.runs, ¬ (r.triggerMessageID = run.triggerMessageID ∧ r.assistantID = run.assistantID)
  idle : ¬ s.activeIn run.conversationID run.assistantID
  unused : s.run run.id = none
  session : ∃ x, (s.seeded ⟨run.conversationID, run.assistantID, key, 0⟩).find? (run.conversationID, run.assistantID) =
    some x ∧ x.lastContextSeq < message.seq ∧ run.contextFromSeq = Store.contextFrom x.lastContextSeq
  through : run.contextThroughSeq = message.seq
  store : ∃ payers, t = { s with
    sessions := s.seeded ⟨run.conversationID, run.assistantID, key, 0⟩
    runs := s.runs.insertOrIgnore (run.row stamp)
    payers := payers
    conversations := s.conversations.update (fun c => c.id = run.conversationID)
      (fun c => { c with state := .running, updatedAt := stamp }) }

def RunRow.ended (r : RunRow) (state : RunState) (session : Option String) (stamp : ℤ) : RunRow :=
  { r with state := state, runtimeSessionID := session, finishedAt := some stamp }

def Store.runsEnded (s : Store) (id : String) (state : RunState) (session : RunRow → Option String) (stamp : ℤ) :
    Table RunRow.id :=
  s.runs.update (fun r => r.id = id ∧ r.state = .running) (fun r => r.ended state (session r) stamp)

def Store.conversationsAfter (s : Store) (runs : Table RunRow.id) (id : String) (moved : ConversationRow → ℕ)
    (stamp : ℤ) : Table ConversationRow.id :=
  s.conversations.update (fun c => c.id = id) (fun c => { c with
    state := { s with runs := runs }.stateAfter c.id, lastAIMessageSeq := moved c, updatedAt := stamp })

structure Finished (s t : Store) (run : AIRun) (result : RunResult) (m : MessageRow) (stamp : ℤ) : Prop where
  running : ∃ r ∈ s.runs, r.id = run.id ∧ r.state = .running
  conversation : ∃ c ∈ s.conversations, c.id = run.conversationID
  message : m.seq = s.lastSeq + 1 ∧ m.conversationID = run.conversationID
  fresh : s.messages.find? m.seq = none
  unused : ∀ x ∈ s.messages.rows, x.id ≠ m.id
  store : t = { s with
    runs := s.runsEnded run.id result.state (fun _ => nullableString result.runtimeSessionID) stamp
    messages := s.messages.insertOrIgnore m
    lastSeq := s.lastSeq + 1
    sessions := if 0 < Store.cursorAfter run result then
        s.sessions.update (fun x => x.conversationID = run.conversationID ∧ x.assistantID = run.assistantID)
          (fun x => { x with lastContextSeq := Store.cursorAfter run result })
      else s.sessions
    conversations := s.conversationsAfter
      (s.runsEnded run.id result.state (fun _ => nullableString result.runtimeSessionID) stamp) run.conversationID
      (fun c => if 0 < Store.cursorAfter run result ∧ c.assistantID = run.assistantID
        then Store.cursorAfter run result else c.lastAIMessageSeq) stamp }

structure Stopped (s t : Store) (run : AIRun) (m : MessageRow) (stamp : ℤ) : Prop where
  running : ∃ r ∈ s.runs, r.id = run.id ∧ r.state = .running ∧ r.conversationID = run.conversationID
  message : m.seq = s.lastSeq + 1 ∧ m.conversationID = run.conversationID
  fresh : s.messages.find? m.seq = none
  unused : ∀ x ∈ s.messages.rows, x.id ≠ m.id
  store : t = { s with
    runs := s.runsEnded run.id .stopped RunRow.runtimeSessionID stamp
    messages := s.messages.insertOrIgnore m
    lastSeq := s.lastSeq + 1
    conversations := s.conversationsAfter (s.runsEnded run.id .stopped RunRow.runtimeSessionID stamp)
      run.conversationID ConversationRow.lastAIMessageSeq stamp }

theorem id_idle (stamp : ℤ) (c : ConversationRow) : { c with state := .idle, updatedAt := stamp }.id = c.id := rfl

def Recovered (s t : Store) (r : RunRow) (stamp : ℤ) : Prop :=
  ∃ messages lastSeq, t = { s with
    runs := s.runsEnded r.id .failed RunRow.runtimeSessionID stamp
    conversations := s.conversations.update (fun c => c.id = r.conversationID ∧ c.state = .running)
      (fun c => { c with state := .idle, updatedAt := stamp }) (id_idle stamp)
    messages := messages
    lastSeq := lastSeq } ∧
    (((∃ m ∈ s.messages.rows, m.id = "recovery_" ++ r.id) ∧ messages = s.messages ∧ lastSeq = s.lastSeq) ∨
      ((∀ m ∈ s.messages.rows, m.id ≠ "recovery_" ++ r.id) ∧ ∃ m : MessageRow, m.id = "recovery_" ++ r.id ∧
        m.conversationID = r.conversationID ∧ m.seq = s.lastSeq + 1 ∧ s.messages.find? m.seq = none ∧
        messages = s.messages.insertOrIgnore m ∧ lastSeq = s.lastSeq + 1))

namespace Store

variable {s t : Store}

variable {conversation assistant : String}

theorem runContext_eq_some {payer : ℤ} {x : RunContext}
    (h : s.runContext conversation assistant payer = some x) :
    x.conversation ∈ s.conversations ∧ x.conversation.id = conversation ∧ x.assistant.assistantID = assistant ∧
      x.assistant ∈ s.assistants ∧ x.assistant.key = (x.conversation.projectID, assistant) ∧
      x.assistant.state = .accepted := by
  simp only [runContext, Option.bind_eq_bind, Option.bind_eq_some_iff, Option.some.injEq] at h
  obtain ⟨c, hc, p, hp, m, -, a, ha, rfl⟩ := h
  obtain ⟨hmem, hid⟩ := find?_eq_some.mp hc
  obtain ⟨ha, hstate⟩ := Option.filter_eq_some_iff.mp ha
  obtain ⟨hamem, hkey⟩ := find?_eq_some.mp ha
  have hproject := (find?_eq_some.mp hp).2
  exact ⟨hmem, hid, congrArg Prod.snd hkey, hamem, hproject ▸ hkey, by simpa using hstate⟩

variable {stamp : ℤ} {run : AIRun}

theorem reserveAssistantRun_eq_ok {runID key : String} {message : Trigger} {payer : ℤ}
    (h : s.reserveAssistantRun runID message payer assistant key stamp = .ok (run, t)) :
    run.id = runID ∧ run.conversationID = message.conversationID ∧ run.assistantID = assistant ∧
      Reserved s t run message key stamp := by
  obtain ⟨_, _, _⟩ := message
  simp only [reserveAssistantRun, bind_eq_ok, orError_eq_ok, require_eq_ok, insertChecked_eq_ok, pure_eq_ok,
    Prod.mk.injEq] at h
  obtain ⟨x, hx, -, -, -, hfresh, -, hidle, ⟨u, t₁⟩, hseed, session, hsession, -, hlast, runs, ⟨hheld, hnew, rfl⟩,
    payers, ⟨-, -, rfl⟩, rfl, rfl⟩ := h
  obtain rfl := seedSession_eq_ok hseed
  obtain ⟨hmem, hid, hassistant, hamem, hkey, hstate⟩ := runContext_eq_some hx
  subst hid hassistant
  refine ⟨rfl, rfl, rfl, ?_⟩
  exact ⟨⟨_, hmem, rfl, _, hamem, hkey, hstate⟩, rfl, hheld, hfresh, hidle, hnew, ⟨session, hsession, hlast, rfl⟩, rfl, ⟨_, rfl⟩⟩

theorem finishAIRun_eq_ok {result : RunResult} {m : MessageRow}
    (h : s.finishAIRun run result stamp = .ok (m, t)) : Finished s t run result m stamp := by
  simp only [finishAIRun, bind_eq_ok, updateOne_eq_ok, pure_eq_ok, Prod.mk.injEq] at h
  obtain ⟨_, ⟨hcount, rfl⟩, u, hu, rfl, rfl⟩ := h
  obtain ⟨hc, hunused, hnew, rfl⟩ := insertMessage_eq_ok hu
  obtain ⟨r, hr, hid, hstate⟩ := (count_eq_one (fun r hr => hr.1)).mp hcount
  exact ⟨⟨r, hr, hid, hstate⟩, hc, ⟨rfl, rfl⟩, hnew, hunused, rfl⟩

theorem stoppable_eq_some {user : ℤ} {r : RunRow} {y : PayerRow}
    (h : s.stoppable conversation assistant user = some (r, y)) :
    r ∈ s.runs ∧ r.conversationID = conversation ∧ r.state = .running := by
  simp only [stoppable, Option.bind_eq_bind, Option.bind_eq_some_iff, Option.some.injEq, Prod.mk.injEq] at h
  obtain ⟨c, -, m, -, _, hr, _, -, rfl, rfl⟩ := h
  have hmem := mem_of_pick hr
  simp only [List.mem_filter, decide_eq_true_eq] at hmem
  obtain ⟨hmem, hconv, -, hstate, -⟩ := hmem
  exact ⟨hmem, hconv, hstate⟩

theorem stopAssistantRun_eq_ok {message : String} {user : ℤ}
    {m : MessageRow} (h : s.stopAssistantRun conversation assistant user message stamp = .ok ((run, m), t)) :
    Stopped s t run m stamp := by
  simp only [stopAssistantRun, bind_eq_ok, orError_eq_ok, pure_eq_ok, Prod.mk.injEq] at h
  obtain ⟨⟨r, y⟩, hr, u, hu, ⟨rfl, rfl⟩, rfl⟩ := h
  obtain ⟨hmem, rfl, hstate⟩ := stoppable_eq_some hr
  obtain ⟨-, hunused, hnew, rfl⟩ := insertMessage_eq_ok hu
  exact ⟨⟨r, hmem, rfl, hstate, rfl⟩, ⟨rfl, rfl⟩, hnew, hunused, rfl⟩

theorem recoverInterruptedRun_eq_ok {r : RunRow} (h : s.recoverInterruptedRun r stamp = .ok t) :
    Recovered s t r stamp := by
  rcases insertMessageOrIgnore_eq_ok h with ⟨hex, rfl⟩ | ⟨hnew, h⟩
  · exact ⟨s.messages, s.lastSeq, rfl, .inl ⟨hex, rfl, rfl⟩⟩
  · obtain ⟨-, -, hfresh, rfl⟩ := insertMessage_eq_ok h
    exact ⟨_, _, rfl, .inr ⟨hnew, _, rfl, rfl, rfl, hfresh, rfl, rfl⟩⟩

theorem recovered_all {P : Store → Prop} (hkeep : ∀ s r t, P s → Recovered s t r stamp → P t)
    {s t : Store} (hs : P s) (h : s.recoverInterruptedRuns stamp = .ok t) : P t := by
  have hlist (l : List RunRow) : ∀ s, P s → l.foldlM (fun t r => t.recoverInterruptedRun r stamp) s = .ok t → P t := by
    induction l with
    | nil =>
      intro s hs h
      cases h
      exact hs
    | cons r _ ih =>
      intro s hs h
      rw [List.foldlM_cons, bind_eq_ok] at h
      obtain ⟨u, hu, h⟩ := h
      exact ih u (hkeep s r u hs (recoverInterruptedRun_eq_ok hu)) h
  exact hlist _ s hs h

theorem migrateAssistantMembers_spec (s : Store) : ∃ assistants sessions,
    s.migrateAssistantMembers = { s with assistants := assistants, sessions := sessions } ∧
      (∀ k a, s.assistants.find? k = some a → assistants.find? k = some a) ∧
      (∀ k x, s.sessions.find? k = some x → sessions.find? k = some x) ∧
      ∀ x ∈ sessions, x ∈ s.sessions ∨ (s.sessions.find? x.key = none ∧ ∃ c ∈ s.conversations,
        x.conversationID = c.id ∧ x.assistantID = c.assistantID ∧ x.lastContextSeq = c.lastAIMessageSeq) := by
  let P (t : Store) : Prop := ∃ assistants sessions,
    t = { s with assistants := assistants, sessions := sessions } ∧
      (∀ k a, s.assistants.find? k = some a → assistants.find? k = some a) ∧
      (∀ k x, s.sessions.find? k = some x → sessions.find? k = some x) ∧
      ∀ x ∈ sessions, x ∈ s.sessions ∨ (s.sessions.find? x.key = none ∧ ∃ c ∈ s.conversations,
        x.conversationID = c.id ∧ x.assistantID = c.assistantID ∧ x.lastContextSeq = c.lastAIMessageSeq)
  have hself : P s := ⟨s.assistants, s.sessions, rfl, fun _ _ h => h, fun _ _ h => h, fun _ h => .inl h⟩
  change P s.migrateAssistantMembers
  unfold migrateAssistantMembers
  refine List.foldlRecOn _ _ (List.foldlRecOn _ _ hself ?_) ?_
  · rintro t ⟨assistants, sessions, rfl, ha, hx, hnew⟩ c -
    exact ⟨_, _, rfl, fun k a h => find?_insertOrIgnore_of_some (ha k a h), hx, hnew⟩
  · rintro t ⟨assistants, sessions, rfl, ha, hx, hnew⟩ c hc
    have hmem : c ∈ s.conversations := (List.mem_filter.mp hc).1
    split
    · exact ⟨assistants, sessions, rfl, ha, hx, hnew⟩
    · refine ⟨_, _, rfl, ha, fun k x h => find?_insertOrIgnore_of_some (hx k x h), ?_⟩
      intro x hx'
      rcases mem_insertOrIgnore.mp hx' with hold | ⟨rfl, hnone⟩
      · exact hnew x hold
      · refine .inr ⟨?_, c, hmem, rfl, rfl, rfl⟩
        cases hfind : s.sessions.find? _ with
        | none => rfl
        | some y =>
          have hsome := hx _ y hfind
          rw [hnone] at hsome
          cases hsome

theorem reopened_frame (h : s.reopened stamp = .ok t) :
    SameMembership s t ∧ t.tasks = s.tasks ∧ s.lastSeq ≤ t.lastSeq := by
  refine recovered_all (P := fun u => SameMembership s u ∧ u.tasks = s.tasks ∧ s.lastSeq ≤ u.lastSeq) ?_ ?_ h
  · rintro u r v ⟨hsame, htasks, hseq⟩ ⟨_, _, rfl, hm⟩
    refine ⟨hsame.trans ⟨rfl, rfl, rfl, rfl, rfl⟩, htasks, ?_⟩
    rcases hm with ⟨-, -, rfl⟩ | ⟨-, m, -, -, -, -, -, rfl⟩
    · exact hseq
    · exact Nat.le_succ_of_le hseq
  · obtain ⟨_, _, he, -⟩ := migrateAssistantMembers_spec s
    rw [he]
    exact ⟨⟨rfl, rfl, rfl, rfl, rfl⟩, rfl, Nat.le_refl _⟩

end Store

variable {env : Env} {op : Op} {a : Option Outcome}

theorem RunEffect.frame {s t : Store} (h : RunEffect env s t op a) :
    SameMembership s t ∧ t.tasks = s.tasks ∧ s.lastSeq ≤ t.lastSeq := by
  cases h with
  | reserve _ _ _ _ _ _ _ _ _ h =>
    obtain ⟨-, -, -, hres⟩ := Store.reserveAssistantRun_eq_ok h
    obtain ⟨_, rfl⟩ := hres.store
    exact ⟨⟨rfl, rfl, rfl, rfl, rfl⟩, rfl, Nat.le_refl _⟩
  | finish _ _ _ h =>
    rw [(Store.finishAIRun_eq_ok h).store]
    exact ⟨⟨rfl, rfl, rfl, rfl, rfl⟩, rfl, Nat.le_succ _⟩
  | stop _ _ _ _ _ _ h =>
    rw [(Store.stopAssistantRun_eq_ok h).store]
    exact ⟨⟨rfl, rfl, rfl, rfl, rfl⟩, rfl, Nat.le_succ _⟩

theorem MemberEffect.launched {s t : Store}
    (h : MemberEffect env s t op a) : LaunchedKept s.projects t.projects ∧ t.lastSeq = s.lastSeq := by
  cases h.change with
  | created => exact ⟨LaunchedKept.insert _, rfl⟩
  | deleted _ _ _ _ _ hp _ hdelete =>
    simp only [Store.deleteProject, bind_eq_ok, pure_eq_ok] at hdelete
    obtain ⟨u, hu, rfl⟩ := hdelete
    obtain ⟨-, rfl⟩ := Store.deleteConversations_eq_ok hu
    refine ⟨LaunchedKept.delete ?_, rfl⟩
    intro x hx hid
    rwa [eq_of_key hx (find?_eq_some.mp hp).1 hid]
  | provisioned =>
    refine ⟨LaunchedKept.update ?_ ?_, rfl⟩
    · exact fun x hx hl => absurd hx.2 hl.1
    · exact fun _ => rfl
  | updated _ _ _ _ hf _ _ _ hlaunched => exact ⟨LaunchedKept.update (fun x hx => (hlaunched x hx).mpr) hf, rfl⟩
  | moved _ _ _ _ hf _ _ _ hlaunched =>
    exact ⟨LaunchedKept.update (fun x _ => hlaunched x) hf, rfl⟩
  | rows | removal | link => exact ⟨LaunchedKept.refl, rfl⟩

theorem Effect.later {s t : Store} (h : Effect env op a s t) :
    Later s t := by
  cases h with
  | same h => exact h ▸ Later.refl s
  | member h => exact ⟨h.launched.1, h.launched.2.ge⟩
  | invite h =>
    obtain ⟨⟨hp, -, -⟩, hc, -⟩ := h.frame
    exact ⟨fun id p hid hl => ⟨p, by rw [Store.project, hp]; exact hid, hl⟩, hc.lastSeq.ge⟩
  | conversation h | run h =>
    obtain ⟨hm, -, hseq⟩ := h.frame
    exact ⟨fun id p hid hl => ⟨p, by rw [Store.project, hm.projects]; exact hid, hl⟩, hseq⟩
  | task h =>
    obtain ⟨hm, hseq⟩ := h.frame
    exact ⟨fun id p hid hl => ⟨p, by rw [Store.project, hm.projects]; exact hid, hl⟩, hseq.ge⟩

theorem labelled : Labelled system Later (fun i => Effect i.env i.op none) (fun i o => Effect i.env i.op (some o)) where
  refl := Later.refl
  trans := fun _ _ _ => Later.trans
  middle := fun _ _ _ => Effect.later
  last := fun _ _ _ _ => Effect.later
  reopen := by
    rintro s t ⟨_, h⟩
    obtain ⟨hm, -, hseq⟩ := Store.reopened_frame h
    exact ⟨fun id p hid hl => ⟨p, by rw [Store.project, hm.projects]; exact hid, hl⟩, hseq⟩
  prog := answers_prog

end WorkAgent.Collaboration
