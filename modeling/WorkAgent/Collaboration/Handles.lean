import WorkAgent.Collaboration.RunMoves

namespace WorkAgent.Collaboration

open Library List Returns

def Silent : Outcome → Prop
  | .ok (.run _) => False
  | .ok (.message _) => False
  | _ => True

section Silent

variable {α : Type}

theorem silent_answer {p : Action α} {mk : α → Answer} (h : ∀ a, Silent (.ok (mk a))) :
    Returns Silent (answer p mk) :=
  andThen (fun _ => trivial) (fun a => ret (h a))

theorem silent_write (body : Store → Except Error (Unit × Store)) : Returns Silent (write body) :=
  silent_answer (fun _ => trivial)

theorem silent_andThen {p : Action α} {g : α → Action Answer} (h : ∀ a, Returns Silent (g a)) :
    Returns Silent (p.andThen g) :=
  andThen (fun _ => trivial) h

theorem silent_guarded {check : Except Error Unit} {next : Action Answer} (h : Returns Silent next) :
    Returns Silent (guarded check next) := by
  cases check with
  | error => exact ret trivial
  | ok => exact h

theorem silent_readProject (id : String) (user : ℤ) (hidden : Bool) : Returns Silent (readProject id user hidden) :=
  silent_answer (fun _ => trivial)

theorem silent_readConversation (id : String) (user : ℤ) : Returns Silent (readConversation id user) :=
  silent_answer (fun _ => trivial)

theorem silent_orElse {p : Action Answer} {next : Error → Action Answer} (hp : Returns Silent p)
    (h : ∀ e, Returns Silent (next e)) : Returns Silent (orElse p next) := by
  refine hp.bind ?_
  rintro (e | a) ha
  · exact h e
  · exact ret ha

theorem silent_createConversation (env : Env) (c : NewConversation) (user : ℤ) :
    Returns Silent (createConversation env c user) :=
  silent_guarded (silent_andThen fun _ => silent_andThen fun _ => silent_andThen fun _ =>
    silent_readConversation _ user)

theorem silent_updateConversationRuntime (id : String) (user : ℤ) (model effort : String) :
    Returns Silent (updateConversationRuntime id user model effort) :=
  silent_andThen fun _ => silent_andThen fun _ => silent_readConversation id user

theorem silent_submitPersonalTask (env : Env) (o : PersonalTask) (depth : ℕ) :
    Returns Silent (submitPersonalTask env o depth) := by
  induction depth with
  | zero => exact ret trivial
  | succ _ ih =>
    refine (Returns.any _).bind ?_
    rintro (e | existing) -
    · dsimp only
      split
      · exact ret trivial
      · exact silent_andThen fun _ => silent_guarded (silent_andThen fun _ => ih)
    · exact silent_guarded (ret trivial)

theorem silent_prog (i : Call) (h : ¬ i.op.Commits) : Returns Silent i.prog := by
  obtain ⟨_, env, depth, op⟩ := i
  cases op with
  | createProject _ owner => exact silent_guarded (silent_andThen fun _ => silent_readProject _ owner true)
  | setProvisioningResult | abortProjectProvisioning | setHidden | archiveProject | abortInviteAcceptance | declineInvite
  | revokeInvite | abortOwnershipTransfer | finalizeOwnershipTransfer | revokeInviteLink | deleteConversation
  | completePersonalTaskCreation | completePersonalTaskDeletion | setPersonalTaskError => exact silent_write _
  | projectForUser id user hidden => exact silent_readProject id user hidden
  | renameProject id owner => exact silent_guarded (silent_andThen fun _ => silent_readProject id owner true)
  | createInvite =>
    exact silent_guarded (silent_andThen fun _ => silent_andThen fun _ => silent_andThen fun _ =>
      silent_andThen fun _ => silent_guarded (silent_andThen fun _ => silent_answer fun _ => trivial))
  | beginInviteAcceptance =>
    refine silent_andThen ?_
    rintro (e | m) <;> exact ret trivial
  | completeInviteAcceptance _ target => exact silent_andThen fun _ => silent_readProject _ target true
  | invitesForTarget => exact silent_andThen fun _ => silent_answer fun _ => trivial
  | projectInvites =>
    exact silent_andThen fun _ => silent_guarded (silent_andThen fun _ => silent_answer fun _ => trivial)
  | beginOwnershipTransfer =>
    exact silent_guarded (silent_andThen fun _ => silent_answer fun _ => trivial)
  | completeOwnershipTransfer => exact silent_andThen fun _ => silent_readProject _ _ true
  | createInviteLink =>
    exact silent_guarded (silent_andThen fun _ => silent_guarded (silent_andThen fun _ =>
      silent_answer fun _ => trivial))
  | completeInviteLinkAcceptance _ user => exact silent_andThen fun _ => silent_readProject _ user true
  | createConversation c user => exact silent_createConversation env c user
  | defaultConversation _ user =>
    refine silent_orElse (silent_readConversation _ user) ?_
    intro e
    split
    · exact ret trivial
    · exact silent_orElse (silent_createConversation env _ user) (fun _ => silent_readConversation _ user)
  | conversationForUser | updateAssistantSettings | personalTaskOperation => exact silent_answer fun _ => trivial
  | setConversationHidden id user =>
    exact silent_andThen fun _ => silent_andThen fun _ => silent_readConversation id user
  | updateConversationMetadata _ user =>
    exact silent_guarded (silent_guarded (silent_andThen fun _ => silent_readConversation _ user))
  | updateConversationRuntime id user model effort => exact silent_updateConversationRuntime id user model effort
  | bindAssistant id user _ _ model effort =>
    exact silent_andThen fun _ => silent_guarded (silent_guarded (silent_updateConversationRuntime id user model effort))
  | inviteAssistant =>
    refine silent_andThen fun _ => silent_guarded (silent_andThen fun _ => silent_andThen fun _ =>
      silent_andThen fun found => ?_)
    cases found with
    | none | some => exact ret trivial
  | removeAssistant => exact silent_andThen fun _ => silent_write _
  | beginPersonalTask o => exact silent_guarded (silent_submitPersonalTask env o depth)
  | recordPersonalTaskSession => exact silent_guarded (silent_write _)
  | beginPersonalTaskDeletion =>
    exact silent_andThen fun _ => silent_andThen fun _ => silent_answer fun _ => trivial
  | beginMemberRemoval | completeMemberRemoval | abortMemberRemoval | beginInviteLinkAcceptance | abortInviteLinkAcceptance
  | addMessage | messageByID | reserveAIRun | reserveAssistantRun | finishAIRun | stopAssistantRun => exact absurd trivial h

end Silent

section Returned

variable {c : Config Store Call Outcome}

section

variable (hc : system.Reachable c)
include hc

theorem silent_returned {i : Call} {o : Outcome} (hx : (i, o) ∈ c.returned)
    (hop : ¬ i.op.Commits) : Silent o := by
  refine answers (A := fun i o => ¬ i.op.Commits → Silent o) ?_ hc (i, o) hx hop
  intro i
  by_cases h : i.op.Commits
  · exact (Returns.any _).weaken (fun _ _ hn => absurd h hn)
  · exact (silent_prog i h).weaken (fun _ ho _ => ho)

theorem names_nodup : (c.started.map Call.name).Nodup := by
  refine labelled.invariant (J := fun c => (c.started.map Call.name).Nodup) nodup_nil ?_ hc
  intro c d _ hnodup hm
  have hcons {i : Call} (h : Admitted c.started c.returned i) : ((i :: c.started).map Call.name).Nodup := by
    rw [map_cons, nodup_cons]
    refine ⟨?_, hnodup⟩
    intro hmem
    obtain ⟨j, hj, hname⟩ := mem_map.mp hmem
    exact h.name j hj hname
  cases hm with
  | start _ h _ hstarted => exact hstarted.symm ▸ hcons h
  | middle _ _ _ hstarted | restart _ hstarted => exact hstarted.symm ▸ hnodup
  | last _ _ h _ hstarted =>
    rcases hstarted with hstarted | ⟨h, hstarted⟩
    · exact hstarted.symm ▸ hnodup
    · exact hstarted.symm ▸ hcons h

theorem returned_nodup : (c.returned.map Prod.fst).Nodup := by
  have hcalls : c.calls.Nodup := by
    obtain ⟨l, hperm, hsub⟩ := hc.calls_subperm
    exact hperm.nodup_iff.mp (hsub.nodup (List.Nodup.of_map _ (names_nodup hc)))
  exact (nodup_append.mp hcalls).2.1

theorem runID_unique {i j : Call} {id : String} (hi : i ∈ c.started) (hj : j ∈ c.started)
    (hid : i.op.runID = some id) (hjd : j.op.runID = some id) : i = j := by
  have hinv : ∀ i ∈ c.started, ∀ j ∈ c.started, i.op.runID = some id → j.op.runID = some id → i = j := by
    refine labelled.invariant (J := fun c => ∀ i ∈ c.started, ∀ j ∈ c.started, i.op.runID = some id →
      j.op.runID = some id → i = j) ?_ ?_ hc
    · intro i hi
      cases hi
    · intro c d _ hall hm
      have hcons {k : Call} (h : Admitted c.started c.returned k) : ∀ i ∈ k :: c.started, ∀ j ∈ k :: c.started,
          i.op.runID = some id → j.op.runID = some id → i = j := by
        intro i hi j hj hid hjd
        rcases mem_cons.mp hi with rfl | hold
        · rcases mem_cons.mp hj with rfl | hold
          · rfl
          · exact absurd hjd (h.runID id hid j hold)
        · rcases mem_cons.mp hj with rfl | hold'
          · exact absurd hid (h.runID id hjd i hold)
          · exact hall i hold j hold' hid hjd
      cases hm with
      | start _ h _ hstarted => exact hstarted.symm ▸ hcons h
      | middle _ _ _ hstarted | restart _ hstarted => exact hstarted.symm ▸ hall
      | last _ _ h _ hstarted =>
        rcases hstarted with hstarted | ⟨h, hstarted⟩
        · exact hstarted.symm ▸ hall
        · exact hstarted.symm ▸ hcons h
  exact hinv i hi j hj hid hjd

end

end Returned

structure SameRun (r r' : RunRow) : Prop where
  id : r'.id = r.id
  conversationID : r'.conversationID = r.conversationID
  triggerMessageID : r'.triggerMessageID = r.triggerMessageID
  assistantID : r'.assistantID = r.assistantID
  contextFromSeq : r'.contextFromSeq = r.contextFromSeq
  contextThroughSeq : r'.contextThroughSeq = r.contextThroughSeq

theorem SameRun.refl (r : RunRow) : SameRun r r := ⟨rfl, rfl, rfl, rfl, rfl, rfl⟩

theorem SameRun.trans {r r' r'' : RunRow} (h : SameRun r r') (h' : SameRun r' r'') : SameRun r r'' :=
  ⟨h'.id.trans h.id, h'.conversationID.trans h.conversationID, h'.triggerMessageID.trans h.triggerMessageID,
    h'.assistantID.trans h.assistantID, h'.contextFromSeq.trans h.contextFromSeq,
    h'.contextThroughSeq.trans h.contextThroughSeq⟩

structure IsRow (run : AIRun) (r : RunRow) : Prop where
  conversationID : r.conversationID = run.conversationID
  assistantID : r.assistantID = run.assistantID
  contextFromSeq : r.contextFromSeq = run.contextFromSeq
  contextThroughSeq : r.contextThroughSeq = run.contextThroughSeq

theorem IsRow.of_same {run : AIRun} {r r' : RunRow} (h : IsRow run r) (hs : SameRun r r') : IsRow run r' :=
  ⟨hs.conversationID.trans h.conversationID, hs.assistantID.trans h.assistantID,
    hs.contextFromSeq.trans h.contextFromSeq, hs.contextThroughSeq.trans h.contextThroughSeq⟩

section Rows

variable {env : Env} {op : Op} {a : Option Outcome} {s t : Store}

theorem Store.mem_runsEnded {id : String} {state : RunState} {session : RunRow → Option String} {stamp : ℤ}
    {r' : RunRow} (h : r' ∈ s.runsEnded id state session stamp) : ∃ r ∈ s.runs, SameRun r r' ∧
      ((r.id = id ∧ r.state = .running ∧ r'.state = state) ∨ (¬ (r.id = id ∧ r.state = .running) ∧ r' = r)) := by
  obtain ⟨r, hr, -, ⟨hp, rfl⟩ | ⟨hp, rfl⟩⟩ := Table.exists_of_mem_update h
  · exact ⟨r, hr, ⟨rfl, rfl, rfl, rfl, rfl, rfl⟩, .inl ⟨hp.1, hp.2, rfl⟩⟩
  · exact ⟨_, hr, SameRun.refl _, .inr ⟨hp, rfl⟩⟩

theorem Store.runsEnded_of_mem (id : String) (state : RunState) (session : RunRow → Option String) (stamp : ℤ)
    {r : RunRow} (h : r ∈ s.runs) : ∃ r' ∈ s.runsEnded id state session stamp, SameRun r r' ∧
      ((r.id = id ∧ r.state = .running ∧ r'.state = state) ∨ (¬ (r.id = id ∧ r.state = .running) ∧ r' = r)) := by
  refine ⟨_, Table.mem_update_of_mem h, ?_⟩
  split
  · rename_i hp
    exact ⟨⟨rfl, rfl, rfl, rfl, rfl, rfl⟩, .inl ⟨hp.1, hp.2, rfl⟩⟩
  · rename_i hp
    exact ⟨SameRun.refl r, .inr ⟨hp, rfl⟩⟩

theorem reopened_rows {stamp : ℤ} (h : s.reopened stamp = .ok t) : ∀ r' ∈ t.runs, ∃ r ∈ s.runs, SameRun r r' := by
  refine Store.recovered_all (P := fun u => ∀ r' ∈ u.runs, ∃ r ∈ s.runs, SameRun r r') ?_ ?_ h
  · rintro u x v hu ⟨messages, lastSeq, rfl, -⟩ r' hr'
    obtain ⟨r, hr, hsame, -⟩ := Store.mem_runsEnded hr'
    obtain ⟨r₀, hr₀, hsame₀⟩ := hu r hr
    exact ⟨r₀, hr₀, hsame₀.trans hsame⟩
  · obtain ⟨_, _, he, -⟩ := Store.migrateAssistantMembers_spec s
    rw [he]
    exact fun r hr => ⟨r, hr, SameRun.refl r⟩

theorem Effect.rows (h : Effect env op a s t) (hs : Rooted s) : ∀ r' ∈ t.runs, (∃ r ∈ s.runs, SameRun r r') ∨
    ∃ run stamp, a = some (.ok (.run run)) ∧ op.runID = some run.id ∧ r' = run.row stamp := by
  rcases h.moves hs with (hkept | ⟨p, _, hdel⟩) | hrun
  · rw [hkept.runs]
    exact fun r hr => .inl ⟨r, hr, SameRun.refl r⟩
  · rw [hdel.runs]
    exact fun r hr => .inl ⟨r, (Table.mem_delete.mp hr).1, SameRun.refl r⟩
  · cases hrun with
    | reserve _ _ _ _ _ run hid _ _ hreserve =>
      obtain ⟨hrunID, -, -, hres⟩ := Store.reserveAssistantRun_eq_ok hreserve
      obtain ⟨_, rfl⟩ := hres.store
      intro r' hr'
      rcases Table.mem_insertOrIgnore.mp hr' with hr' | ⟨rfl, -⟩
      · exact .inl ⟨r', hr', SameRun.refl r'⟩
      · exact .inr ⟨run, env.stamp 0, rfl, hrunID.symm ▸ hid, rfl⟩
    | finish _ _ _ hfinish =>
      rw [(Store.finishAIRun_eq_ok hfinish).store]
      intro r' hr'
      obtain ⟨r, hr, hsame, -⟩ := Store.mem_runsEnded hr'
      exact .inl ⟨r, hr, hsame⟩
    | stop _ _ _ _ _ _ hstop =>
      rw [(Store.stopAssistantRun_eq_ok hstop).store]
      intro _ hr'
      obtain ⟨r, hr, hsame, -⟩ := Store.mem_runsEnded hr'
      exact .inl ⟨r, hr, hsame⟩

theorem Effect.reserves {run : AIRun} (h : Effect env op (some (.ok (.run run))) s t) (hop : op.Commits) :
    op.runID = some run.id ∧ ∃ message key stamp, op.trigger = some message ∧ 0 < message.seq ∧
      Reserved s t run message key stamp := by
  cases h with
  | same _ ha => exact absurd hop (ha _ rfl)
  | member h | task h => cases h <;> exact hop.elim
  | invite h =>
    cases h with
    | expire _ _ _ hcommits => exact absurd hop hcommits
    | _ => exact hop.elim
  | conversation h =>
    cases h with
    | create op _ _ _ hnew => cases op <;> first | exact hop.elim | cases hnew
    | seedAssistant _ _ _ hcommits | seedSession _ _ _ _ _ hcommits | inviteAssistant _ _ _ hcommits
    | updateAssistant _ _ _ _ _ _ hcommits | updateModels _ _ _ _ _ _ hcommits => exact absurd hop hcommits
    | _ => exact hop.elim
  | run h =>
    cases h with
    | reserve _ _ message _ _ _ hid hmessage hpos h =>
      obtain ⟨hrunID, -, -, hres⟩ := Store.reserveAssistantRun_eq_ok h
      exact ⟨hrunID.symm ▸ hid, message, _, _, hmessage, hpos, hres⟩

end Rows

section Handles

variable {c : Config Store Call Outcome}

theorem run_answered (hc : system.Reachable c) {j : Call} {run : AIRun} (hj : (j, .ok (.run run)) ∈ c.returned) :
    j ∈ c.started ∧ j.op.runID = some run.id := by
  have hop : j.op.Commits := by
    by_contra hop
    exact silent_returned hc hj hop
  refine labelled.invariant (J := fun c => (j, .ok (.run run)) ∈ c.returned →
    j ∈ c.started ∧ j.op.runID = some run.id) ?_ ?_ hc hj
  · intro h
    cases h
  · intro c d _ hind hm hj
    cases hm with
    | start i _ _ hstarted hret =>
      rw [hret] at hj
      rw [hstarted]
      exact ⟨mem_cons_of_mem i (hind hj).1, (hind hj).2⟩
    | middle _ _ _ hstarted hret | restart _ hstarted hret =>
      rw [hret] at hj
      exact hstarted.symm ▸ hind hj
    | last i _ h hmem hstarted hret =>
      rw [hret] at hj
      rcases mem_cons.mp hj with heq | hj
      · cases heq
        exact ⟨hmem, (h.reserves hop).1⟩
      · obtain ⟨hstart, hid⟩ := hind hj
        refine ⟨?_, hid⟩
        rcases hstarted with hstarted | ⟨-, hstarted⟩
        · exact hstarted.symm ▸ hstart
        · exact hstarted.symm ▸ mem_cons_of_mem i hstart

theorem handle_row (hc : system.Reachable c) : ∀ j run, (j, .ok (.run run)) ∈ c.returned →
    ∀ r ∈ c.store.runs, r.id = run.id → IsRow run r := by
  induction hc with
  | refl =>
    intro j run h
    cases h
  | @tail c d hc hs ih =>
    have hd : system.Reachable d := hc.tail hs
    have hold (hrows : ∀ r' ∈ d.store.runs, ∃ r ∈ c.store.runs, SameRun r r') {j : Call} {run : AIRun}
        (hj : (j, .ok (.run run)) ∈ c.returned) : ∀ r ∈ d.store.runs, r.id = run.id → IsRow run r := by
      intro r' hr' hid
      obtain ⟨r, hr, hsame⟩ := hrows r' hr'
      exact (ih j run hj r hr (hsame.id.symm.trans hid)).of_same hsame
    intro j run hj r' hr' hid
    cases labelled.moves hc hs with
    | start _ _ hstore _ hret =>
      rw [hret] at hj
      exact hold (fun r hr => ⟨r, hstore ▸ hr, SameRun.refl r⟩) hj r' hr' hid
    | middle _ h _ _ hret =>
      rw [hret] at hj
      refine hold ?_ hj r' hr' hid
      intro x hx
      rcases h.rows (rooted_reachable hc) x hx with hsame | ⟨_, _, hnone, -⟩
      · exact hsame
      · cases hnone
    | restart h _ hret =>
      obtain ⟨stamp, h⟩ := h
      rw [hret] at hj
      exact hold (reopened_rows h) hj r' hr' hid
    | last i _ h hmem _ hret =>
      rcases h.rows (rooted_reachable hc) r' hr' with ⟨r, hr, hsame⟩ | ⟨_, stamp, ho, hrunID, rfl⟩
      · rw [hret] at hj
        rcases mem_cons.mp hj with heq | hj
        · cases heq
          have hop : j.op.Commits := by
            by_contra hop
            exact silent_returned hd (hret ▸ mem_cons_self) hop
          obtain ⟨-, _, _, _, -, -, hres⟩ := h.reserves hop
          have hnone := Table.find?_eq_none.mp hres.unused r hr
          exact absurd (hsame.id.symm.trans hid) hnone
        · exact (ih j run hj r hr (hsame.id.symm.trans hid)).of_same hsame
      · cases ho
        rw [hret] at hj
        rcases mem_cons.mp hj with heq | hj
        · cases heq
          exact ⟨rfl, rfl, rfl, rfl⟩
        · obtain ⟨hstart, hjid⟩ := run_answered hc hj
          have heq : j = i := runID_unique hd (hs.started_subset hstart) hmem hjid (hid ▸ hrunID)
          have hnodup := returned_nodup hd
          rw [hret, map_cons, nodup_cons] at hnodup
          exact absurd (mem_map_of_mem hj) (heq ▸ hnodup.1)

end Handles

structure MessagesFrom (s t : Store) : Prop where
  lastSeq : s.lastSeq ≤ t.lastSeq
  origin : ∀ m ∈ t.messages, m ∈ s.messages ∨ (s.lastSeq < m.seq ∧ m.seq ≤ t.lastSeq)

def Numbered (s : Store) : Prop := ∀ m ∈ s.messages, 0 < m.seq ∧ m.seq ≤ s.lastSeq

section Numbers

variable {env : Env} {op : Op} {a : Option Outcome} {s t u : Store}

theorem MessagesFrom.subset (hseq : t.lastSeq = s.lastSeq) (h : ∀ m ∈ t.messages, m ∈ s.messages) : MessagesFrom s t :=
  ⟨hseq.ge, fun m hm => .inl (h m hm)⟩

theorem MessagesFrom.trans (h : MessagesFrom s t) (h' : MessagesFrom t u) : MessagesFrom s u := by
  refine ⟨Nat.le_trans h.lastSeq h'.lastSeq, ?_⟩
  intro m hm
  rcases h'.origin m hm with hm | ⟨hlt, hle⟩
  · rcases h.origin m hm with hm | ⟨hlt, hle⟩
    · exact .inl hm
    · exact .inr ⟨hlt, Nat.le_trans hle h'.lastSeq⟩
  · exact .inr ⟨Nat.lt_of_le_of_lt h.lastSeq hlt, hle⟩

variable {m : MessageRow}

theorem Posted.messagesFrom (h : Posted s t m) : MessagesFrom s t := by
  refine ⟨by rw [h.lastSeq]; omega, ?_⟩
  intro x hx
  rw [h.messages] at hx
  rcases Table.mem_insertOrIgnore.mp hx with hx | ⟨rfl, -⟩
  · exact .inl hx
  · rw [h.lastSeq, h.seq]
    exact .inr ⟨by omega, by omega⟩

theorem Numbered.of_messagesFrom (hs : Numbered s) (h : MessagesFrom s t) : Numbered t := by
  intro m hm
  have hseq := h.lastSeq
  rcases h.origin m hm with hm | ⟨_, hle⟩
  · obtain ⟨hpos, hle⟩ := hs m hm
    exact ⟨hpos, by omega⟩
  · exact ⟨by omega, hle⟩

variable {stamp : ℤ}

theorem Finished.posted {run : AIRun} {result : RunResult}
    (h : Finished s t run result m stamp) : Posted s t m :=
  ⟨h.message.1, h.fresh, h.unused, by rw [h.store], by rw [h.store]⟩

theorem Stopped.posted {run : AIRun} (h : Stopped s t run m stamp) : Posted s t m :=
  ⟨h.message.1, h.fresh, h.unused, by rw [h.store], by rw [h.store]⟩

theorem Effect.messagesFrom (h : Effect env op a s t) (hs : Rooted s) : MessagesFrom s t := by
  rcases h.moves hs with (hkept | ⟨p, _, hdel⟩) | hrun
  · rcases hkept.messages with ⟨hmessages, hseq⟩ | ⟨m, hposted⟩
    · exact .subset hseq (fun m hm => hmessages ▸ hm)
    · exact hposted.messagesFrom
  · refine .subset hdel.lastSeq ?_
    rw [hdel.messages]
    exact fun m hm => (Table.mem_delete.mp hm).1
  · cases hrun with
    | reserve _ _ _ _ _ _ _ _ _ hreserve =>
      obtain ⟨-, -, -, hres⟩ := Store.reserveAssistantRun_eq_ok hreserve
      obtain ⟨_, rfl⟩ := hres.store
      exact .subset rfl (fun m hm => hm)
    | finish _ _ _ hfinish => exact (Store.finishAIRun_eq_ok hfinish).posted.messagesFrom
    | stop _ _ _ _ _ _ hstop => exact (Store.stopAssistantRun_eq_ok hstop).posted.messagesFrom

theorem reopened_messagesFrom (h : s.reopened stamp = .ok t) : MessagesFrom s t := by
  refine Store.recovered_all (P := MessagesFrom s) ?_ ?_ h
  · rintro u r v hu ⟨_, _, rfl, hm⟩
    refine hu.trans ?_
    rcases hm with ⟨-, rfl, rfl⟩ | ⟨hunused, m, hid, -, hseq, hfresh, rfl, rfl⟩
    · exact .subset rfl (fun m hm => hm)
    · exact Posted.messagesFrom (m := m) ⟨hseq, hfresh, hid ▸ hunused, rfl, rfl⟩
  · obtain ⟨_, _, he, -⟩ := Store.migrateAssistantMembers_spec s
    rw [he]
    exact .subset rfl (fun m hm => hm)

theorem Effect.message_seq (h : Effect env op (some (.ok (.message m))) s t) (hop : op.Commits)
    (hs : Numbered s) : 0 < m.seq ∧ m.seq ≤ t.lastSeq := by
  cases h with
  | same _ ha => exact absurd hop (ha _ rfl)
  | member h | task h => cases h <;> exact hop.elim
  | invite h =>
    cases h with
    | expire _ _ _ hcommits => exact absurd hop hcommits
    | _ => exact hop.elim
  | conversation h =>
    cases h with
    | create op _ _ _ hnew => cases op <;> first | exact hop.elim | cases hnew
    | seedAssistant _ _ _ hcommits | seedSession _ _ _ _ _ hcommits | inviteAssistant _ _ _ hcommits
    | updateAssistant _ _ _ _ _ _ hcommits | updateModels _ _ _ _ _ _ hcommits => exact absurd hop hcommits
    | touch _ _ _ _ hpos hseq h =>
      cases h
      exact ⟨hpos, hseq⟩
    | found _ _ _ _ hr h => exact h.symm ▸ hs _ hr
    | _ => exact hop.elim
  | run h =>
    cases h with
    | finish _ _ _ hfinish =>
      have hposted := (Store.finishAIRun_eq_ok hfinish).posted
      rw [hposted.seq, hposted.lastSeq]
      exact ⟨by omega, by omega⟩

variable {c d : Config Store Call Outcome}

theorem messages_step (hc : system.Reachable c) (h : system.Step c d) : MessagesFrom c.store d.store := by
  have hs := rooted_reachable hc
  cases labelled.moves hc h with
  | start _ _ hstore => exact .subset (by rw [hstore]) (fun m hm => hstore ▸ hm)
  | middle _ h | last _ _ h => exact h.messagesFrom hs
  | restart h =>
    obtain ⟨_, h⟩ := h
    exact reopened_messagesFrom h

theorem numbered_reachable (hc : system.Reachable c) : Numbered c.store := by
  induction hc with
  | refl =>
    intro m hm
    exact absurd hm (Table.not_mem_empty m)
  | tail hc hs ih => exact ih.of_messagesFrom (messages_step hc hs)

theorem message_answered (hc : system.Reachable c) {j : Call}
    (hj : (j, .ok (.message m)) ∈ c.returned) : 0 < m.seq ∧ m.seq ≤ c.store.lastSeq := by
  have hop : j.op.Commits := by
    by_contra hop
    exact silent_returned hc hj hop
  induction hc with
  | refl => cases hj
  | @tail c d hc hs ih =>
    have hkeep (hj : (j, .ok (.message m)) ∈ c.returned) : 0 < m.seq ∧ m.seq ≤ d.store.lastSeq :=
      ⟨(ih hj).1, Nat.le_trans (ih hj).2 (messages_step hc hs).lastSeq⟩
    cases labelled.moves hc hs with
    | start _ _ _ _ hret | middle _ _ _ _ hret | restart _ _ hret => exact hkeep (hret ▸ hj)
    | last _ _ h _ _ hret =>
      rw [hret] at hj
      rcases mem_cons.mp hj with heq | hj
      · cases heq
        exact h.message_seq hop (numbered_reachable hc)
      · exact hkeep hj

end Numbers

end WorkAgent.Collaboration
