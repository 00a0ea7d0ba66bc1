import WorkAgent.Collaboration.RunStates

namespace WorkAgent.Collaboration

open Library List Table

def Lives (r r' : RunRow) : Prop := SameRun r r' ∧ (r' = r ∨ (r.state = .running ∧ r'.state ≠ .running))

theorem Lives.refl (r : RunRow) : Lives r r := ⟨SameRun.refl r, .inl rfl⟩

theorem Lives.trans {r r' r'' : RunRow} (h : Lives r r') (h' : Lives r' r'') : Lives r r'' := by
  refine ⟨h.1.trans h'.1, ?_⟩
  rcases h.2 with rfl | ⟨hrunning, hover⟩
  · exact h'.2
  · rcases h'.2 with rfl | ⟨hrunning', -⟩
    · exact .inr ⟨hrunning, hover⟩
    · exact absurd hrunning' hover

theorem Closed.lives {r r' : RunRow} (h : Closed r r') : Lives r r' := by
  refine ⟨h.1, ?_⟩
  rcases h.2 with rfl | ⟨hrunning, hfailed⟩
  · exact .inl rfl
  · exact .inr ⟨hrunning, by rw [hfailed]; decide⟩

def Leaves (t : Store) (r : RunRow) : Prop := r.state = .running ∧ ∃ r' ∈ t.runs, r'.id = r.id ∧ r'.state ≠ .running

def LeavesAlone (s t : Store) (r : RunRow) : Prop :=
  ∃ m, Posted s t m ∧ m.conversationID = r.conversationID ∧ ∀ x ∈ s.runs, x.id ≠ r.id → x ∈ t.runs

structure RecoveryMessages (s t : Store) : Prop where
  kept : ∀ m ∈ s.messages, m ∈ t.messages
  posted : ∀ r ∈ s.runs, r.state = .running → ∃ m ∈ t.messages, m.id = "recovery_" ++ r.id
  origin : ∀ m ∈ t.messages, m ∈ s.messages ∨ (∀ x ∈ s.messages, x.id ≠ m.id) ∧
    ∃ r ∈ s.runs, r.state = .running ∧ m.id = "recovery_" ++ r.id ∧ m.conversationID = r.conversationID

def UniqueIDs (s : Store) : Prop := ∀ m ∈ s.messages, ∀ m' ∈ s.messages, m.id = m'.id → m = m'

section Messages

variable {s t u : Store} {r : RunRow} {stamp : ℤ}

theorem UniqueIDs.posted {m : MessageRow} (hs : UniqueIDs s) (h : Posted s t m) : UniqueIDs t := by
  intro x hx y hy hid
  rw [h.messages] at hx hy
  rcases mem_insertOrIgnore.mp hx with hold | ⟨rfl, -⟩
  · rcases mem_insertOrIgnore.mp hy with hold' | ⟨rfl, -⟩
    · exact hs x hold y hold' hid
    · exact absurd hid (h.unused x hold)
  · rcases mem_insertOrIgnore.mp hy with hold | ⟨rfl, -⟩
    · exact absurd hid.symm (h.unused y hold)
    · rfl

theorem UniqueIDs.subset (hs : UniqueIDs s) (h : ∀ m ∈ t.messages, m ∈ s.messages) : UniqueIDs t :=
  fun x hx y hy => hs x (h x hx) y (h y hy)

theorem Recovered.messages (h : Recovered s t r stamp) :
    ((∃ m ∈ s.messages, m.id = "recovery_" ++ r.id) ∧ t.messages = s.messages) ∨
      ∃ m, Posted s t m ∧ m.id = "recovery_" ++ r.id ∧ m.conversationID = r.conversationID := by
  obtain ⟨_, _, rfl, ⟨hex, rfl, rfl⟩ | ⟨hunused, m, hid, hconversation, hseq, hfresh, rfl, rfl⟩⟩ := h
  · exact .inl ⟨hex, rfl⟩
  · exact .inr ⟨m, ⟨hseq, hfresh, hid ▸ hunused, rfl, rfl⟩, hid, hconversation⟩

theorem recovered_messages (l : List RunRow) : ∀ s : Store,
    l.foldlM (fun t r => t.recoverInterruptedRun r stamp) s = .ok t → (∀ m ∈ s.messages, m ∈ t.messages) ∧ (∀ r ∈ l, ∃ m ∈ t.messages, m.id = "recovery_" ++ r.id) ∧
      ∀ m ∈ t.messages, m ∈ s.messages ∨ (∀ x ∈ s.messages, x.id ≠ m.id) ∧
        ∃ r ∈ l, m.id = "recovery_" ++ r.id ∧ m.conversationID = r.conversationID := by
  induction l with
  | nil =>
    intro s h
    cases h
    refine ⟨fun m hm => hm, ?_, fun m hm => .inl hm⟩
    intro r hr
    cases hr
  | cons x l ih =>
    intro s h
    rw [foldlM_cons, bind_eq_ok] at h
    obtain ⟨u, hu, h⟩ := h
    obtain ⟨hkept, hposted, horigin⟩ := ih u h
    have hlater {m : MessageRow} (h : (∀ y ∈ u.messages, y.id ≠ m.id) ∧
          ∃ r ∈ l, m.id = "recovery_" ++ r.id ∧ m.conversationID = r.conversationID)
        (hsub : ∀ y ∈ s.messages, y ∈ u.messages) : (∀ y ∈ s.messages, y.id ≠ m.id) ∧
          ∃ r ∈ x :: l, m.id = "recovery_" ++ r.id ∧ m.conversationID = r.conversationID := by
      obtain ⟨hunused, r, hr, hrest⟩ := h
      exact ⟨fun y hy => hunused y (hsub y hy), r, mem_cons_of_mem x hr, hrest⟩
    rcases (Store.recoverInterruptedRun_eq_ok hu).messages with ⟨⟨m, hm, hid⟩, hsame⟩ | ⟨m, hpost, hid, hconversation⟩
    · refine ⟨fun y hy => hkept y (hsame ▸ hy), ?_, ?_⟩
      · intro r hr
        rcases mem_cons.mp hr with rfl | hr
        · exact ⟨m, hkept m (hsame ▸ hm), hid⟩
        · exact hposted r hr
      · intro y hy
        rcases horigin y hy with hy | hnew
        · exact .inl (hsame ▸ hy)
        · exact .inr (hlater hnew (fun z hz => hsame ▸ hz))
    · have hsub (y : MessageRow) (hy : y ∈ s.messages) : y ∈ u.messages := by
        rw [hpost.messages]
        exact mem_insertOrIgnore.mpr (.inl hy)
      refine ⟨fun y hy => hkept y (hsub y hy), ?_, ?_⟩
      · intro r hr
        rcases mem_cons.mp hr with rfl | hr
        · refine ⟨m, hkept m ?_, hid⟩
          rw [hpost.messages]
          exact mem_insertOrIgnore.mpr (.inr ⟨rfl, hpost.fresh⟩)
        · exact hposted r hr
      · intro y hy
        rcases horigin y hy with hy | hnew
        · rw [hpost.messages] at hy
          rcases mem_insertOrIgnore.mp hy with hy | ⟨rfl, -⟩
          · exact .inl hy
          · exact .inr ⟨hpost.unused, x, mem_cons_self, hid, hconversation⟩
        · exact .inr (hlater hnew hsub)

theorem reopened_messages (h : s.reopened stamp = .ok t) : RecoveryMessages s t := by
  obtain ⟨hkept, hposted, horigin⟩ := recovered_messages _ _ h
  obtain ⟨_, _, he, -⟩ := Store.migrateAssistantMembers_spec s
  have hmem {r : RunRow} : r ∈ s.migrateAssistantMembers.interrupted ↔ r ∈ s.runs ∧ r.state = .running := by
    rw [he, Store.interrupted, mem_mergeSort, mem_filter, decide_eq_true_eq, mem_rows]
  rw [he] at hkept horigin
  refine ⟨hkept, fun r hr hrunning => hposted r (hmem.mpr ⟨hr, hrunning⟩), ?_⟩
  intro m hm
  rcases horigin m hm with hm | ⟨hunused, r, hr, hid, hconversation⟩
  · exact .inl hm
  · have hrun := hmem.mp (he ▸ hr)
    exact .inr ⟨hunused, r, hrun.1, hrun.2, hid, hconversation⟩

theorem UniqueIDs.reopened (hs : UniqueIDs s) (h : s.reopened stamp = .ok t) : UniqueIDs t := by
  refine Store.recovered_all (P := UniqueIDs) ?_ ?_ h
  · intro u r v hu hr
    rcases hr.messages with ⟨-, hsame⟩ | ⟨m, hpost, -⟩
    · exact hu.subset (fun m hm => hsame ▸ hm)
    · exact hu.posted hpost
  · obtain ⟨_, _, he, -⟩ := Store.migrateAssistantMembers_spec s
    rw [he]
    exact hs.subset (fun m hm => hm)

theorem UniqueIDs.move (hs : UniqueIDs s) (h : RunMove s t) : UniqueIDs t := by
  cases h with
  | kept h =>
    rcases h.messages with ⟨hsame, -⟩ | ⟨m, hpost⟩
    · exact hs.subset (fun m hm => hsame ▸ hm)
    · exact hs.posted hpost
  | deleted _ h =>
    refine hs.subset ?_
    rw [h.messages]
    exact fun m hm => (mem_delete.mp hm).1
  | reserved _ _ _ _ _ _ h =>
    obtain ⟨_, rfl⟩ := h.store
    exact hs.subset (fun m hm => hm)
  | finished _ _ _ _ _ h | stopped _ _ _ h => exact hs.posted h.posted
  | reopened _ h => exact hs.reopened h

end Messages

section Moves

variable {s t : Store} {stamp : ℤ}

theorem Store.runsEnded_lives {id : String} {state : RunState} {session : RunRow → Option String}
    (hstate : state ≠ .running) {r : RunRow} (hr : r ∈ s.runs) :
    ∃ r' ∈ s.runsEnded id state session stamp, Lives r r' := by
  obtain ⟨r', hr', hsame, ⟨-, hrunning, hended⟩ | ⟨-, rfl⟩⟩ := Store.runsEnded_of_mem id state session stamp hr
  · exact ⟨r', hr', hsame, .inr ⟨hrunning, by rw [hended]; exact hstate⟩⟩
  · exact ⟨_, hr', Lives.refl _⟩

theorem RunResult.state_ne_running (r : RunResult) : r.state ≠ .running := by
  unfold RunResult.state
  split <;> decide

theorem migrated_runs (s : Store) : s.migrateAssistantMembers.runs = s.runs := by
  obtain ⟨_, _, he, -⟩ := Store.migrateAssistantMembers_spec s
  rw [he]

theorem RunMove.lives (h : RunMove s t) {r : RunRow} (hr : r ∈ s.runs) :
    (∃ r' ∈ t.runs, Lives r r') ∨ t.conversation r.conversationID = none := by
  cases h with
  | kept h => exact .inl ⟨r, h.runs ▸ hr, Lives.refl r⟩
  | deleted p h =>
    by_cases hp : p r.conversationID
    · refine .inr ?_
      rw [Store.conversation, h.conversations, Table.find?_eq_none]
      intro c hc hid
      exact (mem_delete.mp hc).2 (hid ▸ hp)
    · refine .inl ⟨r, ?_, Lives.refl r⟩
      rw [h.runs]
      exact mem_delete.mpr ⟨hr, hp⟩
  | reserved _ _ _ _ _ _ h =>
    obtain ⟨_, rfl⟩ := h.store
    exact .inl ⟨r, mem_insertOrIgnore.mpr (.inl hr), Lives.refl r⟩
  | finished _ result _ _ _ h =>
    rw [h.store]
    exact .inl (Store.runsEnded_lives (RunResult.state_ne_running result) hr)
  | stopped _ _ _ h =>
    rw [h.store]
    exact .inl (Store.runsEnded_lives (by decide) hr)
  | reopened _ h =>
    obtain ⟨r', hr', hclosed⟩ := (reopened_settled h).1.kept r (migrated_runs s ▸ hr)
    exact .inl ⟨r', hr', hclosed.lives⟩

theorem RunMove.assistantsKept (h : RunMove s t) : AssistantsKept s t := by
  cases h with
  | kept h => exact h.assistants
  | deleted _ h => exact .same h.assistants
  | reserved _ _ _ _ _ _ h =>
    obtain ⟨_, rfl⟩ := h.store
    exact .same rfl
  | finished _ _ _ _ _ h | stopped _ _ _ h =>
    rw [h.store]
    exact .same rfl
  | reopened _ h =>
    obtain ⟨_, _, he, hkept, -, -⟩ := Store.migrateAssistantMembers_spec s
    have hassistants := (reopened_settled h).1.assistants
    rw [he] at hassistants
    intro a ha _
    have hfind := hkept a.key a (find?_of_mem ha)
    exact ⟨a, hassistants ▸ (find?_eq_some.mp hfind).1, rfl, rfl, rfl, id⟩

theorem Store.runsEnded_leavesAlone (id : String) (state : RunState) {session : RunRow → Option String} {r : RunRow}
     {m : MessageRow} (hr : r ∈ s.runs) (hrunning : r.state = .running) (hleaves : Leaves t r)
    (hpost : Posted s t m) (hruns : t.runs = s.runsEnded id state session stamp)
    (hconversation : r.id = id → m.conversationID = r.conversationID) : LeavesAlone s t r := by
  obtain ⟨-, _, hr', hid, hover⟩ := hleaves
  rw [hruns] at hr'
  obtain ⟨x, hx, hsame, hcase⟩ := Store.mem_runsEnded hr'
  obtain rfl := eq_of_key hx hr (hsame.id.symm.trans hid)
  rcases hcase with ⟨hxid, -, -⟩ | ⟨-, rfl⟩
  · refine ⟨m, hpost, hconversation hxid, ?_⟩
    intro y hy hne
    rw [hruns]
    exact mem_update_of_neg hy (fun h => hne (h.1.trans hxid.symm))
  · exact absurd hrunning hover

theorem RunMove.leaves (h : RunMove s t) {r : RunRow} (hr : r ∈ s.runs) (hleaves : Leaves t r) :
    LeavesAlone s t r ∨ ∃ stamp, s.reopened stamp = .ok t := by
  have hrunning := hleaves.1
  have hsubset (hsub : ∀ x ∈ t.runs, x.id = r.id → x.state ≠ .running → x ∈ s.runs) : False := by
    obtain ⟨-, r', hr', hid, hover⟩ := hleaves
    obtain rfl := eq_of_key (hsub r' hr' hid hover) hr hid
    exact hover hrunning
  cases h with
  | kept h => exact (hsubset (fun x hx _ _ => h.runs ▸ hx)).elim
  | deleted _ h =>
    refine (hsubset ?_).elim
    rw [h.runs]
    exact fun x hx _ _ => (mem_delete.mp hx).1
  | reserved _ _ _ _ _ _ h =>
    obtain ⟨_, rfl⟩ := h.store
    refine (hsubset ?_).elim
    intro x hx hid hover
    rcases mem_insertOrIgnore.mp hx with hx | ⟨rfl, -⟩
    · exact hx
    · exact absurd rfl hover
  | finished run result _ _ hrow h =>
    refine .inl (Store.runsEnded_leavesAlone run.id result.state hr hrunning hleaves h.posted
      (by rw [h.store]) ?_)
    intro hid
    exact h.message.2.trans (hrow r hr hid).conversationID.symm
  | stopped run _ _ h =>
    refine .inl (Store.runsEnded_leavesAlone run.id .stopped hr hrunning hleaves h.posted
      (by rw [h.store]) ?_)
    intro hid
    obtain ⟨x, hx, hxid, -, hconversation⟩ := h.running
    rw [eq_of_key hr hx (hid.trans hxid.symm), hconversation]
    exact h.message.2
  | reopened stamp h => exact .inr ⟨stamp, h⟩

end Moves

section Reopening

variable {s : Store}

theorem Store.insertMessage_total {m : MessageRow} (hs : Numbered s)
    (hc : ∃ c ∈ s.conversations.rows, c.id = m.conversationID) (hid : ∀ x ∈ s.messages.rows, x.id ≠ m.id) :
    ∃ t, s.insertMessage m = .ok t := by
  refine ⟨_, bind_eq_ok.mpr ⟨_, insertChecked_eq_ok.mpr ⟨⟨hc, hid⟩, ?_, rfl⟩, rfl⟩⟩
  rw [Table.find?_eq_none]
  intro x hx
  have hle := (hs x hx).2
  dsimp only
  omega

theorem Store.recoverInterruptedRun_total (stamp : ℤ) {r : RunRow} (hs : Numbered s)
    (hc : ∃ c ∈ s.conversations, c.id = r.conversationID) : ∃ t, s.recoverInterruptedRun r stamp = .ok t := by
  have hc' : ∃ c ∈ (s.conversations.update (fun c => c.id = r.conversationID ∧ c.state = .running)
      (fun c => { c with state := .idle, updatedAt := stamp })), c.id = r.conversationID :=
    exists_key_update hc
  unfold recoverInterruptedRun insertMessageOrIgnore
  by_cases hex : ∃ m ∈ s.messages.rows, m.id = "recovery_" ++ r.id
  · exact ⟨_, bind_eq_ok.mpr ⟨(), require_eq_ok.mpr hc', if_pos hex⟩⟩
  · have hunused : ∀ m ∈ s.messages.rows, m.id ≠ "recovery_" ++ r.id := fun m hm hid => hex ⟨m, hm, hid⟩
    obtain ⟨t, ht⟩ := Store.insertMessage_total (s := { s with
        runs := s.runsEnded r.id .failed RunRow.runtimeSessionID stamp
        conversations := s.conversations.update (fun c => c.id = r.conversationID ∧ c.state = .running)
          (fun c => { c with state := .idle, updatedAt := stamp }) })
      (m := ⟨s.lastSeq + 1, "recovery_" ++ r.id, r.conversationID, none, "System", "", .system, interruptedBody, [],
        [], stamp⟩) hs hc' hunused
    exact ⟨t, bind_eq_ok.mpr ⟨(), require_eq_ok.mpr hc', (if_neg hex).trans ht⟩⟩

theorem reopened_total (hs : RunsSound s) (hnumbered : Numbered s) (stamp : ℤ) : ∃ t, s.reopened stamp = .ok t := by
  have hlist (l : List RunRow) : ∀ u : Store, Numbered u → (∀ r ∈ l, ∃ c ∈ u.conversations, c.id = r.conversationID) →
      ∃ t, l.foldlM (fun t r => t.recoverInterruptedRun r stamp) u = .ok t := by
    induction l with
    | nil => exact fun u _ _ => ⟨u, rfl⟩
    | cons r _ ih =>
      intro u hu hc
      obtain ⟨v, hv⟩ := Store.recoverInterruptedRun_total stamp hu (hc r mem_cons_self)
      have hrecovered := Store.recoverInterruptedRun_eq_ok hv
      have hnumbered : Numbered v := by
        rcases hrecovered.messages with ⟨-, hsame⟩ | ⟨m, hpost, -⟩
        · refine hu.of_messagesFrom ⟨?_, fun m hm => .inl (hsame ▸ hm)⟩
          obtain ⟨_, _, rfl, ⟨-, -, rfl⟩ | ⟨-, m, -, -, -, -, -, rfl⟩⟩ := hrecovered
          · exact Nat.le_refl _
          · exact Nat.le_succ _
        · exact hu.of_messagesFrom hpost.messagesFrom
      obtain ⟨t, ht⟩ := ih v hnumbered (fun x hx => by
        obtain ⟨c, hcmem, hid⟩ := hc x (mem_cons_of_mem r hx)
        obtain ⟨c', hc', hid'⟩ := hrecovered.settled.housed c hcmem
        exact ⟨c', hc', hid'.trans hid⟩)
      exact ⟨t, by rw [foldlM_cons, bind_eq_ok]; exact ⟨v, hv, ht⟩⟩
  obtain ⟨_, _, he, -⟩ := Store.migrateAssistantMembers_spec s
  refine hlist _ _ (by rw [he]; exact hnumbered) ?_
  intro r hr
  rw [he, Store.interrupted, mem_mergeSort, mem_filter] at hr
  rw [he]
  exact hs.housed r hr.1

end Reopening

theorem uniqueIDs_reachable {c : Config Store Call Outcome} (hc : system.Reachable c) : UniqueIDs c.store := by
  induction hc with
  | refl => exact forall_mem_empty
  | tail hc h ih => exact ih.move (run_move hc h)

theorem row_lives {c d : Config Store Call Outcome} (hc : system.Reachable c) (h : system.Run c d) {r : RunRow}
    (hr : r ∈ c.store.runs) : (∃ r' ∈ d.store.runs, Lives r r') ∨
      ∃ e, system.Run c e ∧ system.Run e d ∧ e.store.conversation r.conversationID = none := by
  induction h with
  | refl => exact .inl ⟨r, hr, Lives.refl r⟩
  | @tail _ e hrun hstep ih =>
    rcases ih with ⟨_, hr', hlives⟩ | ⟨x, hcx, hxd, hnone⟩
    · rcases (run_move (hc.run hrun) hstep).lives hr' with ⟨r'', hr'', hlives'⟩ | hnone
      · exact .inl ⟨r'', hr'', hlives.trans hlives'⟩
      · exact .inr ⟨e, hrun.tail hstep, Relation.ReflTransGen.refl, hlives.1.conversationID ▸ hnone⟩
    · exact .inr ⟨x, hcx, hxd.tail hstep, hnone⟩

/-- The states of conversations, runs and assistants fit together, now and in each step from here. -/
structure RunConsistency (c : Config Store Call Outcome) : Prop where
  state : ∀ x ∈ c.store.conversations, x.state = .running ↔
    ∃ r ∈ c.store.runs, r.conversationID = x.id ∧ r.state = .running
  alone : ∀ r ∈ c.store.runs, ∀ r' ∈ c.store.runs, r.state = .running → r'.state = .running →
    r.conversationID = r'.conversationID → r.assistantID = r'.assistantID → r = r'
  once : ∀ d, system.Run c d → ∀ r ∈ c.store.runs,
    (∃ r' ∈ d.store.runs, Lives r r' ∧ ∀ x ∈ d.store.runs, x.triggerMessageID = r.triggerMessageID →
      x.assistantID = r.assistantID → x = r') ∨
    ∃ e, system.Run c e ∧ system.Run e d ∧ e.store.conversation r.conversationID = none
  atWork : ∀ r ∈ c.store.runs, r.state = .running → ∀ x ∈ c.store.conversations, x.id = r.conversationID →
    ∃ a ∈ c.store.assistants, a.key = (x.projectID, r.assistantID) ∧ a.state = .accepted ∧
      ∀ d, system.Step c d → ∃ a' ∈ d.store.assistants, a'.key = a.key ∧ a'.state = .accepted ∧
        a'.modelID = a.modelID ∧ a'.thinkingEffort = a.thinkingEffort
  leaves : ∀ d, system.Step c d → ∀ r ∈ c.store.runs, Leaves d.store r →
    LeavesAlone c.store d.store r ∨ ∃ stamp, c.store.reopened stamp = .ok d.store
  reopens : ∀ stamp, ∃ t, c.store.reopened stamp = .ok t ∧ RecoveryMessages c.store t ∧ UniqueIDs t ∧
    (∀ r ∈ t.runs, r.state ≠ .running) ∧ ∀ x ∈ t.conversations, x.state ≠ .running

theorem run_consistency {c : Config Store Call Outcome} (hc : system.Reachable c) : RunConsistency c := by
  have hs := runsSound_reachable hc
  refine ⟨hs.state, hs.alone, ?_, ?_, fun d hd r hr => (run_move hc hd).leaves hr, ?_⟩
  · intro d hd r hr
    rcases row_lives hc hd hr with ⟨r', hr', hlives⟩ | hdeleted
    · refine .inl ⟨r', hr', hlives, ?_⟩
      intro x hx htrigger hassistant
      exact (runsSound_reachable (hc.run hd)).once x hx r' hr' (htrigger.trans hlives.1.triggerMessageID.symm)
        (hassistant.trans hlives.1.assistantID.symm)
    · exact .inr hdeleted
  · intro r hr hrunning x hx hid
    obtain ⟨a, ha, hkey, hstate⟩ := hs.employed r hr hrunning x hx hid
    refine ⟨a, ha, hkey, hstate, ?_⟩
    intro d hd
    have hatwork : c.store.assistantRunning a.projectID a.assistantID :=
      ⟨r, hr, (congrArg Prod.snd hkey).symm, hrunning, x, hx, hid, (congrArg Prod.fst hkey).symm⟩
    obtain ⟨a', ha', hkey', hmodel, heffort, hstate'⟩ := (run_move hc hd).assistantsKept a ha hatwork
    exact ⟨a', ha', hkey', hstate' hstate, hmodel, heffort⟩
  · intro stamp
    obtain ⟨t, ht⟩ := reopened_total hs (numbered_reachable hc) stamp
    obtain ⟨hruns, hconversations⟩ := hs.reopened_idle ht
    exact ⟨t, ht, reopened_messages ht, (uniqueIDs_reachable hc).reopened ht, hruns, hconversations⟩

namespace RunLivesExample

open OwnershipExample (env reached reachable_reached)

def ops : List Op :=
  [.createProject "project-000000001" 1 "S-1-5-1" "Project", .setProvisioningResult "project-000000001" true,
    .createConversation ⟨"conversation-0001", "project-000000001", "Talk", .discussion, 0, "", "assistant", "codex",
      "model", "low"⟩ 1,
    .addMessage ⟨"message-000000001", "conversation-0001", "Owner", .user, "Hello", [], []⟩ 1]

def trigger : Trigger := ⟨1, "message-000000001", "conversation-0001"⟩

def reserving : Call := ⟨4, env, 1, .reserveAssistantRun "run-0000000000001" trigger 1 "assistant"⟩

def posting : Call :=
  ⟨5, env, 1, .addMessage ⟨"recovery_run-0000000000001", "conversation-0001", "Owner", .user, "Hello", [], []⟩ 1⟩

def running : Config Store Call Outcome := system.after (reached ops) [reserving, posting]

theorem reachable_running : system.Reachable running := by
  refine (reachable_reached (by decide)).run (System.Run.after rfl ?_)
  have hplain := allowedAll_of_plain (c := system.after (reached ops) [reserving]) (l := [posting])
    (by decide) (by decide) (by decide)
  refine ⟨⟨by decide, ?_, ?_, ?_⟩, hplain⟩
  · rintro _ ⟨⟩
    decide
  · rintro message ⟨⟩
    exact ⟨⟨3, env, 1, ops[3]⟩, ⟨1, "message-000000001", "conversation-0001", some 1, "Owner", "", .user, "Hello", [], [],
      0⟩, mem_cons_self, rfl⟩
  · rintro _ ⟨⟩

def run : RunRow :=
  ⟨"run-0000000000001", "conversation-0001", "message-000000001", "assistant", "assistant", "codex", .running, 1,
    "S-1-5-1", 0, 1, none, 0, none⟩

theorem run_running : run ∈ running.store.runs := by
  rw [← mem_rows]
  decide

theorem conversation_running : ∃ r ∈ running.store.runs, r.conversationID = "conversation-0001" ∧ r.state = .running := by
  have hconversation : ∃ x ∈ running.store.conversations.rows, x.id = "conversation-0001" ∧ x.state = .running := by
    decide
  obtain ⟨x, hx, hid, hstate⟩ := hconversation
  obtain ⟨r, hr, hrid, hrunning⟩ := ((run_consistency reachable_running).state x hx).mp hstate
  exact ⟨r, hr, hrid.trans hid, hrunning⟩

theorem recovery_without_message : system.Reachable running ∧ ∃ d, system.Step running d ∧ Leaves d.store run ∧
    ∀ m ∈ d.store.messages, m ∈ running.store.messages := by
  obtain ⟨t, ht⟩ := reopened_total (runsSound_reachable reachable_running) (numbered_reachable reachable_running) 0
  refine ⟨reachable_running, _, .restart running t ⟨0, ht⟩, ⟨rfl, ?_⟩, ?_⟩
  · have hrun : run ∈ running.store.migrateAssistantMembers.runs := by
      rw [migrated_runs]
      exact run_running
    obtain ⟨r', hr', hclosed⟩ := (reopened_settled ht).1.kept run hrun
    exact ⟨r', hr', hclosed.1.id, ((runsSound_reachable reachable_running).reopened_idle ht).1 r' hr'⟩
  · intro m hm
    rcases (reopened_messages ht).origin m hm with hm | ⟨hunused, r, hr, -, hid, -⟩
    · exact hm
    · have honly : ∀ r ∈ running.store.runs.rows, r.id = "run-0000000000001" := by decide
      have hex : ∃ x ∈ running.store.messages.rows, x.id = "recovery_run-0000000000001" := by decide
      obtain ⟨x, hx, hxid⟩ := hex
      rw [honly r hr] at hid
      exact absurd (hxid.trans hid.symm) (hunused x hx)

end RunLivesExample

end WorkAgent.Collaboration
