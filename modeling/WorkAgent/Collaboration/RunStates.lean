import WorkAgent.Collaboration.Handles

namespace WorkAgent.Collaboration

open Library List Table

inductive RunMove (s t : Store) : Prop
  | kept (h : Kept s t)
  | deleted (p : String → Prop) [DecidablePred p] (h : Deleted s t p)
  | reserved (run : AIRun) (message : Trigger) (key : String) (stamp : ℤ) (hpos : 0 < message.seq)
      (hseq : message.seq ≤ s.lastSeq) (h : Reserved s t run message key stamp)
  | finished (run : AIRun) (result : RunResult) (m : MessageRow) (stamp : ℤ)
      (hrow : ∀ r ∈ s.runs, r.id = run.id → IsRow run r) (h : Finished s t run result m stamp)
  | stopped (run : AIRun) (m : MessageRow) (stamp : ℤ) (h : Stopped s t run m stamp)
  | reopened (stamp : ℤ) (h : s.reopened stamp = .ok t)

theorem run_move {c d : Config Store Call Outcome} (hc : system.Reachable c) (h : system.Step c d) :
    RunMove c.store d.store := by
  have hs := rooted_reachable hc
  cases labelled.moves hc h with
  | start _ _ hstore =>
    rw [hstore]
    exact .kept (SameConversations.kept ⟨rfl, rfl, rfl, rfl, rfl, rfl⟩)
  | middle i hm =>
    rcases hm.moves hs with (hkept | ⟨p, _, hdel⟩) | hrun
    · exact .kept hkept
    · exact .deleted p hdel
    · obtain ⟨name, env, depth, op⟩ := i
      cases hrun
  | last i _ hl hmem _ hret =>
    obtain ⟨_, _, hadmitted, -, hsuffix⟩ := labelled.allowed_of_started (hc.tail h) hmem
    rcases hl.moves hs with (hkept | ⟨p, _, hdel⟩) | hrun
    · exact .kept hkept
    · exact .deleted p hdel
    · obtain ⟨_, _, _, _⟩ := i
      cases hrun with
      | reserve _ _ message _ _ run _ hmessage hpos hreserve =>
        obtain ⟨-, -, -, hres⟩ := Store.reserveAssistantRun_eq_ok hreserve
        obtain ⟨j, r, hj, rfl⟩ := hadmitted.trigger message hmessage
        have hj : (j, .ok (.message r)) ∈ c.returned := by
          rcases mem_cons.mp (hret ▸ hsuffix.subset hj) with heq | hj
          · cases heq
          · exact hj
        exact .reserved run _ _ _ hpos (message_answered hc hj).2 hres
      | finish run _ m hfinish =>
        obtain ⟨j, hj⟩ := hadmitted.finishes run rfl
        have hj : (j, .ok (.run run)) ∈ c.returned := by
          rcases mem_cons.mp (hret ▸ hsuffix.subset hj) with heq | hj
          · cases heq
          · exact hj
        exact .finished run _ m _ (handle_row hc j run hj) (Store.finishAIRun_eq_ok hfinish)
      | stop _ _ _ _ run m hstop => exact .stopped run m _ (Store.stopAssistantRun_eq_ok hstop)
  | restart h =>
    obtain ⟨stamp, h⟩ := h
    exact .reopened stamp h

structure RunsSound (s : Store) : Prop where
  state : ∀ c ∈ s.conversations, c.state = .running ↔ s.runningIn c.id
  housed : ∀ r ∈ s.runs, ∃ c ∈ s.conversations, c.id = r.conversationID
  alone : ∀ r ∈ s.runs, ∀ r' ∈ s.runs, r.state = .running → r'.state = .running →
    r.conversationID = r'.conversationID → r.assistantID = r'.assistantID → r = r'
  once : ∀ r ∈ s.runs, ∀ r' ∈ s.runs, r.triggerMessageID = r'.triggerMessageID → r.assistantID = r'.assistantID →
    r = r'
  employed : ∀ r ∈ s.runs, r.state = .running → ∀ c ∈ s.conversations, c.id = r.conversationID →
    ∃ a ∈ s.assistants, a.key = (c.projectID, r.assistantID) ∧ a.state = .accepted

theorem Store.stateAfter_eq_running {s : Store} {id : String} : s.stateAfter id = .running ↔ s.runningIn id := by
  unfold stateAfter
  split
  · rename_i h
    exact iff_of_true rfl h
  · rename_i h
    exact iff_of_false (by decide) h

namespace RunsSound

variable {s t : Store}

theorem empty : RunsSound Store.empty := by
  refine ⟨?_, ?_, ?_, ?_, ?_⟩
  · exact forall_mem_empty
  all_goals exact forall_mem_empty

section

variable (hs : RunsSound s)
include hs

theorem unhoused {id : String} (h : s.conversation id = none) : ∀ r ∈ s.runs, r.conversationID ≠ id := by
  intro r hr hid
  obtain ⟨c, hc, hcid⟩ := hs.housed r hr
  exact Table.find?_eq_none.mp h c hc (hcid.trans hid)

theorem kept (h : Kept s t) : RunsSound t := by
  have hruns := h.runs
  refine ⟨?_, ?_, ?_, ?_, ?_⟩
  · intro c' hc'
    rw [Store.runningIn, hruns]
    rcases h.threads.origin c' hc' with ⟨c, hc, hsame⟩ | ⟨hnew, hstate, -⟩
    · rw [hsame.state, hsame.id]
      exact hs.state c hc
    · rw [hstate]
      constructor
      · intro h
        cases h
      · rintro ⟨r, hr, hid, -⟩
        exact absurd hid (hs.unhoused hnew r hr)
  · intro r hr
    rw [hruns] at hr
    obtain ⟨c, hc, hid⟩ := hs.housed r hr
    obtain ⟨c', hc', hid'⟩ := h.threads.kept c hc
    exact ⟨c', hc', hid'.trans hid⟩
  · rw [hruns]
    exact hs.alone
  · rw [hruns]
    exact hs.once
  · intro r hr hrunning c' hc' hid
    rw [hruns] at hr
    rcases h.threads.origin c' hc' with ⟨c, hc, hsame⟩ | ⟨hnew, -, -⟩
    · have hcid : c.id = r.conversationID := hsame.id.symm.trans hid
      obtain ⟨a, ha, hkey, hstate⟩ := hs.employed r hr hrunning c hc hcid
      have hproject : a.projectID = c.projectID := congrArg Prod.fst hkey
      have hassistant : a.assistantID = r.assistantID := congrArg Prod.snd hkey
      have hatwork : s.assistantRunning a.projectID a.assistantID :=
        ⟨r, hr, hassistant.symm, hrunning, c, hc, hcid, hproject.symm⟩
      obtain ⟨a', ha', hkey', -, -, hstate'⟩ := h.assistants a ha hatwork
      exact ⟨a', ha', hsame.projectID ▸ hkey'.trans hkey, hstate' hstate⟩
    · exact absurd hid.symm (hs.unhoused hnew r hr)

theorem deleted {p : String → Prop} [DecidablePred p] (h : Deleted s t p) : RunsSound t := by
  have hruns {r : RunRow} (hr : r ∈ t.runs) : r ∈ s.runs ∧ ¬ p r.conversationID := by
    rw [h.runs, mem_delete] at hr
    exact hr
  have hconversations {c : ConversationRow} : c ∈ t.conversations ↔ c ∈ s.conversations ∧ ¬ p c.id := by
    rw [h.conversations, mem_delete]
  refine ⟨?_, ?_, ?_, ?_, ?_⟩
  · intro c hc
    obtain ⟨hmem, hnot⟩ := hconversations.mp hc
    rw [hs.state c hmem]
    constructor
    · rintro ⟨r, hr, hid, hrunning⟩
      refine ⟨r, ?_, hid, hrunning⟩
      rw [mem_rows, h.runs, mem_delete]
      exact ⟨hr, hid ▸ hnot⟩
    · rintro ⟨r, hr, hid, hrunning⟩
      exact ⟨r, (hruns hr).1, hid, hrunning⟩
  · intro r hr
    obtain ⟨hmem, hnot⟩ := hruns hr
    obtain ⟨c, hc, hid⟩ := hs.housed r hmem
    exact ⟨c, hconversations.mpr ⟨hc, hid ▸ hnot⟩, hid⟩
  · exact fun r hr r' hr' => hs.alone r (hruns hr).1 r' (hruns hr').1
  · exact fun r hr r' hr' => hs.once r (hruns hr).1 r' (hruns hr').1
  · intro r hr hrunning c hc hid
    rw [h.assistants]
    exact hs.employed r (hruns hr).1 hrunning c (hconversations.mp hc).1 hid

theorem reserved {run : AIRun} {message : Trigger} {key : String} {stamp : ℤ}
    (h : Reserved s t run message key stamp) : RunsSound t := by
  obtain ⟨_, ht⟩ := h.store
  have hruns {r : RunRow} : r ∈ t.runs ↔ r ∈ s.runs ∨ r = run.row stamp := by
    have hnone : s.runs.find? (run.row stamp).id = none := h.unused
    rw [ht, mem_insertOrIgnore]
    simp [hnone]
  have hconversations {c' : ConversationRow} (hc' : c' ∈ t.conversations) : ∃ c ∈ s.conversations, c'.id = c.id ∧
      c'.projectID = c.projectID ∧ ((c.id = run.conversationID ∧ c'.state = .running) ∨
        (c.id ≠ run.conversationID ∧ c'.state = c.state)) := by
    rw [ht] at hc'
    dsimp only at hc'
    obtain ⟨c, hc, -, ⟨hid, rfl⟩ | ⟨hid, rfl⟩⟩ := exists_of_mem_update hc'
    · exact ⟨c, hc, rfl, rfl, .inl ⟨hid, rfl⟩⟩
    · exact ⟨_, hc, rfl, rfl, .inr ⟨hid, rfl⟩⟩
  refine ⟨?_, ?_, ?_, ?_, ?_⟩
  · intro c' hc'
    obtain ⟨c, hc, hid, -, ⟨hcid, hstate⟩ | ⟨hcid, hstate⟩⟩ := hconversations hc'
    · rw [hstate, hid, hcid]
      simp only [true_iff]
      exact ⟨run.row stamp, hruns.mpr (.inr rfl), rfl, rfl⟩
    · rw [hstate, hid, hs.state c hc]
      constructor
      · rintro ⟨r, hr, hrest⟩
        exact ⟨r, hruns.mpr (.inl hr), hrest⟩
      · rintro ⟨r, hr, hrid, hrunning⟩
        rcases hruns.mp hr with hr | rfl
        · exact ⟨r, hr, hrid, hrunning⟩
        · exact absurd hrid.symm hcid
  · intro r hr
    have hkept (c : ConversationRow) (hc : c ∈ s.conversations) : ∃ c' ∈ t.conversations, c'.id = c.id := by
      rw [ht]
      dsimp only
      exact exists_key_update ⟨c, hc, rfl⟩
    rcases hruns.mp hr with hr | rfl
    · obtain ⟨c, hc, hid⟩ := hs.housed r hr
      obtain ⟨c', hc', hid'⟩ := hkept c hc
      exact ⟨c', hc', hid'.trans hid⟩
    · obtain ⟨c, hc, hid, -⟩ := h.conversation
      obtain ⟨c', hc', hid'⟩ := hkept c hc
      exact ⟨c', hc', hid'.trans hid⟩
  · have hidle (r : RunRow) (hr : r ∈ s.runs) (hrunning : r.state = .running)
        (hconversation : r.conversationID = run.conversationID) (hassistant : r.assistantID = run.assistantID) : False :=
      h.idle ⟨r, hr, hconversation, hassistant, hrunning⟩
    intro r hr r' hr' hrunning hrunning' hconversation hassistant
    rcases hruns.mp hr with hr | rfl
    · rcases hruns.mp hr' with hr' | rfl
      · exact hs.alone r hr r' hr' hrunning hrunning' hconversation hassistant
      · exact (hidle r hr hrunning hconversation hassistant).elim
    · rcases hruns.mp hr' with hr' | rfl
      · exact (hidle r' hr' hrunning' hconversation.symm hassistant.symm).elim
      · rfl
  · intro r hr r' hr' htrigger hassistant
    rcases hruns.mp hr with hr | rfl
    · rcases hruns.mp hr' with hr' | rfl
      · exact hs.once r hr r' hr' htrigger hassistant
      · exact absurd ⟨htrigger, hassistant⟩ (h.fresh r hr)
    · rcases hruns.mp hr' with hr' | rfl
      · exact absurd ⟨htrigger.symm, hassistant.symm⟩ (h.fresh r' hr')
      · rfl
  · intro r hr hrunning _ hc' hid'
    obtain ⟨c, hc, hid, hproject, -⟩ := hconversations hc'
    have hassistants : t.assistants = s.assistants := by rw [ht]
    rw [hassistants, hproject]
    rcases hruns.mp hr with hr | rfl
    · exact hs.employed r hr hrunning c hc (hid.symm.trans hid')
    · obtain ⟨_, hc₀, hid₀, a, ha, hkey, hstate⟩ := h.conversation
      obtain rfl := eq_of_key hc hc₀ ((hid.symm.trans hid').trans hid₀.symm)
      exact ⟨a, ha, hkey, hstate⟩

theorem ended {id : String} {session : RunRow → Option String} {moved : ConversationRow → ℕ} {stamp : ℤ} (state : RunState) (conversation : String) (hstate : state ≠ .running)
    (hrow : ∀ r ∈ s.runs, r.id = id → r.conversationID = conversation)
    (hruns : t.runs = s.runsEnded id state session stamp)
    (hconversations : t.conversations = s.conversationsAfter (s.runsEnded id state session stamp) conversation moved stamp)
    (hassistants : t.assistants = s.assistants) : RunsSound t := by
  have hold {r' : RunRow} (hr' : r' ∈ t.runs) : ∃ r ∈ s.runs, SameRun r r' ∧ (r'.state = .running → r' = r) := by
    rw [hruns] at hr'
    obtain ⟨r, hr, hsame, ⟨-, -, hended⟩ | ⟨-, rfl⟩⟩ := Store.mem_runsEnded hr'
    · exact ⟨r, hr, hsame, fun h => absurd (hended.symm.trans h) hstate⟩
    · exact ⟨_, hr, hsame, fun _ => rfl⟩
  have hthread {c' : ConversationRow} (hc' : c' ∈ t.conversations) : ∃ c ∈ s.conversations, c'.id = c.id ∧
      c'.projectID = c.projectID ∧ ((c.id = conversation ∧ (c'.state = .running ↔ t.runningIn c'.id)) ∨
        (c.id ≠ conversation ∧ c'.state = c.state)) := by
    rw [hconversations] at hc'
    obtain ⟨c, hc, -, ⟨hid, rfl⟩ | ⟨hid, rfl⟩⟩ := exists_of_mem_update hc'
    · refine ⟨c, hc, rfl, rfl, .inl ⟨hid, ?_⟩⟩
      rw [Store.runningIn, hruns]
      exact Store.stateAfter_eq_running
    · exact ⟨_, hc, rfl, rfl, .inr ⟨hid, rfl⟩⟩
  refine ⟨?_, ?_, ?_, ?_, ?_⟩
  · intro c' hc'
    obtain ⟨c, hc, hid, -, ⟨-, hiff⟩ | ⟨hcid, hsame⟩⟩ := hthread hc'
    · exact hiff
    · rw [hsame, hid, hs.state c hc]
      constructor
      · rintro ⟨r, hr, hrid, hrunning⟩
        obtain ⟨r', hr', -, ⟨hrun, -, -⟩ | ⟨-, rfl⟩⟩ := Store.runsEnded_of_mem id state session stamp hr
        · exact absurd (hrid.symm.trans (hrow r hr hrun)) hcid
        · exact ⟨_, by rw [mem_rows, hruns]; exact hr', hrid, hrunning⟩
      · rintro ⟨r', hr', hrid, hrunning⟩
        obtain ⟨r, hr, -, hsame⟩ := hold hr'
        obtain rfl := hsame hrunning
        exact ⟨_, hr, hrid, hrunning⟩
  · intro r' hr'
    obtain ⟨r, hr, hsame, -⟩ := hold hr'
    obtain ⟨c, hc, hid⟩ := hs.housed r hr
    have hkept : ∃ c' ∈ t.conversations, c'.id = c.id := by
      rw [hconversations]
      exact exists_key_update ⟨c, hc, rfl⟩
    obtain ⟨c', hc', hid'⟩ := hkept
    exact ⟨c', hc', (hid'.trans hid).trans hsame.conversationID.symm⟩
  · intro r hr r' hr' hrunning hrunning' hconversation hassistant
    obtain ⟨x, hx, -, heq⟩ := hold hr
    obtain ⟨y, hy, -, heq'⟩ := hold hr'
    obtain rfl := heq hrunning
    obtain rfl := heq' hrunning'
    exact hs.alone _ hx _ hy hrunning hrunning' hconversation hassistant
  · intro r hr r' hr' htrigger hassistant
    obtain ⟨x, hx, hsame, -⟩ := hold hr
    obtain ⟨y, hy, hsame', -⟩ := hold hr'
    have heq := hs.once x hx y hy (by rw [← hsame.triggerMessageID, htrigger, hsame'.triggerMessageID])
      (by rw [← hsame.assistantID, hassistant, hsame'.assistantID])
    exact eq_of_key hr hr' (by rw [hsame.id, hsame'.id, heq])
  · intro _ hr' hrunning _ hc' hid'
    obtain ⟨r, hr, -, heq⟩ := hold hr'
    obtain rfl := heq hrunning
    obtain ⟨c, hc, hid, hproject, -⟩ := hthread hc'
    rw [hassistants, hproject]
    exact hs.employed _ hr hrunning c hc (hid.symm.trans hid')

end

end RunsSound

def Closed (r r' : RunRow) : Prop := SameRun r r' ∧ (r' = r ∨ (r.state = .running ∧ r'.state = .failed))

theorem Closed.refl (r : RunRow) : Closed r r := ⟨SameRun.refl r, .inl rfl⟩

theorem Closed.trans {r r' r'' : RunRow} (h : Closed r r') (h' : Closed r' r'') : Closed r r'' := by
  refine ⟨h.1.trans h'.1, ?_⟩
  rcases h.2 with rfl | ⟨hrunning, hfailed⟩
  · exact h'.2
  · rcases h'.2 with rfl | ⟨hrunning', -⟩
    · exact .inr ⟨hrunning, hfailed⟩
    · rw [hfailed] at hrunning'
      cases hrunning'

structure Settled (s t : Store) : Prop where
  rows : ∃ f, (∀ r, Closed r (f r)) ∧ t.runs.rows = s.runs.rows.map f
  threads : ∀ c' ∈ t.conversations, ∃ c ∈ s.conversations, c'.id = c.id ∧ c'.projectID = c.projectID ∧
    c'.assistantID = c.assistantID ∧ c'.lastAIMessageSeq = c.lastAIMessageSeq ∧ (c'.state = c.state ∨ c'.state = .idle)
  housed : ∀ c ∈ s.conversations, ∃ c' ∈ t.conversations, c'.id = c.id
  sessions : t.sessions = s.sessions
  assistants : t.assistants = s.assistants

def Quiet (s : Store) (r : RunRow) : Prop :=
  (∀ x ∈ s.runs, x.id = r.id → x.state ≠ .running) ∧
    ∀ c ∈ s.conversations, c.id = r.conversationID → c.state ≠ .running

section Recovery

variable {s t u : Store} {r : RunRow} {stamp : ℤ}

theorem Settled.refl (s : Store) : Settled s s :=
  ⟨⟨id, Closed.refl, (map_id _).symm⟩,
    fun c hc => ⟨c, hc, rfl, rfl, rfl, rfl, .inl rfl⟩, fun c hc => ⟨c, hc, rfl⟩, rfl, rfl⟩

theorem Settled.origin (h : Settled s t) : ∀ r' ∈ t.runs, ∃ r ∈ s.runs, Closed r r' := by
  obtain ⟨f, hf, hrows⟩ := h.rows
  intro _ hr'
  rw [← mem_rows, hrows] at hr'
  obtain ⟨r, hr, rfl⟩ := mem_map.mp hr'
  exact ⟨r, hr, hf r⟩

theorem Settled.kept (h : Settled s t) : ∀ r ∈ s.runs, ∃ r' ∈ t.runs, Closed r r' := by
  obtain ⟨f, hf, hrows⟩ := h.rows
  intro r hr
  refine ⟨f r, ?_, hf r⟩
  rw [← mem_rows, hrows]
  exact mem_map_of_mem hr

theorem Settled.trans (h : Settled s t) (h' : Settled t u) : Settled s u := by
  refine ⟨?_, ?_, ?_, h'.sessions.trans h.sessions, h'.assistants.trans h.assistants⟩
  · obtain ⟨f, hf, hrows⟩ := h.rows
    obtain ⟨g, hg, hrows'⟩ := h'.rows
    exact ⟨g ∘ f, fun r => (hf r).trans (hg (f r)), by rw [hrows', hrows, map_map]⟩
  · intro c'' hc''
    obtain ⟨c', hc', hid', hproject', hassistant', hlast', hstate'⟩ := h'.threads c'' hc''
    obtain ⟨c, hc, hid, hproject, hassistant, hlast, hstate⟩ := h.threads c' hc'
    refine ⟨c, hc, hid'.trans hid, hproject'.trans hproject, hassistant'.trans hassistant, hlast'.trans hlast, ?_⟩
    rcases hstate' with hstate' | hidle
    · rw [hstate']
      exact hstate
    · exact .inr hidle
  · intro c hc
    obtain ⟨c', hc', hid⟩ := h.housed c hc
    obtain ⟨c'', hc'', hid'⟩ := h'.housed c' hc'
    exact ⟨c'', hc'', hid'.trans hid⟩

theorem Recovered.settled (h : Recovered s t r stamp) : Settled s t := by
  obtain ⟨_, _, rfl, -⟩ := h
  refine ⟨?_, ?_, ?_, rfl, rfl⟩
  · refine ⟨_, ?_, rfl⟩
    intro x
    split
    · rename_i hx
      exact ⟨⟨rfl, rfl, rfl, rfl, rfl, rfl⟩, .inr ⟨hx.2, rfl⟩⟩
    · exact Closed.refl x
  · intro _ hc'
    dsimp only at hc'
    obtain ⟨c, hc, -, ⟨-, rfl⟩ | ⟨-, rfl⟩⟩ := exists_of_mem_update hc'
    · exact ⟨c, hc, rfl, rfl, rfl, rfl, .inr rfl⟩
    · exact ⟨_, hc, rfl, rfl, rfl, rfl, .inl rfl⟩
  · intro c hc
    dsimp only
    exact exists_key_update ⟨c, hc, rfl⟩

theorem Recovered.quiet (h : Recovered s t r stamp) : Quiet t r := by
  obtain ⟨_, _, rfl, -⟩ := h
  refine ⟨?_, ?_⟩
  · intro _ hx' hid hrunning
    obtain ⟨x, _, _, ⟨-, -, hfailed⟩ | ⟨hnot, rfl⟩⟩ := Store.mem_runsEnded hx'
    · rw [hfailed] at hrunning
      cases hrunning
    · exact hnot ⟨hid, hrunning⟩
  · intro _ hc' hid hrunning
    dsimp only at hc'
    obtain ⟨c, _, -, ⟨-, rfl⟩ | ⟨hnot, rfl⟩⟩ := exists_of_mem_update hc'
    · cases hrunning
    · exact hnot ⟨hid, hrunning⟩

theorem Quiet.settled {x : RunRow} (hq : Quiet s x) (h : Settled s t) : Quiet t x := by
  refine ⟨?_, ?_⟩
  · intro r' hr' hid hrunning
    obtain ⟨r, hr, _, heq⟩ := h.origin r' hr'
    rcases heq with rfl | ⟨-, hfailed⟩
    · exact hq.1 _ hr hid hrunning
    · rw [hfailed] at hrunning
      cases hrunning
  · intro c' hc' hid hrunning
    obtain ⟨c, hc, hcid, -, -, -, hstate⟩ := h.threads c' hc'
    rcases hstate with hstate | hidle
    · exact hq.2 c hc (hcid.symm.trans hid) (hstate.symm.trans hrunning)
    · rw [hidle] at hrunning
      cases hrunning

theorem recovered_list (l : List RunRow) : ∀ s, l.foldlM (fun t r => t.recoverInterruptedRun r stamp) s = .ok t →
    Settled s t ∧ ∀ r ∈ l, Quiet t r := by
  induction l with
  | nil =>
    intro s h
    cases h
    refine ⟨Settled.refl _, ?_⟩
    intro r hr
    cases hr
  | cons _ _ ih =>
    intro s h
    rw [foldlM_cons, bind_eq_ok] at h
    obtain ⟨u, hu, h⟩ := h
    have hrecovered := Store.recoverInterruptedRun_eq_ok hu
    obtain ⟨hsettled, hquiet⟩ := ih u h
    refine ⟨hrecovered.settled.trans hsettled, ?_⟩
    intro r hr
    rcases mem_cons.mp hr with rfl | hr
    · exact hrecovered.quiet.settled hsettled
    · exact hquiet r hr

theorem reopened_settled (h : s.reopened stamp = .ok t) : Settled s.migrateAssistantMembers t ∧
    ∀ r ∈ s.runs, r.state = .running → Quiet t r := by
  obtain ⟨hsettled, hquiet⟩ := recovered_list _ _ h
  refine ⟨hsettled, ?_⟩
  intro r hr hrunning
  apply hquiet
  have hruns : s.migrateAssistantMembers.runs = s.runs := by
    obtain ⟨_, _, he, -⟩ := Store.migrateAssistantMembers_spec s
    rw [he]
  rw [Store.interrupted, mem_mergeSort, hruns]
  exact mem_filter.mpr ⟨hr, by simpa using hrunning⟩

end Recovery

namespace RunsSound

variable {s t : Store} {stamp : ℤ}

theorem reopened_idle (hs : RunsSound s) (h : s.reopened stamp = .ok t) :
    (∀ r ∈ t.runs, r.state ≠ .running) ∧ ∀ c ∈ t.conversations, c.state ≠ .running := by
  obtain ⟨hsettled, hquiet⟩ := reopened_settled h
  obtain ⟨_, _, he, -⟩ := Store.migrateAssistantMembers_spec s
  rw [he] at hsettled
  refine ⟨?_, ?_⟩
  · intro r' hr' hrunning
    obtain ⟨r, hr, _, heq⟩ := hsettled.origin r' hr'
    rcases heq with rfl | ⟨-, hfailed⟩
    · exact (hquiet _ hr hrunning).1 _ hr' rfl hrunning
    · rw [hfailed] at hrunning
      cases hrunning
  · intro c' hc' hrunning
    obtain ⟨c, hc, hid, -, -, -, hstate⟩ := hsettled.threads c' hc'
    rcases hstate with hstate | hidle
    · obtain ⟨r, hr, hrid, hrrunning⟩ := (hs.state c hc).mp (hstate.symm.trans hrunning)
      exact (hquiet r hr hrrunning).2 c' hc' (hid.trans hrid.symm) hrunning
    · rw [hidle] at hrunning
      cases hrunning

theorem reopened (hs : RunsSound s) (h : s.reopened stamp = .ok t) : RunsSound t := by
  obtain ⟨hruns, hconversations⟩ := hs.reopened_idle h
  obtain ⟨hsettled, -⟩ := reopened_settled h
  obtain ⟨_, _, he, -⟩ := Store.migrateAssistantMembers_spec s
  rw [he] at hsettled
  refine ⟨?_, ?_, ?_, ?_, ?_⟩
  · intro c hc
    refine iff_of_false (hconversations c hc) ?_
    rintro ⟨r, hr, -, hrunning⟩
    exact hruns r hr hrunning
  · intro r' hr'
    obtain ⟨r, hr, hsame, -⟩ := hsettled.origin r' hr'
    obtain ⟨c, hc, hid⟩ := hs.housed r hr
    obtain ⟨c', hc', hid'⟩ := hsettled.housed c hc
    exact ⟨c', hc', (hid'.trans hid).trans hsame.conversationID.symm⟩
  · exact fun r hr _ _ hrunning => absurd hrunning (hruns r hr)
  · intro r hr r' hr' htrigger hassistant
    obtain ⟨x, hx, hsame, -⟩ := hsettled.origin r hr
    obtain ⟨y, hy, hsame', -⟩ := hsettled.origin r' hr'
    have heq := hs.once x hx y hy (by rw [← hsame.triggerMessageID, htrigger, hsame'.triggerMessageID])
      (by rw [← hsame.assistantID, hassistant, hsame'.assistantID])
    exact eq_of_key hr hr' (by rw [hsame.id, hsame'.id, heq])
  · exact fun r hr hrunning => absurd hrunning (hruns r hr)

theorem move (hs : RunsSound s) (h : RunMove s t) : RunsSound t := by
  cases h with
  | kept h => exact hs.kept h
  | deleted _ h => exact hs.deleted h
  | reserved _ _ _ _ _ _ h => exact hs.reserved h
  | finished run result _ _ hrow h =>
    refine hs.ended result.state run.conversationID ?_
      (fun r hr hid => (hrow r hr hid).conversationID) (by rw [h.store]) (by rw [h.store]) (by rw [h.store])
    unfold RunResult.state
    split <;> decide
  | stopped run _ _ h =>
    refine hs.ended .stopped run.conversationID (by decide) ?_ (by rw [h.store])
      (by rw [h.store]) (by rw [h.store])
    intro r hr hid
    obtain ⟨x, hx, hxid, -, hconversation⟩ := h.running
    rw [eq_of_key hr hx (hid.trans hxid.symm), hconversation]
  | reopened _ h => exact hs.reopened h

end RunsSound

theorem runsSound_reachable {c : Config Store Call Outcome} (hc : system.Reachable c) : RunsSound c.store := by
  induction hc with
  | refl => exact RunsSound.empty
  | tail hc h ih => exact ih.move (run_move hc h)

end WorkAgent.Collaboration
