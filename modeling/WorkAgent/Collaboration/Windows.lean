import WorkAgent.Library.Tiles
import WorkAgent.Collaboration.RunLives

namespace WorkAgent.Collaboration

open Library List Option Table

def RunRow.context (r : RunRow) : Window := ⟨r.contextFromSeq, r.contextThroughSeq⟩

def RunRow.delivered (conversationID assistantID : String) (r : RunRow) : Option Window :=
  if r.conversationID = conversationID ∧ r.assistantID = assistantID ∧ r.state = .succeeded then some r.context
  else none

def Store.windows (s : Store) (conversationID assistantID : String) : List Window :=
  s.runs.rows.filterMap (RunRow.delivered conversationID assistantID)

def Store.cursor (s : Store) (conversationID assistantID : String) : ℕ :=
  (s.session conversationID assistantID).elim 0 SessionRow.lastContextSeq

def Latest (r x : RunRow) : Prop :=
  r.state = .running → ¬ (x.conversationID = r.conversationID ∧ x.assistantID = r.assistantID)

structure Tiled (s : Store) : Prop where
  order : s.runs.rows.Pairwise Latest
  tiles : ∀ conversation assistant, Tiles 0 (s.windows conversation assistant)
    (Store.contextFrom (s.cursor conversation assistant))
  active : ∀ r ∈ s.runs, r.state = .running → r.contextFromSeq = Store.contextFrom (s.cursor r.conversationID r.assistantID) ∧
    s.cursor r.conversationID r.assistantID < r.contextThroughSeq
  through : ∀ r ∈ s.runs, r.contextThroughSeq ≤ s.lastSeq
  session : ∀ r ∈ s.runs, s.session r.conversationID r.assistantID ≠ none
  own : ∀ c ∈ s.conversations, s.session c.id c.assistantID = none → c.lastAIMessageSeq = 0
  housed : ∀ x ∈ s.sessions, ∃ c ∈ s.conversations, c.id = x.conversationID

open Store (contextFrom cursorAfter sharedMessagesRange windows)

theorem contextFrom_of_pos {n : ℕ} (h : 0 < n) : contextFrom n = n + 1 := by
  unfold contextFrom
  rw [if_neg (by omega)]

theorem contextFrom_le {n m : ℕ} (h : n < m) : contextFrom n ≤ m := by
  unfold contextFrom
  split <;> omega

section Windows

variable {s t : Store} {conversation assistant : String}

theorem delivered_elsewhere {r : RunRow} (h : r.conversationID ≠ conversation) :
    r.delivered conversation assistant = none :=
  if_neg (fun hr => h hr.1)

theorem delivered_of_state {r : RunRow} (h : r.state ≠ .succeeded) : r.delivered conversation assistant = none :=
  if_neg (fun hr => h hr.2.2)

theorem delivered_congr {r r' : RunRow} (h : r' = r ∨ (r.state ≠ .succeeded ∧ r'.state ≠ .succeeded)) :
    r'.delivered conversation assistant = r.delivered conversation assistant := by
  rcases h with rfl | ⟨hbefore, hafter⟩
  · rfl
  · rw [delivered_of_state hbefore, delivered_of_state hafter]

theorem windows_map {f : RunRow → RunRow} (h : t.runs.rows = s.runs.rows.map f)
    (hf : ∀ r ∈ s.runs, (f r).delivered conversation assistant = r.delivered conversation assistant) :
    t.windows conversation assistant = s.windows conversation assistant := by
  rw [windows, windows, h, filterMap_map]
  exact filterMap_congr hf

theorem SessionsKept.cursor (h : SessionsKept s t) : t.cursor conversation assistant = s.cursor conversation assistant := by
  unfold Store.cursor Store.session
  cases hs : s.sessions.find? (conversation, assistant) with
  | some x => rw [h.kept _ x hs]
  | none =>
    cases ht : t.sessions.find? (conversation, assistant) with
    | none => rfl
    | some x =>
      obtain ⟨hx, hkey⟩ := find?_eq_some.mp ht
      rcases h.origin x hx with hold | ⟨-, hzero, -⟩
      · exact absurd hkey (Table.find?_eq_none.mp hs x hold)
      · exact hzero

theorem SessionsKept.none (h : SessionsKept s t) (ht : t.session conversation assistant = none) :
    s.session conversation assistant = none := by
  unfold Store.session at *
  cases hs : s.sessions.find? (conversation, assistant) with
  | none => rfl
  | some x =>
    rw [h.kept _ x hs] at ht
    cases ht

end Windows

open Prod

theorem Deleted.session {s t : Store} {p : String → Prop} [DecidablePred p] (h : Deleted s t p)
    {conversation assistant : String} (hp : ¬ p conversation) :
    t.session conversation assistant = s.session conversation assistant := by
  unfold Store.session
  rw [h.sessions]
  cases hf : s.sessions.find? (conversation, assistant) with
  | none =>
    rw [Table.find?_eq_none] at hf ⊢
    exact fun x hx => hf x (mem_delete.mp hx).1
  | some x =>
    obtain ⟨hx, hkey⟩ := find?_eq_some.mp hf
    have hconversation : x.conversationID = conversation := congrArg fst hkey
    exact find?_eq_some.mpr ⟨mem_delete.mpr ⟨hx, hconversation ▸ hp⟩, hkey⟩

theorem Deleted.cursor {s t : Store} {p : String → Prop} [DecidablePred p] (h : Deleted s t p)
    {conversation assistant : String} (hp : ¬ p conversation) :
    t.cursor conversation assistant = s.cursor conversation assistant := by
  rw [Store.cursor, Store.cursor, h.session hp]

theorem Reserved.sessionsKept {s t : Store} {run : AIRun} {message : Trigger} {key : String} {stamp : ℤ}
    (h : Reserved s t run message key stamp) : SessionsKept s t := by
  obtain ⟨_, ht⟩ := h.store
  obtain ⟨c, hc, hid, -⟩ := h.conversation
  exact .seeded (x := ⟨run.conversationID, run.assistantID, key, 0⟩) (by rw [ht]) rfl ⟨c, hc, hid⟩

namespace Tiled

variable {s t : Store}

theorem empty : Tiled Store.empty := by
  refine ⟨List.Pairwise.nil, fun _ _ => rfl, ?_, ?_, ?_, ?_, ?_⟩
  · exact forall_mem_empty
  · exact forall_mem_empty
  · exact forall_mem_empty
  · exact forall_mem_empty
  · exact forall_mem_empty

theorem kept (hs : Tiled s) (h : Kept s t) : Tiled t := by
  have hruns := h.runs
  have hseq : s.lastSeq ≤ t.lastSeq := by
    rcases h.messages with ⟨-, hseq⟩ | ⟨m, hpost⟩
    · exact hseq.ge
    · exact hpost.messagesFrom.lastSeq
  have hnone {conversation assistant : String} (h' : t.session conversation assistant = none) :
      s.session conversation assistant = none := h.sessions.none h'
  refine ⟨hruns ▸ hs.order, ?_, ?_, ?_, ?_, ?_, ?_⟩
  · intro conversation assistant
    rw [h.sessions.cursor, windows, hruns]
    exact hs.tiles conversation assistant
  · intro r hr
    rw [h.sessions.cursor]
    exact hs.active r (hruns ▸ hr)
  · exact fun r hr => Nat.le_trans (hs.through r (hruns ▸ hr)) hseq
  · exact fun r hr hn => hs.session r (hruns ▸ hr) (hnone hn)
  · intro c' hc' hn
    rcases h.threads.origin c' hc' with ⟨c, hc, hsame⟩ | ⟨-, -, hzero⟩
    · rw [hsame.id, hsame.assistantID] at hn
      exact hsame.lastAIMessageSeq.trans (hs.own c hc (hnone hn))
    · exact hzero
  · intro x hx
    have hold : ∃ c ∈ s.conversations, c.id = x.conversationID := by
      rcases h.sessions.origin x hx with hold | ⟨-, -, hc⟩
      · exact hs.housed x hold
      · exact hc
    obtain ⟨c, hc, hid⟩ := hold
    obtain ⟨c', hc', hid'⟩ := h.threads.kept c hc
    exact ⟨c', hc', hid'.trans hid⟩

theorem deleted {p : String → Prop} [DecidablePred p] (hs : Tiled s) (h : Deleted s t p) : Tiled t := by
  have hruns {r : RunRow} (hr : r ∈ t.runs) : r ∈ s.runs ∧ ¬ p r.conversationID := by
    rw [h.runs, mem_delete] at hr
    exact hr
  have hgone {conversation assistant : String} (hp : p conversation) : t.session conversation assistant = none := by
    unfold Store.session
    rw [h.sessions, Table.find?_eq_none]
    intro x hx hkey
    have hconversation : x.conversationID = conversation := congrArg fst hkey
    exact (mem_delete.mp hx).2 (hconversation ▸ hp)
  refine ⟨?_, ?_, ?_, ?_, ?_, ?_, ?_⟩
  · rw [h.runs]
    exact hs.order.filter _
  · intro conversation assistant
    by_cases hp : p conversation
    · have hwindows : t.windows conversation assistant = [] := by
        rw [windows, filterMap_eq_nil_iff]
        intro r hr
        exact delivered_elsewhere (fun heq => (hruns hr).2 (heq ▸ hp))
      rw [hwindows, Store.cursor, hgone hp]
      rfl
    · have hwindows : t.windows conversation assistant = s.windows conversation assistant := by
        rw [windows, windows, h.runs, rows_delete, filterMap_filter]
        refine filterMap_congr ?_
        intro r hr
        by_cases hr : p r.conversationID
        · have hne : r.conversationID ≠ conversation := fun heq => hp (heq ▸ hr)
          rw [if_neg (by simpa using hr), delivered_elsewhere hne]
        · rw [if_pos (by simpa using hr)]
      rw [hwindows, h.cursor hp]
      exact hs.tiles conversation assistant
  · intro r hr
    rw [h.cursor (hruns hr).2]
    exact hs.active r (hruns hr).1
  · intro r hr
    rw [h.lastSeq]
    exact hs.through r (hruns hr).1
  · intro r hr
    rw [h.session (hruns hr).2]
    exact hs.session r (hruns hr).1
  · intro c hc hn
    rw [h.conversations, mem_delete] at hc
    rw [h.session hc.2] at hn
    exact hs.own c hc.1 hn
  · intro x hx
    rw [h.sessions, mem_delete] at hx
    obtain ⟨c, hc, hid⟩ := hs.housed x hx.1
    refine ⟨c, ?_, hid⟩
    rw [h.conversations, mem_delete]
    exact ⟨hc, hid ▸ hx.2⟩

theorem reserved {run : AIRun} {message : Trigger} {key : String} {stamp : ℤ} (hs : Tiled s)
    (h : Reserved s t run message key stamp) (hseq : message.seq ≤ s.lastSeq) : Tiled t := by
  obtain ⟨_, ht⟩ := h.store
  have hrows : t.runs.rows = s.runs.rows ++ [run.row stamp] := by
    rw [ht]
    exact rows_insertOrIgnore h.unused
  have hruns {r : RunRow} (hr : r ∈ t.runs) : r ∈ s.runs ∨ r = run.row stamp := by
    rw [← mem_rows, hrows, mem_append, mem_singleton] at hr
    exact hr
  have hsessions := h.sessionsKept
  obtain ⟨x, hx, hlast, hfrom⟩ := h.session
  have hsession : t.session run.conversationID run.assistantID = some x := by
    rw [ht]
    exact hx
  have hcursor : s.cursor run.conversationID run.assistantID = x.lastContextSeq := by
    rw [← hsessions.cursor, Store.cursor, hsession]
    rfl
  refine ⟨?_, ?_, ?_, ?_, ?_, ?_, ?_⟩
  · rw [hrows, pairwise_append]
    refine ⟨hs.order, pairwise_singleton _ _, ?_⟩
    intro r hr y hy hrunning hsame
    obtain rfl := mem_singleton.mp hy
    exact h.idle ⟨r, hr, hsame.1.symm, hsame.2.symm, hrunning⟩
  · intro conversation assistant
    have hnew : (run.row stamp).delivered conversation assistant = none := by
      apply delivered_of_state
      intro h
      cases h
    rw [hsessions.cursor, windows, hrows, filterMap_append, filterMap_cons_none hnew,
      filterMap_nil, append_nil]
    exact hs.tiles conversation assistant
  · intro r hr hrunning
    rw [hsessions.cursor]
    rcases hruns hr with hr | rfl
    · exact hs.active r hr hrunning
    · change run.contextFromSeq = contextFrom (s.cursor run.conversationID run.assistantID) ∧
        s.cursor run.conversationID run.assistantID < run.contextThroughSeq
      rw [hcursor, h.through]
      exact ⟨hfrom, hlast⟩
  · intro r hr
    have hsame : t.lastSeq = s.lastSeq := by rw [ht]
    rw [hsame]
    rcases hruns hr with hr | rfl
    · exact hs.through r hr
    · exact h.through.trans_le hseq
  · intro r hr hn
    rcases hruns hr with hr | rfl
    · exact hs.session r hr (hsessions.none hn)
    · rw [show t.session (run.row stamp).conversationID (run.row stamp).assistantID = some x from hsession] at hn
      cases hn
  · intro _ hc' hn
    rw [ht] at hc'
    dsimp only at hc'
    obtain ⟨c, hc, -, ⟨-, rfl⟩ | ⟨-, rfl⟩⟩ := exists_of_mem_update hc'
    · exact hs.own c hc (hsessions.none hn)
    · exact hs.own _ hc (hsessions.none hn)
  · intro y hy
    have hold : ∃ c ∈ s.conversations, c.id = y.conversationID := by
      rcases hsessions.origin y hy with hold | ⟨-, -, hc⟩
      · exact hs.housed y hold
      · exact hc
    rw [ht]
    dsimp only
    exact exists_key_update hold

theorem unsuccessful {f : RunRow → RunRow} (hs : Tiled s) (hrows : t.runs.rows = s.runs.rows.map f)
    (hf : ∀ r, SameRun r (f r) ∧ (f r = r ∨ (r.state = .running ∧ (f r).state ≠ .running ∧ (f r).state ≠ .succeeded)))
    (hcursor : ∀ conversation assistant, t.cursor conversation assistant = s.cursor conversation assistant)
    (hnone : ∀ conversation assistant, t.session conversation assistant = none →
      s.session conversation assistant = none)
    (hseq : s.lastSeq ≤ t.lastSeq)
    (hthreads : ∀ c' ∈ t.conversations, ∃ c ∈ s.conversations, c'.id = c.id ∧ c'.assistantID = c.assistantID ∧
      c'.lastAIMessageSeq = c.lastAIMessageSeq)
    (hhoused : ∀ x ∈ t.sessions, ∃ c ∈ t.conversations, c.id = x.conversationID) : Tiled t := by
  have hruns {r' : RunRow} (hr' : r' ∈ t.runs) : ∃ r ∈ s.runs, SameRun r r' ∧ (r'.state = .running → r' = r) := by
    rw [← mem_rows, hrows] at hr'
    obtain ⟨r, hr, rfl⟩ := List.mem_map.mp hr'
    refine ⟨r, hr, (hf r).1, ?_⟩
    intro hrunning
    rcases (hf r).2 with heq | ⟨-, hover, -⟩
    · exact heq
    · exact absurd hrunning hover
  refine ⟨?_, ?_, ?_, ?_, ?_, ?_, hhoused⟩
  · rw [hrows, pairwise_map]
    refine hs.order.imp ?_
    intro r x hlatest hrunning
    rw [(hf x).1.conversationID, (hf x).1.assistantID, (hf r).1.conversationID, (hf r).1.assistantID]
    rcases (hf r).2 with heq | ⟨-, hover, -⟩
    · exact hlatest (heq ▸ hrunning)
    · exact absurd hrunning hover
  · intro conversation assistant
    have hwindows : t.windows conversation assistant = s.windows conversation assistant := by
      refine windows_map hrows ?_
      intro r _
      apply delivered_congr
      rcases (hf r).2 with heq | ⟨hrunning, -, hfailed⟩
      · exact .inl heq
      · exact .inr ⟨by rw [hrunning]; decide, hfailed⟩
    rw [hwindows, hcursor]
    exact hs.tiles conversation assistant
  · intro r' hr' hrunning
    obtain ⟨r, hr, -, heq⟩ := hruns hr'
    obtain rfl := heq hrunning
    rw [hcursor]
    exact hs.active _ hr hrunning
  · intro r' hr'
    obtain ⟨r, hr, hsame, -⟩ := hruns hr'
    rw [hsame.contextThroughSeq]
    exact Nat.le_trans (hs.through r hr) hseq
  · intro _ hr' hn
    obtain ⟨r, hr, hsame, -⟩ := hruns hr'
    rw [hsame.conversationID, hsame.assistantID] at hn
    exact hs.session r hr (hnone _ _ hn)
  · intro c' hc' hn
    obtain ⟨c, hc, hid, hassistant, hlast⟩ := hthreads c' hc'
    rw [hid, hassistant] at hn
    exact hlast.trans (hs.own c hc (hnone _ _ hn))

end Tiled

/-- One running run `r` has succeeded, and its assistant's session has moved to the end of the window. -/
structure Success (s t : Store) (r : RunRow) (f : RunRow → RunRow) : Prop where
  mem : r ∈ s.runs
  running : r.state = .running
  rows : t.runs.rows = s.runs.rows.map f
  same : SameRun r (f r)
  succeeded : (f r).state = .succeeded
  others : ∀ x ∈ s.runs, x ≠ r → f x = x
  sessions : ∀ conversation assistant, t.session conversation assistant = (s.session conversation assistant).map
    (fun x => if x.conversationID = r.conversationID ∧ x.assistantID = r.assistantID
      then { x with lastContextSeq := r.contextThroughSeq } else x)

namespace Success

variable {s t : Store} {r : RunRow} {f : RunRow → RunRow} {conversation assistant : String}

section

variable (h : Success s t r f)
include h

theorem session_none (hn : t.session conversation assistant = none) :
    s.session conversation assistant = none := by
  rw [h.sessions, map_eq_none_iff] at hn
  exact hn

theorem cursor_moved (hs : Tiled s) :
    t.cursor r.conversationID r.assistantID = r.contextThroughSeq := by
  obtain ⟨x, hx⟩ := ne_none_iff_exists'.mp (hs.session r h.mem)
  have hkey := (find?_eq_some.mp hx).2
  rw [Store.cursor, h.sessions, hx, map_some, if_pos ⟨congrArg fst hkey, congrArg snd hkey⟩]
  rfl

theorem cursor_other (hne : ¬ (conversation = r.conversationID ∧ assistant = r.assistantID)) :
    t.cursor conversation assistant = s.cursor conversation assistant := by
  rw [Store.cursor, Store.cursor, h.sessions]
  cases hx : s.session conversation assistant with
  | none => rfl
  | some x =>
    have hkey := (find?_eq_some.mp hx).2
    have hx' : ¬ (x.conversationID = r.conversationID ∧ x.assistantID = r.assistantID) := by
      rintro ⟨hconversation, hassistant⟩
      exact hne ⟨(congrArg fst hkey).symm.trans hconversation, (congrArg snd hkey).symm.trans hassistant⟩
    rw [map_some, if_neg hx']

theorem same_of {x : RunRow} (hx : x ∈ s.runs) : SameRun x (f x) := by
  by_cases hxr : x = r
  · exact hxr ▸ h.same
  · rw [h.others x hx hxr]
    exact SameRun.refl x

theorem windows_moved (hs : Tiled s) : t.windows r.conversationID r.assistantID =
    s.windows r.conversationID r.assistantID ++ [r.context] := by
  obtain ⟨before, after, hsplit⟩ := append_of_mem h.mem
  have hnodup : (before ++ r :: after).Nodup := hsplit ▸ List.Nodup.of_map _ s.runs.nodup
  have hmem {x : RunRow} (hx : x ∈ before ++ r :: after) : x ∈ s.runs := by
    rw [← mem_rows, hsplit]
    exact hx
  have hbefore : ∀ x ∈ before, f x = x := by
    intro x hx
    exact h.others x (hmem (mem_append_left _ hx)) ((nodup_append.mp hnodup).2.2 x hx r mem_cons_self)
  have hlatest : ∀ x ∈ after, ¬ (x.conversationID = r.conversationID ∧ x.assistantID = r.assistantID) := by
    have horder := (pairwise_append.mp (hsplit ▸ hs.order)).2.1
    exact fun x hx => (pairwise_cons.mp horder).1 x hx h.running
  have hnothing (g : RunRow → RunRow) (hg : ∀ x ∈ after, SameRun x (g x)) :
      after.filterMap (RunRow.delivered r.conversationID r.assistantID ∘ g) = [] := by
    rw [filterMap_eq_nil_iff]
    intro x hx
    refine if_neg (fun hd => hlatest x hx ?_)
    rw [(hg x hx).conversationID, (hg x hx).assistantID] at hd
    exact ⟨hd.1, hd.2.1⟩
  have hafter := hnothing f (fun x hx => h.same_of (hmem (mem_append_right _ (mem_cons_of_mem r hx))))
  have hafter' : after.filterMap (RunRow.delivered r.conversationID r.assistantID) = [] :=
    hnothing id (fun x _ => SameRun.refl x)
  have hkept : before.filterMap (RunRow.delivered r.conversationID r.assistantID ∘ f) =
      before.filterMap (RunRow.delivered r.conversationID r.assistantID) := by
    refine filterMap_congr ?_
    intro x hx
    rw [Function.comp_apply, hbefore x hx]
  have hout : r.delivered r.conversationID r.assistantID = none := delivered_of_state (by rw [h.running]; decide)
  have hin : (RunRow.delivered r.conversationID r.assistantID ∘ f) r = some r.context := by
    have hcontext : (f r).context = r.context := by
      rw [RunRow.context, h.same.contextFromSeq, h.same.contextThroughSeq]
      rfl
    rw [Function.comp_apply, ← hcontext]
    exact if_pos ⟨h.same.conversationID, h.same.assistantID, h.succeeded⟩
  rw [windows, windows, h.rows, hsplit, filterMap_map, filterMap_append, filterMap_append,
    filterMap_cons_some hin, filterMap_cons_none hout, hafter, hafter', hkept, append_nil]

theorem windows_other (hne : ¬ (conversation = r.conversationID ∧ assistant = r.assistantID)) :
    t.windows conversation assistant = s.windows conversation assistant := by
  refine windows_map h.rows ?_
  intro x hx
  by_cases hxr : x = r
  · subst hxr
    have hno (y : RunRow) (hy : SameRun x y) : y.delivered conversation assistant = none := by
      refine if_neg (fun hd => hne ?_)
      rw [hy.conversationID, hy.assistantID] at hd
      exact ⟨hd.1.symm, hd.2.1.symm⟩
    rw [hno _ h.same, hno x (SameRun.refl x)]
  · rw [h.others x hx hxr]

theorem apart (hs : Tiled s) {x : RunRow} (hx : x ∈ s.runs) (hrunning : x.state = .running)
    (hne : x ≠ r) : ¬ (x.conversationID = r.conversationID ∧ x.assistantID = r.assistantID) := by
  obtain ⟨before, after, hsplit⟩ := append_of_mem h.mem
  have hx' : x ∈ before ++ r :: after := hsplit ▸ mem_rows.mpr hx
  obtain ⟨-, horder, hbefore⟩ := pairwise_append.mp (hsplit ▸ hs.order)
  intro hsame
  rcases mem_append.mp hx' with hx' | hx'
  · exact hbefore x hx' r mem_cons_self hrunning ⟨hsame.1.symm, hsame.2.symm⟩
  · rcases mem_cons.mp hx' with heq | hx'
    · exact hne heq
    · exact (pairwise_cons.mp horder).1 x hx' h.running hsame

theorem tiled (hs : Tiled s) (hseq : s.lastSeq ≤ t.lastSeq)
    (hthreads : ∀ c' ∈ t.conversations, ∃ c ∈ s.conversations, c'.id = c.id ∧ c'.assistantID = c.assistantID ∧
      (c'.lastAIMessageSeq = c.lastAIMessageSeq ∨ (c.id = r.conversationID ∧ c.assistantID = r.assistantID)))
    (hhoused : ∀ x ∈ t.sessions, ∃ c ∈ t.conversations, c.id = x.conversationID) : Tiled t := by
  obtain ⟨hfrom, hlt⟩ := hs.active r h.mem h.running
  have hold {x' : RunRow} (hx' : x' ∈ t.runs) : ∃ x ∈ s.runs, x' = f x := by
    rw [← mem_rows, h.rows] at hx'
    obtain ⟨x, hx, rfl⟩ := List.mem_map.mp hx'
    exact ⟨x, hx, rfl⟩
  refine ⟨?_, ?_, ?_, ?_, ?_, ?_, hhoused⟩
  · rw [h.rows, pairwise_map]
    refine hs.order.imp_of_mem ?_
    intro x y hx hy hxy hrunning
    rw [(h.same_of hx).conversationID, (h.same_of hx).assistantID, (h.same_of hy).conversationID,
      (h.same_of hy).assistantID]
    by_cases hxr : x = r
    · rw [hxr, h.succeeded] at hrunning
      cases hrunning
    · rw [h.others x hx hxr] at hrunning
      exact hxy hrunning
  · intro conversation assistant
    by_cases heq : conversation = r.conversationID ∧ assistant = r.assistantID
    · obtain ⟨rfl, rfl⟩ := heq
      rw [h.windows_moved hs, h.cursor_moved hs, contextFrom_of_pos (Nat.zero_lt_of_lt hlt)]
      have htiles := (hs.tiles r.conversationID r.assistantID).append_singleton (contextFrom_le hlt)
      rwa [← hfrom] at htiles
    · rw [h.windows_other heq, h.cursor_other heq]
      exact hs.tiles conversation assistant
  · intro x' hx' hrunning
    obtain ⟨x, hx, rfl⟩ := hold hx'
    by_cases hxr : x = r
    · rw [hxr, h.succeeded] at hrunning
      cases hrunning
    · rw [h.others x hx hxr] at hrunning ⊢
      rw [h.cursor_other (h.apart hs hx hrunning hxr)]
      exact hs.active x hx hrunning
  · intro x' hx'
    obtain ⟨x, hx, rfl⟩ := hold hx'
    rw [(h.same_of hx).contextThroughSeq]
    exact Nat.le_trans (hs.through x hx) hseq
  · intro _ hx' hn
    obtain ⟨x, hx, rfl⟩ := hold hx'
    rw [(h.same_of hx).conversationID, (h.same_of hx).assistantID] at hn
    exact hs.session x hx (h.session_none hn)
  · intro c' hc' hn
    obtain ⟨c, hc, hid, hassistant, hlast⟩ := hthreads c' hc'
    rw [hid, hassistant] at hn
    rcases hlast with hlast | ⟨hc₀, ha₀⟩
    · exact hlast.trans (hs.own c hc (h.session_none hn))
    · rw [hc₀, ha₀] at hn
      exact absurd (h.session_none hn) (hs.session r h.mem)

end

end Success

section Moves

variable {s t : Store}

variable {stamp : ℤ}

theorem runsEnded_closing {id : String} {state : RunState} {session : RunRow → Option String}
    (hover : state ≠ .running) (hfailed : state ≠ .succeeded) (r : RunRow) :
    let f := fun r : RunRow => if r.id = id ∧ r.state = .running then r.ended state (session r) stamp else r
    SameRun r (f r) ∧ (f r = r ∨ (r.state = .running ∧ (f r).state ≠ .running ∧ (f r).state ≠ .succeeded)) := by
  dsimp only
  split
  · rename_i h
    exact ⟨⟨rfl, rfl, rfl, rfl, rfl, rfl⟩, .inr ⟨h.2, hover, hfailed⟩⟩
  · exact ⟨SameRun.refl r, .inl rfl⟩

theorem Store.mem_conversationsAfter {runs : Table RunRow.id} {id : String} {moved : ConversationRow → ℕ}
    {c' : ConversationRow} (h : c' ∈ s.conversationsAfter runs id moved stamp) : ∃ c ∈ s.conversations,
      c'.id = c.id ∧ c'.assistantID = c.assistantID ∧ (c'.lastAIMessageSeq = c.lastAIMessageSeq ∨
        (c.id = id ∧ c'.lastAIMessageSeq = moved c)) := by
  obtain ⟨c, hc, -, ⟨hid, rfl⟩ | ⟨-, rfl⟩⟩ := exists_of_mem_update h
  · exact ⟨c, hc, rfl, rfl, .inr ⟨hid, rfl⟩⟩
  · exact ⟨_, hc, rfl, rfl, .inl rfl⟩

variable {result : RunResult}

theorem RunResult.state_of_none (h : result.runErr = none) : result.state = .succeeded := if_pos h

theorem RunResult.state_of_some (h : result.runErr ≠ none) : result.state = .failed := if_neg h

variable {m : MessageRow}

theorem Finished.success {run : AIRun} (hs : Tiled s)
    (hrow : ∀ r ∈ s.runs, r.id = run.id → IsRow run r) (h : Finished s t run result m stamp)
    (hresult : result.runErr = none) : ∃ r f, r.id = run.id ∧ Success s t r f := by
  obtain ⟨r, hr, hid, hrunning⟩ := h.running
  have hsame := hrow r hr hid
  have hcursor : cursorAfter run result = r.contextThroughSeq := by
    rw [cursorAfter, if_pos hresult, hsame.contextThroughSeq]
  have hpos : 0 < cursorAfter run result := by
    rw [hcursor]
    exact Nat.zero_lt_of_lt (hs.active r hr hrunning).2
  refine ⟨r, fun x => if x.id = run.id ∧ x.state = .running
    then x.ended result.state (nullableString result.runtimeSessionID) stamp else x, hid, hr, hrunning, ?_, ?_, ?_, ?_, ?_⟩
  · rw [h.store]
    rfl
  · rw [if_pos ⟨hid, hrunning⟩]
    exact ⟨rfl, rfl, rfl, rfl, rfl, rfl⟩
  · rw [if_pos ⟨hid, hrunning⟩]
    exact RunResult.state_of_none hresult
  · intro x hx hne
    exact if_neg (fun hx' => hne (eq_of_key hx hr (hx'.1.trans hid.symm)))
  · intro _ _
    have hsessions : t.sessions = s.sessions.update
        (fun x => x.conversationID = run.conversationID ∧ x.assistantID = run.assistantID)
        (fun x => { x with lastContextSeq := cursorAfter run result }) := by
      rw [h.store]
      exact if_pos hpos
    rw [Store.session, hsessions, find?_update, hsame.conversationID, hsame.assistantID, ← hcursor]
    rfl

theorem Finished.threads {run : AIRun}
    (h : Finished s t run result m stamp) : ∀ c' ∈ t.conversations, ∃ c ∈ s.conversations, c'.id = c.id ∧
      c'.assistantID = c.assistantID ∧ (c'.lastAIMessageSeq = c.lastAIMessageSeq ∨
        (result.runErr = none ∧ c.id = run.conversationID ∧ c.assistantID = run.assistantID)) := by
  intro _ hc'
  rw [h.store] at hc'
  obtain ⟨c, hc, hid, hassistant, hlast | ⟨hcid, hmoved⟩⟩ := Store.mem_conversationsAfter hc'
  · exact ⟨c, hc, hid, hassistant, .inl hlast⟩
  · refine ⟨c, hc, hid, hassistant, ?_⟩
    split at hmoved
    · rename_i hcursor
      refine .inr ⟨?_, hcid, hcursor.2⟩
      by_contra hresult
      have hzero : cursorAfter run result = 0 := if_neg hresult
      omega
    · exact .inl hmoved

theorem Finished.housed {run : AIRun} (hs : Tiled s)
    (h : Finished s t run result m stamp) : ∀ x ∈ t.sessions, ∃ c ∈ t.conversations, c.id = x.conversationID := by
  have hold : ∀ x' ∈ t.sessions, ∃ x ∈ s.sessions, x'.conversationID = x.conversationID := by
    intro x' hx'
    rw [h.store] at hx'
    dsimp only at hx'
    split at hx'
    · obtain ⟨x, hx, -, ⟨-, rfl⟩ | ⟨-, rfl⟩⟩ := exists_of_mem_update hx'
      · exact ⟨x, hx, rfl⟩
      · exact ⟨_, hx, rfl⟩
    · exact ⟨x', hx', rfl⟩
  intro x' hx'
  obtain ⟨x, hx, hconversation⟩ := hold x' hx'
  rw [hconversation, h.store]
  exact exists_key_update (hs.housed x hx)

theorem Finished.sessions {run : AIRun}
    (h : Finished s t run result m stamp) (hresult : result.runErr ≠ none) : t.sessions = s.sessions := by
  have hzero : cursorAfter run result = 0 := if_neg hresult
  rw [h.store]
  exact if_neg (by omega)

theorem cursor_of_sessions {conversation assistant : String} (h : t.sessions = s.sessions) :
    t.cursor conversation assistant = s.cursor conversation assistant := by
  rw [Store.cursor, Store.session, h]
  rfl

theorem Tiled.finished {run : AIRun} (hs : Tiled s)
    (hrow : ∀ r ∈ s.runs, r.id = run.id → IsRow run r) (h : Finished s t run result m stamp) : Tiled t := by
  have hseq : s.lastSeq ≤ t.lastSeq := by
    rw [h.store]
    exact Nat.le_succ _
  by_cases hresult : result.runErr = none
  · obtain ⟨r, f, hid, hsuccess⟩ := h.success hs hrow hresult
    have hsame := hrow r hsuccess.mem hid
    refine hsuccess.tiled hs hseq ?_ (h.housed hs)
    intro c' hc'
    obtain ⟨c, hc, hcid, hassistant, hlast | ⟨-, hrun⟩⟩ := h.threads c' hc'
    · exact ⟨c, hc, hcid, hassistant, .inl hlast⟩
    · exact ⟨c, hc, hcid, hassistant, .inr ⟨hrun.1.trans hsame.conversationID.symm, hrun.2.trans hsame.assistantID.symm⟩⟩
  · have hstate := RunResult.state_of_some hresult
    have hsessions := h.sessions hresult
    refine hs.unsuccessful (t := t) (by rw [h.store]; rfl)
      (runsEnded_closing (by rw [hstate]; decide) (by rw [hstate]; decide))
      (fun _ _ => cursor_of_sessions hsessions) ?_ hseq ?_ (h.housed hs)
    · intro _ _ hn
      rwa [Store.session, hsessions] at hn
    · intro c' hc'
      obtain ⟨c, hc, hcid, hassistant, hlast | ⟨hnone, -⟩⟩ := h.threads c' hc'
      · exact ⟨c, hc, hcid, hassistant, hlast⟩
      · exact absurd hnone hresult

theorem Tiled.stopped {run : AIRun} (hs : Tiled s) (h : Stopped s t run m stamp) :
    Tiled t := by
  have hsessions : t.sessions = s.sessions := by rw [h.store]
  refine hs.unsuccessful (t := t) (by rw [h.store]; rfl) (runsEnded_closing (by decide) (by decide))
    (fun _ _ => cursor_of_sessions hsessions) ?_ ?_ ?_ ?_
  · intro _ _ hn
    rwa [Store.session, hsessions] at hn
  · rw [h.store]
    exact Nat.le_succ _
  · intro _ hc'
    rw [h.store] at hc'
    obtain ⟨c, hc, hid, hassistant, hlast | ⟨-, hlast⟩⟩ := Store.mem_conversationsAfter hc'
    · exact ⟨c, hc, hid, hassistant, hlast⟩
    · exact ⟨c, hc, hid, hassistant, hlast⟩
  · intro x hx
    rw [hsessions] at hx
    rw [h.store]
    exact exists_key_update (hs.housed x hx)

theorem Tiled.migrated (hs : Tiled s) (h : s.reopened stamp = .ok t) : SessionsKept s t := by
  obtain ⟨_, _, he, -, hkept, horigin⟩ := Store.migrateAssistantMembers_spec s
  have hsessions := (reopened_settled h).1.sessions
  rw [he] at hsessions
  dsimp only at hsessions
  rw [← hsessions] at hkept horigin
  refine ⟨hkept, ?_⟩
  intro x hx
  rcases horigin x hx with hold | ⟨hnone, c, hc, hid, hassistant, hlast⟩
  · exact .inl hold
  · have hsession : s.session c.id c.assistantID = none := by
      rw [Store.session, ← hid, ← hassistant]
      exact hnone
    exact .inr ⟨hnone, hlast.trans (hs.own c hc hsession), c, hc, hid.symm⟩

theorem Tiled.reopened (hs : Tiled s) (h : s.reopened stamp = .ok t) : Tiled t := by
  obtain ⟨hsettled, -⟩ := reopened_settled h
  obtain ⟨-, -, hseq⟩ := Store.reopened_frame h
  have hmigrated := hs.migrated h
  obtain ⟨_, _, he, -⟩ := Store.migrateAssistantMembers_spec s
  rw [he] at hsettled
  obtain ⟨f, hf, hrows⟩ := hsettled.rows
  refine hs.unsuccessful hrows ?_ ?_ ?_ hseq ?_ ?_
  · intro r
    obtain ⟨hsame, heq | ⟨hrunning, hfailed⟩⟩ := hf r
    · exact ⟨hsame, .inl heq⟩
    · exact ⟨hsame, .inr ⟨hrunning, by rw [hfailed]; decide, by rw [hfailed]; decide⟩⟩
  · exact fun conversation assistant => hmigrated.cursor
  · exact fun conversation assistant => hmigrated.none
  · intro c' hc'
    obtain ⟨c, hc, hid, -, hassistant, hlast, -⟩ := hsettled.threads c' hc'
    exact ⟨c, hc, hid, hassistant, hlast⟩
  · intro x hx
    have hold : ∃ c ∈ s.conversations, c.id = x.conversationID := by
      rcases hmigrated.origin x hx with hx | ⟨-, -, hc⟩
      · exact hs.housed x hx
      · exact hc
    obtain ⟨c, hc, hid⟩ := hold
    obtain ⟨c', hc', hid'⟩ := hsettled.housed c hc
    exact ⟨c', hc', hid'.trans hid⟩

theorem Tiled.move (hs : Tiled s) (h : RunMove s t) : Tiled t := by
  cases h with
  | kept h => exact hs.kept h
  | deleted _ h => exact hs.deleted h
  | reserved _ _ _ _ _ hseq h => exact hs.reserved h hseq
  | finished _ _ _ _ hrow h => exact hs.finished hrow h
  | stopped _ _ _ h => exact hs.stopped h
  | reopened _ h => exact hs.reopened h

end Moves

theorem tiled_reachable {c : Config Store Call Outcome} (hc : system.Reachable c) : Tiled c.store := by
  induction hc with
  | refl => exact Tiled.empty
  | tail hc h ih => exact ih.move (run_move hc h)

section Delivery

variable {s t : Store} {conversation assistant : String}

def Delivers (s : Store) (m : MessageRow) (conversationID assistantID : String) (r : RunRow) : Prop :=
  r.conversationID = conversationID ∧ r.assistantID = assistantID ∧ r.state = .succeeded ∧
    m ∈ s.sharedMessagesRange conversationID r.contextFromSeq r.contextThroughSeq

instance (s : Store) (m : MessageRow) (conversationID assistantID : String) :
    DecidablePred (Delivers s m conversationID assistantID) := fun _ => inferInstanceAs (Decidable (_ ∧ _))

variable {m : MessageRow}

theorem mem_sharedMessagesRange {n k : ℕ} : m ∈ s.sharedMessagesRange conversation n k ↔
    m ∈ s.messages ∧ m.conversationID = conversation ∧ n ≤ m.seq ∧ m.seq ≤ k := by
  rw [sharedMessagesRange, mem_filter, decide_eq_true_eq, mem_rows]

theorem delivers_iff {r : RunRow} (hm : m ∈ s.messages) (hconversation : m.conversationID = conversation) :
    Delivers s m conversation assistant r ↔
      (Option.map (fun w : Window => decide (w.Contains m.seq)) (r.delivered conversation assistant)).getD false = true := by
  unfold Delivers RunRow.delivered
  rw [mem_sharedMessagesRange]
  by_cases hr : r.conversationID = conversation ∧ r.assistantID = assistant ∧ r.state = .succeeded
  · rw [if_pos hr, map_some, getD_some, decide_eq_true_eq]
    exact ⟨fun h => h.2.2.2.2.2, fun h => ⟨hr.1, hr.2.1, hr.2.2, hm, hconversation, h⟩⟩
  · rw [if_neg hr]
    simp only [map_none, getD_none, Bool.false_eq_true, iff_false]
    exact fun h => hr ⟨h.1, h.2.1, h.2.2.1⟩

theorem Tiled.delivered (hs : Tiled s) (hnumbered : Numbered s) (hm : m ∈ s.messages)
    (hconversation : m.conversationID = conversation) (hread : m.seq ≤ s.cursor conversation assistant) :
    ∃! r, r ∈ s.runs ∧ Delivers s m conversation assistant r := by
  apply existsUnique_of_count
  have hcount := (hs.tiles conversation assistant).countP_contains m.seq
  have hpos := (hnumbered m hm).1
  rw [windows, countP_filterMap, contextFrom_of_pos (by omega), if_pos (by omega)] at hcount
  rw [← hcount, Table.count]
  refine countP_congr ?_
  intro r _
  rw [decide_eq_true_eq]
  exact delivers_iff hm hconversation

def SameRange (s t : Store) (conversationID : String) (last : ℕ) : Prop :=
  last ≤ t.lastSeq ∧ ∀ first, t.sharedMessagesRange conversationID first last =
    s.sharedMessagesRange conversationID first last

variable {last : ℕ}

theorem SameRange.refl (h : last ≤ s.lastSeq) : SameRange s s conversation last := ⟨h, fun _ => rfl⟩

theorem SameRange.trans {u : Store} (h : SameRange s t conversation last)
    (h' : SameRange t u conversation last) : SameRange s u conversation last :=
  ⟨h'.1, fun first => (h'.2 first).trans (h.2 first)⟩

theorem SameRange.of_messages (hlast : last ≤ s.lastSeq) (h : t.messages = s.messages)
    (hseq : t.lastSeq = s.lastSeq) : SameRange s t conversation last := by
  refine ⟨hseq.symm ▸ hlast, ?_⟩
  intro _
  rw [sharedMessagesRange, h]
  rfl

theorem Posted.sameRange (h : Posted s t m) (hlast : last ≤ s.lastSeq) :
    SameRange s t conversation last := by
  have hseq := h.seq
  refine ⟨by rw [h.lastSeq]; omega, ?_⟩
  intro first
  have hnot : ¬ (m.conversationID = conversation ∧ first ≤ m.seq ∧ m.seq ≤ last) := by
    rintro ⟨-, -, hle⟩
    omega
  rw [sharedMessagesRange, sharedMessagesRange, h.messages, rows_insertOrIgnore h.fresh,
    filter_append, filter_singleton]
  simp [hnot]

theorem RunMove.sameRange (h : RunMove s t) (hlast : last ≤ s.lastSeq) :
    SameRange s t conversation last ∨ t.conversation conversation = none := by
  cases h with
  | kept h =>
    refine .inl ?_
    rcases h.messages with ⟨hsame, hseq⟩ | ⟨m, hpost⟩
    · exact .of_messages hlast hsame hseq
    · exact hpost.sameRange hlast
  | deleted p h =>
    by_cases hp : p conversation
    · refine .inr ?_
      rw [Store.conversation, h.conversations, Table.find?_eq_none]
      exact fun c hc hid => (mem_delete.mp hc).2 (hid ▸ hp)
    · refine .inl ⟨h.lastSeq.symm ▸ hlast, ?_⟩
      intro _
      rw [sharedMessagesRange, sharedMessagesRange, h.messages, rows_delete, List.filter_filter]
      refine filter_congr ?_
      intro m _
      rw [← Bool.decide_and, decide_eq_decide]
      exact ⟨fun hm => hm.1, fun hm => ⟨hm, hm.1 ▸ hp⟩⟩
  | reserved _ _ _ _ _ _ h =>
    obtain ⟨_, rfl⟩ := h.store
    exact .inl (.of_messages hlast rfl rfl)
  | finished _ _ _ _ _ h | stopped _ _ _ h => exact .inl (h.posted.sameRange hlast)
  | reopened _ h =>
    refine .inl (Store.recovered_all (P := fun u => SameRange s u conversation last) ?_ ?_ h)
    · intro u r v hu hr
      rcases hr.messages with ⟨-, hsame⟩ | ⟨m, hpost, -⟩
      · refine hu.trans (.of_messages hu.1 hsame ?_)
        obtain ⟨_, _, rfl, ⟨-, -, rfl⟩ | ⟨hunused, m, hid, -, _, hfresh, rfl, rfl⟩⟩ := hr
        · rfl
        · have hnew := mem_insertOrIgnore.mpr (.inr ⟨rfl, hfresh⟩)
          rw [show u.messages.insertOrIgnore m = u.messages from hsame] at hnew
          exact absurd hid (hunused m hnew)
      · exact hu.trans (hpost.sameRange hu.1)
    · obtain ⟨_, _, he, -⟩ := Store.migrateAssistantMembers_spec s
      rw [he]
      exact .of_messages hlast rfl rfl

theorem range_run {c d : Config Store Call Outcome} (hc : system.Reachable c) (h : system.Run c d)
    (hlast : last ≤ c.store.lastSeq) : SameRange c.store d.store conversation last ∨
      ∃ e, system.Run c e ∧ system.Run e d ∧ e.store.conversation conversation = none := by
  induction h with
  | refl => exact .inl (.refl hlast)
  | @tail _ e hrun hstep ih =>
    rcases ih with hsame | ⟨x, hcx, hxd, hnone⟩
    · rcases (run_move (hc.run hrun) hstep).sameRange hsame.1 with hsame' | hnone
      · exact .inl (hsame.trans hsame')
      · exact .inr ⟨e, hrun.tail hstep, Relation.ReflTransGen.refl, hnone⟩
    · exact .inr ⟨x, hcx, hxd.tail hstep, hnone⟩

/-- A run of the assistant goes from running to succeeded, and what it had read ends where its window ends. -/
def Advances (s t : Store) (conversationID assistantID : String) : Prop :=
  ∃ r ∈ s.runs, r.conversationID = conversationID ∧ r.assistantID = assistantID ∧ r.state = .running ∧
    (∃ r' ∈ t.runs, SameRun r r' ∧ r'.state = .succeeded) ∧ t.cursor conversationID assistantID = r.contextThroughSeq

theorem RunMove.cursor (h : RunMove s t) (hs : Tiled s) : t.cursor conversation assistant = s.cursor conversation assistant ∨
    Advances s t conversation assistant ∨ t.conversation conversation = none := by
  cases h with
  | kept h => exact .inl h.sessions.cursor
  | deleted p h =>
    by_cases hp : p conversation
    · refine .inr (.inr ?_)
      rw [Store.conversation, h.conversations, Table.find?_eq_none]
      exact fun c hc hid => (mem_delete.mp hc).2 (hid ▸ hp)
    · exact .inl (h.cursor hp)
  | reserved _ _ _ _ _ _ h => exact .inl h.sessionsKept.cursor
  | finished _ result _ _ hrow h =>
    by_cases hresult : result.runErr = none
    · obtain ⟨r, f, -, hsuccess⟩ := h.success hs hrow hresult
      by_cases heq : conversation = r.conversationID ∧ assistant = r.assistantID
      · obtain ⟨rfl, rfl⟩ := heq
        refine .inr (.inl ⟨r, hsuccess.mem, rfl, rfl, hsuccess.running, ⟨f r, ?_, hsuccess.same, hsuccess.succeeded⟩,
          hsuccess.cursor_moved hs⟩)
        rw [← mem_rows, hsuccess.rows]
        exact List.mem_map_of_mem hsuccess.mem
      · exact .inl (hsuccess.cursor_other heq)
    · exact .inl (cursor_of_sessions (h.sessions hresult))
  | stopped _ _ _ h => exact .inl (cursor_of_sessions (by rw [h.store]))
  | reopened _ h => exact .inl (hs.migrated h).cursor

theorem finishAIRun_late {run : AIRun} {result : RunResult} (env : Env)
    (h : ∀ r ∈ s.runs, r.id = run.id → r.state ≠ .running) :
    ∃ e, (finishAIRun env run result).run s = (.error e, s) := by
  have hcount : s.runs.count (fun r => r.id = run.id ∧ r.state = .running) ≠ 1 := by
    rw [Table.count_eq_zero.mpr (fun r hr hrun => h r hr hrun.1 hrun.2)]
    exact Nat.zero_ne_one
  have hfails : s.finishAIRun run result.normal (env.stamp 0) = .error .conflict := by
    unfold Store.finishAIRun updateOne
    rw [if_neg hcount]
    rfl
  unfold finishAIRun guarded
  split
  · refine ⟨.conflict, ?_⟩
    rw [answer, Prog.andThen, Prog.run_bind, Prog.run_transaction_error hfails]
    rfl
  · rename_i e _
    exact ⟨e, rfl⟩

end Delivery

/-- The windows of an assistant's succeeded runs tile what it has read of a conversation. -/
structure ContextTiling (c : Config Store Call Outcome) : Prop where
  first : ∀ conversation assistant, ∀ w ∈ (c.store.windows conversation assistant).head?, w.first = 0
  contiguous : ∀ conversation assistant,
    (c.store.windows conversation assistant).IsChain (fun w w' => w'.first = w.last + 1)
  disjoint : ∀ conversation assistant,
    (c.store.windows conversation assistant).Pairwise (fun w w' => ∀ n, ¬ (w.Contains n ∧ w'.Contains n))
  delivered : ∀ conversation assistant, ∀ m ∈ c.store.messages, m.conversationID = conversation →
    m.seq ≤ c.store.cursor conversation assistant →
      ∃! r, r ∈ c.store.runs ∧ Delivers c.store m conversation assistant r
  same : ∀ d, system.Run c d → ∀ r ∈ c.store.runs,
    SameRange c.store d.store r.conversationID r.contextThroughSeq ∨
      ∃ e, system.Run c e ∧ system.Run e d ∧ e.store.conversation r.conversationID = none
  cursor : ∀ d, system.Step c d → ∀ conversation assistant,
    d.store.cursor conversation assistant = c.store.cursor conversation assistant ∨
      Advances c.store d.store conversation assistant ∨ d.store.conversation conversation = none
  late : ∀ name env depth run result, (∀ r ∈ c.store.runs, r.id = run.id → r.state ≠ .running) →
    ∃ e, (Call.prog ⟨name, env, depth, .finishAIRun run result⟩).run c.store = (.error e, c.store)

theorem context_tiling {c : Config Store Call Outcome} (hc : system.Reachable c) : ContextTiling c := by
  have hs := tiled_reachable hc
  refine ⟨fun conversation assistant => (hs.tiles conversation assistant).first_eq,
    fun conversation assistant => (hs.tiles conversation assistant).chain, ?_,
    fun conversation assistant m hm => hs.delivered (numbered_reachable hc) hm,
    fun d hd r hr => range_run hc hd (hs.through r hr), fun d hd _ _ => (run_move hc hd).cursor hs,
    fun _ env _ _ _ hover => finishAIRun_late env hover⟩
  intro conversation assistant
  refine (hs.tiles conversation assistant).pairwise.imp ?_
  rintro w w' hlt n ⟨⟨-, hle⟩, hge, -⟩
  omega

theorem messages_from_run {c d : Config Store Call Outcome} (hc : system.Reachable c) (h : system.Run c d) :
    MessagesFrom c.store d.store := by
  induction h with
  | refl => exact .subset rfl (fun m hm => hm)
  | tail hrun hstep ih => exact ih.trans (messages_step (hc.run hrun) hstep)

/-- The last number that a reader has seen is a cursor: whatever is new later lies beyond it, and what is old is as it was. -/
theorem messages_append_only {c d : Config Store Call Outcome} (hc : system.Reachable c) (h : system.Run c d) :
    c.store.lastSeq ≤ d.store.lastSeq ∧ ∀ m ∈ d.store.messages, 0 < m.seq ∧ m.seq ≤ d.store.lastSeq ∧
      (m ∈ c.store.messages ∨ ∀ old ∈ c.store.messages, old.seq < m.seq) := by
  have hfrom := messages_from_run hc h
  refine ⟨hfrom.lastSeq, ?_⟩
  intro m hm
  obtain ⟨hpos, hle⟩ := numbered_reachable (hc.run h) m hm
  refine ⟨hpos, hle, ?_⟩
  rcases hfrom.origin m hm with hm | ⟨hnew, -⟩
  · exact .inl hm
  · right
    intro old hold
    have hbefore := numbered_reachable hc old hold
    omega

namespace WindowsExample

open OwnershipExample (env)
open RunLivesExample (running reachable_running)

def run : AIRun :=
  ⟨"run-0000000000001", "assistant", "assistant", "model", "low", "session-shared-conversation-0001",
    "conversation-0001", "message-000000001", "codex", 1, "S-1-5-1", 1, "S-1-5-1", 0, 1, ""⟩

def finishing : Call := ⟨6, env, 1, .finishAIRun run ⟨"answer-0000000001", "runtime", "Hello", none⟩⟩

def finished : Config Store Call Outcome := system.after running [finishing]

theorem reachable_finished : system.Reachable finished := by
  refine reachable_running.run (System.Run.after rfl ?_)
  refine ⟨⟨by decide, ?_, ?_, ?_⟩, trivial⟩
  · rintro _ ⟨⟩
  · rintro _ ⟨⟩
  · rintro _ ⟨⟩
    have hreturned : (RunLivesExample.reserving, .ok (.run run)) ∈ running.returned :=
      mem_cons_of_mem _ (mem_cons_self (a := (RunLivesExample.reserving, _)))
    exact ⟨_, hreturned⟩

theorem message_delivered : ∃! r, r ∈ finished.store.runs ∧
    ∃ m ∈ finished.store.messages, Delivers finished.store m "conversation-0001" "assistant" r ∧
      m.id = "message-000000001" := by
  have hmessage : ∃ m ∈ finished.store.messages.rows, m.id = "message-000000001" ∧
      m.conversationID = "conversation-0001" ∧ m.seq ≤ finished.store.cursor "conversation-0001" "assistant" := by
    decide
  have hone : ∀ m ∈ finished.store.messages.rows, ∀ m' ∈ finished.store.messages.rows, m.id = m'.id → m = m' := by
    decide
  obtain ⟨m, hm, hid, hconversation, hread⟩ := hmessage
  obtain ⟨r, ⟨hr, hdelivers⟩, hunique⟩ :=
    (context_tiling reachable_finished).delivered "conversation-0001" "assistant" m hm hconversation hread
  refine ⟨r, ⟨hr, m, hm, hdelivers, hid⟩, ?_⟩
  rintro r' ⟨hr', m', hm', hdelivers', hid'⟩
  obtain rfl := hone m hm m' hm' (hid.trans hid'.symm)
  exact hunique r' ⟨hr', hdelivers'⟩

theorem messages_appended : ¬ ∃ m ∈ finished.store.messages, finished.store.lastSeq < m.seq := by
  rintro ⟨m, hm, hlt⟩
  obtain ⟨-, hle, -⟩ := (messages_append_only .refl reachable_finished).2 m hm
  omega

end WindowsExample

end WorkAgent.Collaboration
