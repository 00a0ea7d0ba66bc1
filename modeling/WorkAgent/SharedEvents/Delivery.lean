import WorkAgent.Library.Feed
import WorkAgent.SharedEvents.Hub

namespace WorkAgent.SharedEvents

open Library Handler HubMessage List Table Function
open Collaboration (Store MessageRow Mention NewMessage AIRun RunResult MessagesFrom Numbered Posted)

variable {w w' : World} {e : Event} {s : Subscriber} {db db' : Store} {m n : MessageRow} {k : ℕ} {c : String} {x : HubMessage}
  {h h' : Handler} {user : ℤ}

def Readable (db : Store) (user : ℤ) (m : MessageRow) : Prop := ∃ x, db.conversationForUser m.conversationID user true = .ok x

def Reads (db : Store) (user : ℤ) (c : String) : Prop :=
  (∃ x, db.conversationForUser c user true = .ok x) ∧ (db.visible c user).isSome

theorem Reads.readable (h : Reads db user m.conversationID) : Readable db user m := h.1

def Mode.Relies (m : MessageRow) : Mode → Prop
  | .listing | .over => False
  | .writing values full => full = false ∧ m ∉ values
  | .live => True

def Subscriber.Awaits (s : Subscriber) (db : Store) (m : MessageRow) : Prop :=
  Reads db s.userID m.conversationID ∧ s.lastID < number m ∧ s.mode.Relies m

def Subscriber.waiting (s : Subscriber) : List MessageRow := s.channel.filterMap message?

def Subscriber.Admits (s : Subscriber) (db db' : Store) : Prop :=
  ∀ m, s.Awaits db m → ∀ before n after, s.waiting = before ++ n :: after → m ∉ before → m.seq < n.seq → Readable db' s.userID n →
    Readable db s.userID n

/-- While a stream waits for a message, none with a higher number that its user may read is published before it, and it is published. -/
def Careful (w : World) (w' : World) : Event → Prop
  | .published n => ∀ k s m, w.subscribers k = some s → s.isOpen = true → w.Pending m → m.seq < n.seq → s.Awaits w.db m →
      ¬ Readable w.db s.userID n
  | .abandoned m => ∀ k s, w.subscribers k = some s → s.isOpen = true → ¬ s.Awaits w.db m
  | .other => ∀ k s, w.subscribers k = some s → s.Admits w.db w'.db

def CarefulStep (w : World) (e : Event) (w' : World) : Prop := Step w e w' ∧ Careful w w' e

structure Seen (db : Store) (v : MessageRow) : Prop where
  lastSeq : v.seq ≤ db.lastSeq
  same : ∀ m ∈ db.messages, m.seq = v.seq → m = v

theorem Seen.mono (h : Seen db m) (hdb : MessagesFrom db db') : Seen db' m := by
  refine ⟨h.lastSeq.trans hdb.lastSeq, ?_⟩
  intro x hx hseq
  rcases hdb.origin x hx with hx | ⟨_, -⟩
  · exact h.same x hx hseq
  · have hle := h.lastSeq
    omega

theorem seen_of_mem (hdb : Numbered db) (hm : m ∈ db.messages) : Seen db m :=
  ⟨(hdb m hm).2, fun _ hx hseq => eq_of_key hx hm hseq⟩

theorem number_lt : number m < number n ↔ m.seq < n.seq := by
  unfold number
  omega

structure Formed (db : Store) (s : Subscriber) : Prop where
  sorted : s.sent.Pairwise (fun a b => number a < number b)
  above : ∀ m ∈ s.sent, s.start < number m ∧ number m ≤ s.lastID
  last : s.lastID = s.start ∨ ∃ m ∈ s.sent, number m = s.lastID
  sent : ∀ m ∈ s.sent, Seen db m
  waiting : ∀ m ∈ s.waiting, Seen db m
  pages : ∀ values full, s.mode = .writing values full → values.Pairwise (fun a b => number a < number b) ∧
    ∀ v ∈ values, s.lastID < number v ∧ Seen db v

theorem Formed.mono (h : Formed db s) (hdb : MessagesFrom db db') : Formed db' s := by
  refine ⟨h.sorted, h.above, h.last, fun m hm => (h.sent m hm).mono hdb, fun m hm => (h.waiting m hm).mono hdb, ?_⟩
  intro values full hmode
  obtain ⟨hsorted, hvalues⟩ := h.pages values full hmode
  exact ⟨hsorted, fun v hv => ⟨(hvalues v hv).1, (hvalues v hv).2.mono hdb⟩⟩

theorem Formed.lastID_le (h : Formed db s) (hm : number m ≤ s.lastID) (hstart : s.start < number m) : m.seq ≤ db.lastSeq := by
  rcases h.last with hlast | ⟨v, hv, hlast⟩
  · omega
  · have hle := (h.sent v hv).lastSeq
    unfold number at hm hlast
    omega

section Page

variable {after : ℤ} {limit : ℕ}

theorem pairwise_lt_of_le {l : List MessageRow} (h : l.Pairwise fun a b => number a ≤ number b) (hnodup : l.Nodup)
    (hinj : ∀ a ∈ l, ∀ b ∈ l, a.seq = b.seq → a = b) : l.Pairwise fun a b => number a < number b := by
  have hne : l.Pairwise (fun a b => a ≠ b) := hnodup
  refine (h.and hne).imp_of_mem ?_
  intro a b ha hb hab
  apply lt_of_le_of_ne hab.1
  intro heq
  apply hab.2 (hinj a ha b hb ?_)
  unfold number at heq
  omega

def unlimited (db : Store) (user after : ℤ) : List MessageRow :=
  (db.messages.rows.filter fun m => after < number m ∧ (db.visible m.conversationID user).isSome).mergeSort
    (fun a b => number a ≤ number b)

theorem mem_unlimited : m ∈ unlimited db user after ↔
    m ∈ db.messages ∧ after < number m ∧ (db.visible m.conversationID user).isSome := by
  rw [unlimited, mem_mergeSort, mem_filter, decide_eq_true_eq, mem_rows]

theorem sorted_unlimited : (unlimited db user after).Pairwise (fun a b => number a < number b) := by
  apply pairwise_lt_of_le
  · have hsorted : (unlimited db user after).Pairwise (fun a b => decide (number a ≤ number b) = true) := by
      apply pairwise_mergeSort
      · intro a b c
        simp only [decide_eq_true_eq]
        exact le_trans
      · intro a b
        simp only [Bool.or_eq_true, decide_eq_true_eq]
        exact le_total _ _
    simpa using hsorted
  · rw [unlimited, (mergeSort_perm _ _).nodup_iff]
    exact (db.messages.nodup.of_map _).filter _
  · intro a ha b hb hseq
    exact eq_of_key (mem_unlimited.mp ha).1 (mem_unlimited.mp hb).1 hseq

theorem sorted_page : (listMessagesForUserAfter db user after limit).Pairwise (fun a b => number a < number b) :=
  sorted_unlimited.sublist (take_sublist _ _)

theorem of_mem_page (hm : m ∈ listMessagesForUserAfter db user after limit) : m ∈ db.messages ∧ after < number m := by
  have hmem := mem_unlimited.mp (mem_of_mem_take hm)
  exact ⟨hmem.1, hmem.2.1⟩

theorem mem_page (hm : m ∈ db.messages) (hafter : after < number m) (hvisible : (db.visible m.conversationID user).isSome) :
    m ∈ listMessagesForUserAfter db user after limit ∨ ((listMessagesForUserAfter db user after limit).length = limit ∧
      ∀ v ∈ listMessagesForUserAfter db user after limit, number v < number m) := by
  have hmem := mem_unlimited.mpr ⟨hm, hafter, hvisible⟩
  have hsorted := @sorted_unlimited db user after
  change m ∈ (unlimited db user after).take limit ∨ ((unlimited db user after).take limit).length = limit ∧
    ∀ v ∈ (unlimited db user after).take limit, number v < number m
  generalize unlimited db user after = l at hmem hsorted ⊢
  rw [← take_append_drop limit l, mem_append] at hmem
  rcases hmem with hmem | hmem
  · exact .inl hmem
  · right
    constructor
    · rw [length_take]
      have hdrop := length_pos_of_mem hmem
      rw [length_drop] at hdrop
      omega
    · intro v hv
      rw [← take_append_drop limit l, pairwise_append] at hsorted
      exact hsorted.2.2 v hv m hmem

end Page

section Own

theorem Formed.list (h : Formed db s) (hdb : Numbered db) : Formed db (s.list db) := by
  refine { h with pages := ?_ }
  intro _ _ hmode
  obtain ⟨rfl, -⟩ := Mode.writing.inj hmode
  refine ⟨sorted_page, ?_⟩
  intro v hv
  obtain ⟨hmem, hafter⟩ := of_mem_page hv
  exact ⟨hafter, seen_of_mem hdb hmem⟩

theorem Formed.leave (h : Formed db s) : Formed db s.leave := by
  refine { h with pages := ?_ }
  intro _ _ hmode
  cases hmode

theorem Formed.turn {full : Bool} (h : Formed db s) : Formed db (s.turn (if full then .listing else .live)) := by
  refine { h with pages := ?_ }
  intro _ _ hmode
  cases full <;> cases hmode

theorem Formed.pass {rest : List HubMessage} (h : Formed db s) (hchannel : s.channel = x :: rest) : Formed db (s.pass rest) := by
  refine { h with waiting := ?_ }
  intro m hm
  apply h.waiting
  unfold Subscriber.waiting at hm ⊢
  rw [hchannel, filterMap_cons]
  cases x.message? with
  | none => exact hm
  | some y => exact mem_cons_of_mem y hm

theorem Formed.write (h : Formed db s) (hm : s.lastID < number m) (hseen : Seen db m) :
    (s.write m).sent.Pairwise (fun a b => number a < number b) ∧
      (∀ v ∈ (s.write m).sent, s.start < number v ∧ number v ≤ number m) ∧ ∀ v ∈ (s.write m).sent, Seen db v := by
  have hstart : s.start ≤ s.lastID := by
    rcases h.last with hlast | ⟨v, hv, hlast⟩
    · exact hlast.ge
    · have hlt := (h.above v hv).1
      omega
  unfold Subscriber.write
  refine ⟨?_, ?_, ?_⟩
  · rw [pairwise_append]
    refine ⟨h.sorted, pairwise_singleton _ _, ?_⟩
    intro a ha b hb
    obtain rfl := mem_singleton.mp hb
    have hle := (h.above a ha).2
    omega
  · intro v hv
    rw [mem_append, mem_singleton] at hv
    rcases hv with hv | rfl
    · obtain ⟨hlt, _⟩ := h.above v hv
      exact ⟨hlt, by omega⟩
    · exact ⟨by omega, le_refl _⟩
  · intro v hv
    rw [mem_append, mem_singleton] at hv
    rcases hv with hv | rfl
    · exact h.sent v hv
    · exact hseen

theorem Formed.writes {values : List MessageRow} {full : Bool} (h : Formed db s) (hmode : s.mode = .writing (m :: values) full) :
    Formed db ((s.write m).turn (.writing values full)) := by
  obtain ⟨hsorted, hvalues⟩ := h.pages _ _ hmode
  obtain ⟨hm, hseen⟩ := hvalues m (by simp)
  obtain ⟨hsent, habove, hsentSeen⟩ := h.write hm hseen
  rw [pairwise_cons] at hsorted
  refine ⟨hsent, habove, ?_, hsentSeen, h.waiting, ?_⟩
  · exact .inr ⟨m, by simp [Subscriber.write, Subscriber.turn], rfl⟩
  · intro _ _ hmode'
    obtain ⟨rfl, rfl⟩ := Mode.writing.inj hmode'
    exact ⟨hsorted.2, fun v hv => ⟨hsorted.1 v hv, (hvalues v (by simp [hv])).2⟩⟩

theorem Formed.takes {rest : List HubMessage} (h : Formed db s) (hmode : s.mode = .live) (hchannel : s.channel = .message m :: rest)
    (hm : s.lastID < number m) : Formed db ((s.write m).pass rest) := by
  have hseen : Seen db m := h.waiting m (by simp [Subscriber.waiting, hchannel, message?])
  obtain ⟨hsent, habove, hsentSeen⟩ := h.write hm hseen
  refine ⟨hsent, habove, ?_, hsentSeen, (h.pass hchannel).waiting, ?_⟩
  · exact .inr ⟨m, by simp [Subscriber.write, Subscriber.pass], rfl⟩
  · intro values full hmode'
    have hlive : s.mode = .writing values full := hmode'
    rw [hmode] at hlive
    cases hlive

theorem waiting_receive : ((s.receive x).isOpen = false ∧ (s.receive x).waiting = s.waiting) ∨ (s.isOpen = true ∧
    (s.receive x).waiting = s.waiting ++ x.message?.toList) := by
  unfold Subscriber.receive
  by_cases hopen : s.isOpen = false
  · simp [hopen]
  · by_cases hlength : s.channel.length < channelSize
    · right
      have htrue : s.isOpen = true := by simpa using hopen
      refine ⟨htrue, ?_⟩
      rw [if_neg hopen, if_pos hlength]
      unfold Subscriber.waiting
      cases x <;> simp [message?]
    · left
      simp [hopen, hlength, Subscriber.waiting]

theorem receive_fields : (s.receive x).userID = s.userID ∧ (s.receive x).start = s.start ∧ (s.receive x).lastID = s.lastID ∧
    (s.receive x).sent = s.sent ∧ (s.receive x).mode = s.mode := by
  unfold Subscriber.receive
  split
  · simp
  · split <;> simp

theorem Formed.receive (h : Formed db s) (hx : ∀ m, x = .message m → Seen db m) : Formed db (s.receive x) := by
  obtain ⟨-, hstart, hlast, hsent, hmode⟩ := receive_fields (s := s) (x := x)
  refine ⟨?_, ?_, ?_, ?_, ?_, ?_⟩
  · rw [hsent]
    exact h.sorted
  · rw [hsent, hstart, hlast]
    exact h.above
  · rw [hsent, hstart, hlast]
    exact h.last
  · rw [hsent]
    exact h.sent
  · intro m hm
    rcases waiting_receive (s := s) (x := x) with ⟨-, hsame⟩ | ⟨-, hpushed⟩
    · rw [hsame] at hm
      exact h.waiting m hm
    · rw [hpushed, mem_append] at hm
      rcases hm with hm | hm
      · exact h.waiting m hm
      · cases x with
        | message y =>
          obtain rfl : m = y := by simpa [message?] using hm
          exact hx m rfl
        | refresh => simp [message?] at hm
  · rw [hmode, hlast]
    exact h.pages

end Own

section Pending

theorem pending_handle : (w.handle k h).Pending m ↔ m ∈ h.unpublished ∨ ∃ j h', j ≠ k ∧ w.handlers j = some h' ∧ m ∈ h'.unpublished := by
  constructor
  · rintro ⟨j, h', hj, hm⟩
    by_cases heq : j = k
    · subst heq
      obtain rfl : h = h' := by simpa [World.handle] using hj
      exact .inl hm
    · exact .inr ⟨j, h', heq, (update_of_ne heq ..).symm.trans hj, hm⟩
  · rintro (hm | ⟨j, h', hne, hj, hm⟩)
    · exact ⟨k, h, update_self .., hm⟩
    · exact ⟨j, h', (update_of_ne hne ..).trans hj, hm⟩

theorem pending_of_handle (hk : w.handlers k = some h) (hm : m ∈ h.unpublished) : w.Pending m := ⟨k, h, hk, hm⟩

end Pending

inductive Moved (db : Store) : Option Subscriber → Subscriber → Prop
  | connected (userID start : ℤ) : Moved db none (.connected userID start)
  | listed {s : Subscriber} (hmode : s.mode = .listing) : Moved db (some s) (s.list db)
  | wrote {s : Subscriber} {m : MessageRow} {values : List MessageRow} {full : Bool} (hmode : s.mode = .writing (m :: values) full) :
      Moved db (some s) ((s.write m).turn (.writing values full))
  | turned {s : Subscriber} {full : Bool} (hmode : s.mode = .writing [] full) :
      Moved db (some s) (s.turn (if full then .listing else .live))
  | passed {s : Subscriber} {x : HubMessage} {rest : List HubMessage} (hmode : s.mode = .live) (hchannel : s.channel = x :: rest)
      (hx : ∀ m, x = .message m → number m ≤ s.lastID ∨ ¬ Readable db s.userID m) : Moved db (some s) (s.pass rest)
  | took {s : Subscriber} {m : MessageRow} {rest : List HubMessage} (hmode : s.mode = .live) (hchannel : s.channel = .message m :: rest)
      (hm : s.lastID < number m) (hreadable : Readable db s.userID m) : Moved db (some s) ((s.write m).pass rest)
  | left {s : Subscriber} : Moved db (some s) s.leave

inductive Change (w : World) : Event → World → Prop
  | stored {m : MessageRow} {w' : World} (hdb : Posted w.db w'.db m) (hm : w'.Pending m) (hold : ∀ v, w.Pending v → w'.Pending v)
      (hnew : ∀ v, w'.Pending v → v = m ∨ w.Pending v) (hsubs : w'.subscribers = w.subscribers) : Change w .other w'
  | quiet {w' : World} (hdb : Collaboration.MessagesFrom w.db w'.db) (hmem : ∀ m ∈ w'.db.messages, m ∈ w.db.messages)
      (hold : ∀ v, w.Pending v → w'.Pending v) (hnew : ∀ v, w'.Pending v → w.Pending v) (hsubs : w'.subscribers = w.subscribers) :
      Change w .other w'
  | abandoned {m : MessageRow} {w' : World} (hdb : w'.db = w.db) (hold : ∀ v, w.Pending v → v = m ∨ w'.Pending v)
      (hnew : ∀ v, w'.Pending v → w.Pending v) (hsubs : w'.subscribers = w.subscribers) : Change w (.abandoned m) w'
  | published {m : MessageRow} {w' : World} (hdb : w'.db = w.db) (hm : w.Pending m) (hold : ∀ v, w.Pending v → v = m ∨ w'.Pending v)
      (hnew : ∀ v, w'.Pending v → w.Pending v) (hsubs : w'.subscribers = fun k => (w.subscribers k).map (·.receive (.message m))) :
      Change w (.published m) w'
  | refreshed {user : ℤ} {w' : World} (hdb : w'.db = w.db) (hpending : ∀ v, w'.Pending v ↔ w.Pending v)
      (hsubs : w'.subscribers = fun k => (w.subscribers k).map (·.receive (.refresh user))) : Change w .other w'
  | stream {k : ℕ} {s : Subscriber} {w' : World} (hdb : w'.db = w.db) (hpending : ∀ v, w'.Pending v ↔ w.Pending v)
      (hmoved : Moved w.db (w.subscribers k) s) (hsubs : w'.subscribers = Function.update w.subscribers k (some s)) : Change w .other w'
  | restarted {w' : World} (hdb : Collaboration.MessagesFrom w.db w'.db) (hpending : ∀ v, ¬ w'.Pending v)
      (hsubs : w'.subscribers = fun k => (w.subscribers k).map Subscriber.leave) : Change w .other w'

theorem addMessage_posted {message : NewMessage} {stamp : ℤ} (hdb : db.addMessage message user stamp = .ok (m, db')) : Posted db db' m := by
  unfold Store.addMessage at hdb
  simp only [bind_eq_ok, pure_eq_ok, Prod.mk.injEq] at hdb
  obtain ⟨t, hinsert, rfl, rfl⟩ := hdb
  obtain ⟨-, hunused, hfresh, rfl⟩ := Store.insertMessage_eq_ok hinsert
  exact ⟨rfl, hfresh, hunused, rfl, rfl⟩

theorem touchConversation_messages {stamp : ℤ} (hdb : db.touchConversation c stamp = .ok ((), db')) :
    db'.messages = db.messages ∧ db'.lastSeq = db.lastSeq := by
  unfold Store.touchConversation at hdb
  cases hdb
  exact ⟨rfl, rfl⟩

theorem pending_fresh (hk : w.handlers k = none) : (w.handle k h).Pending m ↔ m ∈ h.unpublished ∨ w.Pending m := by
  rw [pending_handle]
  apply or_congr_right
  constructor
  · rintro ⟨j, g, -, hj, hm⟩
    exact ⟨j, g, hj, hm⟩
  · rintro ⟨j, g, hj, hm⟩
    refine ⟨j, g, ?_, hj, hm⟩
    rintro rfl
    rw [hk] at hj
    cases hj

theorem pending_congr (hw : w'.handlers = w.handlers) : w'.Pending m ↔ w.Pending m := by
  unfold World.Pending
  rw [hw]

section

variable (hk : w.handlers k = some h)
include hk

theorem change_handle (hsame : ∀ v, v ∈ h'.unpublished ↔ v ∈ h.unpublished) (hdb : MessagesFrom w.db w'.db)
    (hmem : ∀ m ∈ w'.db.messages, m ∈ w.db.messages) (hhandlers : w'.handlers = (w.handle k h').handlers)
    (hsubs : w'.subscribers = w.subscribers) : Change w .other w' := by
  have hpending (v : MessageRow) : w'.Pending v ↔ w.Pending v := by
    rw [pending_congr hhandlers]
    constructor
    · intro hv
      rcases pending_handle.mp hv with hv | ⟨j, g, -, hj, hv⟩
      · exact ⟨k, h, hk, (hsame v).mp hv⟩
      · exact ⟨j, g, hj, hv⟩
    · rintro ⟨j, g, hj, hv⟩
      by_cases heq : j = k
      · subst heq
        rw [hk] at hj
        cases hj
        exact pending_handle.mpr (.inl ((hsame v).mpr hv))
      · exact pending_handle.mpr (.inr ⟨j, g, heq, hj, hv⟩)
  exact .quiet hdb hmem (fun v => (hpending v).mpr) (fun v => (hpending v).mp) hsubs

theorem change_stored (hdb : Posted w.db w'.db m) (hunpublished : h'.unpublished = h.unpublished ++ [m])
    (hhandlers : w'.handlers = (w.handle k h').handlers) (hsubs : w'.subscribers = w.subscribers) : Change w .other w' := by
  have hpending (v : MessageRow) : w'.Pending v ↔ v = m ∨ w.Pending v := by
    rw [pending_congr hhandlers, pending_handle, hunpublished, mem_append, mem_singleton]
    constructor
    · rintro ((hv | rfl) | ⟨j, g, -, hj, hv⟩)
      · exact .inr ⟨k, h, hk, hv⟩
      · exact .inl rfl
      · exact .inr ⟨j, g, hj, hv⟩
    · rintro (rfl | ⟨j, g, hj, hv⟩)
      · exact .inl (.inr rfl)
      · by_cases heq : j = k
        · subst heq
          rw [hk] at hj
          cases hj
          exact .inl (.inl hv)
        · exact .inr ⟨j, g, heq, hj, hv⟩
  exact .stored hdb ((hpending m).mpr (.inl rfl)) (fun v hv => (hpending v).mpr (.inr hv)) (fun v => (hpending v).mp) hsubs

theorem pending_released (hnew : ∀ v ∈ h'.unpublished, v ∈ h.unpublished)
    (hold : ∀ v ∈ h.unpublished, v = m ∨ v ∈ h'.unpublished) (hhandlers : w'.handlers = (w.handle k h').handlers) :
    (∀ v, w.Pending v → v = m ∨ w'.Pending v) ∧ ∀ v, w'.Pending v → w.Pending v := by
  constructor
  · rintro v ⟨j, g, hj, hv⟩
    rw [pending_congr hhandlers]
    by_cases heq : j = k
    · subst heq
      rw [hk] at hj
      cases hj
      rcases hold v hv with rfl | hv
      · exact .inl rfl
      · exact .inr (pending_handle.mpr (.inl hv))
    · exact .inr (pending_handle.mpr (.inr ⟨j, g, heq, hj, hv⟩))
  · intro v hv
    rw [pending_congr hhandlers] at hv
    rcases pending_handle.mp hv with hv | ⟨j, g, -, hj, hv⟩
    · exact ⟨k, h, hk, hnew v hv⟩
    · exact ⟨j, g, hj, hv⟩

theorem change_published (hm : m ∈ h.unpublished) (hnew : ∀ v ∈ h'.unpublished, v ∈ h.unpublished)
    (hold : ∀ v ∈ h.unpublished, v = m ∨ v ∈ h'.unpublished) (hdb : w'.db = w.db) (hhandlers : w'.handlers = (w.handle k h').handlers)
    (hsubs : w'.subscribers = fun k => (w.subscribers k).map (·.receive (.message m))) : Change w (.published m) w' := by
  obtain ⟨hkeep, hback⟩ := pending_released hk hnew hold hhandlers
  exact .published hdb (pending_of_handle hk hm) hkeep hback hsubs

end

theorem messagesFrom_refl (db : Store) : MessagesFrom db db := ⟨le_refl _, fun _ hm => .inl hm⟩

theorem messagesFrom_same (hmessages : db'.messages = db.messages) (hlast : db'.lastSeq = db.lastSeq) : MessagesFrom db db' :=
  ⟨hlast.ge, fun m hm => .inl (by rwa [← hmessages])⟩

theorem change_step (hstep : Step w e w') : Change w e w' := by
  cases hstep with
  | @arrives k hnew =>
    have hpending (v : MessageRow) : (w.handle k .waiting).Pending v ↔ w.Pending v := by
      rw [pending_fresh hnew]
      simp [unpublished]
    exact .quiet (messagesFrom_refl _) (fun _ hm => hm) (fun v => (hpending v).mpr) (fun v => (hpending v).mp) rfl
  | locks hk | refused hk | skips hk | vanishes hk => exact change_handle hk (by simp [unpublished]) (messagesFrom_refl _) (fun _ hm => hm) rfl rfl
  | adds hk hdb => exact change_stored hk (addMessage_posted hdb) rfl rfl rfl
  | touches hk hdb =>
    obtain ⟨hmessages, hlast⟩ := touchConversation_messages hdb
    refine change_handle hk (by simp [unpublished]) (messagesFrom_same hmessages hlast) ?_ rfl rfl
    intro m hm
    rwa [← hmessages]
  | @abandons k m hk =>
    have hreleased : (∀ v, w.Pending v → v = m ∨ (w.handle k .done).unlock.Pending v) ∧
        ∀ v, (w.handle k .done).unlock.Pending v → w.Pending v :=
      pending_released hk (by simp [unpublished]) (by simp [unpublished]) rfl
    exact .abandoned rfl hreleased.1 hreleased.2 rfl
  | rejects hk _ _ hdb | finishes hk hdb => exact change_stored hk (Collaboration.Store.finishAIRun_eq_ok hdb).posted rfl rfl rfl
  | publishesFailure hk | publishes hk | publishesStop hk | publishesResult hk =>
    exact change_published hk (by simp [unpublished]) (by simp [unpublished]) (by simp [unpublished]) rfl rfl rfl
  | @starts k j m mention rest hk _ hnew =>
    have hne : k ≠ j := by
      rintro rfl
      rw [hk] at hnew
      cases hnew
    have hk' : (w.handle j .running).handlers k = some (.starting m (mention :: rest)) := (update_of_ne hne ..).trans hk
    have hpending (v : MessageRow) : (w.handle j .running).Pending v ↔ w.Pending v := by
      rw [pending_fresh hnew]
      simp [unpublished]
    have hpending' (v : MessageRow) : ((w.handle j .running).handle k (.starting m rest)).Pending v ↔ w.Pending v := by
      have hreleased : (∀ v, (w.handle j .running).Pending v → v = m ∨ ((w.handle j .running).handle k (.starting m rest)).Pending v) ∧
          ∀ v, ((w.handle j .running).handle k (.starting m rest)).Pending v → (w.handle j .running).Pending v :=
        pending_released hk' (by simp [unpublished]) (by simp [unpublished]) rfl
      rw [← hpending]
      constructor
      · exact hreleased.2 v
      · intro hv
        rcases hreleased.1 v hv with rfl | hv
        · exact pending_handle.mpr (.inl (by simp [unpublished]))
        · exact hv
    exact .quiet (messagesFrom_refl _) (fun _ hm => hm) (fun v => (hpending' v).mpr) (fun v => (hpending' v).mp) rfl
  | stops hk hdb => exact change_stored hk (Collaboration.Store.stopAssistantRun_eq_ok hdb).posted rfl rfl rfl
  | refreshes => exact .refreshed rfl (fun v => pending_congr rfl) rfl
  | elsewhere hdb =>
    exact .quiet ⟨hdb.lastSeq.ge, fun m hm => .inl (hdb.messages m hm)⟩ hdb.messages (fun v => (pending_congr rfl).mpr) (fun v => (pending_congr rfl).mp) rfl
  | connects userID start hnew => exact .stream rfl (fun v => pending_congr rfl) (hnew ▸ .connected userID start) rfl
  | lists hk hmode => exact .stream rfl (fun v => pending_congr rfl) (hk ▸ .listed hmode) rfl
  | writes hk hmode => exact .stream rfl (fun v => pending_congr rfl) (hk ▸ .wrote hmode) rfl
  | turns hk hmode => exact .stream rfl (fun v => pending_congr rfl) (hk ▸ .turned hmode) rfl
  | passes hk hmode hchannel hx =>
    refine .stream rfl (fun v => pending_congr rfl) (hk ▸ .passed hmode hchannel ?_) rfl
    intro m hm
    rcases hx m hm with hle | hrefused
    · exact .inl hle
    · right
      rintro ⟨c, hc⟩
      exact hrefused c hc
  | @takes _ _ _ _ c hk hmode hchannel hm hc =>
    exact .stream rfl (fun v => pending_congr rfl) (hk ▸ .took hmode hchannel hm ⟨c, hc⟩) rfl
  | leaves hk => exact .stream rfl (fun v => pending_congr rfl) (hk ▸ .left) rfl
  | restarts hdb =>
    refine .restarted hdb ?_ rfl
    rintro v ⟨k, g, hk, -⟩
    cases hk

end WorkAgent.SharedEvents
