import WorkAgent.ImGateway.Gateway

namespace WorkAgent.ImGateway

open Library List Table

variable {registry : Registry} {s t : Store} {w v : World} {acts more : List Action} {call other : Call} {message : InboundMessage}
  {key : MessageKey} {phase : Phase} {now : ℤ} {targetSID error : String} {id : ℕ}

namespace Store

def status (s : Store) (key : MessageKey) : Option ReceiptStatus := (s.receipts.find? key).map Receipt.status

theorem status_eq_some {status : ReceiptStatus} : s.status key = some status ↔ ∃ r ∈ s.receipts, r.key = key ∧ r.status = status := by
  unfold Store.status
  rw [Option.map_eq_some_iff]
  constructor
  · rintro ⟨r, hr, hstatus⟩
    obtain ⟨hmem, hkey⟩ := find?_eq_some.mp hr
    exact ⟨r, hmem, hkey, hstatus⟩
  · rintro ⟨r, hr, hkey, hstatus⟩
    exact ⟨r, find?_eq_some.mpr ⟨hr, hkey⟩, hstatus⟩

theorem status_begin (h : s.beginReceipt message now = .begun t) : s.status message.key ≠ some .processing ∧
    s.status message.key ≠ some .delivered ∧
    ∀ key, t.status key = if key = message.key then some .processing else s.status key := by
  unfold beginReceipt at h
  unfold Store.status
  cases hfind : s.receipts.find? message.key with
  | none =>
    rw [hfind] at h
    obtain rfl := Begun.begun.inj h
    refine ⟨by simp, by simp, fun key => ?_⟩
    dsimp only
    by_cases hkey : key = message.key
    · rw [if_pos hkey, hkey, find?_insertOrIgnore_new hfind]
      rfl
    · rw [if_neg hkey, find?_insertOrIgnore, if_neg (fun hsame => hkey hsame.symm)]
  | some receipt =>
    rw [hfind] at h
    obtain ⟨-, hreceipt⟩ := find?_eq_some.mp hfind
    cases hstatus : receipt.status with
    | processing | delivered => simp [hstatus] at h
    | failed =>
      simp only [hstatus] at h
      obtain rfl := Begun.begun.inj h
      refine ⟨by simp [hstatus], by simp [hstatus], fun key => ?_⟩
      dsimp only
      rw [find?_update]
      by_cases hkey : key = message.key
      · rw [if_pos hkey, hkey, hfind]
        simp [hreceipt]
      · rw [if_neg hkey]
        cases hother : s.receipts.find? key with
        | none => rfl
        | some =>
          obtain ⟨-, hr⟩ := find?_eq_some.mp hother
          simp [hr, hkey]

theorem status_close {f : Receipt → Receipt} {status : ReceiptStatus} (hf : ∀ r, (f r).key = r.key)
    (ht : t.receipts = s.receipts.update (fun r => r.key = message.key ∧ r.status = .processing) f hf)
    (hstatus : ∀ r, (f r).status = status) (key : MessageKey) :
    t.status key = if key = message.key ∧ s.status key = some .processing then some status else s.status key := by
  unfold Store.status
  rw [ht, find?_update]
  cases hfind : s.receipts.find? key with
  | none => simp
  | some r =>
    obtain ⟨-, hkey⟩ := find?_eq_some.mp hfind
    by_cases hopen : key = message.key ∧ r.status = .processing
    · simp [hkey, hopen, hstatus]
    · simp [hkey, hopen]

theorem status_complete {receipt : DeliveryReceipt} (h : s.completeReceipt message targetSID receipt now = .ok t) :
    ∀ key, t.status key = if key = message.key then some .delivered else s.status key := by
  unfold completeReceipt at h
  split at h
  · cases h
  · rename_i hcount
    cases h
    obtain ⟨r, hr, hkey, hprocessing⟩ := exists_of_count_ne_zero (t := s.receipts) (by
      intro hzero
      rw [hzero] at hcount
      exact hcount (by decide))
    have hopen : s.status message.key = some .processing := status_eq_some.mpr ⟨r, hr, hkey, hprocessing⟩
    intro key
    refine (status_close (by intro r; rfl) rfl (by intro r; rfl) key).trans ?_
    by_cases hsame : key = message.key
    · rw [if_pos hsame, if_pos ⟨hsame, hsame ▸ hopen⟩]
    · rw [if_neg hsame, if_neg (fun hboth => hsame hboth.1)]

theorem status_fail (key : MessageKey) : (s.failReceipt message error now).status key =
    if key = message.key ∧ s.status key = some .processing then some .failed else s.status key :=
  status_close (by intro r; rfl) rfl (by intro r; rfl) key

theorem putConnector_receipts {connector : StoredConnector} (h : s.putConnector connector = .ok t) :
    t.receipts = s.receipts ∧ t.pairings = s.pairings := by
  unfold putConnector at h
  split at h
  · cases h
  · cases h
    exact ⟨rfl, rfl⟩

theorem requestPairing_receipts {connectorID accountID : String} {sender : Sender}
    (h : s.requestPairing connectorID accountID sender now = .ok t) : t.receipts = s.receipts := by
  unfold requestPairing at h
  split at h
  · cases h
  · cases h
    rfl

theorem administer_receipts (registry : Registry) (s : Store) (ownerSID : String) (request : Request) (now : ℤ) :
    (s.administer registry ownerSID request now).receipts = s.receipts := by
  cases request with
  | store | enable =>
    unfold administer
    dsimp only
    split
    · rfl
    · split
      · rename_i hput
        exact (putConnector_receipts hput).1
      · rfl
  | _ => rfl

end Store

def Running (w : World) (key : MessageKey) : Prop := ∃ call ∈ w.calls, call.phase.running = true ∧ call.message.key = key

structure Ledger (acts : List Action) (w : World) : Prop where
  opened : ∀ key, w.store.status key = some .processing ↔ Running w key ∨ .abandoned key ∈ acts
  apart : ∀ key, .abandoned key ∈ acts → ¬ Running w key
  alone : ∀ call ∈ w.calls, ∀ other ∈ w.calls, call.phase.running = true → other.phase.running = true →
    call.message.key = other.message.key → call = other
  settled : ∀ key, .delivered key ∈ acts → w.store.status key = some .delivered
  once : acts.Pairwise fun act act' => ∀ id message targetSID, act = .delivered message.key → act' ≠ .sent id message targetSID

def Follows (w v : World) : Prop := ∀ call ∈ v.calls, call.phase.running = true →
  ∃ other ∈ w.calls, other.phase.running = true ∧ other.message = call.message ∧ other.id = call.id

theorem Follows.refl (w : World) : Follows w w := fun call hcall hrunning => ⟨call, hcall, hrunning, rfl, rfl⟩

theorem Follows.running (h : Follows w v) (hrunning : Running v key) : Running w key := by
  obtain ⟨call, hcall, hrunning, rfl⟩ := hrunning
  obtain ⟨other, hother, hother', hmessage, -⟩ := h call hcall hrunning
  exact ⟨other, hother, hother', congrArg InboundMessage.key hmessage⟩

theorem Ledger.once_append (h : Ledger acts w) (hmore : ∀ act ∈ more, ∀ key, act ≠ .delivered key)
    (hsent : ∀ id message targetSID, .sent id message targetSID ∈ more → Running w message.key) :
    (acts ++ more).Pairwise fun act act' => ∀ id message targetSID, act = .delivered message.key → act' ≠ .sent id message targetSID := by
  rw [pairwise_append]
  refine ⟨h.once, ?_, ?_⟩
  · apply pairwise_of_forall_mem_list
    intro act hact _ _ _ message _ hdelivered
    exact absurd hdelivered (hmore act hact message.key)
  · rintro _ hact _ hact' id message targetSID rfl rfl
    have hprocessing := (h.opened message.key).mpr (.inl (hsent id message targetSID hact'))
    rw [h.settled message.key hact] at hprocessing
    cases hprocessing

theorem Ledger.keep (h : Ledger acts w) (hreceipts : v.store.receipts = w.store.receipts) (hthere : Follows w v) (hback : Follows v w)
    (hmore : ∀ act ∈ more, ∀ key, act ≠ .delivered key ∧ act ≠ .abandoned key)
    (hsent : ∀ id message targetSID, .sent id message targetSID ∈ more → Running w message.key) : Ledger (acts ++ more) v := by
  have hstatus : ∀ key, v.store.status key = w.store.status key := by
    intro key
    unfold Store.status
    rw [hreceipts]
  have hrunning : ∀ key, Running v key ↔ Running w key := fun key => ⟨hthere.running, hback.running⟩
  have hold : ∀ key, .abandoned key ∈ acts ++ more ↔ .abandoned key ∈ acts := by
    intro key
    rw [mem_append, or_iff_left]
    exact fun hmem => (hmore _ hmem key).2 rfl
  constructor
  · intro key
    rw [hstatus, hrunning, hold]
    exact h.opened key
  · intro key hmem
    rw [hrunning]
    exact h.apart key ((hold key).mp hmem)
  · intro call hcall other hother hcallRunning hotherRunning hkey
    obtain ⟨x, hx, hxRunning, hxMessage, hxId⟩ := hthere call hcall hcallRunning
    obtain ⟨y, hy, hyRunning, hyMessage, hyId⟩ := hthere other hother hotherRunning
    have hsame : x = y := h.alone x hx y hy hxRunning hyRunning (by rw [hxMessage, hyMessage, hkey])
    exact eq_of_key hcall hother (by rw [← hxId, ← hyId, hsame])
  · intro key hmem
    rw [hstatus]
    rcases mem_append.mp hmem with hmem | hmem
    · exact h.settled key hmem
    · exact absurd rfl (hmore _ hmem key).1
  · exact h.once_append (fun act hact key => (hmore act hact key).1) hsent

theorem mem_ret {x : Call} : x ∈ (w.ret call).calls ↔ x ∈ w.calls ∧ x.id ≠ call.id := mem_delete

theorem mem_enter {x : Call} : x ∈ (w.enter call phase).calls ↔ x = { call with phase := phase } ∨ (x ∈ w.calls ∧ x.id ≠ call.id) :=
  Table.mem_set

section

variable (h : Ledger acts w)
include h

theorem Ledger.running_ret (hcall : call ∈ w.calls) (hphase : call.phase.running = true) :
    Running (w.ret call) key ↔ Running w key ∧ key ≠ call.message.key := by
  constructor
  · rintro ⟨other, hother, hrunning, rfl⟩
    obtain ⟨hmem, hid⟩ := mem_ret.mp hother
    refine ⟨⟨other, hmem, hrunning, rfl⟩, fun hkey => hid ?_⟩
    rw [h.alone other hmem call hcall hrunning hphase hkey]
  · rintro ⟨⟨other, hother, hrunning, rfl⟩, hkey⟩
    refine ⟨other, mem_ret.mpr ⟨hother, fun hid => hkey ?_⟩, hrunning, rfl⟩
    rw [eq_of_key hother hcall hid]

theorem Ledger.alone_ret : ∀ x ∈ (w.ret call).calls, ∀ y ∈ (w.ret call).calls, x.phase.running = true →
    y.phase.running = true → x.message.key = y.message.key → x = y := by
  intro x hx y hy
  exact h.alone x (mem_ret.mp hx).1 y (mem_ret.mp hy).1

theorem Ledger.close {status : ReceiptStatus} (hcall : call ∈ w.calls) (hphase : call.phase.running = true)
    (hstatus : ∀ key, t.status key = if key = call.message.key then some status else w.store.status key)
    (hclosed : status ≠ .processing) (hmore : ∀ act ∈ more, act = .delivered call.message.key ∧ status = .delivered) :
    Ledger (acts ++ more) ((w.setStore t).ret call) := by
  have hopen : w.store.status call.message.key = some .processing := (h.opened _).mpr (.inl ⟨call, hcall, hphase, rfl⟩)
  have hrunning : ∀ key, Running ((w.setStore t).ret call) key ↔ Running w key ∧ key ≠ call.message.key :=
    fun key => h.running_ret hcall hphase
  have hold : ∀ key, .abandoned key ∈ acts ++ more ↔ .abandoned key ∈ acts := by
    intro key
    rw [mem_append, or_iff_left]
    intro hmem
    cases (hmore _ hmem).1
  constructor
  · intro key
    change t.status key = _ ↔ _
    rw [hstatus, hrunning, hold]
    by_cases hkey : key = call.message.key
    · rw [if_pos hkey]
      constructor
      · exact fun heq => absurd (Option.some.inj heq) hclosed
      · rintro (⟨-, hne⟩ | hmem)
        · exact absurd hkey hne
        · exact absurd ⟨call, hcall, hphase, hkey.symm⟩ (h.apart key hmem)
    · rw [if_neg hkey, h.opened key, and_iff_left hkey]
  · intro key hmem hboth
    exact h.apart key ((hold key).mp hmem) ((hrunning key).mp hboth).1
  · exact h.alone_ret
  · intro key hmem
    change t.status key = _
    rw [hstatus]
    rcases mem_append.mp hmem with hmem | hmem
    · have hdelivered := h.settled key hmem
      rw [if_neg, hdelivered]
      rintro rfl
      rw [hopen] at hdelivered
      cases hdelivered
    · obtain ⟨heq, hstatus'⟩ := hmore _ hmem
      rw [if_pos (Action.delivered.inj heq), hstatus']
  · rw [pairwise_append]
    refine ⟨h.once, ?_, ?_⟩
    · apply pairwise_of_forall_mem_list
      rintro act - act' hact' id message targetSID - rfl
      cases (hmore _ hact').1
    · rintro act - act' hact' id message targetSID - rfl
      cases (hmore _ hact').1

theorem Ledger.abandon (hcall : call ∈ w.calls) (hphase : call.phase.running = true) :
    Ledger (acts ++ [.abandoned call.message.key]) (w.ret call) := by
  have hopen : w.store.status call.message.key = some .processing := (h.opened _).mpr (.inl ⟨call, hcall, hphase, rfl⟩)
  have hrunning : ∀ key, Running (w.ret call) key ↔ Running w key ∧ key ≠ call.message.key := fun key => h.running_ret hcall hphase
  have hnew : ∀ key, .abandoned key ∈ acts ++ [.abandoned call.message.key] ↔ .abandoned key ∈ acts ∨ key = call.message.key := by
    intro key
    rw [mem_append, mem_singleton, Action.abandoned.injEq]
  constructor
  · intro key
    change w.store.status key = _ ↔ _
    rw [hrunning, hnew]
    by_cases hkey : key = call.message.key
    · rw [hkey, hopen]
      simp
    · simp [hkey, h.opened key]
  · intro key hmem hboth
    obtain ⟨hold, hne⟩ := (hrunning key).mp hboth
    rcases (hnew key).mp hmem with hmem | hkey
    · exact h.apart key hmem hold
    · exact hne hkey
  · exact h.alone_ret
  · intro key hmem
    rcases mem_append.mp hmem with hmem | hmem
    · exact h.settled key hmem
    · cases mem_singleton.mp hmem
  · exact h.once_append (by simp) (by simp)

theorem Ledger.begin (hcall : call ∈ w.calls) (hphase : call.phase.running = false)
    (hstore : w.store.beginReceipt call.message now = .begun t) : Ledger (acts ++ []) ((w.setStore t).enter call (.begun targetSID)) := by
  obtain ⟨hnotOpen, hnotDelivered, hstatus⟩ := Store.status_begin hstore
  have hquiet : ¬ Running w call.message.key ∧ .abandoned call.message.key ∉ acts := by
    rwa [ne_eq, h.opened, not_or] at hnotOpen
  have hrunning : ∀ key, Running ((w.setStore t).enter call (.begun targetSID)) key ↔ Running w key ∨ key = call.message.key := by
    intro key
    constructor
    · rintro ⟨x, hx, hxRunning, rfl⟩
      rcases mem_enter.mp hx with rfl | ⟨hx, -⟩
      · exact .inr rfl
      · exact .inl ⟨x, hx, hxRunning, rfl⟩
    · rintro (⟨x, hx, hxRunning, rfl⟩ | rfl)
      · refine ⟨x, mem_enter.mpr (.inr ⟨hx, fun hid => ?_⟩), hxRunning, rfl⟩
        rw [eq_of_key hx hcall hid, hphase] at hxRunning
        cases hxRunning
      · exact ⟨_, mem_enter.mpr (.inl rfl), rfl, rfl⟩
  rw [append_nil]
  constructor
  · intro key
    change t.status key = _ ↔ _
    rw [hstatus, hrunning]
    by_cases hkey : key = call.message.key
    · simp [hkey]
    · simp [hkey, h.opened key]
  · intro key hmem hboth
    rcases (hrunning key).mp hboth with hold | rfl
    · exact h.apart key hmem hold
    · exact hquiet.2 hmem
  · intro x hx y hy hxRunning hyRunning hkey
    rcases mem_enter.mp hx with rfl | ⟨hx, -⟩ <;> rcases mem_enter.mp hy with rfl | ⟨hy, -⟩
    · rfl
    · exact absurd ⟨y, hy, hyRunning, hkey.symm⟩ hquiet.1
    · exact absurd ⟨x, hx, hxRunning, hkey⟩ hquiet.1
    · exact h.alone x hx y hy hxRunning hyRunning hkey
  · intro key hmem
    change t.status key = _
    have hdelivered := h.settled key hmem
    rw [hstatus, if_neg, hdelivered]
    rintro rfl
    exact hnotDelivered hdelivered
  · exact h.once

theorem Ledger.restart :
    Ledger (acts ++ (w.calls.rows.filter fun call => call.phase.running).map fun call => .abandoned call.message.key)
      { w with calls := .empty } := by
  have hnew : ∀ key, .abandoned key ∈ (w.calls.rows.filter fun call => call.phase.running).map (fun call => Action.abandoned call.message.key) ↔
      Running w key := by
    intro key
    simp only [mem_map, mem_filter, Action.abandoned.injEq, Running, and_assoc]
    rfl
  have hnone : ∀ key, ¬ Running { w with calls := .empty } key := fun key ⟨call, hcall, _⟩ => not_mem_empty call hcall
  constructor
  · intro key
    rw [mem_append, hnew, or_iff_right (hnone key), or_comm]
    exact h.opened key
  · exact fun key _ => hnone key
  · exact forall_mem_empty
  · intro key hmem
    rcases mem_append.mp hmem with hmem | hmem
    · exact h.settled key hmem
    · simp at hmem
  · apply h.once_append
    · rintro _ hact _ rfl
      simp at hact
    · simp

end

theorem follows_ret (hcall : call ∈ w.calls) (hphase : call.phase.running = false) :
    Follows w (w.ret call) ∧ Follows (w.ret call) w := by
  constructor
  · intro x hx hrunning
    exact ⟨x, (mem_ret.mp hx).1, hrunning, rfl, rfl⟩
  · intro x hx hrunning
    refine ⟨x, mem_ret.mpr ⟨hx, fun hid => ?_⟩, hrunning, rfl, rfl⟩
    rw [eq_of_key hx hcall hid, hphase] at hrunning
    cases hrunning

theorem follows_enter (hcall : call ∈ w.calls) (hphase : phase.running = call.phase.running) :
    Follows w (w.enter call phase) ∧ Follows (w.enter call phase) w := by
  constructor
  · intro x hx hrunning
    rcases mem_enter.mp hx with rfl | ⟨hx, -⟩
    · exact ⟨call, hcall, hphase.symm.trans hrunning, rfl, rfl⟩
    · exact ⟨x, hx, hrunning, rfl, rfl⟩
  · intro x hx hrunning
    by_cases hid : x.id = call.id
    · rw [eq_of_key hx hcall hid] at hrunning ⊢
      exact ⟨_, mem_enter.mpr (.inl rfl), hphase.trans hrunning, rfl, rfl⟩
    · exact ⟨x, mem_enter.mpr (.inr ⟨hx, hid⟩), hrunning, rfl, rfl⟩

theorem Ledger.enter (h : Ledger acts w) (hcall : call ∈ w.calls) (hphase : phase.running = call.phase.running)
    (hmore : ∀ act ∈ more, ∀ key, act ≠ .delivered key ∧ act ≠ .abandoned key)
    (hsent : ∀ id message targetSID, .sent id message targetSID ∈ more → Running w message.key) :
    Ledger (acts ++ more) (w.enter call phase) :=
  h.keep rfl (follows_enter hcall hphase).1 (follows_enter hcall hphase).2 hmore hsent

theorem Ledger.step (h : Ledger acts w) (hstep : Step registry w more v) : Ledger (acts ++ more) v := by
  cases hstep with
  | administers ownerSID request now =>
    exact h.keep (Store.administer_receipts registry w.store ownerSID request now) (Follows.refl w) (Follows.refl w) (by simp) (by simp)
  | receives =>
    refine h.keep rfl ?_ ?_ (by simp) (by simp)
    · intro x hx hrunning
      rcases mem_insertOrIgnore.mp hx with hx | ⟨rfl, -⟩
      · exact ⟨x, hx, hrunning, rfl, rfl⟩
      · cases hrunning
    · intro x hx hrunning
      exact ⟨x, mem_insertOrIgnore.mpr (.inl hx), hrunning, rfl, rfl⟩
  | authorizes _ _ hcall hphase | refuses _ hcall hphase | maps _ _ hcall hphase | mapFails _ _ _ hcall hphase
  | sendFails _ _ _ hcall hphase | replies _ _ _ hcall hphase | replyFails _ _ _ _ hcall hphase =>
    exact h.enter hcall (by simp [hphase, Phase.running]) (by simp) (by simp)
  | fails _ hcall hphase => exact h.keep rfl (follows_ret hcall hphase).1 (follows_ret hcall hphase).2 (by simp) (by simp)
  | requests call _ _ hcall hphase hstore =>
    have hquiet : call.phase.running = false := by simp [hphase, Phase.running]
    exact h.keep (Store.requestPairing_receipts hstore) (follows_ret hcall hquiet).1 (follows_ret hcall hquiet).2 (by simp) (by simp)
  | begins _ _ _ _ hcall hphase hstore =>
    exact h.begin hcall (by simp [hphase, Phase.running]) hstore
  | sends call _ _ hcall hphase =>
    apply h.enter hcall
    · rw [hphase]
      rfl
    · simp
    · intro _ _ _ hsent
      simp only [mem_singleton, Action.sent.injEq] at hsent
      exact ⟨call, hcall, by rw [hphase]; rfl, by rw [hsent.2.1]⟩
  | answers _ _ _ hcall hphase =>
    apply h.enter hcall
    · rw [hphase]
      unfold DeliveryReceipt.next
      split
      · rfl
      · split <;> rfl
    · simp
    · simp
  | completes _ _ _ _ _ hcall hphase hstore =>
    exact h.close hcall (by simp [hphase, Phase.running]) (Store.status_complete hstore) (by simp) (by simp)
  | completeFails _ _ _ hcall hphase | settleFails _ _ hcall hphase => exact h.abandon hcall (by simp [hphase, Phase.running])
  | settles call error now hcall hphase =>
    have hrunning : call.phase.running = true := by simp [hphase, Phase.running]
    have hopen : w.store.status call.message.key = some .processing := (h.opened _).mpr (.inl ⟨call, hcall, hrunning, rfl⟩)
    have hstatus : ∀ key, (w.store.failReceipt call.message error now).status key =
        if key = call.message.key then some .failed else w.store.status key := by
      intro key
      rw [Store.status_fail]
      by_cases hkey : key = call.message.key
      · rw [if_pos ⟨hkey, hkey ▸ hopen⟩, if_pos hkey]
      · rw [if_neg (fun hboth => hkey hboth.1), if_neg hkey]
    exact h.close hcall hrunning hstatus (by simp) (by simp)
  | restarts => exact h.restart

def Phase.target : Phase → Option String
  | authorized targetSID | begun targetSID | mapped targetSID _ | sent targetSID | replying targetSID _ | completing targetSID _ =>
    some targetSID
  | _ => none

def Action.reads (id : ℕ) : Action → Bool
  | read other _ _ => other = id
  | _ => false

def Approved (acts : List Action) (id : ℕ) (message : InboundMessage) (targetSID : String) : Prop :=
  ∃ store, .read id message store ∈ acts ∧ store.authorizedSID message.peer = some targetSID

theorem Approved.append (h : Approved acts id message targetSID) : Approved (acts ++ more) id message targetSID := by
  obtain ⟨store, hread, hauthorized⟩ := h
  exact ⟨store, mem_append_left _ hread, hauthorized⟩

structure Vouched (acts : List Action) (w : World) : Prop where
  numbered : ∀ call ∈ w.calls, call.id < w.drawn
  drawn : ∀ id message store, .read id message store ∈ acts → id < w.drawn
  unread : ∀ call ∈ w.calls, call.phase = .received → ∀ message store, .read call.id message store ∉ acts
  single : ∀ id, acts.countP (Action.reads id) ≤ 1
  target : ∀ call ∈ w.calls, ∀ targetSID, call.phase.target = some targetSID → Approved acts call.id call.message targetSID
  sent : ∀ id message targetSID, .sent id message targetSID ∈ acts → Approved acts id message targetSID

section

variable (h : Vouched acts w)
include h

theorem Vouched.keep (hdrawn : v.drawn = w.drawn)
    (hcalls : ∀ x ∈ v.calls, ∃ y ∈ w.calls, y.id = x.id ∧ y.message = x.message ∧ (x.phase = .received → y.phase = .received) ∧
      ∀ targetSID, x.phase.target = some targetSID → y.phase.target = some targetSID)
    (hmore : ∀ act ∈ more, ∀ id, act.reads id = false)
    (hsent : ∀ id message targetSID, .sent id message targetSID ∈ more → Approved acts id message targetSID) : Vouched (acts ++ more) v := by
  have hold : ∀ id message store, .read id message store ∈ acts ++ more → .read id message store ∈ acts := by
    intro id message store hmem
    rcases mem_append.mp hmem with hmem | hmem
    · exact hmem
    · exact absurd (hmore _ hmem id) (by simp [Action.reads])
  constructor
  · intro x hx
    obtain ⟨y, hy, hid, -⟩ := hcalls x hx
    rw [hdrawn, ← hid]
    exact h.numbered y hy
  · intro id message store hmem
    rw [hdrawn]
    exact h.drawn id message store (hold id message store hmem)
  · intro x hx hphase message store hmem
    obtain ⟨y, hy, hid, -, hreceived, -⟩ := hcalls x hx
    apply h.unread y hy (hreceived hphase) message store
    rw [hid]
    exact hold _ _ _ hmem
  · intro id
    have hnone : more.countP (Action.reads id) = 0 := countP_eq_zero.mpr (fun act hact => by simp [hmore act hact id])
    rw [countP_append, hnone]
    exact h.single id
  · intro x hx targetSID htarget
    obtain ⟨y, hy, hid, hmessage, -, hsame⟩ := hcalls x hx
    have happroved := h.target y hy targetSID (hsame targetSID htarget)
    rw [hid, hmessage] at happroved
    exact happroved.append
  · intro id message targetSID hmem
    rcases mem_append.mp hmem with hmem | hmem
    · exact (h.sent id message targetSID hmem).append
    · exact (hsent id message targetSID hmem).append

theorem Vouched.ret (hmore : ∀ act ∈ more, ∀ id, act.reads id = false)
    (hsent : ∀ id message targetSID, .sent id message targetSID ∉ more) : Vouched (acts ++ more) ((w.setStore t).ret call) := by
  have hdrawn : ((w.setStore t).ret call).drawn = w.drawn := rfl
  apply h.keep hdrawn
  · intro x hx
    exact ⟨x, (mem_ret.mp hx).1, rfl, rfl, id, fun _ htarget => htarget⟩
  · exact hmore
  · exact fun id message targetSID hmem => absurd hmem (hsent id message targetSID)

theorem Vouched.enter (hcall : call ∈ w.calls) (hphase : phase ≠ .received)
    (htarget : ∀ targetSID, phase.target = some targetSID → call.phase.target = some targetSID)
    (hmore : ∀ act ∈ more, ∀ id, act.reads id = false)
    (hsent : ∀ id message targetSID, .sent id message targetSID ∈ more → Approved acts id message targetSID) :
    Vouched (acts ++ more) ((w.setStore t).enter call phase) := by
  have hdrawn : ((w.setStore t).enter call phase).drawn = w.drawn := rfl
  apply h.keep hdrawn ?_ hmore hsent
  intro x hx
  rcases mem_enter.mp hx with rfl | ⟨hx, -⟩
  · exact ⟨call, hcall, rfl, rfl, fun hreceived => absurd hreceived hphase, htarget⟩
  · exact ⟨x, hx, rfl, rfl, id, fun _ htarget => htarget⟩

theorem Vouched.read (hcall : call ∈ w.calls) (hreceived : call.phase = .received) (hphase : phase ≠ .received)
    (htarget : ∀ targetSID, phase.target = some targetSID → w.store.authorizedSID call.message.peer = some targetSID) :
    Vouched (acts ++ [.read call.id call.message w.store]) (w.enter call phase) := by
  have hold : ∀ id message store, .read id message store ∈ acts ++ [.read call.id call.message w.store] →
      .read id message store ∈ acts ∨ id = call.id := by
    intro id message store hmem
    rcases mem_append.mp hmem with hmem | hmem
    · exact .inl hmem
    · simp only [mem_singleton, Action.read.injEq] at hmem
      exact .inr hmem.1
  constructor
  · intro x hx
    rcases mem_enter.mp hx with rfl | ⟨hx, -⟩
    · exact h.numbered call hcall
    · exact h.numbered x hx
  · intro id message store hmem
    rcases hold id message store hmem with hmem | rfl
    · exact h.drawn id message store hmem
    · exact h.numbered call hcall
  · intro x hx hxPhase message store hmem
    rcases mem_enter.mp hx with rfl | ⟨hx, hid⟩
    · exact hphase hxPhase
    · rcases hold _ _ _ hmem with hmem | hsame
      · exact h.unread x hx hxPhase message store hmem
      · exact hid hsame
  · intro id
    rw [countP_append, countP_singleton]
    by_cases hid : call.id = id
    · have hnone : acts.countP (Action.reads id) = 0 := by
        apply countP_eq_zero.mpr
        intro act hact hreads
        cases act with
        | read other message store =>
          obtain rfl : other = id := of_decide_eq_true hreads
          rw [← hid] at hact
          exact h.unread call hcall hreceived message store hact
        | _ => cases hreads
      rw [hnone]
      split <;> omega
    · rw [if_neg (by simpa [Action.reads] using hid)]
      exact h.single id
  · intro x hx targetSID hsame
    rcases mem_enter.mp hx with rfl | ⟨hx, -⟩
    · exact ⟨w.store, mem_append_right _ (mem_singleton.mpr rfl), htarget targetSID hsame⟩
    · exact (h.target x hx targetSID hsame).append
  · intro id message targetSID hmem
    rcases mem_append.mp hmem with hmem | hmem
    · exact (h.sent id message targetSID hmem).append
    · cases mem_singleton.mp hmem

theorem Vouched.step (hstep : Step registry w more v) : Vouched (acts ++ more) v := by
  cases hstep with
  | administers =>
    exact h.keep rfl (fun x hx => ⟨x, hx, rfl, rfl, id, fun _ htarget => htarget⟩) (by simp [Action.reads]) (by simp)
  | receives message =>
    rw [append_nil]
    have hcalls : ∀ x ∈ w.calls.insertOrIgnore ⟨w.drawn, message, .received⟩, x ∈ w.calls ∨ x = ⟨w.drawn, message, .received⟩ := by
      intro x hx
      exact (mem_insertOrIgnore.mp hx).imp_right And.left
    refine ⟨?_, ?_, ?_, h.single, ?_, h.sent⟩
    · intro x hx
      rcases hcalls x hx with hx | rfl
      · exact Nat.lt_succ_of_lt (h.numbered x hx)
      · exact Nat.lt_succ_self _
    · exact fun id message store hmem => Nat.lt_succ_of_lt (h.drawn id message store hmem)
    · intro x hx hphase message store hmem
      rcases hcalls x hx with hx | rfl
      · exact h.unread x hx hphase message store hmem
      · exact Nat.lt_irrefl _ (h.drawn _ message store hmem)
    · intro x hx targetSID htarget
      rcases hcalls x hx with hx | rfl
      · exact h.target x hx targetSID htarget
      · cases htarget
  | authorizes _ _ hcall hphase hauthorized =>
    apply h.read hcall hphase (by simp)
    intro other htarget
    rw [hauthorized]
    exact htarget
  | refuses _ hcall hphase => exact h.read hcall hphase (by simp) (by simp [Phase.target])
  | fails | requests | settles => exact h.ret (by simp) (by simp)
  | begins _ _ _ _ hcall hphase | maps _ _ hcall hphase | replies _ _ _ hcall hphase =>
    exact h.enter hcall (by simp) (by simp [hphase, Phase.target]) (by simp) (by simp)
  | mapFails _ _ _ hcall | sendFails _ _ _ hcall | replyFails _ _ _ _ hcall =>
    exact h.enter hcall (by simp) (by simp [Phase.target]) (by simp) (by simp)
  | sends call targetSID _ hcall hphase =>
    have htarget := h.target call hcall targetSID (by rw [hphase]; rfl)
    apply h.enter hcall (by simp) (by simp [hphase, Phase.target]) (by simp [Action.reads])
    intro id _ other hmem
    obtain ⟨rfl, rfl, rfl⟩ := Action.sent.inj (mem_singleton.mp hmem)
    exact htarget
  | answers call targetSID receipt hcall hphase =>
    have hnext : receipt.next targetSID ≠ .received ∧
        ∀ other, (receipt.next targetSID).target = some other → call.phase.target = some other := by
      rw [hphase]
      unfold DeliveryReceipt.next
      split
      · exact ⟨by simp, by simp [Phase.target]⟩
      · split
        · exact ⟨by simp, fun _ htarget => htarget⟩
        · exact ⟨by simp, fun _ htarget => htarget⟩
    exact h.enter hcall hnext.1 hnext.2 (by simp) (by simp)
  | completes | completeFails | settleFails => exact h.ret (by simp [Action.reads]) (by simp)
  | restarts =>
    have hdrawn : { w with calls := .empty }.drawn = w.drawn := rfl
    apply h.keep hdrawn
    · exact forall_mem_empty
    · rintro _ hact _
      obtain ⟨_, -, rfl⟩ := mem_map.mp hact
      rfl
    · simp

end

structure Deliveries (acts : List Action) (w : World) : Prop where
  once : acts.Pairwise fun act act' => ∀ id message targetSID, act = .delivered message.key → act' ≠ .sent id message targetSID
  alone : ∀ call ∈ w.calls, ∀ other ∈ w.calls, call.phase.running = true → other.phase.running = true →
    call.message.key = other.message.key → call = other
  approved : ∀ id message targetSID, .sent id message targetSID ∈ acts →
    acts.countP (Action.reads id) = 1 ∧ Approved acts id message targetSID
  closed : ∀ receipt ∈ w.store.receipts, receipt.status = .processing → Running w receipt.key

theorem ledger_start : Ledger [] .start := by
  refine ⟨?_, by simp, ?_, by simp, List.Pairwise.nil⟩
  · intro _
    constructor
    · intro hstatus
      obtain ⟨r, hr, -⟩ := Store.status_eq_some.mp hstatus
      exact absurd hr (not_mem_empty r)
    · rintro (⟨call, hcall, -⟩ | hmem)
      · exact absurd hcall (not_mem_empty call)
      · cases hmem
  · exact forall_mem_empty

theorem vouched_start : Vouched [] .start := by
  refine ⟨?_, by simp, ?_, by simp, ?_, by simp⟩
  all_goals exact forall_mem_empty

/-- A run keeps the promise of the gateway if and only if no call leaves its receipt open: its last write
is made, and the process does not end before it. -/
theorem deliveries_iff (registry : Registry) (runs : List (List Action)) (w : World) (h : Execution (Step registry) .start runs w) :
    Deliveries runs.flatten w ↔ ∀ key, .abandoned key ∉ runs.flatten := by
  have hboth : Ledger runs.flatten w ∧ Vouched runs.flatten w := by
    apply h.history (J := fun runs w => Ledger runs.flatten w ∧ Vouched runs.flatten w) ⟨ledger_start, vouched_start⟩
    intro runs t _ u _ hold hstep
    rw [flatten_append, flatten_singleton]
    exact ⟨hold.1.step hstep, hold.2.step hstep⟩
  obtain ⟨hledger, hvouched⟩ := hboth
  constructor
  · intro hdeliveries key hmem
    obtain ⟨receipt, hreceipt, rfl, hstatus⟩ := Store.status_eq_some.mp ((hledger.opened key).mpr (.inr hmem))
    exact hledger.apart _ hmem (hdeliveries.closed receipt hreceipt hstatus)
  · intro hnone
    refine ⟨hledger.once, hledger.alone, ?_, ?_⟩
    · intro id message targetSID hsent
      have happroved := hvouched.sent id message targetSID hsent
      refine ⟨?_, happroved⟩
      obtain ⟨_, hread, -⟩ := happroved
      have hpos : 0 < runs.flatten.countP (Action.reads id) := countP_pos_iff.mpr ⟨_, hread, decide_eq_true rfl⟩
      have hsingle := hvouched.single id
      omega
    · intro receipt hreceipt hstatus
      rcases (hledger.opened receipt.key).mp (Store.status_eq_some.mpr ⟨receipt, hreceipt, rfl, hstatus⟩) with hrunning | hmem
      · exact hrunning
      · exact absurd hmem (hnone receipt.key)

namespace GreetingExample

def config : ConnectorConfig := ⟨"\x7b\"account_id\":\"one\"\x7d", "token"⟩

def weixin : Registry := ⟨fun id => id = "weixin", fun _ _ => true, fun text => if text = config.publicConfig then some "one" else none⟩

def greeting : InboundMessage := ⟨"weixin", "one", "chat", "m1", ⟨"wx", "Wang"⟩, "hello", [], "", some 5⟩

def configured : World := World.start.setStore (World.start.store.administer weixin "S-1-7" (.store "weixin" config true) 1)

def first : Call := ⟨0, greeting, .received⟩

def arrived : World := { configured with calls := configured.calls.insertOrIgnore ⟨configured.drawn, greeting, .received⟩, drawn := 1 }

def refused : World := arrived.enter first .unpaired

def waiting : Store := { refused.store with
  pairings := refused.store.pairings.upsert ⟨1, greeting.peer, "Wang", "", .pending, 2, 2⟩
    fun p => { p with
      displayName := "Wang"
      status := if p.status = .rejected ∨ p.status = .revoked then .pending else p.status
      updatedAt := 2 }
  sequence := 1 }

def asked : World := (refused.setStore waiting).ret { first with phase := .unpaired }

def approved : World := asked.setStore (asked.store.administer weixin "S-1-7" (.approve 1) 3)

def second : Call := ⟨1, greeting, .received⟩

def again : World := { approved with calls := approved.calls.insertOrIgnore ⟨approved.drawn, greeting, .received⟩, drawn := 2 }

def authorized : World := again.enter second (.authorized "S-1-7")

def opened : Store := { authorized.store with
  receipts := authorized.store.receipts.insertOrIgnore ⟨greeting.key, .processing, 1, "", "", "", 4, 4⟩ }

def begun : World := (authorized.setStore opened).enter { second with phase := .authorized "S-1-7" } (.begun "S-1-7")

def asking : List (List Action) :=
  [[.administered "S-1-7" (.store "weixin" config true)], [], [.read 0 greeting arrived.store], [], [.administered "S-1-7" (.approve 1)]]

theorem approves_sender : Execution (Step weixin) .start asking approved := by
  have h : Execution (Step weixin) .start _ configured := .single (.administers "S-1-7" _ 1)
  have h : Execution (Step weixin) .start _ arrived := h.step (.receives greeting (by rfl) rfl)
  have h : Execution (Step weixin) .start _ refused :=
    h.step (.refuses first (mem_rows.mp (by decide)) rfl (by decide))
  have h : Execution (Step weixin) .start _ asked :=
    h.step (.requests { first with phase := .unpaired } 2 waiting (mem_rows.mp (by decide)) rfl (by rfl))
  exact h.step (.administers "S-1-7" (.approve 1) 3)

def received : List (List Action) := asking ++ [[]] ++ [[.read 1 greeting again.store]] ++ [[]]

theorem receives_greeting : Execution (Step weixin) .start received begun := by
  have h : Execution (Step weixin) .start (asking ++ [[]]) again := approves_sender.step (.receives greeting (by rfl) rfl)
  have h : Execution (Step weixin) .start (asking ++ [[]] ++ [[.read 1 greeting again.store]]) authorized :=
    h.step (.authorizes second "S-1-7" (mem_rows.mp (by decide)) rfl (by decide))
  exact h.step (.begins { second with phase := .authorized "S-1-7" } "S-1-7" 4 opened (mem_rows.mp (by decide)) rfl (by rfl))

def mapped : World := begun.enter { second with phase := .begun "S-1-7" } (.mapped "S-1-7" "")

def sent : World := mapped.enter { second with phase := .mapped "S-1-7" "" } (.sent "S-1-7")

def done : DeliveryReceipt := ⟨"session", "inbox", " "⟩

def answered : World := sent.enter { second with phase := .sent "S-1-7" } (done.next "S-1-7")

def settled : Store := { answered.store with
  receipts := answered.store.receipts.update (fun r => r.key = greeting.key ∧ r.status = .processing)
    (fun r => { r with status := .delivered, runtimeSessionID := "session", runtimeReceiptID := "inbox", updatedAt := 9 }) fun _ => rfl
  mappings := answered.store.mappings.set ⟨greeting.conversation, "S-1-7", "session", 9⟩ }

def completed : World := (answered.setStore settled).ret { second with phase := .completing "S-1-7" done }

def delivered : List (List Action) := received ++ [[]] ++ [[.sent 1 greeting "S-1-7"]] ++ [[]] ++ [[.delivered greeting.key]]

theorem greeting_delivered : Deliveries delivered.flatten completed := by
  have h : Execution (Step weixin) .start (received ++ [[]]) mapped :=
    receives_greeting.step (.maps { second with phase := .begun "S-1-7" } "S-1-7" (mem_rows.mp (by decide)) rfl)
  have h : Execution (Step weixin) .start (received ++ [[]] ++ [[.sent 1 greeting "S-1-7"]]) sent :=
    h.step (.sends { second with phase := .mapped "S-1-7" "" } "S-1-7" "" (mem_rows.mp (by decide)) rfl)
  have h : Execution (Step weixin) .start (received ++ [[]] ++ [[.sent 1 greeting "S-1-7"]] ++ [[]]) answered :=
    h.step (.answers { second with phase := .sent "S-1-7" } "S-1-7" done (mem_rows.mp (by decide)) rfl)
  have h : Execution (Step weixin) .start delivered completed :=
    h.step (.completes { second with phase := .completing "S-1-7" done } "S-1-7" done 9 settled
      (mem_rows.mp (by decide)) rfl (by rfl))
  exact (deliveries_iff weixin _ _ h).mpr (by simp [delivered, received, asking])

theorem greeting_stuck : ¬ ∀ registry runs w, Execution (Step registry) .start runs w → Deliveries runs.flatten w := by
  intro hall
  have h : Execution (Step weixin) .start (received ++ [[.abandoned greeting.key]]) { begun with calls := .empty } :=
    receives_greeting.step .restarts
  have hreceipt : begun.store.receipts.rows = [⟨greeting.key, .processing, 1, "", "", "", 4, 4⟩] := by decide
  have hmem : ⟨greeting.key, .processing, 1, "", "", "", 4, 4⟩ ∈ begun.store.receipts := by
    rw [← mem_rows, hreceipt]
    exact mem_singleton.mpr rfl
  obtain ⟨call, hcall, -⟩ := (hall weixin _ _ h).closed _ hmem rfl
  exact not_mem_empty call hcall

end GreetingExample

end WorkAgent.ImGateway
