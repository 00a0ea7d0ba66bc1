import WorkAgent.Quota.Settlement
import WorkAgent.Library.Executions

namespace WorkAgent.ModelGateway

open Library List
open Quota (Time GatewayUsageRecord Env validateSID isBlank)

def usageDrainBatch : ℕ := 200

/-- A JSON value; a number is told by its literal, `decimal` has a fraction or an exponent. -/
inductive Value
  | null
  | bool (b : Bool)
  | integer (n : ℤ)
  | decimal
  | string (s : String)
  | compound

def Value.decodeString : Value → Option String
  | .null => some ""
  | .string s => some s
  | _ => none

def Value.decodeBool : Value → Option Bool
  | .null => some false
  | .bool b => some b
  | _ => none

def Value.decodeInt64 : Value → Option Int64
  | .null => some 0
  | .integer n => if -2 ^ 63 ≤ n ∧ n < 2 ^ 63 then some (Int64.ofInt n) else none
  | _ => none

/-- An item of the queue; it is no `object` where the item or its `tokens` is something else, and not `null`. -/
structure QueueItem where
  object : Bool
  timestamp : Value
  inputTokens : Value
  outputTokens : Value
  reasoningTokens : Value
  cachedTokens : Value
  totalTokens : Value
  failed : Value
  provider : Value
  model : Value
  aliasName : Value
  endpoint : Value
  authType : Value
  apiKey : Value
  requestID : Value

structure UsageQueueRecord where
  timestamp : String
  inputTokens : Int64
  outputTokens : Int64
  reasoningTokens : Int64
  cachedTokens : Int64
  totalTokens : Int64
  failed : Bool
  provider : String
  model : String
  aliasName : String
  endpoint : String
  authType : String
  apiKey : String
  requestID : String

def QueueItem.decode (i : QueueItem) : Option UsageQueueRecord :=
  if i.object then do
    return { timestamp := ← i.timestamp.decodeString, inputTokens := ← i.inputTokens.decodeInt64,
             outputTokens := ← i.outputTokens.decodeInt64, reasoningTokens := ← i.reasoningTokens.decodeInt64,
             cachedTokens := ← i.cachedTokens.decodeInt64, totalTokens := ← i.totalTokens.decodeInt64,
             failed := ← i.failed.decodeBool, provider := ← i.provider.decodeString, model := ← i.model.decodeString,
             aliasName := ← i.aliasName.decodeString, endpoint := ← i.endpoint.decodeString,
             authType := ← i.authType.decodeString, apiKey := ← i.apiKey.decodeString,
             requestID := ← i.requestID.decodeString }
  else none

/-- `parse` is `time.Parse(time.RFC3339, ...)`, and `length` the length of the reply with the items. -/
structure Platform where
  parse : String → Option Time
  length : List QueueItem → ℕ

def Platform.popUsage (p : Platform) (items : List QueueItem) : Option (List UsageQueueRecord) :=
  if 2 * 1024 * 1024 < p.length items then none else items.mapM QueueItem.decode

def Platform.mapRecord (p : Platform) (u : UsageQueueRecord) (found : Option String) : Option GatewayUsageRecord :=
  match found, p.parse u.timestamp with
  | some sid, some occurredAt =>
    if u.requestID = "" then none
    else some ⟨u.requestID, sid, u.provider, u.model, u.aliasName, u.endpoint, u.authType, u.failed, u.inputTokens, u.outputTokens,
      u.reasoningTokens, u.cachedTokens, u.totalTokens, occurredAt⟩
  | _, _ => none

inductive Phase
  | idle
  | popping
  | mapping
  | recording
  | costing
  | marking
  deriving DecidableEq

structure UsageDrainer where
  raw : List UsageQueueRecord
  pending : List GatewayUsageRecord
  started : Time
  batchSize : ℕ

/-- What has become of an item that was popped; a skipped one comes with the answer of `MapGatewayKey`. -/
inductive Fate
  | lost
  | raw (u : UsageQueueRecord)
  | skipped (found : Option String)
  | pending (r : GatewayUsageRecord)
  | persisted (r : GatewayUsageRecord)

def Fate.raw? : Fate → Option UsageQueueRecord
  | .raw u => some u
  | _ => none

def Fate.pending? : Fate → Option GatewayUsageRecord
  | .pending r => some r
  | _ => none

def Fate.persisted? : Fate → Option GatewayUsageRecord
  | .persisted r => some r
  | _ => none

def Fate.Done (f : Fate) : Prop := (∃ found, f = .skipped found) ∨ ∃ r, f = .persisted r

structure Taken where
  item : QueueItem
  fate : Fate

def resolve (p : Fate → Bool) (f : Fate) : List Taken → List Taken
  | [] => []
  | x :: xs => if p x.fate then { x with fate := f } :: xs else x :: resolve p f xs

/-- The gateway's queue, the key index and the quota store, with the drainer. `queued` is every item that was ever queued,
`handed` what the sink has persisted, and `seen` the number of items that were queued when `started` was read. -/
structure World where
  now : Time
  queue : List QueueItem
  keys : String → Option String
  store : Quota.Store
  drainer : UsageDrainer
  phase : Phase
  queued : List QueueItem
  taken : List Taken
  handed : List GatewayUsageRecord
  seen : ℕ

inductive Event
  | popped (items : List QueueItem)
  | mapped (r : GatewayUsageRecord)
  | other

inductive Step (p : Platform) (w : World) : Event → World → Prop
  | waits (now : Time) (h : w.now.ns ≤ now.ns) : Step p w .other { w with now := now }
  | queues (i : QueueItem) : Step p w .other { w with queue := w.queue ++ [i], queued := w.queued ++ [i] }
  | indexes (key sid : String) (hsid : validateSID sid = .ok ()) (hnew : w.keys key = none) :
      Step p w .other { w with keys := Function.update w.keys key (some sid) }
  | elsewhere (store : Quota.Store) : Step p w .other { w with store := store }
  /-- `Drain` begins, and `syncBilling` has succeeded; it pops when nothing is left from before. -/
  | starts (h : w.phase = .idle) (hempty : w.drainer.raw = [] ∧ w.drainer.pending = []) :
      Step p w .other { w with
        phase := .popping, drainer := { w.drainer with started := w.now }, seen := w.taken.length + w.queue.length }
  | resumes (h : w.phase = .idle) (hleft : ¬ (w.drainer.raw = [] ∧ w.drainer.pending = [])) :
      Step p w .other { w with phase := .mapping }
  | pops (h : w.phase = .popping) (records : List UsageQueueRecord)
      (hread : p.popUsage (w.queue.take usageDrainBatch) = some records) :
      Step p w (.popped (w.queue.take usageDrainBatch)) { w with
        queue := w.queue.drop usageDrainBatch
        phase := .mapping
        drainer := { w.drainer with raw := records, batchSize := records.length }
        taken := w.taken ++ (w.queue.take usageDrainBatch).zipWith (fun i u => ⟨i, .raw u⟩) records }
  | loses (h : w.phase = .popping) (hread : p.popUsage (w.queue.take usageDrainBatch) = none) :
      Step p w (.popped (w.queue.take usageDrainBatch)) { w with
        queue := w.queue.drop usageDrainBatch
        phase := .idle
        taken := w.taken ++ (w.queue.take usageDrainBatch).map (fun i => ⟨i, .lost⟩) }
  | maps (h : w.phase = .mapping) (u : UsageQueueRecord) (rest : List UsageQueueRecord) (hraw : w.drainer.raw = u :: rest)
      (r : GatewayUsageRecord) (hr : p.mapRecord u (w.keys u.apiKey) = some r) :
      Step p w (.mapped r) { w with
        drainer := { w.drainer with raw := rest, pending := w.drainer.pending ++ [r] }
        taken := resolve (fun f => f.raw?.isSome) (.pending r) w.taken }
  | skips (h : w.phase = .mapping) (u : UsageQueueRecord) (rest : List UsageQueueRecord) (hraw : w.drainer.raw = u :: rest)
      (hr : p.mapRecord u (w.keys u.apiKey) = none) :
      Step p w .other { w with
        drainer := { w.drainer with raw := rest }
        taken := resolve (fun f => f.raw?.isSome) (.skipped (w.keys u.apiKey)) w.taken }
  | mapped (h : w.phase = .mapping) (hraw : w.drainer.raw = []) : Step p w .other { w with phase := .recording }
  | records (h : w.phase = .recording) (r : GatewayUsageRecord) (rest : List GatewayUsageRecord)
      (hpending : w.drainer.pending = r :: rest) (env : Env) (store : Quota.Store)
      (hstore : w.store.recordGatewayUsage env r = .ok store) : Step p w .other { w with store := store, phase := .costing }
  | costs (h : w.phase = .costing) (r : GatewayUsageRecord) (rest : List GatewayUsageRecord)
      (hpending : w.drainer.pending = r :: rest) :
      Step p w .other { w with
        phase := .recording
        drainer := { w.drainer with pending := rest }
        taken := resolve (fun f => f.pending?.isSome) (.persisted r) w.taken
        handed := w.handed ++ [r] }
  | recorded (h : w.phase = .recording) (hpending : w.drainer.pending = []) :
      Step p w .other { w with phase := if w.drainer.batchSize < usageDrainBatch then .marking else .idle }
  | marks (h : w.phase = .marking) : Step p w .other { w with
      phase := .idle, store := w.store.markGatewayDrained w.drainer.started }
  | fails (h : w.phase ≠ .idle) : Step p w .other { w with phase := .idle }

def Recordable (r : GatewayUsageRecord) : Prop :=
  isBlank r.requestID = false ∧ (∀ n ∈ [r.inputTokens, r.outputTokens, r.reasoningTokens, r.cachedTokens, r.totalTokens], 0 ≤ n.toInt) ∧
    ¬ r.occurredAt.IsZero

def Careful (p : Platform) : Event → Prop
  | .popped items => ∃ records, p.popUsage items = some records
  | .mapped r => Recordable r
  | .other => True

def CarefulStep (p : Platform) (w : World) (e : Event) (w' : World) : Prop := Step p w e w' ∧ Careful p e

def Taken.Right (p : Platform) (x : Taken) : Prop :=
  match x.fate with
  | .lost => False
  | .raw u => x.item.decode = some u
  | .skipped found => ∃ u, x.item.decode = some u ∧ p.mapRecord u found = none
  | .pending r | .persisted r => ∃ u found, x.item.decode = some u ∧ p.mapRecord u found = some r

/-- Nothing that was queued is lost; what was popped and is not done is still in the drainer; the sink has had the
records in the order of the queue; all is done when the next batch is popped and when the queue is said to be drained;
and the sink takes what it is handed. -/
structure Lossless (p : Platform) (w : World) : Prop where
  whole : w.queued = w.taken.map Taken.item ++ w.queue
  right : ∀ x ∈ w.taken, x.Right p
  raw : w.drainer.raw = w.taken.filterMap (fun x => x.fate.raw?)
  pending : w.drainer.pending = w.taken.filterMap (fun x => x.fate.pending?)
  handed : w.handed = w.taken.filterMap (fun x => x.fate.persisted?)
  pops : w.phase = .popping → ∀ x ∈ w.taken, x.fate.Done
  marks : w.phase = .marking → (∀ x ∈ w.taken, x.fate.Done) ∧ w.seen ≤ w.taken.length
  accepted : ∀ r ∈ w.drainer.pending, ∀ (s : Quota.Store) (env : Env), ∃ s', s.recordGatewayUsage env r = .ok s'

section Fates

variable {p : Platform} {q : Fate → Bool} {f : Fate} {l : List Taken}

def Follows (x y : Taken) : Prop :=
  (x.fate.raw?.isSome → y.fate.raw?.isSome) ∧ (x.fate.pending?.isSome → y.fate.persisted? = none)

theorem resolve_append {pre post : List Taken} {x : Taken} (hpre : ∀ y ∈ pre, q y.fate = false) (hx : q x.fate = true) :
    resolve q f (pre ++ x :: post) = pre ++ { x with fate := f } :: post := by
  induction pre with
  | nil => simp [resolve, hx]
  | cons y _ ih =>
    have hy := hpre y mem_cons_self
    have hrest := ih (fun z hz => hpre z (mem_cons_of_mem _ hz))
    simp [resolve, hy, hrest]

theorem done_of_right {x : Taken} (h : x.Right p) (hraw : x.fate.raw? = none) (hpending : x.fate.pending? = none) : x.fate.Done := by
  unfold Taken.Right at h
  cases hf : x.fate with
  | lost =>
    rw [hf] at h
    exact h.elim
  | raw => simp [hf, Fate.raw?] at hraw
  | skipped found => exact .inl ⟨found, rfl⟩
  | pending => simp [hf, Fate.pending?] at hpending
  | persisted r => exact .inr ⟨r, rfl⟩

theorem resolve_first {β : Type} {g : Fate → Option β} {b : β} {rest : List β} (h : l.filterMap (fun x => g x.fate) = b :: rest) :
    ∃ pre x post, l = pre ++ x :: post ∧ (∀ y ∈ pre, g y.fate = none) ∧ g x.fate = some b ∧
      post.filterMap (fun x => g x.fate) = rest ∧
      resolve (fun f => (g f).isSome) f l = pre ++ { x with fate := f } :: post := by
  obtain ⟨pre, x, post, rfl, hpre, hx, hrest⟩ := filterMap_eq_cons_iff.mp h
  refine ⟨pre, x, post, rfl, hpre, hx, hrest, resolve_append ?_ ?_⟩
  · intro y hy
    rw [hpre y hy]
    rfl
  · rw [hx]
    rfl

theorem recordable_ok {r : GatewayUsageRecord} (h : Recordable r) (hsid : validateSID r.sid = .ok ()) (s : Quota.Store) (env : Env) :
    ∃ s', s.recordGatewayUsage env r = .ok s' := by
  obtain ⟨hblank, htokens, htime⟩ := h
  have hunits (n : Int64) (hn : n ∈ [r.inputTokens, r.outputTokens, r.reasoningTokens, r.cachedTokens, r.totalTokens]) :
      ∃ u : Quota.Units, Quota.Units.check n = some u := ⟨⟨n, htokens n hn⟩, dif_pos (htokens n hn)⟩
  obtain ⟨_, hinput⟩ := hunits r.inputTokens (by simp)
  obtain ⟨_, houtput⟩ := hunits r.outputTokens (by simp)
  obtain ⟨_, hreasoning⟩ := hunits r.reasoningTokens (by simp)
  obtain ⟨_, hcached⟩ := hunits r.cachedTokens (by simp)
  obtain ⟨_, hsum⟩ := hunits r.totalTokens (by simp)
  unfold Quota.Store.recordGatewayUsage
  simp [hblank, hsid, hinput, houtput, hreasoning, hcached, hsum, htime]

theorem mapRecord_sid {u : UsageQueueRecord} {found : Option String} {r : GatewayUsageRecord} (h : p.mapRecord u found = some r) :
    found = some r.sid := by
  unfold Platform.mapRecord at h
  split at h
  · split at h
    · cases h
    · cases h
      rfl
  · cases h

theorem popUsage_mapM {items : List QueueItem} {records : List UsageQueueRecord} (h : p.popUsage items = some records) :
    items.mapM QueueItem.decode = some records := by
  unfold Platform.popUsage at h
  split at h
  · cases h
  · exact h

theorem read_items {items : List QueueItem} {records : List UsageQueueRecord} (h : items.mapM QueueItem.decode = some records) :
    (items.zipWith (fun i u => (⟨i, .raw u⟩ : Taken)) records).map Taken.item = items ∧
      (items.zipWith (fun i u => (⟨i, .raw u⟩ : Taken)) records).filterMap (fun x => x.fate.raw?) = records ∧
      (∀ x ∈ items.zipWith (fun i u => (⟨i, .raw u⟩ : Taken)) records, ∃ u, x.fate = .raw u ∧ x.item.decode = some u) ∧
      records.length = items.length := by
  induction items generalizing records with
  | nil =>
    cases h
    simp
  | cons _ _ ih =>
    simp only [mapM_cons, Option.bind_eq_bind, Option.bind_eq_some_iff, Option.pure_def, Option.some.injEq] at h
    obtain ⟨u, hu, _, hus, rfl⟩ := h
    obtain ⟨hitems, hrecords, hall, hlength⟩ := ih hus
    refine ⟨?_, ?_, ?_, congrArg Nat.succ hlength⟩
    · rw [zipWith_cons_cons, map_cons, hitems]
    · exact congrArg (List.cons u) hrecords
    · intro x hx
      rcases mem_cons.mp hx with rfl | hx
      · exact ⟨u, rfl, hu⟩
      · exact hall x hx

end Fates

section Runs

variable {p : Platform} {w w' : World} {e : Event}

structure Sound (p : Platform) (w : World) : Prop where
  whole : w.queued = w.taken.map Taken.item ++ w.queue
  right : ∀ x ∈ w.taken, x.Right p
  raw : w.drainer.raw = w.taken.filterMap (fun x => x.fate.raw?)
  pending : w.drainer.pending = w.taken.filterMap (fun x => x.fate.pending?)
  handed : w.handed = w.taken.filterMap (fun x => x.fate.persisted?)
  order : w.taken.Pairwise Follows
  keys : ∀ k sid, w.keys k = some sid → validateSID sid = .ok ()
  accepted : ∀ r ∈ w.drainer.pending, Recordable r ∧ validateSID r.sid = .ok ()
  popping : w.phase = .popping → w.drainer.raw = [] ∧ w.drainer.pending = [] ∧ w.seen ≤ w.taken.length + w.queue.length
  read : w.phase ∈ [.recording, .costing, .marking] → w.drainer.raw = []
  marking : w.phase = .marking → w.drainer.pending = [] ∧ w.drainer.batchSize < usageDrainBatch
  seen : w.phase ∈ [.mapping, .recording, .costing, .marking] ∨ w.drainer.raw ≠ [] ∨ w.drainer.pending ≠ [] →
    w.drainer.batchSize < usageDrainBatch → w.seen ≤ w.taken.length

theorem Sound.done (h : Sound p w) (hraw : w.drainer.raw = []) (hpending : w.drainer.pending = []) : ∀ x ∈ w.taken, x.fate.Done := by
  intro x hx
  rw [h.raw, filterMap_eq_nil_iff] at hraw
  rw [h.pending, filterMap_eq_nil_iff] at hpending
  exact done_of_right (h.right x hx) (hraw x hx) (hpending x hx)

theorem Sound.lossless (h : Sound p w) : Lossless p w := by
  refine ⟨h.whole, h.right, h.raw, h.pending, h.handed, ?_, ?_, ?_⟩
  · intro hphase
    exact h.done (h.popping hphase).1 (h.popping hphase).2.1
  · intro hphase
    have hraw := h.read (by simp [hphase])
    obtain ⟨hpending, hbatch⟩ := h.marking hphase
    exact ⟨h.done hraw hpending, h.seen (.inl (by simp [hphase])) hbatch⟩
  · intro r hr s env
    exact recordable_ok (h.accepted r hr).1 (h.accepted r hr).2 s env

theorem Sound.pops (h : Sound p w) (hphase : w.phase = .popping) {records : List UsageQueueRecord}
    (hread : p.popUsage (w.queue.take usageDrainBatch) = some records) :
    Sound p { w with
      queue := w.queue.drop usageDrainBatch
      phase := .mapping
      drainer := { w.drainer with raw := records, batchSize := records.length }
      taken := w.taken ++ (w.queue.take usageDrainBatch).zipWith (fun i u => ⟨i, .raw u⟩) records } := by
  obtain ⟨hraw, hpending, _⟩ := h.popping hphase
  obtain ⟨hitems, hrecords, hall, hlength⟩ := read_items (popUsage_mapM hread)
  have hdone := h.done hraw hpending
  have hnew (g : Fate → Option GatewayUsageRecord) (hg : ∀ u, g (.raw u) = none) :
      ((w.queue.take usageDrainBatch).zipWith (fun i u => (⟨i, .raw u⟩ : Taken)) records).filterMap (fun x => g x.fate) = [] := by
    rw [filterMap_eq_nil_iff]
    intro x hx
    obtain ⟨u, hu, -⟩ := hall x hx
    rw [hu, hg]
  refine ⟨?_, ?_, ?_, ?_, ?_, ?_, h.keys, h.accepted, ?_, ?_, ?_, ?_⟩
  · dsimp only
    rw [map_append, hitems, append_assoc, take_append_drop]
    exact h.whole
  · intro x hx
    rcases mem_append.mp hx with hx | hx
    · exact h.right x hx
    · obtain ⟨u, hu, hdecode⟩ := hall x hx
      unfold Taken.Right
      rw [hu]
      exact hdecode
  · dsimp only
    rw [filterMap_append, ← h.raw, hraw, hrecords]
    rfl
  · dsimp only
    rw [filterMap_append, hnew Fate.pending? (fun _ => rfl), append_nil]
    exact h.pending
  · dsimp only
    rw [filterMap_append, hnew Fate.persisted? (fun _ => rfl), append_nil]
    exact h.handed
  · refine pairwise_append.mpr ⟨h.order, ?_, ?_⟩
    · apply pairwise_of_forall_mem_list
      intro x hx y hy
      obtain ⟨u, hu, -⟩ := hall x hx
      obtain ⟨v, hv, -⟩ := hall y hy
      simp [Follows, hu, hv, Fate.raw?, Fate.pending?]
    · intro x _ y hy
      obtain ⟨v, hv, -⟩ := hall y hy
      simp [Follows, hv, Fate.raw?, Fate.persisted?]
  · intro hpop
    cases hpop
  · intro hpop
    simp at hpop
  · intro hpop
    cases hpop
  · intro _ hbatch
    dsimp only at hbatch ⊢
    rw [hlength, length_take] at hbatch
    have hzip := congrArg List.length hitems
    rw [length_map, length_take] at hzip
    rw [length_append, hzip]
    omega

theorem order_resolved {pre post : List Taken} {x x' : Taken} (h : (pre ++ x :: post).Pairwise Follows)
    (hpre : ∀ y ∈ pre, Follows y x → Follows y x') (hpost : ∀ y ∈ post, Follows x y → Follows x' y) :
    (pre ++ x' :: post).Pairwise Follows := by
  obtain ⟨hleft, hright, hcross⟩ := pairwise_append.mp h
  obtain ⟨hx, hrest⟩ := pairwise_cons.mp hright
  refine pairwise_append.mpr ⟨hleft, pairwise_cons.mpr ⟨fun y hy => hpost y hy (hx y hy), hrest⟩, ?_⟩
  intro y hy z hz
  rcases mem_cons.mp hz with rfl | hz
  · exact hpre y hy (hcross y hy x mem_cons_self)
  · exact hcross y hy z (mem_cons_of_mem _ hz)

theorem right_resolved {pre post : List Taken} {x x' : Taken} (h : ∀ y ∈ pre ++ x :: post, y.Right p) (hx' : x.Right p → x'.Right p) :
    ∀ y ∈ pre ++ x' :: post, y.Right p := by
  intro y hy
  simp only [mem_append, mem_cons] at h hy
  rcases hy with hy | rfl | hy
  · exact h y (.inl hy)
  · exact hx' (h x (.inr (.inl rfl)))
  · exact h y (.inr (.inr hy))

theorem Sound.reads (h : Sound p w) (hphase : w.phase = .mapping) {u : UsageQueueRecord} {rest : List UsageQueueRecord}
    (hraw : w.drainer.raw = u :: rest) {f : Fate} {new : List GatewayUsageRecord}
    (hf : (∃ r, f = .pending r ∧ new = [r] ∧ p.mapRecord u (w.keys u.apiKey) = some r ∧ Recordable r) ∨
      (f = .skipped (w.keys u.apiKey) ∧ new = [] ∧ p.mapRecord u (w.keys u.apiKey) = none)) :
    Sound p { w with
      drainer := { w.drainer with raw := rest, pending := w.drainer.pending ++ new }
      taken := resolve (fun f => f.raw?.isSome) f w.taken } := by
  rw [h.raw] at hraw
  obtain ⟨pre, x, post, hl, hpre, hx, hrest, hresolve⟩ := resolve_first (f := f) hraw
  have horder := h.order
  have hright := h.right
  have hpending := h.pending
  have hhanded := h.handed
  have hwhole := h.whole
  rw [hl] at horder hright hpending hhanded hwhole
  have hxraw : x.fate = .raw u := by
    cases hxf : x.fate <;> simp_all [Fate.raw?]
  have hpost : ∀ y ∈ post, y.fate.raw?.isSome := by
    intro y hy
    have hfollows := (pairwise_cons.mp (pairwise_append.mp horder).2.1).1 y hy
    exact hfollows.1 (by rw [hx]; rfl)
  have hpostPending : post.filterMap (fun x => x.fate.pending?) = [] := by
    rw [filterMap_eq_nil_iff]
    intro y hy
    have hy := hpost y hy
    cases hyf : y.fate <;> simp_all [Fate.raw?, Fate.pending?]
  have hxpending : x.fate.pending? = none := by
    rw [hxraw]
    rfl
  have hxpersisted : x.fate.persisted? = none := by
    rw [hxraw]
    rfl
  have hfraw : f.raw? = none := by
    rcases hf with ⟨r, rfl, -⟩ | ⟨rfl, -⟩ <;> rfl
  have hfpersisted : f.persisted? = none := by
    rcases hf with ⟨r, rfl, -⟩ | ⟨rfl, -⟩ <;> rfl
  have hfpending : f.pending?.toList = new := by
    rcases hf with ⟨r, rfl, rfl, -⟩ | ⟨rfl, rfl, -⟩ <;> rfl
  have hpreRaw : pre.filterMap (fun x => x.fate.raw?) = [] := filterMap_eq_nil_iff.mpr hpre
  have hlength : (pre ++ { x with fate := f } :: post).length = w.taken.length := by
    rw [hl, length_append, length_append, length_cons, length_cons]
  rw [hresolve]
  refine ⟨?_, ?_, ?_, ?_, ?_, ?_, h.keys, ?_, ?_, ?_, ?_, ?_⟩
  · simpa using hwhole
  · refine right_resolved hright ?_
    unfold Taken.Right
    rw [hxraw]
    intro hdecode
    rcases hf with ⟨r, rfl, -, hr, -⟩ | ⟨rfl, -, hr⟩
    · exact ⟨u, _, hdecode, hr⟩
    · exact ⟨u, hdecode, hr⟩
  · simp [hpreRaw, hfraw, hrest]
  · dsimp only
    rw [hpending, ← hfpending]
    cases hfp : f.pending? <;> simp [hxpending, hfp, hpostPending]
  · simpa [hxpersisted, hfpersisted] using hhanded
  · refine order_resolved horder ?_ ?_
    · intro y hy _
      refine ⟨?_, fun _ => hfpersisted⟩
      rw [hpre y hy]
      intro hfalse
      cases hfalse
    · intro y hy _
      have hy := hpost y hy
      refine ⟨fun _ => hy, fun _ => ?_⟩
      cases hyf : y.fate <;> simp_all [Fate.raw?, Fate.persisted?]
  · intro r hr
    rcases mem_append.mp hr with hr | hr
    · exact h.accepted r hr
    · rcases hf with ⟨_, -, rfl, hmap, hrecordable⟩ | ⟨-, rfl, -⟩
      · obtain rfl := mem_singleton.mp hr
        exact ⟨hrecordable, h.keys _ _ (mapRecord_sid hmap)⟩
      · cases hr
  · intro hpop
    rw [hphase] at hpop
    cases hpop
  · intro hread
    rw [hphase] at hread
    simp at hread
  · intro hmark
    rw [hphase] at hmark
    cases hmark
  · intro _ hbatch
    rw [hlength]
    exact h.seen (.inl (by simp [hphase])) hbatch

theorem Sound.persists (h : Sound p w) (hphase : w.phase = .costing) {r : GatewayUsageRecord} {rest : List GatewayUsageRecord}
    (hpending : w.drainer.pending = r :: rest) :
    Sound p { w with
      phase := .recording
      drainer := { w.drainer with pending := rest }
      taken := resolve (fun f => f.pending?.isSome) (.persisted r) w.taken
      handed := w.handed ++ [r] } := by
  have hrest' : ∀ r' ∈ rest, r' ∈ w.drainer.pending := by
    intro r' hr'
    rw [hpending]
    exact mem_cons_of_mem _ hr'
  have hseen := h.seen (.inl (by simp [hphase]))
  have hread := h.read (by simp [hphase])
  rw [h.pending] at hpending
  obtain ⟨pre, x, post, hl, hpre, hx, hrest, hresolve⟩ := resolve_first (f := .persisted r) hpending
  have horder := h.order
  have hright := h.right
  have hraw := h.raw
  have hhanded := h.handed
  have hwhole := h.whole
  rw [hl] at horder hright hraw hhanded hwhole
  have hxpending : x.fate = .pending r := by
    cases hxf : x.fate <;> simp_all [Fate.pending?]
  have hpost : post.filterMap (fun x => x.fate.persisted?) = [] := by
    rw [filterMap_eq_nil_iff]
    intro y hy
    have hfollows := (pairwise_cons.mp (pairwise_append.mp horder).2.1).1 y hy
    exact hfollows.2 (by rw [hx]; rfl)
  have hprePending : pre.filterMap (fun x => x.fate.pending?) = [] := filterMap_eq_nil_iff.mpr hpre
  have hxraw : x.fate.raw? = none := by
    rw [hxpending]
    rfl
  have hxpersisted : x.fate.persisted? = none := by
    rw [hxpending]
    rfl
  have hrraw : (Fate.persisted r).raw? = none := rfl
  have hrpending : (Fate.persisted r).pending? = none := rfl
  have hrpersisted : (Fate.persisted r).persisted? = some r := rfl
  rw [hresolve]
  refine ⟨?_, ?_, ?_, ?_, ?_, ?_, h.keys, ?_, ?_, ?_, ?_, ?_⟩
  · simpa using hwhole
  · refine right_resolved hright ?_
    unfold Taken.Right
    rw [hxpending]
    exact id
  · simpa [hxraw, hrraw] using hraw
  · simp [hprePending, hrest, hrpending]
  · dsimp only
    rw [hhanded]
    simp [hxpersisted, hpost, hrpersisted]
  · refine order_resolved horder ?_ ?_
    · intro y hy hfollows
      refine ⟨fun hy' => ?_, ?_⟩
      · have hfalse := hfollows.1 hy'
        simp [hxraw] at hfalse
      · rw [hpre y hy]
        intro hfalse
        cases hfalse
    · intro y _ _
      simp [Follows, hrraw, hrpending]
  · intro r' hr'
    exact h.accepted r' (hrest' r' hr')
  · intro hpop
    cases hpop
  · intro _
    exact hread
  · intro hmark
    cases hmark
  · intro _ hbatch
    have hle := hseen hbatch
    rw [hl] at hle
    simpa using hle

theorem Sound.next (h : Sound p w) (hstep : CarefulStep p w e w') : Sound p w' := by
  obtain ⟨hstep, hcareful⟩ := hstep
  cases hstep with
  | waits | elsewhere => exact { h with }
  | queues =>
    refine { h with whole := ?_, popping := ?_ }
    · rw [h.whole, append_assoc]
    · intro hphase
      obtain ⟨hraw, hpending, _⟩ := h.popping hphase
      refine ⟨hraw, hpending, ?_⟩
      dsimp only
      rw [length_append]
      omega
  | indexes key sid hsid =>
    refine { h with keys := ?_ }
    intro k s hk
    by_cases heq : k = key
    · subst heq
      obtain rfl : sid = s := by simpa using hk
      exact hsid
    · exact h.keys k s (by simpa [heq] using hk)
  | starts _ hempty =>
    refine { h with popping := ?_, read := ?_, marking := ?_, seen := ?_ }
    · intro _
      exact ⟨hempty.1, hempty.2, le_refl _⟩
    · simp
    · simp
    · simp [hempty]
  | resumes _ hleft =>
    refine { h with popping := ?_, read := ?_, marking := ?_, seen := ?_ }
    · simp
    · simp
    · simp
    · intro _
      apply h.seen
      rw [not_and_or] at hleft
      exact .inr hleft
  | pops hphase _ hread => exact h.pops hphase hread
  | loses _ hread =>
    obtain ⟨records, hrecords⟩ := hcareful
    rw [hread] at hrecords
    cases hrecords
  | maps hphase _ _ hraw r hr => exact h.reads hphase hraw (.inl ⟨r, rfl, rfl, hr, hcareful⟩)
  | skips hphase _ _ hraw hr =>
    have hreads := h.reads hphase hraw (.inr ⟨rfl, rfl, hr⟩)
    rwa [append_nil] at hreads
  | mapped hphase hraw =>
    refine { h with popping := ?_, read := fun _ => hraw, marking := ?_, seen := ?_ }
    · simp
    · simp
    · intro _
      exact h.seen (.inl (by simp [hphase]))
  | records hphase =>
    refine { h with popping := ?_, read := ?_, marking := ?_, seen := ?_ }
    · simp
    · intro _
      exact h.read (by simp [hphase])
    · simp
    · intro _
      exact h.seen (.inl (by simp [hphase]))
  | costs hphase _ _ hpending => exact h.persists hphase hpending
  | recorded hphase hpending =>
    have hraw := h.read (by simp [hphase])
    refine { h with popping := ?_, read := fun _ => hraw, marking := ?_, seen := ?_ }
    · dsimp only
      split <;> simp
    · dsimp only
      split
      · rename_i hbatch
        exact fun _ => ⟨hpending, hbatch⟩
      · simp
    · intro _
      exact h.seen (.inl (by simp [hphase]))
  | marks | fails =>
    refine { h with popping := ?_, read := ?_, marking := ?_, seen := ?_ }
    · simp
    · simp
    · simp
    · rintro (hfalse | hleft)
      · simp at hfalse
      · exact h.seen (.inr hleft)

def World.fresh (now : Time) : World :=
  ⟨now, [], fun _ => none, .empty, ⟨[], [], now, 0⟩, .idle, [], [], [], 0⟩

end Runs

namespace DrainExample

def keyID : String := "aionui-0123456789abcdef0123-kimi"

def platform : Platform := ⟨fun s => if s = "2026-01-01T00:00:00Z" then some ⟨1767225600000000000⟩ else none, fun items => 400 * items.length⟩

def item (output : ℤ) : QueueItem :=
  ⟨true, .string "2026-01-01T00:00:00Z", .null, .integer output, .null, .null, .null, .null, .null, .null, .null, .null, .null, .string keyID,
    .string "r1"⟩

def unread (output : ℤ) : UsageQueueRecord :=
  ⟨"2026-01-01T00:00:00Z", 0, Int64.ofInt output, 0, 0, 0, false, "", "", "", "", "", keyID, "r1"⟩

def record (output : ℤ) : GatewayUsageRecord :=
  ⟨"r1", "S-1-5-21", "", "", "", "", "", false, 0, Int64.ofInt output, 0, 0, 0, ⟨1767225600000000000⟩⟩

def keys : String → Option String := Function.update (fun _ => none) keyID (some "S-1-5-21")

def popping (output : ℤ) : World :=
  ⟨⟨0⟩, [item output], keys, .empty, ⟨[], [], ⟨0⟩, 0⟩, .popping, [item output], [], [], 1⟩

def popped (output : ℤ) : World :=
  ⟨⟨0⟩, [], keys, .empty, ⟨[unread output], [], ⟨0⟩, 1⟩, .mapping, [item output], [⟨item output, .raw (unread output)⟩], [], 1⟩

def mapped (output : ℤ) : World :=
  ⟨⟨0⟩, [], keys, .empty, ⟨[], [record output], ⟨0⟩, 1⟩, .mapping, [item output], [⟨item output, .pending (record output)⟩], [], 1⟩

end DrainExample

end WorkAgent.ModelGateway
