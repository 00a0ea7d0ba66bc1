import WorkAgent.ImGateway.Deliveries

namespace WorkAgent.ImGateway

open Library List Table

variable {registry : Registry} {s t : Store} {w v : World} {acts : List Action} {runs : List (List Action)} {requests : List Request}
  {request : Request} {ownerSID other connectorID accountID : String} {now : ℤ} {peer : Peer}

def Administered (registry : Registry) (ownerSID : String) (s : Store) (request : Request) (t : Store) : Prop :=
  ∃ now, t = s.administer registry ownerSID request now

/-- The same, where the request decides no pairing of an account that a configuration of its employee
and one of somebody else both name. -/
def ApartAdministered (registry : Registry) (ownerSID : String) (s : Store) (request : Request) (t : Store) : Prop :=
  Administered registry ownerSID s request t ∧ ∀ id, request.pairing = some id → ∀ p ∈ s.pairings, p.id = id →
    s.Names registry.extract ownerSID p.peer.connectorID p.peer.externalAccountID → ∀ other, other ≠ ownerSID →
      ¬ s.Names registry.extract other p.peer.connectorID p.peer.externalAccountID

namespace Store

def pairingsOf (s : Store) (connectorID accountID : String) : List Pairing :=
  s.pairings.rows.filter fun p => p.peer.connectorID = connectorID && p.peer.externalAccountID = accountID

theorem authorizedSID_eq_some {targetSID : String} : s.authorizedSID peer = some targetSID ↔
    ∃ p ∈ s.pairings, p.peer = peer ∧ p.status = .approved ∧ p.targetSID = targetSID := by
  unfold authorizedSID
  rw [Option.map_eq_some_iff]
  constructor
  · rintro ⟨p, hp, htarget⟩
    have hfound := find?_some hp
    simp only [Bool.and_eq_true, decide_eq_true_eq] at hfound
    exact ⟨p, mem_of_find?_eq_some hp, hfound.1, hfound.2, htarget⟩
  · rintro ⟨p, hp, hpeer, hstatus, htarget⟩
    cases hfind : s.pairings.rows.find? fun p => p.peer = peer && p.status = .approved with
    | none =>
      have hnone := List.find?_eq_none.mp hfind p hp
      simp [hpeer, hstatus] at hnone
    | some =>
      have hfound := find?_some hfind
      simp only [Bool.and_eq_true, decide_eq_true_eq] at hfound
      rw [eq_of_key (mem_of_find?_eq_some hfind) hp (hfound.1.trans hpeer.symm)]
      exact ⟨p, rfl, htarget⟩

theorem authorizedSID_of_pairingsOf (h : t.pairingsOf connectorID accountID = s.pairingsOf connectorID accountID) (userID : String) :
    t.authorizedSID ⟨connectorID, accountID, userID⟩ = s.authorizedSID ⟨connectorID, accountID, userID⟩ := by
  have hmem : ∀ p : Pairing, p.peer = ⟨connectorID, accountID, userID⟩ → (p ∈ t.pairings ↔ p ∈ s.pairings) := by
    intro p hpeer
    have hiff : p ∈ t.pairingsOf connectorID accountID ↔ p ∈ s.pairingsOf connectorID accountID := by rw [h]
    simpa [pairingsOf, hpeer, mem_rows] using hiff
  apply Option.ext
  intro _
  rw [authorizedSID_eq_some, authorizedSID_eq_some]
  constructor
  · rintro ⟨p, hp, hpeer, hrest⟩
    exact ⟨p, (hmem p hpeer).mp hp, hpeer, hrest⟩
  · rintro ⟨p, hp, hpeer, hrest⟩
    exact ⟨p, (hmem p hpeer).mpr hp, hpeer, hrest⟩

theorem putConnector_eq {connector : StoredConnector} (h : s.putConnector connector = .ok t) :
    t = { s with connectors := s.connectors.set connector } := by
  unfold putConnector at h
  split at h
  · cases h
  · exact (Except.ok.inj h).symm

theorem administer_cases (registry : Registry) (s : Store) (ownerSID : String) (request : Request) (now : ℤ) :
    s.administer registry ownerSID request now = s ∨
    (∃ connector : StoredConnector, connector.ownerSID = ownerSID ∧
      s.administer registry ownerSID request now = { s with connectors := s.connectors.set connector }) ∨
    ∃ id status, request.pairing = some id ∧ (status = .approved → request = .approve id) ∧
      s.administer registry ownerSID request now = s.setOwnerPairingStatus registry.extract ownerSID id status now := by
  cases request with
  | store =>
    unfold administer
    dsimp only
    split
    · exact .inl rfl
    · split
      · rename_i hput
        exact .inr (.inl ⟨_, rfl, putConnector_eq hput⟩)
      · exact .inl rfl
  | enable _ enabled =>
    unfold administer
    dsimp only
    split
    · exact .inl rfl
    · rename_i connector hfind
      have howner : connector.ownerSID = ownerSID := congrArg Prod.fst (find?_eq_some.mp hfind).2
      split
      · rename_i hput
        exact .inr (.inl ⟨{ connector with enabled := enabled }, howner, putConnector_eq hput⟩)
      · exact .inl rfl
  | test => exact .inl rfl
  | approve id => exact .inr (.inr ⟨id, .approved, rfl, fun _ => rfl, rfl⟩)
  | reject id => exact .inr (.inr ⟨id, .rejected, rfl, by simp, rfl⟩)
  | revoke id => exact .inr (.inr ⟨id, .revoked, rfl, by simp, rfl⟩)

theorem names_administer (hne : other ≠ ownerSID) (h : s.Names registry.extract other connectorID accountID) (request : Request) (now : ℤ) :
    (s.administer registry ownerSID request now).Names registry.extract other connectorID accountID := by
  rcases administer_cases registry s ownerSID request now with heq | ⟨_, howner, heq⟩ | ⟨_, _, -, -, heq⟩
  · rw [heq]
    exact h
  · rw [heq]
    obtain ⟨c, hc, hcOwner, hrest⟩ := h
    refine ⟨c, Table.mem_set.mpr (.inr ⟨hc, fun hkey => hne ?_⟩), hcOwner, hrest⟩
    rw [← hcOwner, ← howner]
    exact congrArg Prod.fst hkey
  · rw [heq]
    exact h

theorem pairingsOf_update {p : Pairing → Prop} [DecidablePred p] {f : Pairing → Pairing} (hf : ∀ r, (f r).peer = r.peer)
    (hpairings : t.pairings = s.pairings.update p f hf)
    (h : ∀ r ∈ s.pairings, r.peer.connectorID = connectorID → r.peer.externalAccountID = accountID → ¬ p r) :
    t.pairingsOf connectorID accountID = s.pairingsOf connectorID accountID := by
  have hpeer : ∀ r, (if p r then f r else r).peer = r.peer := by
    intro r
    split
    · exact hf r
    · rfl
  unfold pairingsOf
  rw [hpairings, rows_update, filter_map]
  have hkeep : (fun r : Pairing => decide (r.peer.connectorID = connectorID) && decide (r.peer.externalAccountID = accountID)) ∘
      (fun r => if p r then f r else r) =
      fun r : Pairing => decide (r.peer.connectorID = connectorID) && decide (r.peer.externalAccountID = accountID) := by
    funext r
    simp only [Function.comp, hpeer]
  rw [hkeep]
  refine (map_congr_left fun r hr => ?_).trans (map_id _)
  obtain ⟨hmem, haccount⟩ := mem_filter.mp hr
  simp only [Bool.and_eq_true, decide_eq_true_eq] at haccount
  exact if_neg (h r hmem haccount.1 haccount.2)

theorem pairingsOf_administer (hne : other ≠ ownerSID) (hnames : s.Names registry.extract other connectorID accountID)
    (hstep : ApartAdministered registry ownerSID s request t) :
    t.pairingsOf connectorID accountID = s.pairingsOf connectorID accountID := by
  obtain ⟨⟨now, rfl⟩, hapart⟩ := hstep
  rcases administer_cases registry s ownerSID request now with heq | ⟨_, -, heq⟩ | ⟨id, _, hpairing, -, heq⟩
  · rw [heq]
  · rw [heq]
    rfl
  · rw [heq]
    apply pairingsOf_update (by intro r; rfl) rfl
    rintro p hp rfl rfl ⟨hid, hmine⟩
    exact hapart id hpairing p hp hid hmine other hne hnames

theorem administered_run (hne : other ≠ ownerSID) (hnames : s.Names registry.extract other connectorID accountID)
    (h : Execution (ApartAdministered registry ownerSID) s requests t) :
    t.Names registry.extract other connectorID accountID ∧ t.pairingsOf connectorID accountID = s.pairingsOf connectorID accountID := by
  induction h with
  | start => exact ⟨hnames, rfl⟩
  | step _ hlast ih =>
    obtain ⟨hthere, hsame⟩ := ih
    refine ⟨?_, (pairingsOf_administer hne hthere hlast).trans hsame⟩
    obtain ⟨⟨now, rfl⟩, -⟩ := hlast
    exact names_administer hne hthere _ now

theorem authorizedSID_administer (happrove : ∀ id, ownerSID = other → request ≠ .approve id)
    (h : (s.administer registry ownerSID request now).authorizedSID peer = some other) : s.authorizedSID peer = some other := by
  rcases administer_cases registry s ownerSID request now with heq | ⟨_, -, heq⟩ | ⟨id, _, -, hstatus, heq⟩
  · rwa [heq] at h
  · rwa [heq] at h
  · rw [heq, authorizedSID_eq_some] at h
    rw [authorizedSID_eq_some]
    obtain ⟨p, hp, hpeer, happroved, htarget⟩ := h
    obtain ⟨q, hq, rfl⟩ := mem_map.mp (mem_rows.mpr hp)
    split at hpeer
    · rename_i hdecided
      rw [if_pos hdecided] at happroved htarget
      dsimp only at happroved htarget
      rw [if_pos happroved] at htarget
      exact absurd (hstatus happroved) (happrove id htarget)
    · rename_i hkept
      rw [if_neg hkept] at happroved htarget
      exact ⟨q, hq, hpeer, happroved, htarget⟩

theorem authorizedSID_requestPairing {sender : Sender} (hstore : s.requestPairing connectorID accountID sender now = .ok t)
    (h : t.authorizedSID peer = some other) : s.authorizedSID peer = some other := by
  unfold requestPairing at hstore
  split at hstore
  · cases hstore
  · cases hstore
    rw [authorizedSID_eq_some] at h ⊢
    obtain ⟨p, hp, hpeer, happroved, htarget⟩ := h
    unfold upsert at hp
    split at hp
    · rcases mem_insertOrIgnore.mp hp with hp | ⟨rfl, -⟩
      · exact ⟨p, hp, hpeer, happroved, htarget⟩
      · cases happroved
    · obtain ⟨q, hq, rfl⟩ := mem_map.mp (mem_rows.mpr hp)
      split at hpeer
      · rename_i hsame
        rw [if_pos hsame] at happroved htarget
        dsimp only at happroved
        split at happroved
        · cases happroved
        · exact ⟨q, hq, hpeer, happroved, htarget⟩
      · rename_i hkept
        rw [if_neg hkept] at happroved htarget
        exact ⟨q, hq, hpeer, happroved, htarget⟩

end Store

theorem Store.begin_pairings {message : InboundMessage} (h : s.beginReceipt message now = .begun t) : t.pairings = s.pairings := by
  unfold Store.beginReceipt at h
  split at h
  · split at h
    · cases h
    · cases h
    · obtain rfl := Begun.begun.inj h
      rfl
  · obtain rfl := Begun.begun.inj h
    rfl

theorem Store.complete_pairings {message : InboundMessage} {receipt : DeliveryReceipt} {targetSID : String}
    (h : s.completeReceipt message targetSID receipt now = .ok t) : t.pairings = s.pairings := by
  unfold Store.completeReceipt at h
  split at h
  · cases h
  · cases h
    rfl

theorem authorizedSID_step (hstep : Step registry w acts v) (happrove : ∀ id, .administered other (.approve id) ∉ acts)
    (h : v.store.authorizedSID peer = some other) : w.store.authorizedSID peer = some other := by
  cases hstep with
  | administers =>
    apply Store.authorizedSID_administer _ h
    rintro id rfl rfl
    exact happrove id (mem_singleton.mpr rfl)
  | requests _ _ _ _ _ hstore => exact Store.authorizedSID_requestPairing hstore h
  | begins _ _ _ store _ _ hstore =>
    have hsame : store.authorizedSID peer = w.store.authorizedSID peer := by
      unfold Store.authorizedSID
      rw [Store.begin_pairings hstore]
    exact hsame.symm.trans h
  | completes _ _ _ _ store _ _ hstore =>
    have hsame : store.authorizedSID peer = w.store.authorizedSID peer := by
      unfold Store.authorizedSID
      rw [Store.complete_pairings hstore]
    exact hsame.symm.trans h
  | _ => exact h

theorem authorizedSID_run (h : Execution (Step registry) w runs v) (happrove : ∀ id, .administered other (.approve id) ∉ runs.flatten)
    (hauthorized : v.store.authorizedSID peer = some other) : w.store.authorizedSID peer = some other := by
  induction h with
  | start => exact hauthorized
  | step _ hlast ih =>
    rw [flatten_append, flatten_singleton] at happrove
    apply ih (fun id hmem => happrove id (mem_append_left _ hmem))
    exact authorizedSID_step hlast (fun id hmem => happrove id (mem_append_right _ hmem)) hauthorized

/-- What one employee can do to an account of another one, by requests as `Asks` allows them, and what
messages and requests of others can do together. -/
structure Isolated (registry : Registry) (Asks : String → Store → Request → Store → Prop) (w : World)
    (ownerSID connectorID accountID : String) : Prop where
  kept : ∀ other, other ≠ ownerSID → ∀ requests t, Execution (Asks other) w.store requests t →
    t.pairingsOf connectorID accountID = w.store.pairingsOf connectorID accountID ∧
      ∀ userID, t.authorizedSID ⟨connectorID, accountID, userID⟩ = w.store.authorizedSID ⟨connectorID, accountID, userID⟩
  routed : ∀ runs v, Execution (Step registry) w runs v → (∀ id, .administered ownerSID (.approve id) ∉ runs.flatten) →
    ∀ userID, v.store.authorizedSID ⟨connectorID, accountID, userID⟩ = some ownerSID →
      w.store.authorizedSID ⟨connectorID, accountID, userID⟩ = some ownerSID

/-- In every state the pairings of an account that an employee has configured are that employee's, as long
as nobody decides one whose account is configured by both. -/
theorem pairings_isolated (registry : Registry) (w : World) (ownerSID connectorID accountID : String)
    (hnames : w.store.Names registry.extract ownerSID connectorID accountID) :
    Isolated registry (ApartAdministered registry) w ownerSID connectorID accountID := by
  constructor
  · intro _ hne _ t h
    obtain ⟨-, hsame⟩ := Store.administered_run hne.symm hnames h
    exact ⟨hsame, Store.authorizedSID_of_pairingsOf hsame⟩
  · intro _ v h happrove _
    exact authorizedSID_run h happrove

namespace GreetingExample

theorem names_one : approved.store.Names weixin.extract "S-1-7" "weixin" "one" := by
  unfold Store.Names
  decide

theorem greeting_isolated : Isolated weixin (ApartAdministered weixin) approved "S-1-7" "weixin" "one" :=
  pairings_isolated weixin approved "S-1-7" "weixin" "one" names_one

def claimed : Store := approved.store.administer weixin "S-1-9" (.store "weixin" config true) 4

def taken : Store := claimed.administer weixin "S-1-9" (.approve 1) 5

/-- Somebody else stores a configuration with the account, and approves the sender. -/
theorem greeting_taken : ¬ ∀ registry runs w ownerSID connectorID accountID, Execution (Step registry) .start runs w →
    w.store.Names registry.extract ownerSID connectorID accountID →
      Isolated registry (Administered registry) w ownerSID connectorID accountID := by
  intro hall
  have h : Execution (Administered weixin "S-1-9") approved.store [.store "weixin" config true] claimed := .single ⟨4, rfl⟩
  have h : Execution (Administered weixin "S-1-9") approved.store [.store "weixin" config true, .approve 1] taken := h.step ⟨5, rfl⟩
  obtain ⟨-, hroute⟩ := (hall weixin asking approved "S-1-7" "weixin" "one" approves_sender names_one).kept "S-1-9" (by decide) _ _ h
  have hroute := hroute "wx"
  revert hroute
  decide

end GreetingExample

end WorkAgent.ImGateway
