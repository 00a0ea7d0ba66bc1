import WorkAgent.Collaboration.ConversationIDs

namespace WorkAgent.Collaboration

open Library List Option Table

namespace Store

section Reads

variable (s : Store) (userID : ℤ)

def pinnedFor (conversationID : String) : Bool :=
  ((s.userStates.find? (conversationID, userID)).map UserStateRow.pinned).getD false

def pinnedAtFor (conversationID : String) : Option ℤ :=
  (s.userStates.find? (conversationID, userID)).bind UserStateRow.pinnedAt

def hiddenFor (conversationID : String) : Bool :=
  ((s.visibility.find? (conversationID, userID)).map VisibilityRow.hidden).getD false

def listedBefore (c c' : ConversationRow) : Bool :=
  if s.pinnedFor userID c.id ≠ s.pinnedFor userID c'.id then s.pinnedFor userID c.id
  else if s.pinnedAtFor userID c.id ≠ s.pinnedAtFor userID c'.id then
    (s.pinnedAtFor userID c.id).any (fun x => (s.pinnedAtFor userID c'.id).all (fun y => y < x))
  else if c.updatedAt ≠ c'.updatedAt then decide (c'.updatedAt < c.updatedAt)
  else decide (c.id ≤ c'.id)

def listedIDs (includeHidden : Bool) : List String :=
  ((s.conversations.rows.filter (fun c =>
    (∃ p ∈ s.projects.rows, p.id = c.projectID ∧ (p.state = .active ∨ p.state = .transferPending)) ∧
      (∃ m ∈ s.members.rows, m.projectID = c.projectID ∧ m.userID = userID ∧ m.state = .accepted) ∧
      (includeHidden = true ∨ s.hiddenFor userID c.id = false) ∧
      (c.kind = .discussion ∨ c.creatorUserID = userID))).mergeSort (s.listedBefore userID)).map ConversationRow.id

def listConversations (includeHidden : Bool) : Except Error (List Conversation) :=
  (s.listedIDs userID includeHidden).mapM (fun id => s.conversationForUser id userID includeHidden)

/-- `listMessages`: the messages that the condition selects, by sequence number, up to the limit. -/
def selectMessages (p : MessageRow → Prop) [DecidablePred p] (limit : ℕ) : List MessageRow :=
  ((s.messages.rows.filter p).mergeSort (fun m m' => m.seq ≤ m'.seq)).take limit

def pageLimit (limit : ℤ) (default : ℕ) : ℕ := if limit < 1 ∨ 200 < limit then default else limit.toNat

def listMessages (conversationID : String) (after limit : ℤ) : Except Error (List MessageRow) := do
  let _ ← s.conversationForUser conversationID userID true
  return s.selectMessages (fun m => m.conversationID = conversationID ∧ after < m.seq) (pageLimit limit 100)

def Replays (after : ℤ) (m : MessageRow) : Prop :=
  after < m.seq ∧ ∃ c ∈ s.conversations.rows, c.id = m.conversationID ∧
    (∃ p ∈ s.projects.rows, p.id = c.projectID ∧ (p.state = .active ∨ p.state = .transferPending)) ∧
    (∃ sm ∈ s.members.rows, sm.projectID = c.projectID ∧ sm.userID = userID ∧ sm.state = .accepted) ∧
    (c.kind = .discussion ∨ c.creatorUserID = userID)

instance (after : ℤ) : DecidablePred (s.Replays userID after) :=
  fun m => inferInstanceAs (Decidable (after < m.seq ∧ ∃ c ∈ s.conversations.rows, c.id = m.conversationID ∧
    (∃ p ∈ s.projects.rows, p.id = c.projectID ∧ (p.state = .active ∨ p.state = .transferPending)) ∧
    (∃ sm ∈ s.members.rows, sm.projectID = c.projectID ∧ sm.userID = userID ∧ sm.state = .accepted) ∧
    (c.kind = .discussion ∨ c.creatorUserID = userID)))

def listMessagesForUserAfter (after limit : ℤ) : List MessageRow :=
  s.selectMessages (s.Replays userID after) (pageLimit limit 200)

def Joined (projectID : String) : Prop :=
  ∃ m ∈ s.members.rows, m.projectID = projectID ∧ m.userID = userID ∧ m.state = .accepted

instance (projectID : String) : Decidable (s.Joined userID projectID) :=
  inferInstanceAs (Decidable (∃ m ∈ s.members.rows, m.projectID = projectID ∧ m.userID = userID ∧
    m.state = .accepted))

def Reaches (conversationID : String) : Prop :=
  ∃ c ∈ s.conversations.rows, c.id = conversationID ∧ s.Joined userID c.projectID

instance (conversationID : String) : Decidable (s.Reaches userID conversationID) :=
  inferInstanceAs (Decidable (∃ c ∈ s.conversations.rows, c.id = conversationID ∧ s.Joined userID c.projectID))

structure Sees (c : ConversationRow) : Prop where
  joined : s.Joined userID c.projectID
  opened : ∃ p ∈ s.projects.rows, p.id = c.projectID ∧ (p.state = .active ∨ p.state = .transferPending)
  addressed : c.kind = .discussion ∨ c.creatorUserID = userID

end Reads

section Views

variable {s : Store} {userID : ℤ}

variable {id : String} {c : ConversationRow}

theorem visible_eq_some {p : ProjectRow} {m : MemberRow} :
    s.visible id userID = some (c, p, m) ↔ (c ∈ s.conversations ∧ c.id = id) ∧ (p ∈ s.projects ∧ p.id = c.projectID) ∧
      (m ∈ s.members ∧ m.projectID = p.id ∧ m.userID = userID ∧ m.state = .accepted) ∧
      (p.state = .active ∨ p.state = .transferPending) ∧ (c.kind = .discussion ∨ c.creatorUserID = userID) := by
  simp only [visible, conversation, project, acceptedMember, member, bind_eq_bind, bind_eq_some_iff,
    filter_eq_some_iff, find?_eq_some, decide_eq_true_eq, MemberRow.key, Prod.mk.injEq,
    ite_none_right_eq_some, Option.some.injEq]
  constructor
  · rintro ⟨c, hc, p, hp, m, ⟨⟨hm, hproject, huser⟩, hstate⟩, ⟨hopen, haddressed⟩, rfl, rfl, rfl⟩
    exact ⟨hc, hp, ⟨hm, hproject, huser, hstate⟩, hopen, haddressed⟩
  · rintro ⟨hc, hp, ⟨hm, hproject, huser, hstate⟩, hopen, haddressed⟩
    exact ⟨c, hc, p, hp, m, ⟨⟨hm, hproject, huser⟩, hstate⟩, ⟨hopen, haddressed⟩, rfl, rfl, rfl⟩

theorem visible_isSome (hc : c ∈ s.conversations) :
    (∃ x, s.visible c.id userID = some x) ↔ s.Sees userID c := by
  constructor
  · rintro ⟨⟨_, p, m⟩, h⟩
    obtain ⟨⟨hc', hid⟩, ⟨hp, hpid⟩, ⟨hm, hproject, huser, hstate⟩, hopen, haddressed⟩ := visible_eq_some.mp h
    obtain rfl := eq_of_key hc' hc hid
    exact ⟨⟨m, hm, hproject.trans hpid, huser, hstate⟩, ⟨p, hp, hpid, hopen⟩, haddressed⟩
  · rintro ⟨⟨m, hm, hproject, huser, hstate⟩, ⟨p, hp, hpid, hopen⟩, haddressed⟩
    exact ⟨(c, p, m), visible_eq_some.mpr ⟨⟨hc, rfl⟩, ⟨hp, hpid⟩, ⟨hm, hproject.trans hpid.symm, huser, hstate⟩,
      hopen, haddressed⟩⟩

variable {includeHidden : Bool}

theorem conversationForUser_eq_ok :
    (∃ v, s.conversationForUser id userID includeHidden = .ok v) ↔
      (∃ x, s.visible (trimSpace id) userID = some x ∧
        (s.hiddenFor userID x.1.id = true → includeHidden = true)) := by
  constructor
  · rintro ⟨v, h⟩
    simp only [conversationForUser, bind_eq_ok, orError_eq_ok, require_eq_ok] at h
    obtain ⟨x, hx, -, hhidden, -⟩ := h
    exact ⟨x, hx, hhidden⟩
  · rintro ⟨⟨c, p, m⟩, hx, hhidden⟩
    simp only [conversationForUser, bind_eq_ok, orError_eq_ok, require_eq_ok]
    exact ⟨_, _, hx, (), hhidden, rfl⟩

theorem id_of_conversationForUser {v : Conversation}
    (h : s.conversationForUser id userID includeHidden = .ok v) : v.row.id = trimSpace id := by
  simp only [conversationForUser, bind_eq_ok, orError_eq_ok, require_eq_ok] at h
  obtain ⟨⟨c, p, m⟩, hx, -, -, h⟩ := h
  cases h
  exact (visible_eq_some.mp hx).1.2

theorem seen_iff (hs : Housed s) (hc : c ∈ s.conversations) :
    (∃ v, s.conversationForUser c.id userID true = .ok v) ↔ s.Sees userID c := by
  rw [conversationForUser_eq_ok, hs.ids c hc, ← visible_isSome hc]
  simp

theorem mem_listedIDs : id ∈ s.listedIDs userID includeHidden ↔
    ∃ c ∈ s.conversations, c.id = id ∧ s.Sees userID c ∧ (includeHidden = true ∨ s.hiddenFor userID id = false) := by
  simp only [listedIDs, List.mem_map, mem_mergeSort, mem_filter, decide_eq_true_eq]
  constructor
  · rintro ⟨c, ⟨hc, hopen, hjoined, hhidden, haddressed⟩, rfl⟩
    exact ⟨c, hc, rfl, ⟨hjoined, hopen, haddressed⟩, hhidden⟩
  · rintro ⟨c, hc, rfl, ⟨hjoined, hopen, haddressed⟩, hhidden⟩
    exact ⟨c, ⟨hc, hopen, hjoined, hhidden, haddressed⟩, rfl⟩

theorem listConversations_ok (hs : Housed s) (includeHidden : Bool) :
    ∃ l, s.listConversations userID includeHidden = .ok l ∧
      l.map (fun v => v.row.id) = s.listedIDs userID includeHidden := by
  have hall (ids : List String) (hids : ∀ id ∈ ids, id ∈ s.listedIDs userID includeHidden) :
      ∃ l : List Conversation, ids.mapM (fun id => s.conversationForUser id userID includeHidden) = .ok l ∧
        l.map (fun v => v.row.id) = ids := by
    induction ids with
    | nil => exact ⟨[], rfl, rfl⟩
    | cons id _ ih =>
      obtain ⟨c, hc, rfl, hsees, hhidden⟩ := mem_listedIDs.mp (hids id mem_cons_self)
      obtain ⟨⟨c', p, m⟩, hx⟩ := (visible_isSome hc).mpr hsees
      have hid : c'.id = c.id := (visible_eq_some.mp hx).1.2
      have hview : ∃ v, s.conversationForUser c.id userID includeHidden = .ok v := by
        rw [conversationForUser_eq_ok, hs.ids c hc]
        refine ⟨_, hx, ?_⟩
        intro hh
        rcases hhidden with hinclude | hshown
        · exact hinclude
        · rw [hid, hshown] at hh
          cases hh
      obtain ⟨v, hv⟩ := hview
      obtain ⟨l, hl, hmap⟩ := ih (fun x hx => hids x (mem_cons_of_mem _ hx))
      refine ⟨v :: l, ?_, ?_⟩
      · rw [mapM_cons, hv, hl]
        rfl
      · rw [map_cons, hmap, id_of_conversationForUser hv, hs.ids c hc]
  exact hall _ (fun id hid => hid)

theorem listed_iff (hs : Housed s) (hc : c ∈ s.conversations) :
    (∃ l, s.listConversations userID true = .ok l ∧ ∃ v ∈ l, v.row.id = c.id) ↔ s.Sees userID c := by
  obtain ⟨l, hl, hids⟩ := @listConversations_ok s userID hs true
  have hmem : (∃ v ∈ l, v.row.id = c.id) ↔ s.Sees userID c := by
    rw [← List.mem_map (f := fun v : Conversation => v.row.id), hids, mem_listedIDs]
    constructor
    · rintro ⟨c', hc', hid, hsees, -⟩
      exact eq_of_key hc' hc hid ▸ hsees
    · exact fun h => ⟨c, hc, rfl, h, .inl rfl⟩
  rw [← hmem]
  constructor
  · rintro ⟨_, hl', hv⟩
    rw [hl] at hl'
    cases hl'
    exact hv
  · exact fun hv => ⟨l, hl, hv⟩

theorem messages_iff (hs : Housed s) (hc : c ∈ s.conversations) (after limit : ℤ) :
    (∃ l, s.listMessages userID c.id after limit = .ok l) ↔ s.Sees userID c := by
  rw [← seen_iff hs hc]
  simp only [listMessages, bind_eq_ok, pure_eq_ok]
  constructor
  · rintro ⟨l, v, hv, -⟩
    exact ⟨v, hv⟩
  · rintro ⟨v, hv⟩
    exact ⟨_, v, hv, rfl⟩

theorem pageLimit_pos (limit : ℤ) {default : ℕ} (h : 0 < default) : 0 < pageLimit limit default := by
  unfold pageLimit
  split
  · exact h
  · omega

variable {m : MessageRow}

theorem mem_selectMessages {p : MessageRow → Prop} [DecidablePred p] {limit : ℕ} (hm : m ∈ s.messages)
    (hp : p m) : m ∈ s.selectMessages p limit ∨
      ((s.selectMessages p limit).length = limit ∧ ∀ x ∈ s.selectMessages p limit, x.seq < m.seq) := by
  unfold selectMessages
  generalize hl : (s.messages.rows.filter p).mergeSort (fun m m' => m.seq ≤ m'.seq) = l
  have hmem : m ∈ l := by
    rw [← hl, mem_mergeSort, mem_filter]
    exact ⟨hm, decide_eq_true hp⟩
  have hsorted : l.Pairwise (fun x y => x.seq ≤ y.seq) := by
    rw [← hl]
    have hpair : ((s.messages.rows.filter p).mergeSort (fun m m' => decide (m.seq ≤ m'.seq))).Pairwise
        (fun m m' => decide (m.seq ≤ m'.seq) = true) := pairwise_mergeSort
      (fun a b c hab hbc => by simp only [decide_eq_true_eq] at *; omega)
      (fun a b => by simp only [Bool.or_eq_true, decide_eq_true_eq]; omega) (s.messages.rows.filter p)
    exact hpair.imp (fun h => of_decide_eq_true h)
  have hsub : ∀ x ∈ l, x ∈ s.messages := by
    intro x hx
    rw [← hl, mem_mergeSort, mem_filter] at hx
    exact hx.1
  have hsplit := take_append_drop limit l
  rw [← hsplit, mem_append] at hmem
  rcases hmem with hmem | hmem
  · exact .inl hmem
  · by_cases hin : m ∈ l.take limit
    · exact .inl hin
    · right
      refine ⟨?_, ?_⟩
      · rw [length_take, Nat.min_eq_left]
        by_contra hlt
        rw [drop_eq_nil_of_le (by omega)] at hmem
        cases hmem
      · intro x hx
        rw [← hsplit, pairwise_append] at hsorted
        have hle := hsorted.2.2 x hx m hmem
        rcases Nat.lt_or_eq_of_le hle with hlt | heq
        · exact hlt
        · have hxm : x = m := eq_of_key (hsub x (mem_of_mem_take hx)) hm heq
          exact absurd (hxm ▸ hx) hin

theorem of_mem_selectMessages {p : MessageRow → Prop} [DecidablePred p] {limit : ℕ}
    (h : m ∈ s.selectMessages p limit) : m ∈ s.messages ∧ p m := by
  have hmem := mem_of_mem_take h
  rw [mem_mergeSort, mem_filter, decide_eq_true_eq] at hmem
  exact hmem

variable {after : ℤ}

section

variable (hc : c ∈ s.conversations)
include hc

theorem replays_iff
    (hid : c.id = m.conversationID) : s.Replays userID after m ↔ after < m.seq ∧ s.Sees userID c := by
  constructor
  · rintro ⟨hafter, _, hc', hid', hopen, hjoined, haddressed⟩
    obtain rfl := eq_of_key hc' hc (hid'.trans hid.symm)
    exact ⟨hafter, hjoined, hopen, haddressed⟩
  · rintro ⟨hafter, hjoined, hopen, haddressed⟩
    exact ⟨hafter, c, hc, hid, hopen, hjoined, haddressed⟩

theorem replay_sound {limit : ℤ}
    (hid : c.id = m.conversationID) (h : m ∈ s.listMessagesForUserAfter userID after limit) :
    after < m.seq ∧ s.Sees userID c :=
  (replays_iff hc hid).mp (of_mem_selectMessages h).2

theorem replay_complete
    (hm : m ∈ s.messages) (hid : c.id = m.conversationID) (hsees : s.Sees userID c) (hafter : after < m.seq) (limit : ℤ) :
    m ∈ s.listMessagesForUserAfter userID after limit ∨
      (s.listMessagesForUserAfter userID after limit).length = pageLimit limit 200 ∧
        ∀ x ∈ s.listMessagesForUserAfter userID after limit, x.seq < m.seq :=
  mem_selectMessages hm ((replays_iff hc hid).mpr ⟨hafter, hsees⟩)

theorem replay_iff (hm : m ∈ s.messages)
    (hid : c.id = m.conversationID) :
    (∃ after limit, m ∈ s.listMessagesForUserAfter userID after limit) ↔ s.Sees userID c := by
  constructor
  · rintro ⟨_, _, h⟩
    exact (replay_sound hc hid h).2
  · intro h
    refine ⟨(m.seq : ℤ) - 1, 1, ?_⟩
    rcases replay_complete hc hm hid h (show (m.seq : ℤ) - 1 < m.seq by omega) 1 with hmem | ⟨hlength, hbefore⟩
    · exact hmem
    · have hpos := pageLimit_pos 1 (show 0 < 200 by omega)
      rw [← hlength, length_pos_iff_exists_mem] at hpos
      obtain ⟨x, hx⟩ := hpos
      have hlt := hbefore x hx
      have hafter := (of_mem_selectMessages hx).2.1
      omega

end

end Views

structure SameForMember (userID : ℤ) (s t : Store) : Prop where
  memberships : s.members.rows.filter (fun m => m.userID = userID ∧ m.state = .accepted) =
    t.members.rows.filter (fun m => m.userID = userID ∧ m.state = .accepted)
  projects : s.projects.rows.filter (fun p => s.Joined userID p.id) =
    t.projects.rows.filter (fun p => t.Joined userID p.id)
  conversations : s.conversations.rows.filter (fun c => s.Joined userID c.projectID) =
    t.conversations.rows.filter (fun c => t.Joined userID c.projectID)
  assistants : s.assistants.rows.filter (fun a => s.Joined userID a.projectID) =
    t.assistants.rows.filter (fun a => t.Joined userID a.projectID)
  messages : s.messages.rows.filter (fun m => s.Reaches userID m.conversationID) =
    t.messages.rows.filter (fun m => t.Reaches userID m.conversationID)
  runs : s.runs.rows.filter (fun r => s.Reaches userID r.conversationID) =
    t.runs.rows.filter (fun r => t.Reaches userID r.conversationID)
  visibility : s.visibility.rows.filter (fun v => s.Reaches userID v.conversationID) =
    t.visibility.rows.filter (fun v => t.Reaches userID v.conversationID)
  userStates : s.userStates.rows.filter (fun x => s.Reaches userID x.conversationID) =
    t.userStates.rows.filter (fun x => t.Reaches userID x.conversationID)

section Interference

variable {s t : Store} {userID : ℤ}

variable {ρ : Type}

theorem mem_of_filter_eq {l l' : List ρ} {p q : ρ → Prop} [DecidablePred p] [DecidablePred q]
    (h : l.filter (fun r => p r) = l'.filter (fun r => q r)) {r : ρ} (hr : r ∈ l) (hp : p r) : r ∈ l' ∧ q r := by
  have hmem : r ∈ l.filter (fun r => p r) := mem_filter.mpr ⟨hr, decide_eq_true hp⟩
  rw [h, mem_filter, decide_eq_true_eq] at hmem
  exact hmem

theorem find?_of_filter_eq {κ : Type} {key : ρ → κ} [DecidableEq κ] {x y : Table key} {p q : ρ → Prop}
    [DecidablePred p] [DecidablePred q] (h : x.rows.filter (fun r => p r) = y.rows.filter (fun r => q r)) {k : κ}
    (hp : ∀ r, key r = k → p r) (hq : ∀ r, key r = k → q r) : x.find? k = y.find? k := by
  apply ext
  intro r
  rw [find?_eq_some, find?_eq_some]
  constructor
  · rintro ⟨hr, hk⟩
    exact ⟨(mem_of_filter_eq h hr (hp r hk)).1, hk⟩
  · rintro ⟨hr, hk⟩
    exact ⟨(mem_of_filter_eq h.symm hr (hq r hk)).1, hk⟩

theorem filter_of_filter_eq {l l' : List ρ} {p q a b : ρ → Prop} [DecidablePred p] [DecidablePred q]
    [DecidablePred a] [DecidablePred b] (h : l.filter (fun r => p r) = l'.filter (fun r => q r))
    (ha : ∀ r ∈ l, a r → p r) (hb : ∀ r ∈ l', b r → q r) (hab : ∀ r ∈ l, p r → (a r ↔ b r)) :
    l.filter (fun r => a r) = l'.filter (fun r => b r) := by
  have hleft : l.filter (fun r => a r) = (l.filter (fun r => p r)).filter (fun r => b r) := by
    rw [List.filter_filter]
    apply filter_congr
    intro r hr
    by_cases hp : p r
    · simp only [hp, decide_true, Bool.and_true, hab r hr hp]
    · have hna : ¬ a r := fun h => hp (ha r hr h)
      simp only [hp, hna, decide_false, Bool.and_false]
  have hright : l'.filter (fun r => b r) = (l'.filter (fun r => q r)).filter (fun r => b r) := by
    rw [List.filter_filter]
    apply filter_congr
    intro r hr
    by_cases hq : q r
    · simp only [hq, decide_true, Bool.and_true]
    · have hnb : ¬ b r := fun h => hq (hb r hr h)
      simp only [hq, hnb, decide_false, Bool.and_false]
  rw [hleft, hright, h]

namespace SameForMember

theorem symm (h : SameForMember userID s t) : SameForMember userID t s :=
  ⟨h.memberships.symm, h.projects.symm, h.conversations.symm, h.assistants.symm, h.messages.symm, h.runs.symm,
    h.visibility.symm, h.userStates.symm⟩

theorem member (h : SameForMember userID s t) {m : MemberRow} (hm : m ∈ s.members) (huser : m.userID = userID)
    (hstate : m.state = .accepted) : m ∈ t.members :=
  (mem_of_filter_eq h.memberships hm ⟨huser, hstate⟩).1

variable {projectID : String}

theorem joined (h : SameForMember userID s t) (hj : s.Joined userID projectID) :
    t.Joined userID projectID := by
  obtain ⟨m, hm, hproject, huser, hstate⟩ := hj
  exact ⟨m, h.member hm huser hstate, hproject, huser, hstate⟩

theorem conversation (h : SameForMember userID s t) {c : ConversationRow} (hc : c ∈ s.conversations)
    (hj : s.Joined userID c.projectID) : c ∈ t.conversations :=
  (mem_of_filter_eq h.conversations hc hj).1

variable {id : String}

section

variable (h : SameForMember userID s t)
include h

theorem reaches (hr : s.Reaches userID id) : t.Reaches userID id := by
  obtain ⟨c, hc, hid, hj⟩ := hr
  exact ⟨c, h.conversation hc hj, hid, h.joined hj⟩

theorem visible_some {x : ConversationRow × ProjectRow × MemberRow}
    (hx : s.visible id userID = some x) : t.visible id userID = some x := by
  obtain ⟨c, p, m⟩ := x
  obtain ⟨⟨hc, hid⟩, ⟨hp, hpid⟩, ⟨hm, hproject, huser, hstate⟩, hrest⟩ := visible_eq_some.mp hx
  have hj : s.Joined userID p.id := ⟨m, hm, hproject, huser, hstate⟩
  exact visible_eq_some.mpr ⟨⟨h.conversation hc (hpid ▸ hj), hid⟩, ⟨(mem_of_filter_eq h.projects hp hj).1, hpid⟩,
    ⟨h.member hm huser hstate, hproject, huser, hstate⟩, hrest⟩

theorem visible (id : String) : s.visible id userID = t.visible id userID := by
  apply ext
  intro x
  exact ⟨h.visible_some, h.symm.visible_some⟩

theorem hiddenFor (hr : s.Reaches userID id) :
    s.hiddenFor userID id = t.hiddenFor userID id := by
  have hfind : s.visibility.find? (id, userID) = t.visibility.find? (id, userID) := by
    refine find?_of_filter_eq h.visibility ?_ ?_
    · rintro ⟨_, _, _⟩ hk
      cases hk
      exact hr
    · rintro ⟨_, _, _⟩ hk
      cases hk
      exact h.reaches hr
  rw [Store.hiddenFor, hfind, Store.hiddenFor]

theorem userState (hr : s.Reaches userID id) :
    s.userStates.find? (id, userID) = t.userStates.find? (id, userID) := by
  refine find?_of_filter_eq h.userStates ?_ ?_
  · rintro ⟨_, _, _, _⟩ hk
    cases hk
    exact hr
  · rintro ⟨_, _, _, _⟩ hk
    cases hk
    exact h.reaches hr

theorem run {r : RunRow} (hr : r ∈ s.runs) (hreach : s.Reaches userID r.conversationID) :
    r ∈ t.runs :=
  (mem_of_filter_eq h.runs hr hreach).1

theorem assistantRunning {assistantID : String}
    (hj : s.Joined userID projectID) (hr : s.assistantRunning projectID assistantID) :
    t.assistantRunning projectID assistantID := by
  obtain ⟨r, hmem, hassistant, hstate, c, hc, hid, rfl⟩ := hr
  exact ⟨r, h.run hmem ⟨c, hc, hid, hj⟩, hassistant, hstate, c, h.conversation hc hj, hid, rfl⟩

theorem activeIn {assistantID : String} (hr : s.Reaches userID id)
    (ha : s.activeIn id assistantID) : t.activeIn id assistantID := by
  obtain ⟨r, hmem, rfl, hassistant, hstate⟩ := ha
  exact ⟨r, h.run hmem hr, rfl, hassistant, hstate⟩

theorem assistantMembers (hj : s.Joined userID projectID)
    (hr : s.Reaches userID id) : s.assistantMembers projectID id = t.assistantMembers projectID id := by
  have hrows : s.assistants.rows.filter (fun a => a.projectID = projectID ∧ a.state = .accepted) =
      t.assistants.rows.filter (fun a => a.projectID = projectID ∧ a.state = .accepted) := by
    refine filter_of_filter_eq h.assistants ?_ ?_ (fun _ _ _ => Iff.rfl)
    · rintro a - ⟨rfl, -⟩
      exact hj
    · rintro a - ⟨rfl, -⟩
      exact h.joined hj
  rw [Store.assistantMembers, Store.assistantMembers, hrows]
  apply map_congr_left
  intro a ha
  rw [mem_filter, decide_eq_true_eq] at ha
  obtain ⟨-, rfl, -⟩ := ha
  have hrunning : s.assistantRunning a.projectID a.assistantID ↔ t.assistantRunning a.projectID a.assistantID :=
    ⟨h.assistantRunning hj, h.symm.assistantRunning (h.joined hj)⟩
  have hactive : s.activeIn id a.assistantID ↔ t.activeIn id a.assistantID :=
    ⟨h.activeIn hr, h.symm.activeIn (h.reaches hr)⟩
  rw [AssistantMember.mk.injEq, decide_eq_decide, decide_eq_decide]
  exact ⟨rfl, hrunning, hactive⟩

theorem locked (hr : s.Reaches userID id) :
    s.runs.rows.any (fun r => r.conversationID = id) = t.runs.rows.any (fun r => r.conversationID = id) := by
  rw [Bool.eq_iff_iff, List.any_eq_true, List.any_eq_true]
  constructor
  · rintro ⟨r, hmem, hid⟩
    rw [decide_eq_true_eq] at hid
    exact ⟨r, h.run hmem (hid ▸ hr), decide_eq_true hid⟩
  · rintro ⟨r, hmem, hid⟩
    rw [decide_eq_true_eq] at hid
    exact ⟨r, h.symm.run hmem (hid ▸ h.reaches hr), decide_eq_true hid⟩

theorem conversationForUser (id : String) (includeHidden : Bool) :
    s.conversationForUser id userID includeHidden = t.conversationForUser id userID includeHidden := by
  rw [Store.conversationForUser, Store.conversationForUser, ← h.visible]
  cases hx : s.visible (trimSpace id) userID with
  | none => rfl
  | some x =>
    obtain ⟨c, p, m⟩ := x
    obtain ⟨⟨hc, _⟩, ⟨_, hpid⟩, ⟨hm, hproject, huser, hstate⟩, -⟩ := visible_eq_some.mp hx
    have hj : s.Joined userID c.projectID := ⟨m, hm, hproject.trans hpid, huser, hstate⟩
    have hr : s.Reaches userID c.id := ⟨c, hc, rfl, hj⟩
    have hhidden := h.hiddenFor hr
    unfold Store.hiddenFor at hhidden
    simp only [orError, elim_some]
    change (require _ _ >>= _) = (require _ _ >>= _)
    rw [hhidden, h.userState hr, h.locked hr, h.assistantMembers hj hr]

theorem project (hj : s.Joined userID projectID)
    (hp : ∃ p ∈ s.projects.rows, p.id = projectID ∧ (p.state = .active ∨ p.state = .transferPending)) :
    ∃ p ∈ t.projects.rows, p.id = projectID ∧ (p.state = .active ∨ p.state = .transferPending) := by
  obtain ⟨p, hp, rfl, hopen⟩ := hp
  exact ⟨p, (mem_of_filter_eq h.projects hp hj).1, rfl, hopen⟩

theorem listedBefore {c c' : ConversationRow} (hr : s.Reaches userID c.id)
    (hr' : s.Reaches userID c'.id) : s.listedBefore userID c c' = t.listedBefore userID c c' := by
  unfold Store.listedBefore pinnedFor pinnedAtFor
  rw [h.userState hr, h.userState hr']

theorem listedIDs (includeHidden : Bool) :
    s.listedIDs userID includeHidden = t.listedIDs userID includeHidden := by
  have hrows : s.conversations.rows.filter (fun c =>
      (∃ p ∈ s.projects.rows, p.id = c.projectID ∧ (p.state = .active ∨ p.state = .transferPending)) ∧
        s.Joined userID c.projectID ∧ (includeHidden = true ∨ s.hiddenFor userID c.id = false) ∧
        (c.kind = .discussion ∨ c.creatorUserID = userID)) =
      t.conversations.rows.filter (fun c =>
        (∃ p ∈ t.projects.rows, p.id = c.projectID ∧ (p.state = .active ∨ p.state = .transferPending)) ∧
          t.Joined userID c.projectID ∧ (includeHidden = true ∨ t.hiddenFor userID c.id = false) ∧
          (c.kind = .discussion ∨ c.creatorUserID = userID)) := by
    refine filter_of_filter_eq h.conversations (fun _ _ ha => ha.2.1) (fun _ _ hb => hb.2.1) ?_
    intro c hc hj
    have hhidden := h.hiddenFor ⟨c, hc, rfl, hj⟩
    rw [hhidden]
    constructor
    · exact fun ⟨hopen, _, hrest⟩ => ⟨h.project hj hopen, h.joined hj, hrest⟩
    · exact fun ⟨hopen, hj', hrest⟩ => ⟨h.symm.project hj' hopen, hj, hrest⟩
  have hsort (l : List ConversationRow) (hl : ∀ c ∈ l, s.Reaches userID c.id) :
      l.mergeSort (s.listedBefore userID) = l.mergeSort (t.listedBefore userID) := by
    have hmap := map_mergeSort (f := id) (r := s.listedBefore userID) (s := t.listedBefore userID) (l := l)
      (fun c hc c' hc' => h.listedBefore (hl c hc) (hl c' hc'))
    rwa [List.map_id, List.map_id] at hmap
  have hreach (c : ConversationRow) (hc : c ∈ s.conversations.rows.filter (fun c =>
      (∃ p ∈ s.projects.rows, p.id = c.projectID ∧ (p.state = .active ∨ p.state = .transferPending)) ∧
        s.Joined userID c.projectID ∧ (includeHidden = true ∨ s.hiddenFor userID c.id = false) ∧
        (c.kind = .discussion ∨ c.creatorUserID = userID))) : s.Reaches userID c.id := by
    rw [mem_filter, decide_eq_true_eq] at hc
    exact ⟨c, hc.1, rfl, hc.2.2.1⟩
  have hlists := congrArg (List.map ConversationRow.id) ((hsort _ hreach).trans
    (congrArg (List.mergeSort · (t.listedBefore userID)) hrows))
  exact hlists

theorem listConversations (includeHidden : Bool) :
    s.listConversations userID includeHidden = t.listConversations userID includeHidden := by
  rw [Store.listConversations, Store.listConversations, h.listedIDs]
  congr 1
  funext id
  exact h.conversationForUser id includeHidden

theorem replays {after : ℤ} {m : MessageRow} (hm : s.Replays userID after m) :
    t.Replays userID after m := by
  obtain ⟨hafter, c, hc, hid, hopen, hj, haddressed⟩ := hm
  exact ⟨hafter, c, h.conversation hc hj, hid, h.project hj hopen, h.joined hj, haddressed⟩

theorem listMessagesForUserAfter (after limit : ℤ) :
    s.listMessagesForUserAfter userID after limit = t.listMessagesForUserAfter userID after limit := by
  have hrows : s.messages.rows.filter (fun m => s.Replays userID after m) =
      t.messages.rows.filter (fun m => t.Replays userID after m) := by
    refine filter_of_filter_eq h.messages ?_ ?_ (fun m _ _ => ⟨h.replays, h.symm.replays⟩)
    · rintro m - ⟨-, c, hc, hid, -, hj, -⟩
      exact ⟨c, hc, hid, hj⟩
    · rintro m - ⟨-, c, hc, hid, -, hj, -⟩
      exact ⟨c, hc, hid, hj⟩
  rw [Store.listMessagesForUserAfter, Store.listMessagesForUserAfter, selectMessages, selectMessages, hrows]

theorem listMessages (hs : Housed s) (ht : Housed t) (id : String)
    (after limit : ℤ) : s.listMessages userID id after limit = t.listMessages userID id after limit := by
  rw [Store.listMessages, Store.listMessages, ← h.conversationForUser]
  cases hv : s.conversationForUser id userID true with
  | error => rfl
  | ok v =>
    obtain ⟨⟨c, p, m⟩, hx, -⟩ := conversationForUser_eq_ok.mp ⟨v, hv⟩
    obtain ⟨⟨hc, hid⟩, ⟨-, hpid⟩, ⟨hm, hproject, huser, hstate⟩, -⟩ := visible_eq_some.mp hx
    have hr : s.Reaches userID c.id := ⟨c, hc, rfl, m, hm, hproject.trans hpid, huser, hstate⟩
    have htrimmed {u : Store} (hu : Housed u) {m : MessageRow} (hm : m ∈ u.messages)
        (h : m.conversationID = id ∧ after < m.seq) : trimSpace id = m.conversationID := by
      obtain ⟨x, hx, hxid⟩ := hu.messages m hm
      rw [← h.1, ← hxid, hu.ids x hx]
    have hrows : s.messages.rows.filter (fun m => m.conversationID = id ∧ after < m.seq) =
        t.messages.rows.filter (fun m => m.conversationID = id ∧ after < m.seq) := by
      refine filter_of_filter_eq h.messages ?_ ?_ (fun _ _ _ => Iff.rfl)
      · intro m hm hsel
        exact htrimmed hs hm hsel ▸ hid ▸ hr
      · intro m hm hsel
        exact htrimmed ht hm hsel ▸ hid ▸ h.reaches hr
    change Except.ok _ = Except.ok _
    rw [selectMessages, selectMessages, hrows]

end

end SameForMember

end Interference

end Store

/-- The replay, the list and the views of one conversation agree on what a user sees, and none of them tells of a
project that the user has not joined. -/
theorem views_agree {c : Config Store Call Outcome} (hc : system.Reachable c) (userID : ℤ) :
    (∀ m ∈ c.store.messages, ∃ x ∈ c.store.conversations, x.id = m.conversationID ∧
      ((∃ after limit, m ∈ c.store.listMessagesForUserAfter userID after limit) ↔ c.store.Sees userID x) ∧
      (∀ after limit, (∃ l, c.store.listMessages userID m.conversationID after limit = .ok l) ↔
        c.store.Sees userID x) ∧
      ((∃ v, c.store.conversationForUser m.conversationID userID true = .ok v) ↔ c.store.Sees userID x) ∧
      ((∃ l, c.store.listConversations userID true = .ok l ∧ ∃ v ∈ l, v.row.id = m.conversationID) ↔
        c.store.Sees userID x) ∧
      ∀ after limit, (m ∈ c.store.listMessagesForUserAfter userID after limit → after < m.seq) ∧
        (c.store.Sees userID x → after < m.seq → m ∈ c.store.listMessagesForUserAfter userID after limit ∨
          (c.store.listMessagesForUserAfter userID after limit).length = Store.pageLimit limit 200 ∧
            ∀ y ∈ c.store.listMessagesForUserAfter userID after limit, y.seq < m.seq)) ∧
    ∀ d, system.Reachable d → Store.SameForMember userID c.store d.store →
      (∀ after limit, c.store.listMessagesForUserAfter userID after limit =
        d.store.listMessagesForUserAfter userID after limit) ∧
      (∀ id after limit, c.store.listMessages userID id after limit = d.store.listMessages userID id after limit) ∧
      (∀ id includeHidden, c.store.conversationForUser id userID includeHidden =
        d.store.conversationForUser id userID includeHidden) ∧
      ∀ includeHidden, c.store.listConversations userID includeHidden =
        d.store.listConversations userID includeHidden := by
  have hs := housed_reachable hc
  refine ⟨?_, ?_⟩
  · intro m hm
    obtain ⟨x, hx, hid⟩ := hs.messages m hm
    refine ⟨x, hx, hid, Store.replay_iff hx hm hid, ?_, ?_, ?_, ?_⟩
    · intro after limit
      rw [← hid]
      exact Store.messages_iff hs hx after limit
    · rw [← hid]
      exact Store.seen_iff hs hx
    · rw [← hid]
      exact Store.listed_iff hs hx
    · intro _ limit
      refine ⟨fun h => (Store.replay_sound hx hid h).1, ?_⟩
      exact fun hsees hafter => Store.replay_complete hx hm hid hsees hafter limit
  · intro d hd hsame
    exact ⟨hsame.listMessagesForUserAfter, hsame.listMessages hs (housed_reachable hd), hsame.conversationForUser,
      hsame.listConversations⟩

namespace VisibilityExample

open OwnershipExample (reached reachable_reached)

def ops : List Op :=
  [.createProject "project-000000001" 1 "S-1-5-1" "Project", .setProvisioningResult "project-000000001" true,
    .createConversation ⟨"conversation-0001", "project-000000001", "Talk", .discussion, 0, "", "", "", "", ""⟩ 1,
    .addMessage ⟨"message-00000001", "conversation-0001", "One", .user, "Hello", [], []⟩ 1,
    .createInvite ⟨"invite-0000000001", "project-000000001", 1, 2, "S-1-5-2", ⟨1000000000000⟩⟩,
    .beginInviteAcceptance "invite-0000000001" 2]

def message : MessageRow :=
  ⟨1, "message-00000001", "conversation-0001", some 1, "One", "", .user, "Hello", [], [], 0⟩

theorem views_agree_discussion : message ∈ (reached ops).store.messages ∧
    (∃ l, (reached ops).store.listMessages 1 "conversation-0001" 0 50 = .ok l) ∧
    ¬ ∃ l, (reached ops).store.listMessages 2 "conversation-0001" 0 50 = .ok l := by
  have hmessage : message ∈ (reached ops).store.messages := by
    rw [← mem_rows]
    decide
  refine ⟨hmessage, ?_, ?_⟩
  · obtain ⟨x, hx, -, -, hlist, -⟩ := (views_agree (reachable_reached (by decide)) 1).1 message hmessage
    apply (hlist 0 50).mpr
    have hall : ∀ c ∈ (reached ops).store.conversations.rows, (reached ops).store.Joined 1 c.projectID ∧
        (∃ p ∈ (reached ops).store.projects.rows, p.id = c.projectID ∧
          (p.state = .active ∨ p.state = .transferPending)) ∧ (c.kind = .discussion ∨ c.creatorUserID = 1) := by
      decide
    obtain ⟨hj, hopen, haddressed⟩ := hall x hx
    exact ⟨hj, hopen, haddressed⟩
  · obtain ⟨x, hx, _, -, hlist, -⟩ := (views_agree (reachable_reached (by decide)) 2).1 message hmessage
    rw [show "conversation-0001" = message.conversationID from rfl, hlist 0 50]
    rintro ⟨hj, -, -⟩
    have hnone : ∀ c ∈ (reached ops).store.conversations.rows, ¬ (reached ops).store.Joined 2 c.projectID := by decide
    exact hnone x hx hj

end VisibilityExample

end WorkAgent.Collaboration
