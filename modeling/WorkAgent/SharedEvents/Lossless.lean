import WorkAgent.SharedEvents.Delivery

namespace WorkAgent.SharedEvents

open Library Function List
open Collaboration (Store MessageRow Mention NewMessage AIRun RunResult MessagesFrom Numbered Posted)

variable {w w' : World} {e : Event} {s s' : Subscriber} {db db' : Store} {m n : MessageRow} {k : ℕ} {c : String} {x : HubMessage}
  {user : ℤ} {es : List Event}

structure Sound (w : World) : Prop where
  numbered : Numbered w.db
  pending : ∀ m, w.Pending m → Seen w.db m
  formed : ∀ k s, w.subscribers k = some s → Formed w.db s

theorem Formed.moved {old : Option Subscriber} (hold : ∀ s, old = some s → Formed db s) (hdb : Numbered db) (h : Moved db old s') : Formed db s' := by
  cases h with
  | connected =>
    refine ⟨.nil, by simp [Subscriber.connected], .inl rfl, by simp [Subscriber.connected], ?_, ?_⟩
    · simp [Subscriber.waiting, Subscriber.connected]
    intro _ _ hmode
    cases hmode
  | listed => exact (hold _ rfl).list hdb
  | wrote hmode => exact (hold _ rfl).writes hmode
  | turned => exact (hold _ rfl).turn
  | passed _ hchannel => exact (hold _ rfl).pass hchannel
  | took hmode hchannel hm => exact (hold _ rfl).takes hmode hchannel hm
  | left => exact (hold _ rfl).leave

theorem Sound.of_messages (h : Sound w) (hdb : MessagesFrom w.db w'.db) (hpending : ∀ m, w'.Pending m → w.Pending m ∨ Seen w'.db m)
    (hformed : ∀ k s, w'.subscribers k = some s → Formed w'.db s) : Sound w' := by
  refine ⟨h.numbered.of_messagesFrom hdb, ?_, hformed⟩
  intro m hm
  rcases hpending m hm with hm | hseen
  · exact (h.pending m hm).mono hdb
  · exact hseen

open Table

theorem mem_posted (h : Posted db db' m) : m ∈ db'.messages := by
  rw [h.messages]
  exact mem_insertOrIgnore.mpr (.inr ⟨rfl, h.fresh⟩)

theorem Sound.change (h : Sound w) (hchange : Change w e w') : Sound w' := by
  cases hchange with
  | stored hdb _ _ hnew hsubs =>
    have hgrow := hdb.messagesFrom
    refine h.of_messages hgrow ?_ ?_
    · intro v hv
      rcases hnew v hv with rfl | hv
      · exact .inr (seen_of_mem (h.numbered.of_messagesFrom hgrow) (mem_posted hdb))
      · exact .inl hv
    · intro k s hk
      rw [hsubs] at hk
      exact (h.formed k s hk).mono hgrow
  | quiet hdb _ _ hnew hsubs =>
    refine h.of_messages hdb (fun v hv => .inl (hnew v hv)) ?_
    intro k s hk
    rw [hsubs] at hk
    exact (h.formed k s hk).mono hdb
  | abandoned hdb _ hnew hsubs =>
    have hgrow := messagesFrom_same (congrArg Store.messages hdb) (congrArg Store.lastSeq hdb)
    refine h.of_messages hgrow (fun v hv => .inl (hnew v hv)) ?_
    intro k s hk
    rw [hsubs] at hk
    exact (h.formed k s hk).mono hgrow
  | published hdb hm _ hnew hsubs =>
    have hgrow := messagesFrom_same (congrArg Store.messages hdb) (congrArg Store.lastSeq hdb)
    refine h.of_messages hgrow (fun v hv => .inl (hnew v hv)) ?_
    intro k s hk
    rw [hsubs] at hk
    obtain ⟨s₀, hs₀, rfl⟩ := Option.map_eq_some_iff.mp hk
    refine ((h.formed k s₀ hs₀).receive ?_).mono hgrow
    intro v hv
    cases hv
    exact h.pending _ hm
  | refreshed hdb hpending hsubs =>
    have hgrow := messagesFrom_same (congrArg Store.messages hdb) (congrArg Store.lastSeq hdb)
    refine h.of_messages hgrow (fun v hv => .inl ((hpending v).mp hv)) ?_
    intro k s hk
    rw [hsubs] at hk
    obtain ⟨s₀, hs₀, rfl⟩ := Option.map_eq_some_iff.mp hk
    refine ((h.formed k s₀ hs₀).receive ?_).mono hgrow
    intro v hv
    cases hv
  | @stream j _ _ hdb hpending hmoved hsubs =>
    have hgrow := messagesFrom_same (congrArg Store.messages hdb) (congrArg Store.lastSeq hdb)
    refine h.of_messages hgrow (fun v hv => .inl ((hpending v).mp hv)) ?_
    intro k s' hk
    rw [hsubs] at hk
    by_cases hj : k = j
    · subst hj
      rw [update_self] at hk
      cases hk
      exact (Formed.moved (fun s₀ hs₀ => h.formed k s₀ hs₀) h.numbered hmoved).mono hgrow
    · rw [update_of_ne hj] at hk
      exact (h.formed k s' hk).mono hgrow
  | restarted hdb hpending hsubs =>
    refine h.of_messages hdb (fun v hv => absurd hv (hpending v)) ?_
    intro k s hk
    rw [hsubs] at hk
    obtain ⟨s₀, hs₀, rfl⟩ := Option.map_eq_some_iff.mp hk
    exact (h.formed k s₀ hs₀).leave.mono hdb

structure Owed (w : World) (s : Subscriber) (c : String) : Prop where
  past : ∀ m ∈ w.db.messages, m.conversationID = c → s.start < number m → number m ≤ s.lastID → m ∈ s.sent
  page : ∀ m ∈ w.db.messages, m.conversationID = c → s.lastID < number m → ∀ values full, s.mode = .writing values full →
    m ∈ values ∨ ∀ v ∈ values, number v < number m
  due : ∀ m ∈ w.db.messages, m.conversationID = c → s.lastID < number m → s.mode.Relies m →
    Due number (Readable w.db s.userID) s.waiting m ∧ (s.isOpen = true → m ∈ s.waiting ∨ w.Pending m)

theorem owed_connected {userID start : ℤ} : Owed w (.connected userID start) c := by
  constructor
  · intro m _ _ habove hle
    exact absurd habove (not_lt.mpr hle)
  · intro m _ _ _ _ _ hmode
    cases hmode
  · intro m _ _ _ hrelies
    cases hrelies

theorem Owed.list (h : Owed w s c) (hreads : Reads w.db s.userID c) : Owed w (s.list w.db) c := by
  constructor
  · exact h.past
  · intro m hm hc habove _ _ hmode
    obtain ⟨rfl, -⟩ := Mode.writing.inj hmode
    rcases mem_page hm habove (hc ▸ hreads.2) with hpage | ⟨-, hlower⟩
    · exact .inl hpage
    · exact .inr hlower
  · intro m hm hc habove hrelies
    obtain ⟨hfull, hout⟩ : decide ((s.page w.db).length = pageSize) = false ∧ m ∉ s.page w.db := hrelies
    rcases mem_page hm habove (hc ▸ hreads.2) with hpage | ⟨hlength, -⟩
    · exact absurd hpage hout
    · exact absurd hlength (of_decide_eq_false hfull)

theorem Owed.write {values : List MessageRow} {full : Bool} (h : Owed w s c) (hform : Formed w.db s)
    (hmode : s.mode = .writing (m :: values) full) : Owed w ((s.write m).turn (.writing values full)) c := by
  obtain ⟨hsorted, hvalues⟩ := hform.pages _ _ hmode
  rw [pairwise_cons] at hsorted
  have hm := (hvalues m (by simp)).1
  constructor
  · intro v hv hc hstart hle
    change number v ≤ number m at hle
    change v ∈ s.sent ++ [m]
    rw [mem_append, mem_singleton]
    by_cases hpast : number v ≤ s.lastID
    · exact .inl (h.past v hv hc hstart hpast)
    · rcases h.page v hv hc (not_le.mp hpast) _ _ hmode with hpage | hlower
      · rcases mem_cons.mp hpage with rfl | hlater
        · exact .inr rfl
        · exact absurd (hsorted.1 v hlater) (not_lt.mpr hle)
      · exact absurd (hlower m (by simp)) (not_lt.mpr hle)
  · intro v hv hc habove _ _ hmode'
    obtain ⟨rfl, rfl⟩ := Mode.writing.inj hmode'
    change number m < number v at habove
    rcases h.page v hv hc (hm.trans habove) _ _ hmode with hpage | hlower
    · rcases mem_cons.mp hpage with rfl | hlater
      · exact absurd habove (lt_irrefl _)
      · exact .inl hlater
    · exact .inr fun y hy => hlower y (by simp [hy])
  · intro v hv hc habove hrelies
    change number m < number v at habove
    obtain ⟨hfull, hout⟩ : full = false ∧ v ∉ values := hrelies
    apply h.due v hv hc (hm.trans habove)
    rw [hmode]
    refine ⟨hfull, ?_⟩
    rw [mem_cons]
    rintro (rfl | hv)
    · exact lt_irrefl _ habove
    · exact hout hv

theorem Owed.turn {full : Bool} (h : Owed w s c) (hmode : s.mode = .writing [] full) :
    Owed w (s.turn (if full then .listing else .live)) c := by
  constructor
  · exact h.past
  · intro m _ _ _ _ _ hmode'
    cases full <;> cases hmode'
  · intro m hm hc habove hrelies
    cases full with
    | true => cases hrelies
    | false =>
      apply h.due m hm hc habove
      rw [hmode]
      exact ⟨rfl, by simp⟩

open Subscriber (waiting)

theorem waiting_cons {rest : List HubMessage} (hchannel : s.channel = x :: rest) :
    s.waiting = x.message?.toList ++ (s.pass rest).waiting := by
  unfold waiting Subscriber.pass
  rw [hchannel, filterMap_cons]
  cases x.message? <;> rfl

theorem waiting_rest {rest : List HubMessage} {P : MessageRow → Prop} (hchannel : s.channel = x :: rest) (hx : x ≠ .message m)
    (hdue : Due number P s.waiting m) :
    (∀ y, x = .message y → P y → number y < number m) ∧ Due number P (s.pass rest).waiting m ∧
      (m ∈ s.waiting → m ∈ (s.pass rest).waiting) := by
  rw [waiting_cons hchannel] at hdue ⊢
  cases x with
  | refresh => exact ⟨fun _ h => (nomatch h), hdue, id⟩
  | message y =>
    have hne : y ≠ m := fun heq => hx (congrArg HubMessage.message heq)
    obtain ⟨hlt, hdue⟩ := Due.next hdue hne
    refine ⟨?_, hdue, ?_⟩
    · intro z hz
      obtain rfl := HubMessage.message.inj hz
      exact hlt
    · intro hm
      rcases mem_cons.mp hm with rfl | hm
      · exact absurd rfl hne
      · exact hm

section

variable (h : Owed w s c)
include h

theorem Owed.pass {rest : List HubMessage} (hreads : Reads w.db s.userID c) (hmode : s.mode = .live)
    (hchannel : s.channel = x :: rest)
    (hx : ∀ m, x = .message m → number m ≤ s.lastID ∨ ¬ Readable w.db s.userID m) : Owed w (s.pass rest) c := by
  constructor
  · exact h.past
  · intro m _ _ _ values full hmode'
    have hlive : s.mode = .writing values full := hmode'
    rw [hmode] at hlive
    cases hlive
  · intro m hm hc habove hrelies
    obtain ⟨hdue, hthere⟩ := h.due m hm hc habove hrelies
    have hne : x ≠ .message m := by
      intro heq
      rcases hx m heq with hle | hrefused
      · exact absurd habove (not_lt.mpr hle)
      · exact hrefused (Reads.readable (hc ▸ hreads))
    obtain ⟨-, hdue, hkept⟩ := waiting_rest hchannel hne hdue
    exact ⟨hdue, fun hopen => (hthere hopen).imp_left hkept⟩

theorem Owed.take {rest : List HubMessage} (hmode : s.mode = .live) (hchannel : s.channel = .message n :: rest)
    (hn : s.lastID < number n) (hreadable : Readable w.db s.userID n) : Owed w ((s.write n).pass rest) c := by
  have hrelies (m : MessageRow) : s.mode.Relies m := by
    rw [hmode]
    trivial
  have hne {m : MessageRow} (heq : m ≠ n) : HubMessage.message n ≠ .message m := fun h => heq (HubMessage.message.inj h).symm
  constructor
  · intro m hm hc hstart hle
    change number m ≤ number n at hle
    change m ∈ s.sent ++ [n]
    rw [mem_append, mem_singleton]
    by_cases hpast : number m ≤ s.lastID
    · exact .inl (h.past m hm hc hstart hpast)
    · by_cases heq : m = n
      · exact .inr heq
      · obtain ⟨hdue, -⟩ := h.due m hm hc (not_le.mp hpast) (hrelies m)
        obtain ⟨hlower, -⟩ := waiting_rest hchannel (hne heq) hdue
        exact absurd (hlower n rfl hreadable) (not_lt.mpr hle)
  · intro m _ _ _ values full hmode'
    have hlive : s.mode = .writing values full := hmode'
    rw [hmode] at hlive
    cases hlive
  · intro m hm hc habove _
    change number n < number m at habove
    have heq : m ≠ n := by
      rintro rfl
      exact lt_irrefl _ habove
    obtain ⟨hdue, hthere⟩ := h.due m hm hc (hn.trans habove) (hrelies m)
    obtain ⟨-, hdue, hkept⟩ := waiting_rest hchannel (hne heq) hdue
    exact ⟨hdue, fun hopen => (hthere hopen).imp_left hkept⟩

theorem Owed.leave : Owed w s.leave c := by
  constructor
  · exact h.past
  · intro m _ _ _ _ _ hmode
    cases hmode
  · intro m _ _ _ hrelies
    cases hrelies

theorem Owed.restart (hform : Formed w.db s) (hdb : MessagesFrom w.db w'.db) : Owed w' s.leave c := by
  constructor
  · intro m hm hc hstart hle
    rcases hdb.origin m hm with hm | ⟨_, -⟩
    · exact h.past m hm hc hstart hle
    · have hle := hform.lastID_le hle hstart
      omega
  · intro m _ _ _ _ _ hmode
    cases hmode
  · intro m _ _ _ hrelies
    cases hrelies

theorem Owed.moved (hform : Formed w.db s) (hreads : Reads w.db s.userID c) (hmoved : Moved w.db (some s) s') :
    Owed w s' c := by
  cases hmoved with
  | listed => exact h.list hreads
  | wrote hmode => exact h.write hform hmode
  | turned hmode => exact h.turn hmode
  | passed hmode hchannel hx => exact h.pass hreads hmode hchannel hx
  | took hmode hchannel hm hreadable => exact h.take hmode hchannel hm hreadable
  | left => exact h.leave

end

theorem Moved.fields (h : Moved db (some s) s') : s'.userID = s.userID ∧ s'.start = s.start := by
  cases h <;> exact ⟨rfl, rfl⟩

section

variable (h : Owed w s c)
include h

theorem Owed.due_of_admits (hsound : Sound w) (hk : w.subscribers k = some s) (hreads : Reads w.db s.userID c)
    (hadmits : s.Admits w.db db') (hm : m ∈ w.db.messages) (hc : m.conversationID = c) (habove : s.lastID < number m)
    (hrelies : s.mode.Relies m) : Due number (Readable db' s.userID) s.waiting m := by
  apply (h.due m hm hc habove hrelies).1.mono
  intro before n after hsplit hout hne hreadable
  have hseen : Seen w.db n := (hsound.formed k s hk).waiting n (by simp [hsplit])
  have hother : n.seq ≠ m.seq := fun heq => hne (hseen.same m hm heq.symm).symm
  by_cases hlt : m.seq < n.seq
  · exact .inl (hadmits m ⟨hc ▸ hreads, habove, hrelies⟩ before n after hsplit hout hlt hreadable)
  · rw [number_lt]
    exact .inr (by omega)

theorem Owed.subset (hsound : Sound w) (hk : w.subscribers k = some s) (hreads : Reads w.db s.userID c)
    (hadmits : s.Admits w.db w'.db) (hmem : ∀ m ∈ w'.db.messages, m ∈ w.db.messages)
    (hpending : ∀ m, w.Pending m → s.isOpen = true → s.Awaits w.db m → w'.Pending m) : Owed w' s c := by
  refine ⟨fun m hm => h.past m (hmem m hm), fun m hm => h.page m (hmem m hm), ?_⟩
  intro m hm hc habove hrelies
  refine ⟨h.due_of_admits hsound hk hreads hadmits (hmem m hm) hc habove hrelies, ?_⟩
  intro hopen
  apply ((h.due m (hmem m hm) hc habove hrelies).2 hopen).imp_right
  intro hm
  exact hpending m hm hopen ⟨hc ▸ hreads, habove, hrelies⟩

theorem Owed.congr (hdb : w'.db = w.db) (hpending : ∀ m, w.Pending m → w'.Pending m) : Owed w' s c := by
  constructor
  · rw [hdb]
    exact h.past
  · rw [hdb]
    exact h.page
  · rw [hdb]
    intro m hm hc habove hrelies
    obtain ⟨hdue, hthere⟩ := h.due m hm hc habove hrelies
    exact ⟨hdue, fun hopen => (hthere hopen).imp_right (hpending m)⟩

theorem Owed.stored (hsound : Sound w) (hk : w.subscribers k = some s) (hreads : Reads w.db s.userID c)
    (hadmits : s.Admits w.db w'.db) (hdb : Posted w.db w'.db n) (hn : w'.Pending n) (hold : ∀ v, w.Pending v → w'.Pending v) :
    Owed w' s c := by
  have hform := hsound.formed k s hk
  have hseq := hdb.seq
  have hnew {v : MessageRow} (hv : Seen w.db v) : number v < number n := by
    rw [number_lt]
    have hle := hv.lastSeq
    omega
  have hmem {m : MessageRow} (hm : m ∈ w'.db.messages) : m ∈ w.db.messages ∨ m = n := by
    rw [hdb.messages, mem_insertOrIgnore] at hm
    exact hm.imp_right And.left
  constructor
  · intro m hm hc hstart hle
    rcases hmem hm with hm | rfl
    · exact h.past m hm hc hstart hle
    · have hle := hform.lastID_le hle hstart
      omega
  · intro m hm hc habove values full hmode
    rcases hmem hm with hm | rfl
    · exact h.page m hm hc habove values full hmode
    · exact .inr fun v hv => hnew ((hform.pages values full hmode).2 v hv).2
  · intro m hm hc habove hrelies
    rcases hmem hm with hm | rfl
    · have hthere := (h.due m hm hc habove hrelies).2
      exact ⟨h.due_of_admits hsound hk hreads hadmits hm hc habove hrelies, fun hopen => (hthere hopen).imp_right (hold m)⟩
    · exact ⟨.of_lt fun v hv => hnew (hform.waiting v hv), fun _ => .inr hn⟩

theorem Owed.receive (hdb : w'.db = w.db)
    (hlater : ∀ n m, x = .message n → m ∈ w.db.messages → m.conversationID = c → s.lastID < number m → s.mode.Relies m → s.isOpen = true →
      w.Pending m → n ≠ m → Readable w.db s.userID n → number n < number m)
    (hpending : ∀ m, w.Pending m → x = .message m ∨ w'.Pending m) : Owed w' (s.receive x) c := by
  obtain ⟨huser, hstart, hlast, hsent, hmode⟩ := receive_fields (s := s) (x := x)
  constructor
  · rw [hdb, hstart, hlast, hsent]
    exact h.past
  · rw [hdb, hlast, hmode]
    exact h.page
  · rw [hdb, hlast, hmode, huser]
    intro m hm hc habove hrelies
    obtain ⟨hdue, hthere⟩ := h.due m hm hc habove hrelies
    rcases waiting_receive (s := s) (x := x) with ⟨hshut, hsame⟩ | ⟨hopen, hpushed⟩
    · rw [hsame]
      refine ⟨hdue, ?_⟩
      rw [hshut]
      exact fun h => (nomatch h)
    · rw [hpushed]
      constructor
      · cases x with
        | refresh => simpa [HubMessage.message?] using hdue
        | message n =>
          apply Due.push hdue
          intro hout hne hreadable
          have hwaits := (hthere hopen).resolve_left hout
          exact hlater n m rfl hm hc habove hrelies hopen hwaits hne hreadable
      · intro _
        rw [mem_append]
        rcases hthere hopen with hthere | hwaits
        · exact .inl (.inl hthere)
        · rcases hpending m hwaits with rfl | hwaits
          · exact .inl (.inr (by simp [HubMessage.message?]))
          · exact .inr hwaits

theorem Owed.change (hsound : Sound w) (hk : w.subscribers k = some s) (hreads : Reads w.db s.userID c)
    (hchange : Change w e w') (hcareful : Careful w w' e) :
    ∃ s', w'.subscribers k = some s' ∧ s'.userID = s.userID ∧ s'.start = s.start ∧ Owed w' s' c := by
  cases hchange with
  | stored hdb hm hold _ hsubs =>
    rw [hsubs]
    exact ⟨s, hk, rfl, rfl, h.stored hsound hk hreads (hcareful k s hk) hdb hm hold⟩
  | quiet _ hmem hold _ hsubs =>
    rw [hsubs]
    exact ⟨s, hk, rfl, rfl, h.subset hsound hk hreads (hcareful k s hk) hmem (fun m hm _ _ => hold m hm)⟩
  | @abandoned n _ hdb hold _ hsubs =>
    rw [hsubs]
    refine ⟨s, hk, rfl, rfl, ?_⟩
    apply h.subset hsound hk hreads
    · rw [hdb]
      exact fun m _ before n after _ _ _ hreadable => hreadable
    · rw [hdb]
      exact fun m hm => hm
    · intro m hm hopen hawaits
      rcases hold m hm with rfl | hm
      · exact absurd hawaits (hcareful k s hk hopen)
      · exact hm
  | @published n _ hdb hn hold _ hsubs =>
    rw [hsubs]
    obtain ⟨huser, hstart, -⟩ := receive_fields (s := s) (x := .message n)
    refine ⟨s.receive (.message n), by simp [hk], huser, hstart, ?_⟩
    apply h.receive hdb
    · rintro _ m hsame hm hc habove hrelies hopen hwaits hne hreadable
      obtain rfl := HubMessage.message.inj hsame
      have hnot : ¬ m.seq < n.seq := fun hlt => hcareful k s m hk hopen hwaits hlt ⟨hc ▸ hreads, habove, hrelies⟩ hreadable
      have hother : n.seq ≠ m.seq := fun heq => hne ((hsound.pending n hn).same m hm heq.symm).symm
      rw [number_lt]
      omega
    · intro m hm
      exact (hold m hm).imp_left (congrArg HubMessage.message ·.symm)
  | @refreshed userID _ hdb hpending hsubs =>
    rw [hsubs]
    obtain ⟨huser, hstart, -⟩ := receive_fields (s := s) (x := .refresh userID)
    refine ⟨s.receive (.refresh userID), by simp [hk], huser, hstart, ?_⟩
    apply h.receive hdb
    · intro n m hsame
      cases hsame
    · exact fun m hm => .inr ((hpending m).mpr hm)
  | @stream j s₁ _ hdb hpending hmoved hsubs =>
    rw [hsubs]
    by_cases hj : k = j
    · subst hj
      rw [hk] at hmoved
      obtain ⟨huser, hstart⟩ := hmoved.fields
      refine ⟨s₁, update_self .., huser, hstart, ?_⟩
      exact (h.moved (hsound.formed k s hk) hreads hmoved).congr hdb fun m => (hpending m).mpr
    · exact ⟨s, (update_of_ne hj ..).trans hk, rfl, rfl, h.congr hdb fun m => (hpending m).mpr⟩
  | restarted hdb _ hsubs =>
    rw [hsubs]
    exact ⟨s.leave, by simp [hk], rfl, rfl, h.restart (hsound.formed k s hk) hdb⟩

end

theorem Change.messagesFrom (h : Change w e w') : MessagesFrom w.db w'.db := by
  cases h with
  | stored hdb => exact hdb.messagesFrom
  | quiet hdb | restarted hdb => exact hdb
  | abandoned hdb | published hdb | refreshed hdb | stream hdb =>
    exact messagesFrom_same (congrArg Store.messages hdb) (congrArg Store.lastSeq hdb)

def ReadingStep (user : ℤ) (c : String) (w : World) (e : Event) (w' : World) : Prop := CarefulStep w e w' ∧ Reads w'.db user c

structure Begins (w : World) : Prop where
  numbered : Numbered w.db
  handlers : ∀ k, w.handlers k = none
  subscribers : ∀ k, w.subscribers k = none

structure Lossless (w : World) (c : String) (start : ℤ) (got : List MessageRow) (s : Subscriber) : Prop where
  increasing : got.Pairwise (fun a b => number a < number b)
  above : ∀ m ∈ got, start < number m ∧ number m ≤ s.lastID
  last : s.lastID = start ∨ ∃ m ∈ got, number m = s.lastID
  stored : ∀ m ∈ got, Seen w.db m
  gapless : ∀ m ∈ w.db.messages, m.conversationID = c → start < number m → number m ≤ s.lastID → m ∈ got
  complete : s.isOpen = true → s.mode = .live → s.channel = [] → ∀ m ∈ w.db.messages, m.conversationID = c → start < number m →
    ¬ w.Pending m → m ∈ got

theorem Begins.sound (h : Begins w) : Sound w := by
  refine ⟨h.numbered, ?_, ?_⟩
  · rintro m ⟨k, g, hk, -⟩
    rw [h.handlers] at hk
    cases hk
  · intro k s hk
    rw [h.subscribers] at hk
    cases hk

theorem Sound.run (h : Sound w) (hrun : Execution CarefulStep w es w') : Sound w' :=
  hrun.invariant h fun _ _ _ hs hstep => hs.change (change_step hstep.1)

theorem Sound.connect {start : ℤ} (h : Sound w) (hnew : w.subscribers k = none) : Sound (w.connect k user start) :=
  h.change (change_step (.connects user start hnew))

theorem owed_run {start : ℤ} (hw : Sound w) (hnew : w.subscribers k = none) (hreads : Reads w.db user c)
    (hrun : Execution (ReadingStep user c) (w.connect k user start) es w') :
    Sound w' ∧ Reads w'.db user c ∧ MessagesFrom w.db w'.db ∧
      ∃ s, w'.subscribers k = some s ∧ s.userID = user ∧ s.start = start ∧ Owed w' s c := by
  refine hrun.invariant (I := fun w' => Sound w' ∧ Reads w'.db user c ∧ MessagesFrom w.db w'.db ∧
    ∃ s, w'.subscribers k = some s ∧ s.userID = user ∧ s.start = start ∧ Owed w' s c) ?_ ?_
  · exact ⟨hw.connect hnew, hreads, messagesFrom_refl _, _, update_self .., rfl, rfl, owed_connected⟩
  · rintro w e _ ⟨hw, hreads, hgrown, s, hk, rfl, rfl, howed⟩ ⟨⟨hstep, hcareful⟩, hreads'⟩
    have hchange := change_step hstep
    obtain ⟨s', hk', huser, hstart, howed'⟩ := howed.change hw hk hreads hchange hcareful
    exact ⟨hw.change hchange, hreads', hgrown.trans hchange.messagesFrom, s', hk', huser, hstart, howed'⟩

theorem Owed.lossless (h : Owed w s c) (hform : Formed w.db s) : Lossless w c s.start s.sent s := by
  refine ⟨hform.sorted, hform.above, hform.last, hform.sent, h.past, ?_⟩
  intro hopen hmode hchannel m hm hc hstart hpublished
  by_cases hle : number m ≤ s.lastID
  · exact h.past m hm hc hstart hle
  · have hrelies : s.mode.Relies m := by
      rw [hmode]
      trivial
    rcases (h.due m hm hc (not_le.mp hle) hrelies).2 hopen with hthere | hpending
    · simp [waiting, hchannel] at hthere
    · exact absurd hpending hpublished

theorem Lossless.start_le {start : ℤ} {got : List MessageRow} (h : Lossless w c start got s) : start ≤ s.lastID := by
  rcases h.last with hlast | ⟨m, hm, hlast⟩
  · exact hlast.ge
  · exact hlast ▸ (h.above m hm).1.le

theorem Lossless.resume {start : ℤ} {got : List MessageRow} (h : Lossless w c start got s) (hgrown : MessagesFrom w.db w'.db)
    (h' : Lossless w' c s.lastID s'.sent s') : Lossless w' c start (got ++ s'.sent) s' := by
  have hstart := h.start_le
  have hlast := h'.start_le
  have hold : ∀ m ∈ w'.db.messages, m.conversationID = c → start < number m → number m ≤ s.lastID → m ∈ got := by
    intro m hm hc habove hle
    rcases hgrown.origin m hm with hm | ⟨_, -⟩
    · exact h.gapless m hm hc habove hle
    · rcases h.last with hsame | ⟨v, hv, hv'⟩
      · omega
      · have hle' := (h.stored v hv).lastSeq
        unfold number at hle hv'
        omega
  refine ⟨?_, ?_, ?_, ?_, ?_, ?_⟩
  · rw [pairwise_append]
    refine ⟨h.increasing, h'.increasing, ?_⟩
    intro a ha b hb
    exact (h.above a ha).2.trans_lt (h'.above b hb).1
  · intro m hm
    rcases mem_append.mp hm with hm | hm
    · obtain ⟨habove, hle⟩ := h.above m hm
      exact ⟨habove, hle.trans hlast⟩
    · obtain ⟨habove, hle⟩ := h'.above m hm
      exact ⟨hstart.trans_lt habove, hle⟩
  · rcases h'.last with hsame | ⟨m, hm, hsame⟩
    · rw [hsame]
      exact h.last.imp_right fun ⟨m, hm, hsame⟩ => ⟨m, mem_append_left _ hm, hsame⟩
    · exact .inr ⟨m, mem_append_right _ hm, hsame⟩
  · intro m hm
    rcases mem_append.mp hm with hm | hm
    · exact (h.stored m hm).mono hgrown
    · exact h'.stored m hm
  · intro m hm hc habove hle
    rw [mem_append]
    by_cases hbefore : number m ≤ s.lastID
    · exact .inl (hold m hm hc habove hbefore)
    · exact .inr (h'.gapless m hm hc (not_le.mp hbefore) hle)
  · intro hopen hmode hchannel m hm hc habove hpublished
    rw [mem_append]
    by_cases hbefore : number m ≤ s.lastID
    · exact .inl (hold m hm hc habove hbefore)
    · exact .inr (h'.complete hopen hmode hchannel m hm hc (not_le.mp hbefore) hpublished)

/-- A client reads over one stream after another, each from the last number it has got; `got` came before the stream `k`. -/
inductive Follows (w₀ : World) (user : ℤ) (c : String) (start : ℤ) : List MessageRow → ℕ → World → Prop
  | connected {k : ℕ} {w w' : World} {es es' : List Event} (hbefore : Execution CarefulStep w₀ es w) (hnew : w.subscribers k = none)
      (hreads : Reads w.db user c) (hrun : Execution (ReadingStep user c) (w.connect k user start) es' w') :
      Follows w₀ user c start [] k w'
  | reconnected {k j : ℕ} {w w' : World} {s : Subscriber} {got : List MessageRow} {es : List Event} (h : Follows w₀ user c start got k w)
      (hk : w.subscribers k = some s) (hnew : w.subscribers j = none)
      (hrun : Execution (ReadingStep user c) (w.connect j user s.lastID) es w') : Follows w₀ user c start (got ++ s.sent) j w'

/-- In a careful run no client that may read a conversation loses a message of it. -/
theorem lossless_of_careful {w₀ : World} {start : ℤ} {got : List MessageRow} (hw : Begins w₀) (h : Follows w₀ user c start got k w) :
    ∃ s, w.subscribers k = some s ∧ Lossless w c start (got ++ s.sent) s := by
  have hinv : Sound w ∧ Reads w.db user c ∧ ∃ s, w.subscribers k = some s ∧ Lossless w c start (got ++ s.sent) s := by
    induction h with
    | connected hbefore hnew hreads hrun =>
      obtain ⟨hsound, hreads', -, s, hk, -, rfl, howed⟩ := owed_run (hw.sound.run hbefore) hnew hreads hrun
      exact ⟨hsound, hreads', s, hk, howed.lossless (hsound.formed _ _ hk)⟩
    | reconnected _ hk hnew hrun ih =>
      obtain ⟨hsound, hreads, s, hk', hlossless⟩ := ih
      cases hk.symm.trans hk'
      obtain ⟨hsound', hreads', hgrown, s', hs', -, hstart, howed⟩ := owed_run hsound hnew hreads hrun
      have hlater := howed.lossless (hsound'.formed _ _ hs')
      rw [hstart] at hlater
      exact ⟨hsound', hreads', s', hs', hlossless.resume hgrown hlater⟩
  exact hinv.2.2

namespace RejectedRun

def conversation : Collaboration.ConversationRow :=
  ⟨"conversation-0041", "project-000000041", "Talk", "assistant", "codex", "model", "low", .idle, 0, 0, 0, .discussion, 1, ""⟩

def base : Store :=
  ⟨⟨[⟨"project-000000041", 1, "S-1-5-41", "Project", .active, none, 0, 0⟩], by simp⟩,
    ⟨[⟨"project-000000041", 1, "S-1-5-41", .owner, .accepted, false, 0⟩], by simp⟩, .empty, .empty, .empty, ⟨[conversation], by simp⟩,
    .empty, .empty, .empty, 0, .empty, .empty,
    ⟨[⟨"project-000000041", "assistant", "Assistant", "codex", "model", "low", .accepted, 0⟩], by simp⟩, .empty, .empty⟩

def message (mentions : List Mention) : NewMessage :=
  ⟨"message-000000041", "conversation-0041", "Owner", .user, "Hello", mentions, []⟩

def asked (mentions : List Mention) : MessageRow :=
  ⟨1, "message-000000041", "conversation-0041", some 1, "Owner", "", .user, "Hello", mentions, [], 0⟩

def posted (mentions : List Mention) : Store := ((base.addMessage (message mentions) 1 0).toOption.map Prod.snd).getD base

def touched (mentions : List Mention) : Store :=
  (((posted mentions).touchConversation "conversation-0041" 0).toOption.map Prod.snd).getD base

theorem adds (mentions : List Mention) : base.addMessage (message mentions) 1 0 = .ok (asked mentions, posted mentions) := rfl

theorem touches (mentions : List Mention) : (posted mentions).touchConversation "conversation-0041" 0 = .ok ((), touched mentions) := rfl

def assistant : Mention := ⟨"assistant", "assistant"⟩

def reservation : Except Collaboration.Error (AIRun × Store) :=
  (touched [assistant]).reserveAssistantRun "run-0000000000041" ⟨1, "message-000000041", "conversation-0041"⟩ 1 "assistant" "session" 0

def reserved : Store := (reservation.toOption.map Prod.snd).getD base

def run : AIRun :=
  ⟨"run-0000000000041", "assistant", "Assistant", "model", "low", "session", "conversation-0041", "message-000000041", "codex", 1, "S-1-5-41",
    1, "S-1-5-41", 0, 1, ""⟩

def rejection : RunResult := ⟨"failure-000000041", "", "", some .other⟩

def failure : MessageRow :=
  ⟨2, "failure-000000041", "conversation-0041", none, "Assistant", "assistant", .system,
    "AI run failed; the triggering messages remain available for retry.", [], [], 0⟩

def failed : Store := ((reserved.finishAIRun run rejection 0).toOption.map Prod.snd).getD base

theorem rejects : reserved.finishAIRun run rejection 0 = .ok (failure, failed) := rfl

def began : World := ⟨base, fun _ => none, none, fun _ => none⟩

def stream : Subscriber := (Subscriber.connected 1 0).list base

def live : World := ((began.connect 0 1 0).subscriber 0 stream).subscriber 0 (stream.turn .live)

theorem careful_of_db (w w' : World) (hdb : w'.db = w.db) : Careful w w' .other := by
  intro k s _ m _ _ n _ _ _ _ hreadable
  rwa [hdb] at hreadable

theorem reads_base : Reads base 1 "conversation-0041" := ⟨⟨_, rfl⟩, rfl⟩

theorem live_run : Execution (ReadingStep 1 "conversation-0041") (began.connect 0 1 0) ([] ++ [.other] ++ [.other]) live := by
  have hlists : Step (began.connect 0 1 0) .other ((began.connect 0 1 0).subscriber 0 stream) := .lists rfl rfl
  have hmode : stream.mode = .writing [] false := by decide +kernel
  have hturns : Step ((began.connect 0 1 0).subscriber 0 stream) .other live := .turns rfl hmode
  have hcareful := careful_of_db (began.connect 0 1 0) ((began.connect 0 1 0).subscriber 0 stream) rfl
  have hcareful' := careful_of_db ((began.connect 0 1 0).subscriber 0 stream) live rfl
  exact (Execution.start.step ⟨⟨hlists, hcareful⟩, reads_base⟩).step ⟨⟨hturns, hcareful'⟩, reads_base⟩

theorem careful_of_subscribers {w w' : World} (hsubs : w.subscribers = live.subscribers) : Careful w w' .other := by
  intro k s hk m _ before n _ hsplit
  rw [hsubs] at hk
  by_cases heq : k = 0
  · subst heq
    obtain rfl : stream.turn .live = s := Option.some.inj hk
    cases before <;> cases hsplit
  · have hnone : live.subscribers k = none := by
      simp [live, began, World.subscriber, World.connect, heq]
    rw [hnone] at hk
    cases hk

section Posting

variable (mentions : List Mention)

def arrived : World := live.handle 0 .waiting

def locked : World := (arrived.handle 0 .locked).lock 0

def added : World := (locked.withDB (posted mentions)).handle 0 (.added (asked mentions))

def starting : World := ((added mentions).withDB (touched mentions)).handle 0 (.starting (asked mentions) mentions)

theorem reads_posted : Reads (posted mentions) 1 "conversation-0041" := ⟨⟨_, rfl⟩, rfl⟩

theorem reads_touched : Reads (touched mentions) 1 "conversation-0041" := ⟨⟨_, rfl⟩, rfl⟩

theorem starting_run : Execution (ReadingStep 1 "conversation-0041") live ([] ++ [.other] ++ [.other] ++ [.other] ++ [.other])
    (starting mentions) := by
  have harrives : Step live .other arrived := .arrives rfl
  have hlocks : Step arrived .other locked := .locks rfl rfl
  have hadds : Step locked .other (added mentions) := .adds rfl (adds mentions)
  have htouches : Step (added mentions) .other (starting mentions) := .touches rfl (touches mentions)
  have hlocked : Execution (ReadingStep 1 "conversation-0041") live ([] ++ [.other] ++ [.other]) locked :=
    (Execution.start.step ⟨⟨harrives, careful_of_db live arrived rfl⟩, reads_base⟩).step ⟨⟨hlocks, careful_of_db arrived locked rfl⟩, reads_base⟩
  have hadded := hlocked.step ⟨⟨hadds, careful_of_subscribers rfl⟩, reads_posted mentions⟩
  exact hadded.step ⟨⟨htouches, careful_of_subscribers rfl⟩, reads_touched mentions⟩

end Posting

def rejecting : World := (((starting [assistant]).withDB reserved).withDB failed).handle 0 (.rejecting (asked [assistant]) [] failure)

def failurePublished : World := (rejecting.publish (.message failure)).handle 0 (.starting (asked [assistant]) [])

def bothPublished : World := ((failurePublished.publish (.message (asked [assistant]))).handle 0 .done).unlock

def behind : Subscriber := ((stream.turn .live).receive (.message failure)).receive (.message (asked [assistant]))

def ahead : Subscriber := (behind.write failure).pass [.message (asked [assistant])]

/-- The notice of the rejection goes out before the message that it answers, and the stream then passes that over. -/
theorem message_passed : ∃ es w s, Execution Step began es w ∧ w.subscribers 0 = some s ∧ ¬ Lossless w "conversation-0041" 0 s.sent s := by
  have hconnects : Step began .other (began.connect 0 1 0) := .connects 1 0 rfl
  have hstarting := (Execution.single hconnects).trans ((live_run.trans (starting_run [assistant])).mono fun _ _ _ h => h.1.1)
  have hreserves : Step (starting [assistant]) .other ((starting [assistant]).withDB reserved) := .elsewhere ⟨rfl, fun _ hm => hm⟩
  have hrejects : Step ((starting [assistant]).withDB reserved) .other rejecting := .rejects rfl rfl (by decide) rejects
  have hfails : Step rejecting (.published failure) failurePublished := .publishesFailure rfl
  have hpublishes : Step failurePublished (.published (asked [assistant])) bothPublished := .publishes rfl
  obtain ⟨c, hc⟩ : ∃ c, failed.conversationForUser "conversation-0041" 1 true = .ok c := ⟨_, rfl⟩
  have htakes : Step bothPublished .other (bothPublished.subscriber 0 ahead) := .takes rfl rfl rfl (by decide) hc
  have hlower : number (asked [assistant]) ≤ number failure := by decide
  have hpasses : Step (bothPublished.subscriber 0 ahead) .other ((bothPublished.subscriber 0 ahead).subscriber 0 (ahead.pass [])) := by
    refine .passes rfl rfl rfl ?_
    intro m hm
    obtain rfl := HubMessage.message.inj hm
    exact .inl hlower
  have hrun := ((((hstarting.step hreserves).step hrejects).step hfails).step hpublishes).step htakes
  refine ⟨_, _, _, hrun.step hpasses, rfl, ?_⟩
  intro hlossless
  have hstored : asked [assistant] ∈ failed.messages := by
    rw [← Table.mem_rows]
    decide
  have hsent := hlossless.gapless _ hstored rfl (by decide) hlower
  have hmissing : asked [assistant] ∉ [failure] := by decide
  exact hmissing hsent

def taken : Subscriber := (((stream.turn .live).receive (.message (asked []))).write (asked [])).pass []

def published : World := (((starting []).publish (.message (asked []))).handle 0 .done).unlock

def dropped : World := (published.subscriber 0 taken).subscriber 0 taken.leave

theorem dropped_run : Execution (ReadingStep 1 "conversation-0041") (starting []) ([] ++ [.published (asked [])] ++ [.other] ++ [.other])
    dropped := by
  have hpublishes : Step (starting []) (.published (asked [])) published := .publishes rfl
  have hcareful : Careful (starting []) published (.published (asked [])) := by
    rintro k s m - - ⟨j, h, hj, hm⟩ hlt
    by_cases heq : j = 0
    · subst heq
      obtain rfl : Handler.starting (asked []) [] = h := Option.some.inj hj
      obtain rfl := mem_singleton.mp hm
      exact absurd hlt (lt_irrefl _)
    · have hnone : (starting []).handlers j = none := by
        simp [starting, added, locked, arrived, live, began, World.handle, World.withDB, World.lock, World.subscriber, World.connect, heq]
      rw [hnone] at hj
      cases hj
  obtain ⟨c, hc⟩ : ∃ c, (touched []).conversationForUser "conversation-0041" 1 true = .ok c := ⟨_, rfl⟩
  have htakes : Step published .other (published.subscriber 0 taken) := .takes rfl rfl rfl (by decide) hc
  have hleaves : Step (published.subscriber 0 taken) .other dropped := .leaves rfl
  have hread := reads_touched []
  have htaken := careful_of_db published (published.subscriber 0 taken) rfl
  have hleft := careful_of_db (published.subscriber 0 taken) dropped rfl
  exact ((Execution.start.step ⟨⟨hpublishes, hcareful⟩, hread⟩).step ⟨⟨htakes, htaken⟩, hread⟩).step ⟨⟨hleaves, hleft⟩, hread⟩

theorem message_kept : ∃ s, (dropped.connect 1 1 1).subscribers 1 = some s ∧
    Lossless (dropped.connect 1 1 1) "conversation-0041" 0 ([] ++ taken.leave.sent ++ s.sent) s := by
  have hbegins : Begins began := by
    refine ⟨?_, fun _ => rfl, fun _ => rfl⟩
    rintro m ⟨⟩
  have hfollows : Follows began 1 "conversation-0041" 0 [] 0 dropped :=
    .connected .start rfl reads_base ((live_run.trans (starting_run [])).trans dropped_run)
  have hlast : taken.leave.lastID = 1 := rfl
  exact lossless_of_careful hbegins (hlast ▸ hfollows.reconnected rfl rfl .start)

end RejectedRun

end WorkAgent.SharedEvents
