import WorkAgent.McpRuntime.ManagedServers

namespace WorkAgent.McpRuntime

open Library List Table
open SkillRuntime (trimSpace sameName fold)

/-- A release that passes the checks: valid managed servers, under distinct ids and names. -/
structure Release (p : Platform) (servers : List Server) : Prop where
  valid : ∀ s ∈ servers, s.source = "managed" ∧ validateServer p s = .ok ()
  ids : (servers.map Server.id).Nodup
  names : (servers.map (fun s => p.lower (trimSpace s.name))).Nodup

section Checks

variable {p : Platform}

theorem checkServers_cons {ids names : List String} {s : Server} {rest : List Server} :
    checkServers p ids names (s :: rest) = .ok () ↔ s.source = "managed" ∧ validateServer p s = .ok () ∧ s.id ∉ ids ∧
      p.lower (trimSpace s.name) ∉ names ∧
      checkServers p (s.id :: ids) (p.lower (trimSpace s.name) :: names) rest = .ok () := by
  rw [checkServers, bind_eq_ok]
  constructor
  · rintro ⟨_, hsource, h⟩
    obtain ⟨_, hvalid, h⟩ := bind_eq_ok.mp h
    obtain ⟨_, hid, h⟩ := bind_eq_ok.mp h
    obtain ⟨_, hname, h⟩ := bind_eq_ok.mp h
    exact ⟨require_eq_ok.mp hsource, hvalid, require_eq_ok.mp hid, require_eq_ok.mp hname, h⟩
  · rintro ⟨hsource, hvalid, hid, hname, h⟩
    exact ⟨(), require_eq_ok.mpr hsource, bind_eq_ok.mpr ⟨(), hvalid, bind_eq_ok.mpr ⟨(), require_eq_ok.mpr hid,
      bind_eq_ok.mpr ⟨(), require_eq_ok.mpr hname, h⟩⟩⟩⟩

theorem nodup_map_cons {α : Type} {f : Server → α} {s : Server} {rest : List Server} :
    ((s :: rest).map f).Nodup ↔ (∀ x ∈ rest, f x ≠ f s) ∧ (rest.map f).Nodup := by
  rw [map_cons, nodup_cons, mem_map]
  constructor
  · rintro ⟨hnot, hrest⟩
    exact ⟨fun x hx heq => hnot ⟨x, hx, heq⟩, hrest⟩
  · rintro ⟨hne, hrest⟩
    exact ⟨fun ⟨x, hx, heq⟩ => hne x hx heq, hrest⟩

theorem checkServers_iff (servers : List Server) (ids names : List String) : checkServers p ids names servers = .ok () ↔
    Release p servers ∧ (∀ s ∈ servers, s.id ∉ ids) ∧ ∀ s ∈ servers, p.lower (trimSpace s.name) ∉ names := by
  induction servers generalizing ids names with
  | nil =>
    refine ⟨fun _ => ⟨⟨?_, nodup_nil, nodup_nil⟩, ?_, ?_⟩, fun _ => rfl⟩
    all_goals
      intro s hs
      cases hs
  | cons _ _ ih =>
    rw [checkServers_cons, ih]
    rw [forall_mem_cons, forall_mem_cons]
    simp only [mem_cons, not_or]
    constructor
    · rintro ⟨hsource, hvalid, hid, hname, hrelease, hids, hnames⟩
      refine ⟨⟨forall_mem_cons.mpr ⟨⟨hsource, hvalid⟩, hrelease.valid⟩, ?_, ?_⟩, ⟨hid, ?_⟩, hname, ?_⟩
      · exact nodup_map_cons.mpr ⟨fun x hx => (hids x hx).1, hrelease.ids⟩
      · exact nodup_map_cons.mpr ⟨fun x hx => (hnames x hx).1, hrelease.names⟩
      · exact fun x hx => (hids x hx).2
      · exact fun x hx => (hnames x hx).2
    · rintro ⟨⟨hvalid, hids, hnames⟩, ⟨hid, hfresh⟩, hname, hunused⟩
      obtain ⟨⟨hsource, hok⟩, hvalid⟩ := forall_mem_cons.mp hvalid
      obtain ⟨hnewid, hids⟩ := nodup_map_cons.mp hids
      obtain ⟨hnewname, hnames⟩ := nodup_map_cons.mp hnames
      exact ⟨hsource, hok, hid, hname, ⟨hvalid, hids, hnames⟩, fun x hx => ⟨hnewid x hx, hfresh x hx⟩,
        fun x hx => ⟨hnewname x hx, hunused x hx⟩⟩

theorem checkServers_ok {servers : List Server} : checkServers p [] [] servers = .ok () ↔ Release p servers := by
  rw [checkServers_iff]
  simp

end Checks

section Names

theorem toLower_eq {c d : Char} (h : c.toLower = d.toLower) : c = d ∨ (c.toNat < 128 ∧ d.toNat < 128) := by
  have hkeep (c : Char) : c.toLower = c ∨ (c.toNat ≤ 90 ∧ c.toLower.toNat = c.toNat + 32) := by
    unfold Char.toLower
    split
    · rename_i hupper
      obtain ⟨_, hhigh⟩ := hupper
      rw [UInt32.le_iff_toNat_le] at hhigh
      change c.val.toNat ≤ 90 at hhigh
      refine .inr ⟨hhigh, ?_⟩
      change (c.val + 32).toNat = c.val.toNat + 32
      rw [UInt32.toNat_add]
      change (c.val.toNat + 32) % 2 ^ 32 = c.val.toNat + 32
      omega
    · exact .inl rfl
  rcases hkeep c with hc | ⟨hc, hc'⟩
  · rcases hkeep d with hd | ⟨hd, hd'⟩
    · left
      rw [← hc, h, hd]
    · right
      rw [← h, hc] at hd'
      omega
  · right
    rcases hkeep d with hd | ⟨hd, _⟩
    · rw [h, hd] at hc'
      omega
    · omega

theorem lower_of_sameName (p : Platform) {a b : String} (h : sameName a b) : p.lower a = p.lower b := by
  have hchar (c d : Char) (h : c.toLower = d.toLower) : p.toLower c = p.toLower d := by
    rcases toLower_eq h with rfl | ⟨hc, hd⟩
    · rfl
    · rw [p.ascii c hc, p.ascii d hd, h]
  have hlist (l m : List Char) (h : l.map Char.toLower = m.map Char.toLower) : l.map p.toLower = m.map p.toLower := by
    induction l generalizing m with
    | nil =>
      cases m with
      | nil => rfl
      | cons => cases h
    | cons c _ ih =>
      cases m with
      | nil => cases h
      | cons d m =>
        rw [map_cons, map_cons, List.cons.injEq] at h ⊢
        exact ⟨hchar c d h.1, ih m h.2⟩
  unfold sameName fold at h
  unfold Platform.lower
  rw [hlist _ _ (String.ofList_injective h)]

end Names

namespace Catalog

def written (c : Catalog) (s : Server) (stamp : ℤ) : Row := (c.rows.find? s.id).elim (s.row stamp) (s.onto stamp)

def Apart (c : Catalog) (servers : List Server) : Prop :=
  ∀ s ∈ servers, ∀ r ∈ c.rows, r.source = .user → r.id ≠ s.id ∧ ¬ sameName r.name (trimSpace s.name)

/-- No server takes the name of one that comes after it in the release and has not been renamed yet. -/
def InOrder (c : Catalog) (servers : List Server) : Prop :=
  servers.Pairwise (fun a b => ∀ r ∈ c.rows, r.id = b.id → ¬ sameName r.name (trimSpace a.name))

/-- The managed rows are those of the release, and the rows of the user are the same. -/
structure Synced (c d : Catalog) (servers : List Server) (stamp : ℤ) : Prop where
  managed : ∀ r, r ∈ d.rows ∧ r.source = .managed ↔ ∃ s ∈ servers, r = c.written s stamp
  user : ∀ r, r.source = .user → (r ∈ d.rows ↔ r ∈ c.rows)

section Turn

variable {c d : Catalog} {s : Server} {stamp : ℤ}

theorem id_of_written (c : Catalog) (s : Server) (stamp : ℤ) : (c.written s stamp).id = s.id := by
  unfold written
  cases h : c.rows.find? s.id with
  | none => rfl
  | some => exact (find?_eq_some.mp h).2

theorem name_of_written (c : Catalog) (s : Server) (stamp : ℤ) : (c.written s stamp).name = trimSpace s.name := by
  unfold written
  cases c.rows.find? s.id <;> rfl

theorem syncServer_ok (h : c.syncServer s stamp = .ok d) : c.FreeFor s ∧ (∀ r ∈ c.rows, r.id = s.id → r.source = .managed) ∧
    ∀ r, r ∈ d.rows ↔ r = c.written s stamp ∨ (r.id ≠ s.id ∧ r ∈ c.rows) := by
  unfold syncServer at h
  split at h
  · rename_i hx
    split at h
    · rename_i hfree
      cases h
      have hwritten : c.written s stamp = s.row stamp := by
        rw [written, hx]
        rfl
      refine ⟨hfree, fun r hr hid => absurd hid (Table.find?_eq_none.mp hx r hr), ?_⟩
      intro r
      rw [hwritten, insert, mem_insertOrIgnore]
      constructor
      · rintro (hr | ⟨rfl, -⟩)
        · exact .inr ⟨Table.find?_eq_none.mp hx r hr, hr⟩
        · exact .inl rfl
      · rintro (rfl | ⟨-, hr⟩)
        · exact .inr ⟨rfl, hx⟩
        · exact .inl hr
    · cases h
  · rename_i x hx
    split at h
    · rename_i hsource
      split at h
      · rename_i hfree
        cases h
        obtain ⟨hmem, hkey⟩ := find?_eq_some.mp hx
        have hmanaged (r : Row) (hr : r ∈ c.rows) (hid : r.id = s.id) : r = x :=
          eq_of_key hr hmem (hid.trans hkey.symm)
        refine ⟨hfree, fun r hr hid => hmanaged r hr hid ▸ hsource, ?_⟩
        intro r
        have hwritten : c.written s stamp = s.onto stamp x := by
          rw [written, hx]
          rfl
        rw [hwritten]
        constructor
        · intro hr
          unfold update at hr
          dsimp only at hr
          obtain ⟨y, hy, -, ⟨⟨hid, -⟩, rfl⟩ | ⟨hp, rfl⟩⟩ := exists_of_mem_update hr
          · exact .inl (hmanaged y hy hid ▸ rfl)
          · refine .inr ⟨?_, hy⟩
            intro hid
            exact hp ⟨hid, hmanaged r hy hid ▸ hsource⟩
        · rintro (rfl | ⟨hid, hr⟩)
          · exact mem_update_of_pos hmem ⟨hkey, hsource⟩
          · exact mem_update_of_neg hr (fun hp => hid hp.1)
      · cases h
    · cases h

theorem syncServer_succeeds (hfree : c.FreeFor s) (hmanaged : ∀ r ∈ c.rows, r.id = s.id → r.source = .managed) :
    ∃ d, c.syncServer s stamp = .ok d := by
  unfold syncServer
  split
  · rw [dif_pos hfree]
    exact ⟨_, rfl⟩
  · rename_i x hx
    obtain ⟨hmem, hkey⟩ := find?_eq_some.mp hx
    rw [dif_pos (hmanaged x hmem hkey), dif_pos hfree]
    exact ⟨_, rfl⟩

end Turn

section Loop

variable {stamp : ℤ}

structure Apace (c : Catalog) (servers : List Server) : Prop where
  managed : ∀ s ∈ servers, ∀ r ∈ c.rows, r.id = s.id → r.source = .managed
  others : ∀ s ∈ servers, ∀ r ∈ c.rows, r.id ∉ servers.map Server.id → ¬ sameName r.name (trimSpace s.name)
  ids : (servers.map Server.id).Nodup
  names : servers.Pairwise (fun a b => ¬ sameName (trimSpace a.name) (trimSpace b.name))

theorem freeFor_iff {c : Catalog} {s : Server} {rest : List Server} (h : c.Apace (s :: rest)) :
    c.FreeFor s ↔ ∀ b ∈ rest, ∀ r ∈ c.rows, r.id = b.id → ¬ sameName r.name (trimSpace s.name) := by
  obtain ⟨hnew, -⟩ := nodup_map_cons.mp h.ids
  constructor
  · intro hfree b hb r hr hid
    exact hfree r hr (hid ▸ hnew b hb)
  · intro hall r hr hid
    by_cases hmem : r.id ∈ rest.map Server.id
    · obtain ⟨b, hb, hbid⟩ := mem_map.mp hmem
      exact hall b hb r hr hbid.symm
    · refine h.others s mem_cons_self r hr ?_
      rw [map_cons, mem_cons, not_or]
      exact ⟨hid, hmem⟩

variable {c d : Catalog} {s : Server} {rest : List Server}

section

variable (h : c.Apace (s :: rest))
include h

section

variable (hturn : c.syncServer s stamp = .ok d)
include hturn

theorem Apace.next : d.Apace rest := by
  obtain ⟨-, -, hrows⟩ := syncServer_ok hturn
  obtain ⟨hnew, hids⟩ := nodup_map_cons.mp h.ids
  obtain ⟨hname, hnames⟩ := pairwise_cons.mp h.names
  refine ⟨?_, ?_, hids, hnames⟩
  · intro b hb r hr hid
    rcases (hrows r).mp hr with rfl | ⟨-, hr⟩
    · rw [id_of_written] at hid
      exact absurd hid.symm (hnew b hb)
    · exact h.managed b (mem_cons_of_mem s hb) r hr hid
  · intro b hb r hr hid
    rcases (hrows r).mp hr with rfl | ⟨hne, hr⟩
    · rw [name_of_written]
      exact hname b hb
    · refine h.others b (mem_cons_of_mem s hb) r hr ?_
      rw [map_cons, mem_cons, not_or]
      exact ⟨hne, hid⟩

theorem mem_next {b : Server} (hb : b ∈ rest) {r : Row} (hid : r.id = b.id) : r ∈ d.rows ↔ r ∈ c.rows := by
  obtain ⟨-, -, hrows⟩ := syncServer_ok hturn
  have hne : r.id ≠ s.id := hid ▸ (nodup_map_cons.mp h.ids).1 b hb
  rw [hrows]
  constructor
  · rintro (rfl | ⟨-, hr⟩)
    · exact absurd (id_of_written c s stamp) hne
    · exact hr
  · exact fun hr => .inr ⟨hne, hr⟩

theorem written_next {b : Server} (hb : b ∈ rest) : d.written b stamp = c.written b stamp := by
  have hfind : d.rows.find? b.id = c.rows.find? b.id := by
    apply Option.ext
    intro r
    rw [find?_eq_some, find?_eq_some]
    constructor
    · exact fun ⟨hr, hid⟩ => ⟨(mem_next h hturn hb hid).mp hr, hid⟩
    · exact fun ⟨hr, hid⟩ => ⟨(mem_next h hturn hb hid).mpr hr, hid⟩
  rw [written, hfind, written]

theorem inOrder_next : d.InOrder rest ↔ c.InOrder rest := by
  have hiff {a b : Server} (hb : b ∈ rest) : (∀ r ∈ d.rows, r.id = b.id → ¬ sameName r.name (trimSpace a.name)) ↔
      ∀ r ∈ c.rows, r.id = b.id → ¬ sameName r.name (trimSpace a.name) := by
    constructor
    · exact fun hall r hr hid => hall r ((mem_next h hturn hb hid).mpr hr) hid
    · exact fun hall r hr hid => hall r ((mem_next h hturn hb hid).mp hr) hid
  exact List.Pairwise.iff_of_mem (fun _ hb => hiff hb)

end

end

theorem loop_succeeds_iff (servers : List Server) (c : Catalog) (h : c.Apace servers) :
    (∃ d, servers.foldlM (fun c s => c.syncServer s stamp) c = .ok d) ↔ c.InOrder servers := by
  induction servers generalizing c with
  | nil => exact ⟨fun _ => List.Pairwise.nil, fun _ => ⟨c, rfl⟩⟩
  | cons s _ ih =>
    rw [InOrder, pairwise_cons, ← freeFor_iff h]
    constructor
    · rintro ⟨d, hd⟩
      rw [foldlM_cons, bind_eq_ok] at hd
      obtain ⟨u, hu, hd⟩ := hd
      exact ⟨(syncServer_ok hu).1, (inOrder_next h hu).mp ((ih u (h.next hu)).mp ⟨d, hd⟩)⟩
    · rintro ⟨hfree, hrest⟩
      obtain ⟨u, hu⟩ : ∃ u, c.syncServer s stamp = .ok u := syncServer_succeeds hfree (h.managed s mem_cons_self)
      obtain ⟨d, hd⟩ := (ih u (h.next hu)).mpr ((inOrder_next h hu).mpr hrest)
      refine ⟨d, ?_⟩
      rw [foldlM_cons, bind_eq_ok]
      exact ⟨u, hu, hd⟩

theorem mem_loop (servers : List Server) (c : Catalog) (h : c.Apace servers)
    (hd : servers.foldlM (fun c s => c.syncServer s stamp) c = .ok d) (r : Row) :
    r ∈ d.rows ↔ (∃ s ∈ servers, r = c.written s stamp) ∨ (r.id ∉ servers.map Server.id ∧ r ∈ c.rows) := by
  induction servers generalizing c with
  | nil =>
    cases hd
    simp
  | cons _ rest ih =>
    rw [foldlM_cons, bind_eq_ok] at hd
    obtain ⟨u, hu, hd⟩ := hd
    rw [ih u (h.next hu) hd, (syncServer_ok hu).2.2, exists_mem_cons_iff, map_cons, mem_cons, not_or]
    have hrest : (∃ b ∈ rest, r = u.written b stamp) ↔ ∃ b ∈ rest, r = c.written b stamp := by
      constructor
      · exact fun ⟨b, hb, heq⟩ => ⟨b, hb, heq.trans (written_next h hu hb)⟩
      · exact fun ⟨b, hb, heq⟩ => ⟨b, hb, heq.trans (written_next h hu hb).symm⟩
    rw [hrest]
    constructor
    · rintro (hb | ⟨hid, heq | ⟨hne, hr⟩⟩)
      · exact .inl (.inr hb)
      · exact .inl (.inl heq)
      · exact .inr ⟨⟨hne, hid⟩, hr⟩
    · rintro ((heq | hb) | ⟨⟨hne, hid⟩, hr⟩)
      · refine .inr ⟨?_, .inl heq⟩
        rw [heq, id_of_written, mem_map]
        rintro ⟨b, hb, hbid⟩
        exact (nodup_map_cons.mp h.ids).1 b hb hbid
      · exact .inl hb
      · exact .inr ⟨hid, .inr ⟨hne, hr⟩⟩

end Loop

section Release

variable {p : Platform} {c d : Catalog} {servers : List Server} {stamp : ℤ}

theorem mem_retire {ids : List String} {r : Row} :
    r ∈ (c.retire ids).rows ↔ r ∈ c.rows ∧ ¬ (r.source = .managed ∧ r.id ∉ ids) := by
  rw [retire, mem_delete]

theorem mem_retire_of_id {s : Server} (hs : s ∈ servers) {r : Row} (hid : r.id = s.id) :
    r ∈ (c.retire (servers.map Server.id)).rows ↔ r ∈ c.rows := by
  rw [mem_retire, and_iff_left]
  rintro ⟨-, hnot⟩
  exact hnot (hid ▸ mem_map_of_mem hs)

theorem written_retire {s : Server} (hs : s ∈ servers) :
    (c.retire (servers.map Server.id)).written s stamp = c.written s stamp := by
  have hfind : (c.retire (servers.map Server.id)).rows.find? s.id = c.rows.find? s.id := by
    apply Option.ext
    intro r
    rw [find?_eq_some, find?_eq_some]
    constructor
    · exact fun ⟨hr, hid⟩ => ⟨(mem_retire_of_id hs hid).mp hr, hid⟩
    · exact fun ⟨hr, hid⟩ => ⟨(mem_retire_of_id hs hid).mpr hr, hid⟩
  rw [written, hfind, written]

theorem source_of_written (ha : c.Apart servers) {s : Server} (hs : s ∈ servers) :
    (c.written s stamp).source = .managed := by
  unfold written
  cases hx : c.rows.find? s.id with
  | none => rfl
  | some x =>
    obtain ⟨hmem, hid⟩ := find?_eq_some.mp hx
    change x.source = .managed
    cases hsource : x.source with
    | managed => rfl
    | user => exact absurd hid (ha s hs x hmem hsource).1

theorem apace_retire (hr : Release p servers) (ha : c.Apart servers) :
    (c.retire (servers.map Server.id)).Apace servers := by
  refine ⟨?_, ?_, hr.ids, ?_⟩
  · intro s hs r hmem hid
    cases hsource : r.source with
    | managed => rfl
    | user => exact absurd hid (ha s hs r (mem_retire.mp hmem).1 hsource).1
  · intro s hs r hmem hid
    obtain ⟨hmem, hnot⟩ := mem_retire.mp hmem
    cases hsource : r.source with
    | managed => exact absurd ⟨hsource, hid⟩ hnot
    | user => exact (ha s hs r hmem hsource).2
  · have hnames := hr.names
    rw [nodup_iff_pairwise_ne, pairwise_map] at hnames
    exact hnames.imp (fun hne hsame => hne (lower_of_sameName p hsame))

theorem inOrder_retire : (c.retire (servers.map Server.id)).InOrder servers ↔ c.InOrder servers := by
  apply List.Pairwise.iff_of_mem
  intro a b _ hb
  constructor
  · exact fun hall r hr hid => hall r ((mem_retire_of_id hb hid).mpr hr) hid
  · exact fun hall r hr hid => hall r ((mem_retire_of_id hb hid).mp hr) hid

theorem apart_of_loop (servers : List Server) (c : Catalog)
    (hd : servers.foldlM (fun c s => c.syncServer s stamp) c = .ok d) : c.Apart servers := by
  induction servers generalizing c with
  | nil =>
    intro s hs
    cases hs
  | cons s _ ih =>
    rw [foldlM_cons, bind_eq_ok] at hd
    obtain ⟨u, hu, hd⟩ := hd
    obtain ⟨hfree, hmanaged, hrows⟩ := syncServer_ok hu
    intro b hb r hr hsource
    have hid : r.id ≠ s.id := by
      intro hid
      rw [hmanaged r hr hid] at hsource
      cases hsource
    rcases mem_cons.mp hb with rfl | hb
    · exact ⟨hid, hfree r hr hid⟩
    · exact ih u hd b hb r ((hrows r).mpr (.inr ⟨hid, hr⟩)) hsource

theorem apart_of_reconcile (hd : c.reconcile servers stamp = .ok d) : c.Apart servers := by
  intro s hs r hr hsource
  refine apart_of_loop servers _ hd s hs r (mem_retire.mpr ⟨hr, ?_⟩) hsource
  rintro ⟨hmanaged, -⟩
  rw [hmanaged] at hsource
  cases hsource

theorem reconcile_synced (hr : Release p servers) (ha : c.Apart servers) (hd : c.reconcile servers stamp = .ok d) :
    c.Synced d servers stamp := by
  have hrows (r : Row) : r ∈ d.rows ↔ (∃ s ∈ servers, r = c.written s stamp) ∨
      (r.id ∉ servers.map Server.id ∧ r ∈ (c.retire (servers.map Server.id)).rows) := by
    rw [mem_loop servers _ (apace_retire hr ha) hd]
    apply or_congr_left
    constructor
    · exact fun ⟨s, hs, heq⟩ => ⟨s, hs, heq.trans (written_retire hs)⟩
    · exact fun ⟨s, hs, heq⟩ => ⟨s, hs, heq.trans (written_retire hs).symm⟩
  refine ⟨?_, ?_⟩
  · intro r
    constructor
    · rintro ⟨hmem, hsource⟩
      rcases (hrows r).mp hmem with hwritten | ⟨hid, hold⟩
      · exact hwritten
      · exact absurd ⟨hsource, hid⟩ (mem_retire.mp hold).2
    · rintro ⟨s, hs, rfl⟩
      exact ⟨(hrows _).mpr (.inl ⟨s, hs, rfl⟩), source_of_written ha hs⟩
  · intro r hsource
    constructor
    · intro hmem
      rcases (hrows r).mp hmem with ⟨s, hs, rfl⟩ | ⟨-, hold⟩
      · rw [source_of_written ha hs] at hsource
        cases hsource
      · exact (mem_retire.mp hold).1
    · intro hmem
      refine (hrows r).mpr (.inr ⟨?_, mem_retire.mpr ⟨hmem, ?_⟩⟩)
      · rw [mem_map]
        rintro ⟨s, hs, hid⟩
        exact (ha s hs r hmem hsource).1 hid.symm
      · rintro ⟨hmanaged, -⟩
        rw [hmanaged] at hsource
        cases hsource

end Release

theorem syncManaged_ok {p : Platform} {c : Catalog} {servers : List Server} {stamp : ℤ} :
    (c.syncManaged p servers stamp).1 = .ok () ↔
      Release p servers ∧ c.reconcile servers stamp = .ok (c.syncManaged p servers stamp).2 := by
  rw [← checkServers_ok]
  unfold syncManaged
  cases checkServers p [] [] servers with
  | error => simp
  | ok =>
    cases c.reconcile servers stamp with
    | error | ok => simp

theorem syncManaged_failed {p : Platform} {c : Catalog} {servers : List Server} {stamp : ℤ}
    (h : (c.syncManaged p servers stamp).1 ≠ .ok ()) : (c.syncManaged p servers stamp).2 = c := by
  unfold syncManaged at h ⊢
  cases hcheck : checkServers p [] [] servers with
  | error => rfl
  | ok =>
    rw [hcheck] at h
    cases hd : c.reconcile servers stamp with
    | error => rfl
    | ok =>
      rw [hd] at h
      exact absurd rfl h

theorem syncManaged_succeeds_iff {p : Platform} {c : Catalog} {servers : List Server} {stamp : ℤ}
    (hr : Release p servers) (ha : c.Apart servers) : (c.syncManaged p servers stamp).1 = .ok () ↔ c.InOrder servers := by
  rw [← inOrder_retire, ← @loop_succeeds_iff stamp servers _ (apace_retire hr ha)]
  constructor
  · exact fun hok => ⟨_, (syncManaged_ok.mp hok).2⟩
  · rintro ⟨d, hd⟩
    unfold syncManaged reconcile
    rw [checkServers_ok.mpr hr, hd]

/-- A synchronisation does what the release asks for just where no server takes over the name that a later one of
the release still bears. -/
theorem syncManaged_converges_iff (p : Platform) (c : Catalog) (servers : List Server) (stamp : ℤ) :
    ((Release p servers ∧ c.Apart servers → (c.syncManaged p servers stamp).1 = .ok () ∧
        c.Synced (c.syncManaged p servers stamp).2 servers stamp) ∧
      (¬ (Release p servers ∧ c.Apart servers) → (c.syncManaged p servers stamp).1 ≠ .ok () ∧
        (c.syncManaged p servers stamp).2 = c)) ↔
      (Release p servers ∧ c.Apart servers → c.InOrder servers) := by
  constructor
  · rintro ⟨hsync, -⟩ ⟨hr, ha⟩
    exact (syncManaged_succeeds_iff hr ha).mp (hsync ⟨hr, ha⟩).1
  · intro hinOrder
    refine ⟨?_, ?_⟩
    · rintro ⟨hr, ha⟩
      have hok : (c.syncManaged p servers stamp).1 = .ok () := (syncManaged_succeeds_iff hr ha).mpr (hinOrder ⟨hr, ha⟩)
      exact ⟨hok, reconcile_synced hr ha (syncManaged_ok.mp hok).2⟩
    · intro hnot
      have hfails : (c.syncManaged p servers stamp).1 ≠ .ok () := by
        intro hok
        obtain ⟨hr, hd⟩ := syncManaged_ok.mp hok
        exact hnot ⟨hr, apart_of_reconcile hd⟩
      exact ⟨hfails, syncManaged_failed hfails⟩

/-- A release that went through goes through again, and then only the dates of its rows change. -/
theorem syncManaged_again (p : Platform) (c : Catalog) (servers : List Server) (stamp stamp' : ℤ)
    (h : (c.syncManaged p servers stamp).1 = .ok ()) :
    ((c.syncManaged p servers stamp).2.syncManaged p servers stamp').1 = .ok () ∧
      ∀ r, r ∈ ((c.syncManaged p servers stamp).2.syncManaged p servers stamp').2.rows ↔
        ∃ q ∈ (c.syncManaged p servers stamp).2.rows, r = if q.source = .managed then { q with updatedAt := stamp' } else q := by
  obtain ⟨hr, hd⟩ := syncManaged_ok.mp h
  clear h
  generalize (c.syncManaged p servers stamp).2 = d at hd ⊢
  have ha := apart_of_reconcile hd
  have hfirst := reconcile_synced hr ha hd
  have hapart : d.Apart servers := fun s hs r hmem hsource => ha s hs r ((hfirst.user r hsource).mp hmem) hsource
  have hwritten : ∀ b ∈ servers, d.written b stamp' = { c.written b stamp with updatedAt := stamp' } := by
    intro b hb
    have hmem : c.written b stamp ∈ d.rows := ((hfirst.managed _).mpr ⟨b, hb, rfl⟩).1
    rw [written, find?_eq_some.mpr ⟨hmem, id_of_written c b stamp⟩]
    unfold written
    cases c.rows.find? b.id <;> rfl
  have hinOrder : d.InOrder servers := by
    have hnames := hr.names
    rw [nodup_iff_pairwise_ne, pairwise_map] at hnames
    apply hnames.imp_of_mem
    intro a b _ hb hne r hmem hid hsame
    -- the row under the id of `b` bears the name of `b` already
    have hname : r = c.written b stamp :=
      eq_of_key hmem ((hfirst.managed _).mpr ⟨b, hb, rfl⟩).1 (hid.trans (id_of_written c b stamp).symm)
    rw [hname, name_of_written] at hsame
    exact hne (lower_of_sameName p hsame).symm
  have hok : (d.syncManaged p servers stamp').1 = .ok () := (syncManaged_succeeds_iff hr hapart).mpr hinOrder
  have hagain := reconcile_synced hr hapart (syncManaged_ok.mp hok).2
  refine ⟨hok, ?_⟩
  intro r
  constructor
  · intro hmem
    cases hsource : r.source with
    | managed =>
      obtain ⟨s, hs, rfl⟩ := (hagain.managed r).mp ⟨hmem, hsource⟩
      obtain ⟨hbefore, hmanaged⟩ := (hfirst.managed _).mpr ⟨s, hs, rfl⟩
      exact ⟨_, hbefore, by rw [hwritten s hs, if_pos hmanaged]⟩
    | user => exact ⟨r, (hagain.user r hsource).mp hmem, by simp [hsource]⟩
  · rintro ⟨q, hq, rfl⟩
    split
    · rename_i hsource
      obtain ⟨s, hs, rfl⟩ := (hfirst.managed q).mp ⟨hq, hsource⟩
      exact hwritten s hs ▸ ((hagain.managed _).mpr ⟨s, hs, rfl⟩).1
    · rename_i hsource
      have huser : q.source = .user := by
        cases huser : q.source with
        | managed => exact absurd huser hsource
        | user => rfl
      exact (hagain.user q huser).mpr hq

namespace ExchangeExample

def platform : Platform := ⟨fun _ => true, fun _ => none, fun _ => false, fun _ => false, Char.toLower, fun _ _ => rfl⟩

def server (id name : String) : Server :=
  ⟨id, name, "", "managed", true, ⟨"", "", "", "stdio", "/opt/server", [], "", [], []⟩, "all", [], "none", "unknown"⟩

def catalog : Catalog where
  rows := ⟨[(server "first" "Alpha").row 0, (server "second" "Beta").row 0], by decide⟩
  names := by
    intro r hr _ hr' hname
    unfold sameName fold at hname
    have hrows {r : Row} (hr : r ∈ [(server "first" "Alpha").row 0, (server "second" "Beta").row 0]) :
        r = (server "first" "Alpha").row 0 ∨ r = (server "second" "Beta").row 0 := by
      simpa using hr
    rcases hrows hr with rfl | rfl <;> rcases hrows hr' with rfl | rfl
    · rfl
    · exact absurd hname (by decide)
    · exact absurd hname (by decide)
    · rfl

def exchange : List Server := [server "first" "Beta", server "second" "Alpha"]

theorem exchange_refused : Release platform exchange ∧ catalog.Apart exchange ∧
    (catalog.syncManaged platform exchange 1).1 ≠ .ok () := by
  have hrelease : Release platform exchange := checkServers_ok.mp rfl
  have hapart : catalog.Apart exchange := by
    have hmanaged : ∀ r ∈ catalog.rows.rows, r.source = .managed := by decide
    intro s _ r hr hsource
    rw [hmanaged r hr] at hsource
    cases hsource
  refine ⟨hrelease, hapart, ?_⟩
  rw [Ne, syncManaged_succeeds_iff hrelease hapart]
  intro hinOrder
  have hfirst := (pairwise_cons.mp hinOrder).1 (server "second" "Alpha") (mem_singleton_self _)
  exact hfirst ((server "second" "Beta").row 0) (mem_cons_of_mem _ mem_cons_self) rfl rfl

theorem renamed_again :
    ((catalog.syncManaged platform [server "first" "Gamma"] 1).2.syncManaged platform [server "first" "Gamma"] 2).1 = .ok () :=
  (syncManaged_again platform catalog [server "first" "Gamma"] 1 2 rfl).1

end ExchangeExample

end Catalog

end WorkAgent.McpRuntime
