import WorkAgent.Collaboration.RunSteps

namespace WorkAgent.Collaboration

open Library List Table
open MemberRow (key)
open Quota (Time)

def OpenTransfer (o : TransferRow) : Prop := o.state = .pending ∨ Store.Unfinalized o

structure Owned (s : Store) (p : ProjectRow) : Prop where
  owner : ∃ m ∈ s.members, m.projectID = p.id ∧ m.userID = p.ownerUserID ∧ m.role = .owner ∧ m.state = .accepted
  sole : ∀ m ∈ s.members, m.projectID = p.id → m.role = .owner → m.userID = p.ownerUserID
  pending : ∀ o ∈ s.transfers, o.projectID = p.id → o.state = .pending → p.state = .transferPending
  target : p.state = .transferPending → ∃ o ∈ s.transfers, o.projectID = p.id ∧ o.state = .pending ∧
    p.pendingOwnerUserID = some o.toUserID ∧
    ∃ m ∈ s.members, m.projectID = p.id ∧ m.userID = o.toUserID ∧ m.role = .member ∧ m.state = .accepted
  single : ∀ o ∈ s.transfers, ∀ o' ∈ s.transfers, o.projectID = p.id → o'.projectID = p.id →
    OpenTransfer o → OpenTransfer o' → o = o'

structure Ownership (s : Store) : Prop where
  member : ∀ m ∈ s.members, ∃ p ∈ s.projects, p.id = m.projectID
  transfer : ∀ o ∈ s.transfers, ∃ p ∈ s.projects, p.id = o.projectID
  owned : ∀ p ∈ s.projects, Owned s p

theorem Ownership.empty : Ownership Store.empty := by
  refine ⟨?_, ?_, ?_⟩
  · intro m hm
    exact absurd hm (not_mem_empty m)
  · intro o ho
    exact absurd ho (not_mem_empty o)
  · intro p hp
    exact absurd hp (not_mem_empty p)

theorem Ownership.congr {s t : Store} (h : Ownership s)
    (hsame : t.projects = s.projects ∧ t.members = s.members ∧ t.transfers = s.transfers) : Ownership t := by
  obtain ⟨hp, hm, ho⟩ := hsame
  refine ⟨hp ▸ hm ▸ h.member, hp ▸ ho ▸ h.transfer, ?_⟩
  intro p hmem
  have hown := h.owned p (hp ▸ hmem)
  exact ⟨hm ▸ hown.owner, hm ▸ hown.sole, ho ▸ hown.pending, hm ▸ ho ▸ hown.target, ho ▸ hown.single⟩

section Update

variable {s t : Store}

theorem Owned.of_sameOwner {p q : ProjectRow} (h : Owned s p) (hq : SameOwner p q) : Owned s q := by
  obtain ⟨hid, howner, hpending, hstate⟩ := hq
  refine ⟨?_, ?_, ?_, ?_, ?_⟩
  · rw [hid, howner]
    exact h.owner
  · rw [hid, howner]
    exact h.sole
  · rw [hid]
    intro o ho hp hs
    exact hstate.mpr (h.pending o ho hp hs)
  · rw [hid, hpending]
    exact fun hs => h.target (hstate.mp hs)
  · rw [hid]
    exact h.single

section

variable (h : Ownership s)
include h

theorem Ownership.update_projects {f : ProjectRow → ProjectRow} (hm : t.members = s.members)
    (ho : t.transfers = s.transfers) (hp : t.projects.rows = s.projects.rows.map f)
    (hf : ∀ p ∈ s.projects, SameOwner p (f p)) : Ownership t := by
  have hkeep (id : String) (hex : ∃ p ∈ s.projects, p.id = id) : ∃ p ∈ t.projects, p.id = id := by
    obtain ⟨p, hmem, rfl⟩ := hex
    refine ⟨f p, ?_, (hf p hmem).id⟩
    rw [← mem_rows, hp]
    exact mem_map_of_mem hmem
  refine ⟨fun m hmem => hkeep _ (h.member m (hm ▸ hmem)), fun o hmem => hkeep _ (h.transfer o (ho ▸ hmem)), ?_⟩
  intro q hq
  rw [← mem_rows, hp] at hq
  obtain ⟨p, hmem, rfl⟩ := mem_map.mp hq
  have hown := (h.owned p hmem).of_sameOwner (hf p hmem)
  exact ⟨hm ▸ hown.owner, hm ▸ hown.sole, ho ▸ hown.pending, hm ▸ ho ▸ hown.target, ho ▸ hown.single⟩

theorem Ownership.staffed (hp : t.projects = s.projects) (ho : t.transfers = s.transfers) (hstaff : Staff s t.members) : Ownership t := by
  have hback : ∀ m' ∈ t.members, ∃ p ∈ s.projects, p.id = m'.projectID := by
    intro m' hm'
    rcases hstaff.back m' hm' with ⟨m, hm, hproject, -, -⟩ | ⟨hproject, -⟩
    · exact hproject ▸ h.member m hm
    · exact hproject
  refine ⟨hp ▸ hback, hp ▸ ho ▸ h.transfer, ?_⟩
  intro p hmem
  rw [hp] at hmem
  have hown := h.owned p hmem
  refine ⟨?_, ?_, ho ▸ hown.pending, ?_, ho ▸ hown.single⟩
  · obtain ⟨m, hm, hproject, huser, hrole, hstate⟩ := hown.owner
    rcases hstaff.kept m hm hstate with ⟨m', hm', hproject', huser', hrole', hstate'⟩ | ⟨hplain, -⟩
    · exact ⟨m', hm', hproject'.trans hproject, huser'.trans huser, hrole'.trans hrole, hstate'⟩
    · rw [hrole] at hplain
      cases hplain
  · intro m' hm' hproject hrole
    rcases hstaff.back m' hm' with ⟨m, hm, hproject', huser, hrole'⟩ | ⟨-, hplain⟩
    · exact huser ▸ hown.sole m hm (hproject'.trans hproject) (hrole'.trans hrole)
    · rw [hrole] at hplain
      cases hplain
  · intro hpending
    obtain ⟨o, hmem', hproject, hstate, htarget, m, hm, hmp, hmu, hmr, hms⟩ := hown.target hpending
    refine ⟨o, ho ▸ hmem', hproject, hstate, htarget, ?_⟩
    rcases hstaff.kept m hm hms with ⟨m', hm', hproject', huser', hrole', hstate'⟩ | ⟨-, q, hq, hqid, hactive⟩
    · exact ⟨m', hm', hproject'.trans hmp, huser'.trans hmu, hrole'.trans hmr, hstate'⟩
    · obtain rfl := eq_of_key hq hmem (hqid.trans hmp)
      rw [hpending] at hactive
      cases hactive

end

end Update

section Steps

variable {s t : Store}

variable {id : String} {u : Unit}

theorem ownership_createProject {sid name : String} {owner stamp : ℤ} (hs : Ownership s) (hnew : s.projects.find? id = none)
    (hnone : s.members.find? (⟨id, owner, sid, .owner, .accepted, false, stamp⟩ : MemberRow).key = none) :
    Ownership { s with
      projects := s.projects.insertOrIgnore ⟨id, owner, sid, name, .provisioning, none, stamp, stamp⟩
      members := s.members.insertOrIgnore ⟨id, owner, sid, .owner, .accepted, false, stamp⟩ } := by
  have hnoproject (p : ProjectRow) (hp : p ∈ s.projects) : p.id ≠ id := Table.find?_eq_none.mp hnew p hp
  have hold (x : String) (hex : ∃ p ∈ s.projects, p.id = x) :
      (∃ p ∈ s.projects.insertOrIgnore ⟨id, owner, sid, name, .provisioning, none, stamp, stamp⟩, p.id = x) ∧
        x ≠ id := by
    obtain ⟨p, hp, rfl⟩ := hex
    exact ⟨⟨p, mem_insertOrIgnore.mpr (.inl hp), rfl⟩, hnoproject p hp⟩
  have hself : (⟨id, owner, sid, name, .provisioning, none, stamp, stamp⟩ : ProjectRow) ∈
      s.projects.insertOrIgnore ⟨id, owner, sid, name, .provisioning, none, stamp, stamp⟩ :=
    mem_insertOrIgnore.mpr (.inr ⟨rfl, hnew⟩)
  have hmemself : (⟨id, owner, sid, .owner, .accepted, false, stamp⟩ : MemberRow) ∈
      s.members.insertOrIgnore ⟨id, owner, sid, .owner, .accepted, false, stamp⟩ :=
    mem_insertOrIgnore.mpr (.inr ⟨rfl, hnone⟩)
  refine ⟨?_, ?_, ?_⟩
  · intro m hm
    rcases mem_insertOrIgnore.mp hm with hm | ⟨rfl, -⟩
    · exact (hold _ (hs.member m hm)).1
    · exact ⟨_, hself, rfl⟩
  · exact fun o ho => (hold _ (hs.transfer o ho)).1
  · intro p hp
    rcases mem_insertOrIgnore.mp hp with hp | ⟨rfl, -⟩
    · have hown := hs.owned p hp
      refine ⟨?_, ?_, hown.pending, ?_, hown.single⟩
      · obtain ⟨m, hm, hrest⟩ := hown.owner
        exact ⟨m, mem_insertOrIgnore.mpr (.inl hm), hrest⟩
      · intro m hm hproject hrole
        rcases mem_insertOrIgnore.mp hm with hm | ⟨rfl, -⟩
        · exact hown.sole m hm hproject hrole
        · exact absurd hproject.symm (hnoproject p hp)
      · intro hstate
        obtain ⟨o, ho, h₁, h₂, h₃, m, hm, hrest⟩ := hown.target hstate
        exact ⟨o, ho, h₁, h₂, h₃, m, mem_insertOrIgnore.mpr (.inl hm), hrest⟩
    · refine ⟨⟨_, hmemself, rfl, rfl, rfl, rfl⟩, ?_, ?_, ?_, ?_⟩
      · intro m hm hproject _
        rcases mem_insertOrIgnore.mp hm with hm | ⟨rfl, -⟩
        · exact absurd hproject (hold _ (hs.member m hm)).2
        · rfl
      · intro o ho hproject
        exact absurd hproject (hold _ (hs.transfer o ho)).2
      · intro hstate
        cases hstate
      · intro o ho _ _ hproject
        exact absurd hproject (hold _ (hs.transfer o ho)).2

theorem ownership_deleteProject (hs : Ownership s) (h : s.deleteProject id = .ok t) : Ownership t := by
  simp only [Store.deleteProject, bind_eq_ok, pure_eq_ok] at h
  obtain ⟨u, hu, rfl⟩ := h
  obtain ⟨-, rfl⟩ := Store.deleteConversations_eq_ok hu
  have hstay {x : String} (hx : x ≠ id) (hex : ∃ p ∈ s.projects, p.id = x) :
      ∃ p ∈ s.projects.delete (fun p => p.id = id), p.id = x := by
    obtain ⟨p, hp, rfl⟩ := hex
    exact ⟨p, mem_delete.mpr ⟨hp, hx⟩, rfl⟩
  refine ⟨?_, ?_, ?_⟩
  · intro m hm
    obtain ⟨hm, hne⟩ := mem_delete.mp hm
    exact hstay hne (hs.member m hm)
  · intro o ho
    obtain ⟨ho, hne⟩ := mem_delete.mp ho
    exact hstay hne (hs.transfer o ho)
  · intro p hp
    obtain ⟨hp, _⟩ := mem_delete.mp hp
    have hown := hs.owned p hp
    refine ⟨?_, ?_, ?_, ?_, ?_⟩
    · obtain ⟨m, hm, hproject, hrest⟩ := hown.owner
      exact ⟨m, mem_delete.mpr ⟨hm, by rwa [hproject]⟩, hproject, hrest⟩
    · intro m hm
      exact hown.sole m (mem_delete.mp hm).1
    · intro o ho
      exact hown.pending o (mem_delete.mp ho).1
    · intro hstate
      obtain ⟨o, ho, h₁, h₂, h₃, m, hm, hproject, hrest⟩ := hown.target hstate
      exact ⟨o, mem_delete.mpr ⟨ho, by rwa [h₁]⟩, h₁, h₂, h₃, m,
        mem_delete.mpr ⟨hm, by rwa [hproject]⟩, hproject, hrest⟩
    · intro o ho o' ho'
      exact hown.single o (mem_delete.mp ho).1 o' (mem_delete.mp ho').1

theorem Owned.other {q : ProjectRow} (h : Owned s q)
    (hm : ∀ m : MemberRow, m.projectID = q.id → (m ∈ t.members ↔ m ∈ s.members))
    (ho : ∀ o : TransferRow, o.projectID = q.id → (o ∈ t.transfers ↔ o ∈ s.transfers)) : Owned t q := by
  refine ⟨?_, ?_, ?_, ?_, ?_⟩
  · obtain ⟨m, hmem, hproject, hrest⟩ := h.owner
    exact ⟨m, (hm m hproject).mpr hmem, hproject, hrest⟩
  · intro m hmem hproject
    exact h.sole m ((hm m hproject).mp hmem) hproject
  · intro o hmem hproject
    exact h.pending o ((ho o hproject).mp hmem) hproject
  · intro hstate
    obtain ⟨o, hmem, hproject, h₂, h₃, m, hmem', hproject', hrest⟩ := h.target hstate
    exact ⟨o, (ho o hproject).mpr hmem, hproject, h₂, h₃, m, (hm m hproject').mpr hmem', hproject', hrest⟩
  · intro o hmem o' hmem' hproject hproject'
    exact h.single o ((ho o hproject).mp hmem) o' ((ho o' hproject').mp hmem') hproject hproject'

variable {f : TransferRow → TransferRow}

theorem Owned.single_updated {q : ProjectRow} (h : Owned s q) {p : TransferRow → Prop} [DecidablePred p] {hf : ∀ o, (f o).id = o.id} (hproject : ∀ o, (f o).projectID = o.projectID)
    (hopen : ∀ o, p o → OpenTransfer (f o) → OpenTransfer o) :
    ∀ o ∈ s.transfers.update p f hf, ∀ o' ∈ s.transfers.update p f hf, o.projectID = q.id → o'.projectID = q.id →
      OpenTransfer o → OpenTransfer o' → o = o' := by
  have hback (x : TransferRow) (hx : x ∈ s.transfers.update p f hf) (hq : x.projectID = q.id) (ho : OpenTransfer x) :
      ∃ y ∈ s.transfers, x = (if p y then f y else y) ∧ y.projectID = q.id ∧ OpenTransfer y := by
    obtain ⟨y, hy, rfl⟩ := mem_update.mp hx
    refine ⟨y, hy, rfl, ?_⟩
    split at hq
    · rename_i hp
      rw [if_pos hp] at ho
      exact ⟨(hproject y).symm.trans hq, hopen y hp ho⟩
    · rename_i hp
      rw [if_neg hp] at ho
      exact ⟨hq, ho⟩
  intro o ho o' ho' hq hq' hopen₁ hopen₂
  obtain ⟨y, hy, rfl, hyq, hyo⟩ := hback o ho hq hopen₁
  obtain ⟨y', hy', rfl, hyq', hyo'⟩ := hback o' ho' hq' hopen₂
  rw [h.single y hy y' hy' hyq hyq' hyo hyo']

theorem ownership_beginOwnershipTransfer {fold : String → String → Bool} {transfer : OwnershipTransfer} {owner stamp : ℤ} (hs : Ownership s) (h : s.beginOwnershipTransfer fold transfer owner stamp = .ok (u, t)) :
    Ownership t := by
  simp only [Store.beginOwnershipTransfer, bind_eq_ok, orError_eq_ok, require_eq_ok, insertChecked_eq_ok,
    updateOne_eq_ok, pure_eq_ok, Prod.mk.injEq] at h
  obtain ⟨p, hp, -, -, -, -, -, hactive, -, hnone, m, hm, -, ⟨hrole, haccepted, -⟩, transfers,
    ⟨hnopending, hnew, rfl⟩, projects, ⟨-, rfl⟩, -, rfl⟩ := h
  obtain ⟨hpmem, hpid⟩ := find?_eq_some.mp hp
  obtain ⟨hmmem, hmkey⟩ := find?_eq_some.mp hm
  simp only [key, Prod.mk.injEq] at hmkey
  have hclosed (o : TransferRow) (ho : o ∈ s.transfers) (hproject : o.projectID = transfer.projectID) :
      ¬ OpenTransfer o := fun hopen => hopen.elim (hnopending o ho hproject) (hnone o ho hproject)
  have hproject (x : String) (hex : ∃ q ∈ s.projects, q.id = x) :
      ∃ q ∈ s.projects.update (fun q => q.id = transfer.projectID ∧ q.state = .active)
        (fun q => { q with
          state := .transferPending, pendingOwnerUserID := some transfer.toUserID, updatedAt := stamp }), q.id = x := by
    obtain ⟨q, hq, rfl⟩ := hex
    refine ⟨_, mem_update_of_mem hq, ?_⟩
    split <;> rfl
  refine ⟨fun m hm => hproject _ (hs.member m hm), ?_, ?_⟩
  · intro o ho
    rcases mem_insertOrIgnore.mp ho with ho | ⟨rfl, -⟩
    · exact hproject _ (hs.transfer o ho)
    · exact hproject _ ⟨p, hpmem, hpid⟩
  · intro _ hq'
    rw [mem_update] at hq'
    obtain ⟨q, hq, rfl⟩ := hq'
    by_cases hid : q.id = transfer.projectID
    · obtain rfl := eq_of_key hq hpmem (hid.trans hpid.symm)
      rw [if_pos ⟨hid, hactive⟩]
      have hown := hs.owned q hq
      refine ⟨hown.owner, hown.sole, fun _ _ _ _ => rfl, ?_, ?_⟩
      · intro _
        exact ⟨_, mem_insertOrIgnore.mpr (.inr ⟨rfl, hnew⟩), hid.symm, rfl, rfl, m, hmmem,
          hmkey.1.trans hid.symm, hmkey.2, hrole, haccepted⟩
      · intro o ho o' ho' hpo hpo' hopen hopen'
        rcases mem_insertOrIgnore.mp ho with ho | ⟨rfl, -⟩
        · exact absurd hopen (hclosed o ho (hpo.trans hid))
        · rcases mem_insertOrIgnore.mp ho' with ho' | ⟨rfl, -⟩
          · exact absurd hopen' (hclosed o' ho' (hpo'.trans hid))
          · rfl
    · rw [if_neg (fun hc => hid hc.1)]
      refine (hs.owned q hq).other (fun _ _ => Iff.rfl) ?_
      intro o hoq
      rw [mem_insertOrIgnore]
      constructor
      · rintro (ho | ⟨rfl, -⟩)
        · exact ho
        · exact absurd hoq.symm hid
      · exact .inl

variable {o : TransferRow}

theorem Ownership.pending_eq (hs : Ownership s) {o' : TransferRow} (ho : o ∈ s.transfers) (hstate : o.state = .pending)
    (ho' : o' ∈ s.transfers) (hstate' : o'.state = .pending) (hproject : o'.projectID = o.projectID) : o' = o := by
  obtain ⟨p, hp, hid⟩ := hs.transfer o ho
  exact (hs.owned p hp).single o' ho' o ho (hproject.trans hid.symm) hid.symm (.inl hstate') (.inl hstate)

theorem Ownership.none_pending (hs : Ownership s) {x : TransferRow}
    {hf : ∀ y, (f y).id = y.id} (ho : o ∈ s.transfers) (hstate : o.state = .pending)
    (hclose : ∀ y, (f y).state ≠ .pending)
    (hx : x ∈ s.transfers.update (fun y => y.id = o.id ∧ y.state = .pending) f hf)
    (hproject : x.projectID = o.projectID) : x.state ≠ .pending := by
  obtain ⟨y, hy, -, ⟨-, rfl⟩ | ⟨hp, rfl⟩⟩ := exists_of_mem_update hx
  · exact hclose y
  · intro hpending
    obtain rfl := hs.pending_eq ho hstate hy hpending hproject
    exact hp ⟨rfl, hpending⟩

theorem transfers_other {p : TransferRow → Prop} [DecidablePred p]
    {hf : ∀ y, (f y).id = y.id} {x : TransferRow} (hp : ∀ y ∈ s.transfers, p y → y = o)
    (hproject : ∀ y, (f y).projectID = y.projectID) (hx : x.projectID ≠ o.projectID) :
    x ∈ s.transfers.update p f hf ↔ x ∈ s.transfers := by
  constructor
  · intro h
    obtain ⟨y, hy, -, ⟨hpy, rfl⟩ | ⟨-, rfl⟩⟩ := exists_of_mem_update h
    · exact absurd ((hproject y).trans (congrArg _ (hp y hy hpy))) hx
    · exact hy
  · intro h
    exact mem_update_of_neg h (fun hpx => hx (congrArg _ (hp x h hpx))) hf

theorem members_other {p : MemberRow → Prop} [DecidablePred p] {f : MemberRow → MemberRow}
    {hf : ∀ y, (f y).key = y.key} {members : Table key} {x : MemberRow}
    (hp : ∀ y, p y → y.projectID = id) (hx : x.projectID ≠ id) : x ∈ members.update p f hf ↔ x ∈ members := by
  constructor
  · intro h
    obtain ⟨y, hy, hkey, ⟨hpy, -⟩ | ⟨-, rfl⟩⟩ := exists_of_mem_update h
    · simp only [key, Prod.mk.injEq] at hkey
      exact absurd (hkey.1.symm.trans (hp y hpy)) hx
    · exact hy
  · intro h
    exact mem_update_of_neg h (fun hpx => hx (hp x hpx)) hf

theorem ownership_completeOwnershipTransfer {stamp : ℤ} (hs : Ownership s)
    (h : s.completeOwnershipTransfer id stamp = .ok (o, t)) : Ownership t := by
  simp only [Store.completeOwnershipTransfer, bind_eq_ok, orError_eq_ok, require_eq_ok, updateOne_eq_ok,
    pure_eq_ok, Prod.mk.injEq] at h
  obtain ⟨o', hfind, -, hpending, demoted, ⟨-, rfl⟩, members, ⟨hto, rfl⟩, -, hunique, projects, ⟨-, rfl⟩,
    transfers, ⟨-, rfl⟩, rfl, rfl⟩ := h
  obtain ⟨ho, rfl⟩ := find?_eq_some.mp hfind
  obtain ⟨p, hp, hpid⟩ := hs.transfer o' ho
  have hown := hs.owned p hp
  have hstate : p.state = .transferPending := hown.pending o' ho hpid.symm hpending
  have htarget : p.pendingOwnerUserID = some o'.toUserID := by
    obtain ⟨x, hx, hxp, hxs, hxt, -⟩ := hown.target hstate
    rw [hxt, hs.pending_eq ho hpending hx hxs (hxp.trans hpid)]
  have hself (y : TransferRow) (hy : y ∈ s.transfers) (hyp : y.id = o'.id ∧ y.state = .pending) : y = o' :=
    eq_of_key hy ho hyp.1
  refine ⟨?_, ?_, ?_⟩
  all_goals dsimp only
  · intro m hm
    obtain ⟨_, hm₁, hkey₁, -⟩ := exists_of_mem_update hm
    obtain ⟨m₂, hm₂, hkey₂, -⟩ := exists_of_mem_update hm₁
    have hproject : m₂.projectID = m.projectID := congrArg Prod.fst (hkey₂.trans hkey₁)
    exact exists_key_update (hproject ▸ hs.member m₂ hm₂)
  · intro x hx
    obtain ⟨y, hy, -, hxy⟩ := exists_of_mem_update hx
    have hproject : y.projectID = x.projectID := by
      rcases hxy with ⟨-, rfl⟩ | ⟨-, rfl⟩
      · rfl
      · rfl
    exact exists_key_update (hproject ▸ hs.transfer y hy)
  · intro q' hq'
    obtain ⟨q, hq, -, ⟨⟨hqid, -, -⟩, rfl⟩ | ⟨hnot, rfl⟩⟩ := exists_of_mem_update hq'
    · -- The project of the transfer: the new owner is the one who was promoted.
      obtain rfl := eq_of_key hq hp (hqid.trans hpid.symm)
      refine ⟨?_, ?_, ?_, ?_, ?_⟩
      all_goals dsimp only
      · obtain ⟨m, hm, hmp, hmu, hmr, hms⟩ := exists_of_count_ne_zero (by rw [hto]; decide)
        exact ⟨_, mem_update_of_pos hm ⟨hmp, hmu, hmr, hms⟩, hmp.trans hqid.symm, hmu, rfl, hms⟩
      · intro m hm hproject hrole
        obtain ⟨y, hy, -, ⟨hpy, rfl⟩ | ⟨-, rfl⟩⟩ := exists_of_mem_update hm
        · exact hpy.2.1
        · exact absurd hrole (hunique m hy (hproject.trans hqid))
      · intro x hx hproject hxs
        refine absurd hxs (hs.none_pending ho hpending ?_ hx (hproject.trans hqid))
        intro y hy
        cases hy
      · intro hcontra
        cases hcontra
      · exact hown.single_updated (fun _ => rfl) (fun y hy _ => .inl hy.2)
    · by_cases hqid : q'.id = o'.projectID
      · obtain rfl := eq_of_key hq hp (hqid.trans hpid.symm)
        exact absurd ⟨hqid, hstate, htarget⟩ hnot
      · refine (hs.owned q' hq).other ?_ ?_
        · intro m hm
          have hne : m.projectID ≠ o'.projectID := fun he => hqid (hm.symm.trans he)
          dsimp only
          rw [members_other (fun y hy => hy.1) hne, members_other (fun y hy => hy.1) hne]
        · intro x hx
          dsimp only
          exact transfers_other hself (fun _ => rfl) (fun he => hqid (hx.symm.trans he))

theorem ownership_abortOwnershipTransfer {stamp : ℤ} (hs : Ownership s)
    (h : s.abortOwnershipTransfer id stamp = .ok (u, t)) : Ownership t := by
  simp only [Store.abortOwnershipTransfer, bind_eq_ok, orError_eq_ok, require_eq_ok, updateOne_eq_ok,
    pure_eq_ok, Prod.mk.injEq] at h
  obtain ⟨o, hfind, -, hpending, _, ⟨-, rfl⟩, _, ⟨-, rfl⟩, -, rfl⟩ := h
  obtain ⟨ho, rfl⟩ := find?_eq_some.mp hfind
  obtain ⟨p, hp, hpid⟩ := hs.transfer o ho
  have hown := hs.owned p hp
  have hstate : p.state = .transferPending := hown.pending o ho hpid.symm hpending
  have hself (y : TransferRow) (hy : y ∈ s.transfers) (hyp : y.id = o.id ∧ y.state = .pending) : y = o :=
    eq_of_key hy ho hyp.1
  refine ⟨?_, ?_, ?_⟩
  all_goals dsimp only
  · intro m hm
    exact exists_key_update (hs.member m hm)
  · intro x hx
    obtain ⟨y, hy, -, hxy⟩ := exists_of_mem_update hx
    have hproject : y.projectID = x.projectID := by
      rcases hxy with ⟨-, rfl⟩ | ⟨-, rfl⟩
      · rfl
      · rfl
    exact exists_key_update (hproject ▸ hs.transfer y hy)
  · intro q' hq'
    obtain ⟨q, hq, -, ⟨⟨hqid, -⟩, rfl⟩ | ⟨hnot, rfl⟩⟩ := exists_of_mem_update hq'
    · obtain rfl := eq_of_key hq hp (hqid.trans hpid.symm)
      refine ⟨hown.owner, hown.sole, ?_, ?_, ?_⟩
      all_goals dsimp only
      · intro x hx hproject hxs
        refine absurd hxs (hs.none_pending ho hpending ?_ hx (hproject.trans hqid))
        intro y hy
        cases hy
      · intro hcontra
        cases hcontra
      · exact hown.single_updated (fun _ => rfl) (fun y hy _ => .inl hy.2)
    · by_cases hqid : q'.id = o.projectID
      · obtain rfl := eq_of_key hq hp (hqid.trans hpid.symm)
        exact absurd ⟨hqid, hstate⟩ hnot
      · refine (hs.owned q' hq).other (fun _ _ => Iff.rfl) ?_
        intro x hx
        dsimp only
        exact transfers_other hself (fun _ => rfl) (fun he => hqid (hx.symm.trans he))

theorem ownership_finalizeOwnershipTransfer {stamp : ℤ} (hs : Ownership s)
    (h : s.finalizeOwnershipTransfer id stamp = .ok (u, t)) : Ownership t := by
  simp only [Store.finalizeOwnershipTransfer, bind_eq_ok, updateOne_eq_ok, pure_eq_ok, Prod.mk.injEq] at h
  obtain ⟨_, ⟨-, rfl⟩, -, rfl⟩ := h
  have hback {x : TransferRow} (hx : x ∈ s.transfers.update (fun o => o.id = id ∧ o.state = .committed)
      (fun o => { o with finalizedAt := some (o.finalizedAt.getD stamp), updatedAt := stamp })) :
      ∃ y ∈ s.transfers, y.projectID = x.projectID ∧ y.state = x.state := by
    obtain ⟨y, hy, -, ⟨-, rfl⟩ | ⟨-, rfl⟩⟩ := exists_of_mem_update hx
    · exact ⟨y, hy, rfl, rfl⟩
    · exact ⟨x, hy, rfl, rfl⟩
  refine ⟨hs.member, ?_, ?_⟩
  · intro x hx
    obtain ⟨y, hy, hproject, -⟩ := hback hx
    exact hproject ▸ hs.transfer y hy
  · intro p hp
    have hown := hs.owned p hp
    refine ⟨hown.owner, hown.sole, ?_, ?_, ?_⟩
    all_goals dsimp only
    · intro x hx hproject hxs
      obtain ⟨y, hy, hyp, hys⟩ := hback hx
      exact hown.pending y hy (hyp.trans hproject) (hys.trans hxs)
    · intro hstate
      obtain ⟨o, ho, hop, hos, hrest⟩ := hown.target hstate
      refine ⟨o, mem_update_of_neg ho ?_, hop, hos, hrest⟩
      rintro ⟨-, hcommitted⟩
      rw [hos] at hcommitted
      cases hcommitted
    · refine hown.single_updated (fun _ => rfl) ?_
      rintro x ⟨-, hx⟩ (hopen | hopen)
      · dsimp only at hopen
        rw [hx] at hopen
        cases hopen
      · cases hopen.2

end Steps

section Runs

variable {env : Env} {op : Op} {a : Option Outcome} {s t : Store}

theorem MemberChange.ownership (h : MemberChange env s t op a) (hop : ¬ op.MovesOwnership) (hs : Ownership s) : Ownership t := by
  cases h with
  | created _ _ _ _ _ hnew hnone => exact ownership_createProject hs hnew hnone
  | deleted _ _ _ _ _ _ _ hdelete => exact ownership_deleteProject hs hdelete
  | provisioned _ active =>
    refine hs.update_projects rfl rfl rfl ?_
    intro p hp
    dsimp only
    split
    · rename_i hstate
      refine ⟨rfl, rfl, rfl, ?_⟩
      cases active <;> simp [hstate.2]
    · exact ⟨rfl, rfl, rfl, Iff.rfl⟩
  | updated _ _ _ _ hf _ _ hsame =>
    refine hs.update_projects rfl rfl rfl ?_
    intro p hp
    split
    · exact hsame p ‹_›
    · exact ⟨rfl, rfl, rfl, Iff.rfl⟩
  | moved _ _ _ _ _ _ _ hmoves => exact absurd hmoves hop
  | rows _ _ _ _ _ _ hstaff | removal _ _ _ _ hstaff | link _ _ _ _ _ hstaff => exact hs.staffed rfl rfl hstaff

theorem MemberEffect.ownership (h : MemberEffect env s t op a) (hs : Ownership s) : Ownership t := by
  have hchange := h.change
  cases h with
  | beginOwnershipTransfer _ _ _ h => exact ownership_beginOwnershipTransfer hs h
  | completeOwnershipTransfer _ _ _ h => exact ownership_completeOwnershipTransfer hs h
  | abortOwnershipTransfer _ _ h => exact ownership_abortOwnershipTransfer hs h
  | finalizeOwnershipTransfer _ _ h => exact ownership_finalizeOwnershipTransfer hs h
  | _ => exact hchange.ownership not_false hs

theorem Ownership.of_membership (hs : Ownership s) (h : SameMembership s t) : Ownership t :=
  hs.congr ⟨h.projects, h.members, h.transfers⟩

theorem Effect.ownership (h : Effect env op a s t) (hs : Ownership s) : Ownership t := by
  cases h with
  | same h => exact h ▸ hs
  | member h => exact h.ownership hs
  | invite h => exact hs.congr h.frame.1
  | conversation h | run h | task h => exact hs.of_membership h.frame.1

theorem ownership_reachable {c : Config Store Call Outcome} (hc : system.Reachable c) : Ownership c.store := by
  refine labelled.store_invariant Ownership.empty ?_ ?_ ?_ hc
  · exact fun i s t hs h => h.ownership hs
  · exact fun i o s t hs h => h.ownership hs
  · rintro s t hs ⟨_, h⟩
    exact hs.of_membership (Store.reopened_frame h).1

/-- Every project has its one owner, and at most one transfer that is not over. -/
theorem project_ownership {c : Config Store Call Outcome} (hc : system.Reachable c) {p : ProjectRow}
    (hp : p ∈ c.store.projects) :
    (∃ m ∈ c.store.members, m.projectID = p.id ∧ m.role = .owner ∧ m.state = .accepted ∧ m.userID = p.ownerUserID ∧
      ∀ m' ∈ c.store.members, m'.projectID = p.id → m'.role = .owner → m' = m) ∧
    (p.state = .transferPending ↔
      ∃ o ∈ c.store.transfers, o.projectID = p.id ∧ o.state = .pending ∧
        (∀ o' ∈ c.store.transfers, o'.projectID = p.id → o'.state = .pending → o' = o) ∧
        p.pendingOwnerUserID = some o.toUserID ∧
        ∃ m ∈ c.store.members, m.projectID = p.id ∧ m.userID = o.toUserID ∧ m.state = .accepted ∧
          m.role = .member) ∧
    ∀ o ∈ c.store.transfers, ∀ o' ∈ c.store.transfers, o.projectID = p.id → o'.projectID = p.id →
      OpenTransfer o → OpenTransfer o' → o = o' := by
  have hown := (ownership_reachable hc).owned p hp
  refine ⟨?_, ⟨?_, ?_⟩, hown.single⟩
  · obtain ⟨m, hm, hproject, huser, hrole, hstate⟩ := hown.owner
    refine ⟨m, hm, hproject, hrole, hstate, huser, ?_⟩
    intro m' hm' hproject' hrole'
    have huser' := hown.sole m' hm' hproject' hrole'
    apply eq_of_key hm' hm
    rw [MemberRow.key, MemberRow.key, hproject, hproject', huser, huser']
  · intro hstate
    obtain ⟨o, ho, hproject, hpending, htarget, m, hm, hmp, hmu, hmr, hms⟩ := hown.target hstate
    refine ⟨o, ho, hproject, hpending, ?_, htarget, m, hm, hmp, hmu, hms, hmr⟩
    intro o' ho' hproject' hpending'
    exact hown.single o' ho' o ho hproject' hproject (.inl hpending') (.inl hpending)
  · rintro ⟨o, ho, hproject, hpending, -⟩
    exact hown.pending o ho hproject hpending

end Runs

namespace OwnershipExample

def env : Env := ⟨fun _ => ⟨0⟩, "key", fun a b => a = b, fun _ => true⟩

def ops : List Op :=
  [.createProject "project-000000001" 1 "S-1-5-1" "Project", .setProvisioningResult "project-000000001" true,
    .createInvite ⟨"invite-0000000001", "project-000000001", 1, 2, "S-1-5-2", ⟨1000000000000⟩⟩,
    .beginInviteAcceptance "invite-0000000001" 2, .completeInviteAcceptance "invite-0000000001" 2,
    .beginOwnershipTransfer ⟨"transfer-00000001", "project-000000001", 2, "S-1-5-2"⟩ 1]

def calls (ops : List Op) : List Call := ops.zipIdx.map (fun x => ⟨x.2, env, 1, x.1⟩)

def reached (ops : List Op) : Config Store Call Outcome := system.after ⟨system.init, [], [], []⟩ (calls ops)

theorem reachable_reached {ops : List Op}
    (hplain : ∀ op ∈ ops, op.runID = none ∧ op.trigger = none ∧ op.finishes = none) :
    system.Reachable (reached ops) := by
  refine System.Run.after rfl (allowedAll_of_plain ?_ ?_ ?_)
  · intro i _ j hj
    cases hj
  · have hnames : (calls ops).map Call.name = List.range' 0 ops.length := by
      rw [calls, map_map, ← zipIdx_map_snd 0 ops]
      rfl
    rw [hnames]
    exact nodup_range'
  · intro i hi
    obtain ⟨x, hx, rfl⟩ := mem_map.mp hi
    exact hplain _ (fst_mem_of_mem_zipIdx hx)

def project : ProjectRow :=
  ⟨"project-000000001", 1, "S-1-5-1", "Project", .transferPending, some 2, 0, 0⟩

theorem project_ownership_pending : project.state = .transferPending ∧
    ∃ o ∈ (reached ops).store.transfers, o.projectID = project.id ∧ o.state = .pending := by
  have hreached : system.Reachable (reached ops) := reachable_reached (by decide)
  have hproject : project ∈ (reached ops).store.projects := by
    rw [← mem_rows]
    decide
  obtain ⟨-, hpending, -⟩ := project_ownership hreached hproject
  obtain ⟨o, ho, hid, hstate, -⟩ := hpending.mp rfl
  exact ⟨rfl, o, ho, hid, hstate⟩

end OwnershipExample

end WorkAgent.Collaboration
