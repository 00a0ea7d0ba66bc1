import WorkAgent.Transfers.Portal

namespace WorkAgent.Transfers

open Library Collaboration Option Table

inductive Fate (op : Op) (d : String) : Option ProjectRow → Option ProjectRow → Prop
  | absent : Fate op d none none
  | kept {p q} (hsid : q.ownerSID = p.ownerSID) (hpending : q.state = .transferPending ↔ p.state = .transferPending)
      (hlaunched : Launched q ↔ Launched p) : Fate op d (some p) (some q)
  | created {id owner sid name q} (hop : op = .createProject id owner sid name) (hd : trimSpace id = d)
      (hsid : q.ownerSID = sid) (hlaunched : ¬ Launched q) : Fate op d none (some q)
  | launched {id p q} (hop : op = .setProvisioningResult id true) (hd : trimSpace id = d)
      (hp : p.state = .provisioning) (hsid : q.ownerSID = p.ownerSID) (hq : q.state = .active) :
      Fate op d (some p) (some q)
  | deleted {p} (hlaunched : ¬ Launched p) : Fate op d (some p) none

variable {s t : Store} {op : Op} {d : String} {env : Env} {a : Option Outcome}

theorem Fate.refl (x : Option ProjectRow) : Fate op d x x := by
  cases x with
  | none => exact .absent
  | some => exact .kept rfl Iff.rfl Iff.rfl

theorem Fate.of_projects (h : t.projects = s.projects) : Fate op d (s.project d) (t.project d) := by
  rw [Store.project, Store.project, h]
  exact .refl _

theorem project_update {p : ProjectRow → Prop} [DecidablePred p] {f : ProjectRow → ProjectRow}
    (ht : t.projects.rows = s.projects.rows.map (fun r => if p r then f r else r)) (hf : ∀ r, (f r).id = r.id)
    (d : String) : t.project d = (s.project d).map (fun x => if p x then f x else x) := by
  have hupdate : t.projects = s.projects.update p f hf := ext_rows ht
  rw [Store.project, hupdate, find?_update]
  rfl

theorem Fate.of_update {p : ProjectRow → Prop} [DecidablePred p] {f : ProjectRow → ProjectRow}
    (ht : t.projects.rows = s.projects.rows.map (fun r => if p r then f r else r)) (hf : ∀ r, (f r).id = r.id)
    (h : ∀ x, s.project d = some x → p x → Fate op d (some x) (some (f x))) :
    Fate op d (s.project d) (t.project d) := by
  have hfind := project_update ht hf d
  rw [hfind]
  cases hx : s.project d with
  | none => exact .absent
  | some x =>
    rw [map_some]
    split
    · rename_i hpx
      exact h x hx hpx
    · exact .refl _

theorem MemberEffect.fate (h : MemberEffect env s t op a) (hother : OtherOp op) :
    Fate op d (s.project d) (t.project d) := by
  cases h.change with
  | created id _ _ _ _ hnew =>
    dsimp only [Store.project]
    by_cases hd : trimSpace id = d
    · subst hd
      rw [hnew, find?_insertOrIgnore, if_pos rfl, hnew]
      refine .created rfl rfl rfl ?_
      exact fun hl => hl.1 rfl
    · rw [find?_insertOrIgnore, if_neg hd]
      exact .refl _
  | deleted _ _ _ p _ hp hl hdelete =>
    simp only [Store.deleteProject, bind_eq_ok, pure_eq_ok] at hdelete
    obtain ⟨u, hu, rfl⟩ := hdelete
    obtain ⟨-, rfl⟩ := Store.deleteConversations_eq_ok hu
    obtain ⟨_, hpid⟩ := find?_eq_some.mp hp
    by_cases hd : d = p.id
    · have hpd : s.project d = some p := by
        rw [hd, hpid]
        exact hp
      have hnone : (s.projects.delete (fun q => q.id = p.id)).find? d = none := by
        rw [find?_eq_none]
        intro q hq hqd
        exact (mem_delete.mp hq).2 (hqd.trans hd)
      rw [hpd]
      change Fate _ d (some p) ((s.projects.delete (fun q => q.id = p.id)).find? d)
      rw [hnone]
      exact .deleted hl
    · have hsame : (s.projects.delete (fun q => q.id = p.id)).find? d = s.projects.find? d := by
        cases hx : s.projects.find? d with
        | none =>
          rw [find?_eq_none] at hx ⊢
          exact fun q hq => hx q (mem_delete.mp hq).1
        | some =>
          obtain ⟨hmem, rfl⟩ := find?_eq_some.mp hx
          exact find?_eq_some.mpr ⟨mem_delete.mpr ⟨hmem, hd⟩, rfl⟩
      change Fate _ d (s.projects.find? d) ((s.projects.delete (fun q => q.id = p.id)).find? d)
      rw [hsame]
      exact .refl _
  | provisioned id active =>
    refine .of_update rfl (fun _ => rfl) ?_
    rintro x hx ⟨hid, hstate⟩
    have hd : trimSpace id = d := hid.symm.trans (find?_eq_some.mp hx).2
    cases active with
    | true => exact .launched rfl hd hstate rfl rfl
    | false =>
      refine .kept rfl ?_ ?_
      · simp [hstate]
      · simp [Launched, hstate]
  | updated _ _ _ _ hf _ hsid hsame hlaunched =>
    exact .of_update rfl hf (fun x _ hx => .kept (hsid x hx) (hsame x hx).state (hlaunched x hx))
  | moved op _ _ _ _ _ _ hop =>
    cases op
    all_goals first | exact absurd hop not_false | exact absurd hother not_false
  | rows | removal | link => exact .refl _

def TransfersLaunched (s : Store) : Prop :=
  ∀ o ∈ s.transfers, ∀ p, s.project o.projectID = some p → Launched p

theorem MemberEffect.transfers (h : MemberEffect env s t op a) (hother : OtherOp op) (hs : TransfersLaunched s) :
    t.transfers = s.transfers := by
  cases h.change with
  | deleted _ _ _ _ _ hp hl hdelete =>
    simp only [Store.deleteProject, bind_eq_ok, pure_eq_ok] at hdelete
    obtain ⟨u, hu, rfl⟩ := hdelete
    obtain ⟨-, rfl⟩ := Store.deleteConversations_eq_ok hu
    apply delete_eq_self
    intro o ho hproject
    apply hl
    apply hs o ho
    rw [hproject, (find?_eq_some.mp hp).2]
    exact hp
  | moved op _ _ _ _ _ _ hop =>
    cases op
    all_goals first | exact absurd hop not_false | exact absurd hother not_false
  | _ => rfl

theorem Effect.fate (h : Effect env op a s t) (hother : OtherOp op) : Fate op d (s.project d) (t.project d) := by
  cases h with
  | same h => exact h ▸ .refl _
  | member h => exact MemberEffect.fate h hother
  | invite h => exact .of_projects h.frame.1.1
  | conversation h | run h | task h => exact .of_projects h.frame.1.projects

theorem Effect.transfers (h : Effect env op a s t) (hother : OtherOp op) (hs : TransfersLaunched s) :
    t.transfers = s.transfers := by
  cases h with
  | same h => exact h ▸ rfl
  | member h => exact MemberEffect.transfers h hother hs
  | invite h => exact h.frame.1.2.2
  | conversation h | run h | task h => exact h.frame.1.transfers

section Transfers

variable {stamp : ℤ}

theorem project_updated {p : ProjectRow → Prop} [DecidablePred p] {f : ProjectRow → ProjectRow}
    (ht : t.projects.rows = s.projects.rows.map (fun r => if p r then f r else r)) (hf : ∀ r, (f r).id = r.id)
    (hp : ∀ x, p x → x.id = d) (hex : ∃ x ∈ s.projects, p x) : (∃ x, s.project d = some x ∧ p x ∧ t.project d = some (f x)) ∧
      ∀ e, e ≠ d → t.project e = s.project e := by
  refine ⟨?_, ?_⟩
  · obtain ⟨x, hx, hpx⟩ := hex
    obtain rfl := hp x hpx
    have hfind : s.project x.id = some x := find?_of_mem hx
    refine ⟨x, hfind, hpx, ?_⟩
    rw [project_update ht hf, hfind, map_some, if_pos hpx]
  · intro e he
    rw [project_update ht hf]
    cases hx : s.project e with
    | none => rfl
    | some x =>
      obtain ⟨-, hxid⟩ := find?_eq_some.mp hx
      rw [map_some, if_neg]
      exact fun hpx => he (hxid.symm.trans (hp x hpx))

theorem find?_update_row {p : TransferRow → Prop} [DecidablePred p] {f : TransferRow → TransferRow}
    {o : TransferRow} (ht : t.transfers.rows = s.transfers.rows.map (fun r => if p r then f r else r))
    (hf : ∀ r, (f r).id = r.id) (h : s.transfers.find? o.id = some o) (ho : p o) (hp : ∀ x, p x → x.id = o.id) :
    t.transfers.find? o.id = some (f o) ∧ ∀ id, id ≠ o.id → t.transfers.find? id = s.transfers.find? id := by
  have hupdate : t.transfers = s.transfers.update p f hf := ext_rows ht
  rw [hupdate]
  refine ⟨?_, ?_⟩
  · rw [find?_update, h, map_some, if_pos ho]
  · intro id hid
    rw [find?_update]
    cases hx : s.transfers.find? id with
    | none => rfl
    | some x =>
      obtain ⟨-, hxid⟩ := find?_eq_some.mp hx
      rw [map_some, if_neg]
      exact fun hpx => hid (hxid.symm.trans (hp x hpx))

structure Began (s t : Store) (transfer : OwnershipTransfer) (owner stamp : ℤ) : Prop where
  project : ∃ p q, s.project transfer.projectID = some p ∧ t.project transfer.projectID = some q ∧
    p.state = .active ∧ q.state = .transferPending ∧ q.ownerSID = p.ownerSID
  others : ∀ d, d ≠ transfer.projectID → t.project d = s.project d
  clear : ∀ o ∈ s.transfers, o.projectID = transfer.projectID → ¬ OpenTransfer o
  fresh : s.transfers.find? transfer.id = none
  transfers : t.transfers = s.transfers.insertOrIgnore
    ⟨transfer.id, transfer.projectID, owner, transfer.toUserID, transfer.toSID, .pending, stamp, stamp, none⟩

theorem began {fold : String → String → Bool} {transfer : OwnershipTransfer} {owner : ℤ}
    (h : s.beginOwnershipTransfer fold transfer owner stamp = .ok ((), t)) : Began s t transfer owner stamp := by
  simp only [Store.beginOwnershipTransfer, bind_eq_ok, orError_eq_ok, require_eq_ok, updateOne_eq_ok,
    insertChecked_eq_ok, pure_eq_ok, Prod.mk.injEq] at h
  obtain ⟨p₀, -, -, -, -, -, -, -, -, hclear, m, -, -, -, transfers, ⟨hunique, hnew, rfl⟩, projects, ⟨hcount, rfl⟩, -,
    ht⟩ := h
  have hprojects := congrArg (fun u => u.projects.rows) ht.symm
  obtain ⟨⟨p, hp, ⟨-, hactive⟩, hq⟩, hothers⟩ := project_updated hprojects (fun _ => rfl) (fun _ hx => hx.1)
    (exists_of_count_ne_zero (by omega))
  refine ⟨⟨p, _, hp, hq, hactive, rfl, rfl⟩, hothers, ?_, hnew, congrArg Store.transfers ht.symm⟩
  rintro o ho hproject (hpending | hopen)
  · exact hunique o ho hproject hpending
  · exact hclear o ho hproject hopen

structure Ended (s t : Store) (o : TransferRow) (o' : TransferRow) (sid : String → String) : Prop where
  row : s.transfers.find? o.id = some o
  pending : o.state = .pending
  project : ∃ p q, s.project o.projectID = some p ∧ t.project o.projectID = some q ∧
    p.state = .transferPending ∧ q.state = .active ∧ q.ownerSID = sid p.ownerSID
  others : ∀ d, d ≠ o.projectID → t.project d = s.project d
  after : t.transfers.find? o.id = some o'
  id : o'.id = o.id
  projectID : o'.projectID = o.projectID
  toSID : o'.toSID = o.toSID
  rest : ∀ id, id ≠ o.id → t.transfers.find? id = s.transfers.find? id

theorem completed {id : String} {o : TransferRow} (h : s.completeOwnershipTransfer id stamp = .ok (o, t)) :
    o.id = id ∧ Ended s t o { o with state := .committed, updatedAt := stamp } (fun _ => o.toSID) := by
  simp only [Store.completeOwnershipTransfer, bind_eq_ok, orError_eq_ok, require_eq_ok, updateOne_eq_ok,
    pure_eq_ok, Prod.mk.injEq] at h
  obtain ⟨x, hx, -, hpending, _, -, _, -, -, -, _, ⟨_, rfl⟩, _, ⟨-, rfl⟩, rfl, ht⟩ := h
  obtain ⟨-, rfl⟩ := find?_eq_some.mp hx
  have htransfers := congrArg (fun u => u.transfers.rows) ht.symm
  have hprojects := congrArg (fun u => u.projects.rows) ht.symm
  obtain ⟨hafter, hrest⟩ := find?_update_row htransfers (fun _ => rfl) hx ⟨rfl, hpending⟩ (fun _ hy => hy.1)
  obtain ⟨⟨p, hp, ⟨-, hstate, -⟩, hq⟩, hothers⟩ := project_updated hprojects (fun _ => rfl) (fun _ hp => hp.1)
    (exists_of_count_ne_zero (by omega))
  exact ⟨rfl, hx, hpending, ⟨p, _, hp, hq, hstate, rfl, rfl⟩, hothers, hafter, rfl, rfl, rfl, hrest⟩

theorem aborted {id : String} {u : Unit} (h : s.abortOwnershipTransfer id stamp = .ok (u, t)) :
    ∃ o, o.id = id ∧ Ended s t o { o with state := .aborted, updatedAt := stamp } (fun sid => sid) := by
  simp only [Store.abortOwnershipTransfer, bind_eq_ok, orError_eq_ok, require_eq_ok, updateOne_eq_ok,
    pure_eq_ok, Prod.mk.injEq] at h
  obtain ⟨x, hx, -, hpending, _, ⟨_, rfl⟩, _, ⟨-, rfl⟩, -, ht⟩ := h
  obtain ⟨-, rfl⟩ := find?_eq_some.mp hx
  have htransfers := congrArg (fun u => u.transfers.rows) ht.symm
  have hprojects := congrArg (fun u => u.projects.rows) ht.symm
  obtain ⟨hafter, hrest⟩ := find?_update_row htransfers (fun _ => rfl) hx ⟨rfl, hpending⟩ (fun _ hy => hy.1)
  obtain ⟨⟨p, hp, ⟨-, hstate⟩, hq⟩, hothers⟩ := project_updated hprojects (fun _ => rfl) (fun _ hp => hp.1)
    (exists_of_count_ne_zero (by omega))
  exact ⟨x, rfl, hx, hpending, ⟨p, _, hp, hq, hstate, rfl, rfl⟩, hothers, hafter, rfl, rfl, rfl, hrest⟩

structure Closes (id : String) (o o' : TransferRow) : Prop where
  projectID : o'.projectID = o.projectID
  toSID : o'.toSID = o.toSID
  state : o'.state = o.state
  unfinalized : Store.Unfinalized o' ↔ Store.Unfinalized o ∧ o.id ≠ id
  pending : o.state = .pending → o'.finalizedAt = o.finalizedAt

theorem finalized {id : String} {u : Unit} (h : s.finalizeOwnershipTransfer id stamp = .ok (u, t)) :
    t.projects = s.projects ∧
      (∀ x o', t.transfers.find? x = some o' → ∃ o, s.transfers.find? x = some o ∧ Closes id o o') ∧
      ∀ x o, s.transfers.find? x = some o → ∃ o', t.transfers.find? x = some o' ∧ Closes id o o' := by
  simp only [Store.finalizeOwnershipTransfer, bind_eq_ok, updateOne_eq_ok, pure_eq_ok, Prod.mk.injEq] at h
  obtain ⟨_, ⟨-, rfl⟩, -, rfl⟩ := h
  have hcloses (o : TransferRow) : Closes id o (if o.id = id ∧ o.state = .committed then
      { o with finalizedAt := some (o.finalizedAt.getD stamp), updatedAt := stamp } else o) := by
    split
    · rename_i hp
      refine ⟨rfl, rfl, rfl, ?_, ?_⟩
      · simp [Store.Unfinalized, hp.1]
      · intro hpending
        rw [hp.2] at hpending
        cases hpending
    · rename_i hp
      exact ⟨rfl, rfl, rfl, ⟨fun hun => ⟨hun, fun hid => hp ⟨hid, hun.1⟩⟩, And.left⟩, fun _ => rfl⟩
  refine ⟨rfl, ?_, ?_⟩
  · intro x _ ho'
    rw [find?_update, map_eq_some_iff] at ho'
    obtain ⟨o, ho, rfl⟩ := ho'
    exact ⟨o, ho, hcloses o⟩
  · intro x o ho
    refine ⟨_, ?_, hcloses o⟩
    rw [find?_update, ho, map_some]

end Transfers

end WorkAgent.Transfers
