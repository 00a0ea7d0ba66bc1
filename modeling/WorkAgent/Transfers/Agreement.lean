import WorkAgent.Transfers.Steps

namespace WorkAgent.Transfers

open Library Collaboration Table

def World.Handles (w : World) (project : String) : Prop :=
  ∃ k r, w.requests k = some r ∧ r.transfer.projectID = project

/-- The database and the disk agree on the projects that are active, and no transfer is left half done. -/
structure Agrees (fold : String → String) (w : World) : Prop where
  placed : ∀ p ∈ w.db.projects, p.state = .active → w.recovered p.id = true → ¬ w.Handles p.id →
    (∀ root, w.disk.place root p.id = if root = fold p.ownerSID then some (fold p.ownerSID) else none) ∧
      ∀ root, w.disk.journal root p.id = none
  resolved : ∀ o ∈ w.db.transfers, o.state = .pending → ∃ k r, w.requests k = some r ∧ r.transfer.id = o.id
  released : ∀ p ∈ w.db.projects, p.state = .transferPending → w.Handles p.id

variable {fold : String → String} {w : World}

theorem Sound.start : Sound fold World.start where
  ownership := Ownership.empty
  launched := forall_mem_empty
  vacant := by
    intro d p hp
    cases hp
  settled := by
    intro d p hp
    cases hp
  recipient := forall_mem_empty
  unset := forall_mem_empty
  handled := forall_mem_empty
  tracks := by
    intro k r hr
    cases hr
  distinct := by
    intro k _ r _ hr
    cases hr
  strays := by
    intro c hc
    cases hc
  pass := by
    intro x hx
    cases hx
  recovered := by
    intro d hd
    cases hd

theorem Sound.handles (h : Sound fold w) {o : TransferRow} (ho : o ∈ w.db.transfers) (hpending : o.state = .pending) :
    w.Handles o.projectID := by
  obtain ⟨k, r, hr, hstage, hid⟩ := h.handled o ho hpending
  have hfind : w.db.transfers.find? r.transfer.id = some o := hid ▸ find?_of_mem ho
  refine ⟨k, r, hr, ?_⟩
  cases h.tracks k r hr with
  | arrived harrived => exact absurd harrived hstage
  | pending _ hpends => exact (hpends.row_of_find hfind).1.symm
  | closing _ hclosing =>
    obtain ⟨x, hx, hcommitted, -⟩ := hclosing
    cases hx.symm.trans hfind
    rw [hpending] at hcommitted
    cases hcommitted

theorem Sound.agrees (h : Sound fold w) : Agrees fold w where
  placed := by
    intro p hp hactive hrecovered _
    have hfind : w.db.project p.id = some p := find?_of_mem hp
    have hlaunched : Launched p := ⟨by rw [hactive]; simp, by rw [hactive]; simp⟩
    obtain ⟨⟨hplace, honly⟩, hjournal⟩ := h.settled p.id p hfind hlaunched (by rw [hactive]; simp)
    refine ⟨?_, ?_⟩
    · intro root
      by_cases hroot : root = fold p.ownerSID
      · rw [if_pos hroot, hroot, hplace]
      · rw [if_neg hroot]
        by_contra hne
        exact hroot (honly root hne)
    · rcases hjournal with hno | ⟨-, o, ho, hod, hun⟩
      · exact hno
      · exact absurd hun (h.recovered p.id hrecovered o ho hod)
  resolved := by
    intro o ho hpending
    obtain ⟨k, r, hr, -, hid⟩ := h.handled o ho hpending
    exact ⟨k, r, hr, hid⟩
  released := by
    intro p hp hstate
    obtain ⟨o, ho, hod, hpending, -⟩ := (h.ownership.owned p hp).target hstate
    exact hod ▸ h.handles ho hpending

namespace HandoverExample

def env : Env := ⟨fun _ => ⟨0⟩, "key", fun a b => a = b, fun _ => true⟩

def projectID : String := "project-000000041"

def next {α : Type} (f : Store → Except Error (α × Store)) (s : Store) : Store :=
  match f s with
  | .ok x => x.2
  | .error _ => s

theorem next_eq {α : Type} {f : Store → Except Error (α × Store)} {s : Store} (h : (f s).isOk = true) :
    ∃ x, f s = .ok (x, next f s) := by
  unfold next
  cases hf : f s with
  | ok x => exact ⟨x.1, rfl⟩
  | error =>
    rw [hf] at h
    cases h

def invite : Invite := ⟨"invite-0000000041", projectID, 1, 2, "S-1-7-2", ⟨1000000000000⟩⟩

def transfer : OwnershipTransfer := ⟨"transfer-00000041", projectID, 2, "S-1-7-2"⟩

def made : Store :=
  next (fun s => s.createProject (trimSpace projectID) 1 "S-1-7-1" (trimSpace "Handover") (env.stamp 0)) Store.empty

def active : Store := next (fun s => s.setProvisioningResult projectID true (env.stamp 0)) made

def invited : Store := next (fun s => s.insertInvite invite (env.stamp 0)) active

def accepting : Store := next (fun s => s.beginInviteAcceptance invite.id 2 (env.now 0)) invited

def accepted : Store := next (fun s => s.completeInviteAcceptance invite.id 2 (env.stamp 0)) accepting

def pending : Store := next (fun s => s.beginOwnershipTransfer (fun a b => a = b) transfer 1 0) accepted

def aborted : Store := next (fun s => s.abortOwnershipTransfer transfer.id 0) pending

def provisioned : Disk := Disk.empty.setPlace "S-1-7-1" projectID (some "S-1-7-1")

def request (stage : Stage) : Request := ⟨transfer, 1, "S-1-7-1", stage⟩

def world (db : Store) (disk : Disk) (stage : Option Stage) : World :=
  ⟨db, disk, fun k => if k = 0 then stage.map request else none, [], none, fun _ => false⟩

def provisioning : ProjectRow := ⟨projectID, 1, "S-1-7-1", "Handover", .provisioning, none, 0, 0⟩

theorem made_project : made.project projectID = some provisioning := by
  decide

def prepares : List Event :=
  [.operated (.createProject projectID 1 "S-1-7-1" "Handover"), .provisioned projectID,
    .operated (.setProvisioningResult projectID true), .operated (.createInvite invite),
    .operated (.beginInviteAcceptance invite.id 2), .operated (.completeInviteAcceptance invite.id 2), .arrived 0,
    .begun 0 true]

def same (sid : String) : String := sid

theorem operates {op : Op} {a : Option Outcome} {w : World} {db : Store} (heffect : Effect env op a w.db db)
    (hother : OtherOp op) (hprovisioned : Provisioned same w op) : CarefulStep same w (.operated op) (w.withDB db) :=
  ⟨.operates heffect hother hprovisioned, trivial⟩

theorem start_world : World.start = world Store.empty Disk.empty none := by
  unfold World.start world
  congr
  funext i
  simp

theorem makes : CarefulStep same (world Store.empty Disk.empty none) (.operated (.createProject projectID 1 "S-1-7-1" "Handover"))
    (world made Disk.empty none) := by
  obtain ⟨_, h⟩ := next_eq (f := fun s => s.createProject (trimSpace projectID) 1 "S-1-7-1" (trimSpace "Handover")
    (env.stamp 0)) (s := Store.empty) (by decide)
  have heffect : Effect env (.createProject projectID 1 "S-1-7-1" "Handover") none Store.empty made :=
    .member (.createProject _ _ _ _ none h)
  refine operates heffect trivial ⟨?_, fun _ => rfl⟩
  exact fun root hroot => absurd rfl hroot

theorem provisions :
    CarefulStep same (world made Disk.empty none) (.provisioned projectID) (world made provisioned none) := by
  have hstep : Step same (world made Disk.empty none) (.provisioned projectID) ((world made Disk.empty none).withDisk
      (Disk.empty.setPlace (same provisioning.ownerSID) projectID (some "S-1-7-1"))) := .provisions made_project rfl
  exact ⟨hstep, trivial⟩

theorem activates : CarefulStep same (world made provisioned none) (.operated (.setProvisioningResult projectID true))
    (world active provisioned none) := by
  obtain ⟨_, h⟩ := next_eq (f := fun s => s.setProvisioningResult projectID true (env.stamp 0)) (s := made)
    (by decide)
  refine operates (.member (.setProvisioningResult _ _ none h)) trivial ?_
  intro p hp _
  have htrim : trimSpace projectID = projectID := by decide
  rw [htrim] at hp
  cases made_project.symm.trans hp
  decide

theorem invites : CarefulStep same (world active provisioned none) (.operated (.createInvite invite))
    (world invited provisioned none) := by
  obtain ⟨_, h⟩ := next_eq (f := fun s => s.insertInvite invite (env.stamp 0)) (s := active) (by decide)
  exact operates (.invite (.create _ none h)) trivial trivial

theorem accepts : CarefulStep same (world invited provisioned none) (.operated (.beginInviteAcceptance invite.id 2))
    (world accepting provisioned none) := by
  obtain ⟨_, h⟩ := next_eq (f := fun s => s.beginInviteAcceptance invite.id 2 (env.now 0)) (s := invited)
    (by decide)
  exact operates (.member (.beginInviteAcceptance _ _ _ none h)) trivial trivial

theorem joins : CarefulStep same (world accepting provisioned none) (.operated (.completeInviteAcceptance invite.id 2))
    (world accepted provisioned none) := by
  obtain ⟨_, h⟩ := next_eq (f := fun s => s.completeInviteAcceptance invite.id 2 (env.stamp 0)) (s := accepting)
    (by decide)
  exact operates (.member (.completeInviteAcceptance _ _ _ none h)) trivial trivial

theorem put_world (db : Store) (disk : Disk) (s t : Option Stage) :
    (world db disk s).put 0 (t.map request) = world db disk t := by
  unfold World.put world
  congr
  funext i
  by_cases hi : i = 0 <;> simp [hi]

theorem arrives : CarefulStep same (world accepted provisioned none) (.arrived 0)
    (world accepted provisioned (some .arrived)) := by
  have hstep : Step same (world accepted provisioned none) (.arrived 0)
      ((world accepted provisioned none).put 0 ((some Stage.arrived).map request)) := .arrives rfl rfl
  rw [put_world] at hstep
  exact ⟨hstep, trivial⟩

theorem begins : CarefulStep same (world accepted provisioned (some .arrived)) (.begun 0 true)
    (world pending provisioned (some .begun)) := by
  obtain ⟨_, h⟩ := next_eq (f := fun s => s.beginOwnershipTransfer (fun a b => a = b) transfer 1 0) (s := accepted)
    (by decide)
  have hvalid : stableID transfer.id ∧ 0 < transfer.toUserID ∧ transfer.toUserID ≠ 1 ∧ validSID transfer.toSID := by
    decide
  have hr : (world accepted provisioned (some .arrived)).requests 0 = some (request .arrived) := rfl
  have hstep : Step same (world accepted provisioned (some .arrived)) (.begun 0 true)
      ((world pending provisioned (some .arrived)).put 0 ((some Stage.begun).map request)) :=
    Step.begins hr rfl hvalid h
  rw [put_world] at hstep
  exact ⟨hstep, rfl⟩

theorem prepared : Execution (CarefulStep same) .start prepares (world pending provisioned (some .begun)) := by
  rw [start_world]
  exact ((((((((Execution.start.step makes).step provisions).step activates).step invites).step accepts).step joins).step
    arrives).step begins)

theorem recovers {w : World} (hpass : w.pass = none)
    (hnone : w.db.transfers.rows.filter (fun o => Store.Unfinalized o) = []) :
    Execution (CarefulStep same) w [.passBegan, .passEnded] { w with pass := none, recovered := fun _ => true } := by
  have hbegins : CarefulStep same w .passBegan (w.withPass (some ⟨[], .idle, false, fun _ => true⟩)) := by
    refine ⟨.passBegins hpass ?_, trivial⟩
    rw [hnone]
  have hends : CarefulStep same (w.withPass (some ⟨[], .idle, false, fun _ => true⟩)) .passEnded
      ((w.withPass (some ⟨[], .idle, false, fun _ => true⟩)).passed ⟨[], .idle, false, fun _ => true⟩) :=
    ⟨.passEnds rfl, trivial⟩
  have hafter : (w.withPass (some ⟨[], .idle, false, fun _ => true⟩)).passed ⟨[], .idle, false, fun _ => true⟩ =
      { w with pass := none, recovered := fun _ => true } := by
    simp [World.passed, World.withPass]
  rw [hafter] at hends
  exact (Execution.start.step hbegins).step hends

theorem Careful.steps {w w' : World} {es : List Event} (h : Execution (CarefulStep same) w es w') :
    Execution (Step same) w es w' :=
  h.mono fun _ _ _ hstep => hstep.1

theorem abandons : ∃ w, Execution (Step same) .start (prepares ++ [.portalDied] ++ [.passBegan, .passEnded]) w ∧
    (∀ k, w.requests k = none) ∧ w.recovered projectID = true ∧
      ∃ o ∈ w.db.transfers, o.projectID = projectID ∧ o.state = .pending := by
  have hopens : (pending.reopened 0).isOk = true := by decide +kernel
  cases hdb : pending.reopened 0 with
  | error =>
    rw [hdb] at hopens
    cases hopens
  | ok db =>
    have htransfers := (Store.reopened_frame hdb).1.transfers
    have hdies : Step same (world pending provisioned (some .begun)) .portalDied
        ⟨db, provisioned, fun _ => none, [], none, fun _ => false⟩ := by
      refine Step.portalDies hdb ?_
      intro c
      constructor
      · intro hc
        cases hc
      · rintro (hc | ⟨k, r, hr, hcall⟩ | hc)
        · cases hc
        · by_cases hk : k = 0
          · subst hk
            cases hr
            cases hcall
          · simp [world, hk] at hr
        · cases hc
    have hnone : db.transfers.rows.filter (fun o => Store.Unfinalized o) = [] := by
      rw [htransfers]
      decide
    have hrow : ⟨transfer.id, projectID, 1, 2, "S-1-7-2", .pending, 0, 0, none⟩ ∈ db.transfers := by
      rw [htransfers, ← mem_rows]
      decide
    refine ⟨_, ((Careful.steps prepared).step hdies).trans (Careful.steps (recovers rfl hnone)), fun _ => rfl, rfl, ?_⟩
    exact ⟨_, hrow, rfl, rfl⟩

end HandoverExample

end WorkAgent.Transfers
