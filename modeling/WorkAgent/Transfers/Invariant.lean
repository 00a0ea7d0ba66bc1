import WorkAgent.Transfers.Lookups
import WorkAgent.Transfers.Places

namespace WorkAgent.Transfers

open Library Collaboration Table

def Job.Harmless : Job → Prop
  | .sent | .checked | .done false | .lost => True
  | _ => False

def Job.Over : Job → Prop
  | .done _ | .lost => True
  | _ => False

def Stage.Releases : Stage → Prop
  | .preparing job => job.Harmless
  | .rollingBack job => job.Over
  | _ => True

/-- Not the steps that go wrong: an answer that a committed change has failed, an abort or a rollback that
fails, a transfer that the manager goes on with or has carried out when nobody waits for its answer any more,
and an end of the Portal or of the manager in the middle of a transfer. -/
def Careful (w : World) : Event → Prop
  | .begun _ reported | .completed _ reported => reported = true
  | .unaborted _ => False
  | .worked _ job => job ≠ .stuck
  | .strayed job => job ≠ .journaled
  | .unsent k => ∀ r, w.requests k = some r → r.stage ≠ .failed
  | .gaveUp k => ∀ r, w.requests k = some r → r.stage.Releases
  | .portalDied => ∀ o ∈ w.db.transfers, o.state ≠ .pending
  | .managerDied => ∀ k r, w.requests k = some r → r.stage.Releases
  | _ => True

def CarefulStep (fold : String → String) (w : World) (e : Event) (w' : World) : Prop := Step fold w e w' ∧ Careful w e

structure Pends (fold : String → String) (db : Store) (transfer : OwnershipTransfer) (P : String) : Prop where
  row : ∃ o, db.transfers.find? transfer.id = some o ∧ o.state = .pending ∧ o.projectID = transfer.projectID ∧
    o.toSID = transfer.toSID
  project : ∃ p, db.project transfer.projectID = some p ∧ fold p.ownerSID = P

def Holds (disk : Disk) (d P X : String) : Stage → Prop
  | .begun | .aborting => Still disk d P
  | .preparing job => Preparing disk d P X job
  | .prepared | .failed => Moved disk d P X
  | .rollingBack job => RollingBack disk d P X job
  | _ => False

/-- The transfer is committed, and a call has found that no journal is left where it is `sure`. -/
def Closing (fold : String → String) (db : Store) (disk : Disk) (id project sid : String) (sure : Prop) : Prop :=
  ∃ o, db.transfers.find? id = some o ∧ o.state = .committed ∧ o.projectID = project ∧ o.toSID = sid ∧
    (sure → Store.Unfinalized o → disk.journal (fold sid) project = none)

def Stage.Late : Stage → Prop
  | .completed | .confirmed => True
  | .committing job => Committing job
  | _ => False

def Stage.Sure : Stage → Prop
  | .confirmed => True
  | .committing job => job = .done true
  | _ => False

inductive Tracks (fold : String → String) (db : Store) (disk : Disk) (r : Request) : Prop
  | arrived (hstage : r.stage = .arrived)
  | pending (P : String) (hpends : Pends fold db r.transfer P)
      (hholds : Holds disk r.transfer.projectID P (fold r.transfer.toSID) r.stage)
      (hfrom : ∀ job, r.stage = .preparing job → fold r.fromSID = P)
  | closing (hlate : r.stage.Late)
      (hclosing : Closing fold db disk r.transfer.id r.transfer.projectID r.transfer.toSID r.stage.Sure)

def PassStage.Late : PassStage → Prop
  | .idle => False
  | .confirmed => True
  | .committing job => Committing job

def PassStage.Sure : PassStage → Prop
  | .idle => False
  | .confirmed => True
  | .committing job => job = .done true

structure PassTracks (fold : String → String) (db : Store) (disk : Disk) (x : Pass) : Prop where
  rows : ∀ o ∈ x.todo, Closing fold db disk o.id o.projectID o.toSID False
  head : x.stage = .idle ∨ ∃ o rest, x.todo = o :: rest ∧ x.stage.Late ∧
    Closing fold db disk o.id o.projectID o.toSID x.stage.Sure
  covers : ∀ d, x.covers d = true → x.erred = true ∨
    ∀ o ∈ db.transfers, o.projectID = d → Store.Unfinalized o → ∃ y ∈ x.todo, y.id = o.id

def Vacant (disk : Disk) (d P : String) : Prop := (∀ r, disk.place r d ≠ none → r = P) ∧ NoJournal disk d

def Settled (db : Store) (disk : Disk) (d P : String) : Prop :=
  Own disk d P ∧ (NoJournal disk d ∨ (∀ r old, disk.journal r d = some old → r = P) ∧
    ∃ o ∈ db.transfers, o.projectID = d ∧ Store.Unfinalized o)

structure Sound (fold : String → String) (w : World) : Prop where
  ownership : Ownership w.db
  launched : TransfersLaunched w.db
  vacant : ∀ d p, w.db.project d = some p → ¬ Launched p → Vacant w.disk d (fold p.ownerSID)
  settled : ∀ d p, w.db.project d = some p → Launched p → p.state ≠ .transferPending →
    Settled w.db w.disk d (fold p.ownerSID)
  recipient : ∀ o ∈ w.db.transfers, Store.Unfinalized o →
    ∃ p, w.db.project o.projectID = some p ∧ p.ownerSID = o.toSID
  unset : ∀ o ∈ w.db.transfers, o.state = .pending → o.finalizedAt = none
  handled : ∀ o ∈ w.db.transfers, o.state = .pending →
    ∃ k r, w.requests k = some r ∧ r.stage ≠ .arrived ∧ r.transfer.id = o.id
  tracks : ∀ k r, w.requests k = some r → Tracks fold w.db w.disk r
  distinct : ∀ k k' r r', w.requests k = some r → w.requests k' = some r' → r.stage ≠ .arrived →
    r'.stage ≠ .arrived → r.transfer.id = r'.transfer.id → k = k'
  strays : ∀ c ∈ w.strays, Inert c
  pass : ∀ x, w.pass = some x → PassTracks fold w.db w.disk x
  recovered : ∀ d, w.recovered d = true → ∀ o ∈ w.db.transfers, o.projectID = d → ¬ Store.Unfinalized o

section Lemmas

variable {fold : String → String} {db : Store} {disk disk' : Disk} {w : World} {r : Request} {o o' : TransferRow}
  {d P X : String} {s : Stage}

theorem Eases.holds (h : Eases disk disk' d) (hs : Holds disk d P X s) : Holds disk' d P X s := by
  cases s with
  | begun | aborting => exact h.still hs
  | preparing => exact h.preparing hs
  | prepared | failed => exact h.moved hs
  | rollingBack => exact h.rollingBack hs
  | arrived | completed | committing | confirmed => exact hs

theorem Eases.vacant (h : Eases disk disk' d) (hv : Vacant disk d P) : Vacant disk' d P :=
  ⟨fun r hr => hv.1 r fun hnone => hr ((h.place r).mpr hnone), h.noJournal hv.2⟩

theorem Eases.settled (h : Eases disk disk' d) (hs : Settled db disk d P) : Settled db disk' d P := by
  refine ⟨h.owned hs.1, ?_⟩
  rcases hs.2 with hno | ⟨hto, hopen⟩
  · exact .inl (h.noJournal hno)
  · refine .inr ⟨?_, hopen⟩
    intro r old hr
    rcases h.journal r with hsame | hnone
    · exact hto r old (hsame ▸ hr)
    · rw [hnone] at hr
      cases hr

variable {id project sid : String} {sure : Prop}

theorem Closing.eases (h : Closing fold db disk id project sid sure)
    (heases : Eases disk disk' project) : Closing fold db disk' id project sid sure := by
  obtain ⟨o, ho, hstate, hproject, hsid, hjournal⟩ := h
  refine ⟨o, ho, hstate, hproject, hsid, ?_⟩
  intro hsure hun
  rcases heases.journal (fold sid) with hsame | hnone
  · exact hsame.trans (hjournal hsure hun)
  · exact hnone

theorem Closing.unsure (h : Closing fold db disk id project sid sure) :
    Closing fold db disk id project sid False := by
  obtain ⟨o, ho, hstate, hproject, hsid, -⟩ := h
  exact ⟨o, ho, hstate, hproject, hsid, False.elim⟩

theorem Closing.assure {sure' : Prop} (h : Closing fold db disk id project sid sure)
    (hjournal : sure' → disk.journal (fold sid) project = none) : Closing fold db disk id project sid sure' := by
  obtain ⟨o, ho, hstate, hproject, hsid, -⟩ := h
  exact ⟨o, ho, hstate, hproject, hsid, fun hsure _ => hjournal hsure⟩

theorem Tracks.eases (h : Tracks fold db disk r) (heases : Eases disk disk' r.transfer.projectID) :
    Tracks fold db disk' r := by
  cases h with
  | arrived hstage => exact .arrived hstage
  | pending P hpends hholds hfrom => exact .pending P hpends (heases.holds hholds) hfrom
  | closing hlate hclosing => exact .closing hlate (hclosing.eases heases)

theorem PassTracks.eases {x : Pass} (h : PassTracks fold db disk x)
    (heases : ∀ o ∈ x.todo, Eases disk disk' o.projectID) : PassTracks fold db disk' x := by
  refine ⟨fun o ho => (h.rows o ho).eases (heases o ho), ?_, h.covers⟩
  rcases h.head with hidle | ⟨o, rest, htodo, hlate, hclosing⟩
  · exact .inl hidle
  · refine .inr ⟨o, rest, htodo, hlate, hclosing.eases (heases o ?_)⟩
    rw [htodo]
    exact List.mem_cons_self

theorem Sound.single (h : Sound fold w) (ho : o ∈ w.db.transfers) (ho' : o' ∈ w.db.transfers)
    (hproject : o.projectID = o'.projectID) (hopen : OpenTransfer o) (hopen' : OpenTransfer o') : o = o' := by
  obtain ⟨p, hp, hid⟩ := h.ownership.transfer o ho
  exact (h.ownership.owned p hp).single o ho o' ho' hid.symm (hproject.symm.trans hid.symm) hopen hopen'

theorem find?_transfer (h : db.transfers.find? id = some o) : o ∈ db.transfers ∧ o.id = id :=
  find?_eq_some.mp h

theorem Sound.transferPending (h : Sound fold w) (ho : o ∈ w.db.transfers) (hpending : o.state = .pending) {p : ProjectRow}
    (hp : w.db.project o.projectID = some p) : Launched p ∧ p.state = .transferPending := by
  obtain ⟨hmem, hid⟩ := find?_eq_some.mp hp
  exact ⟨h.launched o ho p hp, (h.ownership.owned p hmem).pending o ho hid.symm hpending⟩

theorem Pends.mem {transfer : OwnershipTransfer} (h : Pends fold db transfer P) : ∃ o ∈ db.transfers,
    o.id = transfer.id ∧ o.state = .pending ∧ o.projectID = transfer.projectID := by
  obtain ⟨o, ho, hstate, hproject, -⟩ := h.row
  obtain ⟨hmem, hid⟩ := find?_transfer ho
  exact ⟨o, hmem, hid, hstate, hproject⟩

theorem Sound.closing {transfer : OwnershipTransfer} (h : Sound fold w)
    (hpends : Pends fold w.db transfer P) (hproject : project = transfer.projectID)
    (hc : Closing fold w.db disk id project sid sure) : Closing fold w.db disk' id project sid sure := by
  obtain ⟨o, ho, hstate, hop, hsid, -⟩ := hc
  refine ⟨o, ho, hstate, hop, hsid, ?_⟩
  intro _ hun
  obtain ⟨_, ho', -, hpending, hop'⟩ := hpends.mem
  have hsame := h.single (find?_transfer ho).1 ho' ((hop.trans hproject).trans hop'.symm) (.inr hun) (.inl hpending)
  rw [hsame, hpending] at hstate
  cases hstate

end Lemmas

section Steps

variable {fold : String → String} {w : World} {db : Store} {disk' : Disk} {r : Request} {k : ℕ} {s : Stage} {P : String}

@[simp] theorem requests_put (x : Option Request) (i : ℕ) :
    (w.put k x).requests i = if i = k then x else w.requests i := rfl

section

variable (h : Sound fold w)
include h

theorem Sound.withDisk (heases : ∀ d, Eases w.disk disk' d) : Sound fold (w.withDisk disk') :=
  { h with
    vacant := fun d p hp hl => (heases d).vacant (h.vacant d p hp hl)
    settled := fun d p hp hl hstate => (heases d).settled (h.settled d p hp hl hstate)
    tracks := fun k r hr => (h.tracks k r hr).eases (heases _)
    pass := fun x hx => (h.pass x hx).eases fun _ _ => heases _ }

theorem Sound.withStrays {strays : List (Order × Job)} (hstrays : ∀ c ∈ strays, Inert c) :
    Sound fold (w.withStrays strays) :=
  { h with strays := hstrays }

theorem Sound.withPass {pass : Option Pass}
    (hpass : ∀ x, pass = some x → PassTracks fold w.db w.disk x) : Sound fold (w.withPass pass) :=
  { h with pass := hpass }

theorem Sound.moves (hr : w.requests k = some r) (hstage : r.stage ≠ .arrived) (hs : s ≠ .arrived)
    (heases : ∀ e, Eases w.disk disk' e ∨ e = r.transfer.projectID ∧ ∃ P, Pends fold w.db r.transfer P)
    (htracks : Tracks fold w.db disk' (r.goes s)) : Sound fold ((w.withDisk disk').put k (some (r.goes s))) where
  ownership := h.ownership
  launched := h.launched
  vacant := by
    intro d p hp hl
    rcases heases d with heases | ⟨rfl, P, hpends⟩
    · exact heases.vacant (h.vacant d p hp hl)
    · obtain ⟨o, ho, -, hpending, hproject⟩ := hpends.mem
      exact absurd (h.transferPending ho hpending (hproject ▸ hp)).1 hl
  settled := by
    intro d p hp hl hstate
    rcases heases d with heases | ⟨rfl, P, hpends⟩
    · exact heases.settled (h.settled d p hp hl hstate)
    · obtain ⟨o, ho, -, hpending, hproject⟩ := hpends.mem
      exact absurd (h.transferPending ho hpending (hproject ▸ hp)).2 hstate
  recipient := h.recipient
  unset := h.unset
  handled := by
    intro o ho hpending
    obtain ⟨i, x, hx, hxstage, hid⟩ := h.handled o ho hpending
    by_cases hi : i = k
    · rw [hi, hr] at hx
      cases hx
      exact ⟨k, r.goes s, if_pos rfl, hs, hid⟩
    · exact ⟨i, x, (if_neg hi).trans hx, hxstage, hid⟩
  tracks := by
    intro i x hx
    rw [requests_put] at hx
    split at hx
    · cases hx
      exact htracks
    · rename_i hi
      rcases heases x.transfer.projectID with heases | ⟨hproject, P, hpends⟩
      · exact (h.tracks i x hx).eases heases
      · cases h.tracks i x hx with
        | arrived hxstage => exact .arrived hxstage
        | pending _ hpends' hholds =>
          obtain ⟨o, ho, hid, hpending, hop⟩ := hpends.mem
          obtain ⟨_, ho', hid', hpending', hop'⟩ := hpends'.mem
          obtain rfl := h.single ho ho' (by rw [hop, hop', hproject]) (.inl hpending) (.inl hpending')
          have hxstage : x.stage ≠ .arrived := by
            intro harrived
            rw [harrived] at hholds
            exact hholds
          exact absurd (h.distinct i k x r hx hr hxstage hstage (hid'.symm.trans hid)) hi
        | closing hlate hclosing => exact .closing hlate (h.closing hpends hproject hclosing)
  distinct := by
    intro i i' x x' hx hx' hxs hxs' hid
    rw [requests_put] at hx hx'
    have hfirst : ∀ j y, (if j = k then some (r.goes s) else w.requests j) = some y → y.stage ≠ .arrived →
        ∃ z, w.requests j = some z ∧ z.stage ≠ .arrived ∧ z.transfer = y.transfer := by
      intro j y hy hys
      split at hy
      · rename_i hj
        cases hy
        exact ⟨r, hj ▸ hr, hstage, rfl⟩
      · exact ⟨y, hy, hys, rfl⟩
    obtain ⟨z, hz, hzs, hzt⟩ := hfirst i x hx hxs
    obtain ⟨z', hz', hzs', hzt'⟩ := hfirst i' x' hx' hxs'
    exact h.distinct i i' z z' hz hz' hzs hzs' (by rw [hzt, hzt', hid])
  strays := h.strays
  pass := by
    intro x hx
    have hclosing : ∀ id project sid sure, Closing fold w.db w.disk id project sid sure →
        Closing fold w.db disk' id project sid sure := by
      intro _ project _ _ hc
      rcases heases project with heases | ⟨hproject, P, hpends⟩
      · exact hc.eases heases
      · exact h.closing hpends hproject hc
    obtain ⟨hrows, hhead, hcovers⟩ := h.pass x hx
    refine ⟨fun o ho => hclosing _ _ _ _ (hrows o ho), ?_, hcovers⟩
    rcases hhead with hidle | ⟨o, rest, htodo, hlate, hc⟩
    · exact .inl hidle
    · exact .inr ⟨o, rest, htodo, hlate, hclosing _ _ _ _ hc⟩
  recovered := h.recovered

theorem Sound.goes (hr : w.requests k = some r) (hstage : r.stage ≠ .arrived) (hs : s ≠ .arrived)
    (htracks : Tracks fold w.db w.disk (r.goes s)) : Sound fold (w.put k (some (r.goes s))) :=
  h.moves hr hstage hs (fun e => .inl (.refl _ e)) htracks

theorem Sound.leaves (hr : w.requests k = some r)
    (hover : r.stage = .arrived ∨ ∀ o ∈ w.db.transfers, o.id = r.transfer.id → o.state ≠ .pending) :
    Sound fold (w.put k none) :=
  have hback {i : ℕ} {x : Request} (hx : (w.put k none).requests i = some x) : w.requests i = some x := by
    rw [requests_put] at hx
    split at hx
    · cases hx
    · exact hx
  { h with
    handled := by
      intro o ho hpending
      obtain ⟨i, x, hx, hxstage, hid⟩ := h.handled o ho hpending
      by_cases hi : i = k
      · rw [hi, hr] at hx
        cases hx
        rcases hover with harrived | hover
        · exact absurd harrived hxstage
        · exact absurd hpending (hover o ho hid.symm)
      · exact ⟨i, x, (if_neg hi).trans hx, hxstage, hid⟩
    tracks := fun i x hx => h.tracks i x (hback hx)
    distinct := fun i i' x x' hx hx' => h.distinct i i' x x' (hback hx) (hback hx') }

theorem Sound.arrives (hfree : w.requests k = none) (hstage : r.stage = .arrived) :
    Sound fold (w.put k (some r)) :=
  { h with
    handled := by
      intro o ho hpending
      obtain ⟨i, x, hx, hxstage, hid⟩ := h.handled o ho hpending
      refine ⟨i, x, ?_, hxstage, hid⟩
      rw [requests_put, if_neg]
      · exact hx
      · rintro rfl
        rw [hfree] at hx
        cases hx
    tracks := by
      intro i x hx
      rw [requests_put] at hx
      split at hx
      · cases hx
        exact .arrived hstage
      · exact h.tracks i x hx
    distinct := by
      intro i i' x x' hx hx' hxs hxs' hid
      rw [requests_put] at hx hx'
      split at hx
      · cases hx
        exact absurd hstage hxs
      · split at hx'
        · cases hx'
          exact absurd hstage hxs'
        · exact h.distinct i i' x x' hx hx' hxs hxs' hid }

end

structure SameRow (o o' : TransferRow) : Prop where
  projectID : o'.projectID = o.projectID
  toSID : o'.toSID = o.toSID
  state : o'.state = o.state
  unfinalized : Store.Unfinalized o' → Store.Unfinalized o
  pending : o.state = .pending → o'.finalizedAt = o.finalizedAt

theorem SameRow.refl (o : TransferRow) : SameRow o o := ⟨rfl, rfl, rfl, fun h => h, fun _ => rfl⟩

theorem Closing.of_row {disk : Disk} {db' : Store} {id project sid : String} {sure : Prop}
    (h : Closing fold db disk id project sid sure)
    (hrow : ∀ o, db.transfers.find? id = some o → o.state = .committed →
      ∃ o', db'.transfers.find? id = some o' ∧ SameRow o o') : Closing fold db' disk id project sid sure := by
  obtain ⟨o, ho, hstate, hproject, hsid, hjournal⟩ := h
  obtain ⟨o', ho', hsame⟩ := hrow o ho hstate
  exact ⟨o', ho', hsame.state.trans hstate, hsame.projectID.trans hproject, hsame.toSID.trans hsid,
    fun hsure hun => hjournal hsure (hsame.unfinalized hun)⟩

theorem Tracks.of_rows {disk : Disk} {db' : Store} (h : Tracks fold db disk r)
    (hpends : ∀ P, Pends fold db r.transfer P → Holds disk r.transfer.projectID P (fold r.transfer.toSID) r.stage →
      Pends fold db' r.transfer P)
    (hrow : ∀ o, db.transfers.find? r.transfer.id = some o → o.state = .committed →
      ∃ o', db'.transfers.find? r.transfer.id = some o' ∧ SameRow o o') : Tracks fold db' disk r := by
  cases h with
  | arrived hstage => exact .arrived hstage
  | pending P hp hholds hfrom => exact .pending P (hpends P hp hholds) hholds hfrom
  | closing hlate hclosing => exact .closing hlate (hclosing.of_row hrow)

theorem Sound.withDB (h : Sound fold w) (hown : Ownership db) (hlaunched : TransfersLaunched db)
    (hback : ∀ id o', db.transfers.find? id = some o' → ∃ o, w.db.transfers.find? id = some o ∧ SameRow o o')
    (hforth : ∀ id o, w.db.transfers.find? id = some o → ∃ o', db.transfers.find? id = some o' ∧ SameRow o o')
    (hproject : ∀ d p, w.db.project d = some p → Launched p → ∃ q, db.project d = some q ∧ q.ownerSID = p.ownerSID)
    (hvacant : ∀ d q, db.project d = some q → ¬ Launched q → Vacant w.disk d (fold q.ownerSID))
    (hsettled : ∀ d q, db.project d = some q → Launched q → q.state ≠ .transferPending →
      Settled db w.disk d (fold q.ownerSID)) : Sound fold (w.withDB db) := by
  have hold : ∀ o' ∈ db.transfers, ∃ o ∈ w.db.transfers, o.id = o'.id ∧ SameRow o o' := by
    intro o' ho'
    obtain ⟨o, ho, hsame⟩ := hback o'.id o' (find?_of_mem ho')
    exact ⟨o, (find?_transfer ho).1, (find?_transfer ho).2, hsame⟩
  have hrow : ∀ id o, w.db.transfers.find? id = some o → o.state = .committed →
      ∃ o', db.transfers.find? id = some o' ∧ SameRow o o' := fun id o ho _ => hforth id o ho
  refine ⟨hown, hlaunched, hvacant, hsettled, ?_, ?_, ?_, ?_, h.distinct, h.strays, ?_, ?_⟩
  · intro o' ho' hun
    obtain ⟨o, ho, -, hsame⟩ := hold o' ho'
    obtain ⟨p, hp, hsid⟩ := h.recipient o ho (hsame.unfinalized hun)
    obtain ⟨q, hq, hqsid⟩ := hproject _ p hp (h.launched o ho p hp)
    rw [hsame.projectID, hsame.toSID]
    exact ⟨q, hq, hqsid.trans hsid⟩
  · intro o' ho' hpending
    obtain ⟨o, ho, -, hsame⟩ := hold o' ho'
    have hold' := hsame.state.symm.trans hpending
    exact (hsame.pending hold').trans (h.unset o ho hold')
  · intro o' ho' hpending
    obtain ⟨o, ho, hid, hsame⟩ := hold o' ho'
    obtain ⟨k, r, hr, hstage, hrid⟩ := h.handled o ho (hsame.state.symm.trans hpending)
    exact ⟨k, r, hr, hstage, hrid.trans hid⟩
  · intro k r hr
    refine (h.tracks k r hr).of_rows ?_ (hrow _)
    rintro P ⟨⟨o, ho, hpending, hop, hsid⟩, p, hp, hP⟩ -
    obtain ⟨o', ho', hsame⟩ := hforth _ o ho
    have hpo : w.db.project o.projectID = some p := hop ▸ hp
    obtain ⟨q, hq, hqsid⟩ := hproject _ p hp (h.launched o (find?_transfer ho).1 p hpo)
    exact ⟨⟨o', ho', hsame.state.trans hpending, hsame.projectID.trans hop, hsame.toSID.trans hsid⟩, q, hq,
      by rw [hqsid, hP]⟩
  · intro x hx
    obtain ⟨hrows, hhead, hcovers⟩ := h.pass x hx
    refine ⟨fun o ho => (hrows o ho).of_row (hrow _), ?_, ?_⟩
    · rcases hhead with hidle | ⟨o, rest, htodo, hlate, hc⟩
      · exact .inl hidle
      · exact .inr ⟨o, rest, htodo, hlate, hc.of_row (hrow _)⟩
    · intro d hd
      refine (hcovers d hd).imp_right ?_
      intro hall o' ho' hproject' hun
      obtain ⟨o, ho, hid, hsame⟩ := hold o' ho'
      obtain ⟨y, hy, hyid⟩ := hall o ho (hsame.projectID.symm.trans hproject') (hsame.unfinalized hun)
      exact ⟨y, hy, hyid.trans hid⟩
  · intro d hd o' ho' hproject' hun
    obtain ⟨o, ho, -, hsame⟩ := hold o' ho'
    exact h.recovered d hd o ho (hsame.projectID.symm.trans hproject') (hsame.unfinalized hun)

theorem Sound.operates {env : Env} {op : Op} {a : Option Outcome} (h : Sound fold w)
    (heffect : Effect env op a w.db db) (hother : OtherOp op) (hprovisioned : Provisioned fold w op) :
    Sound fold (w.withDB db) := by
  have htransfers : db.transfers = w.db.transfers := Effect.transfers heffect hother h.launched
  have hfate : ∀ d, Fate op d (w.db.project d) (db.project d) := fun d => Effect.fate heffect hother
  have hproject : ∀ d p, w.db.project d = some p → Launched p →
      ∃ q, db.project d = some q ∧ q.ownerSID = p.ownerSID := by
    intro d p hp hl
    have hf := hfate d
    rw [hp] at hf
    generalize hq : db.project d = x at hf
    cases hf with
    | kept hsid => exact ⟨_, rfl, hsid⟩
    | launched _ _ hprovisioning => exact absurd hprovisioning hl.1
    | deleted hnot => exact absurd hl hnot
  refine h.withDB (heffect.ownership h.ownership) ?_ ?_ ?_ hproject ?_ ?_
  · intro o ho q hq
    rw [htransfers] at ho
    obtain ⟨p, hp, hid⟩ := h.ownership.transfer o ho
    have hfind : w.db.project o.projectID = some p := find?_eq_some.mpr ⟨hp, hid⟩
    have hl := h.launched o ho p hfind
    have hf := hfate o.projectID
    rw [hfind, hq] at hf
    cases hf with
    | kept _ _ hlaunched => exact hlaunched.mpr hl
    | launched _ _ hprovisioning => exact absurd hprovisioning hl.1
  · intro id o ho
    rw [htransfers] at ho
    exact ⟨o, ho, .refl o⟩
  · intro _ o ho
    rw [htransfers]
    exact ⟨o, ho, .refl o⟩
  · intro d q hq hl
    have hf := hfate d
    rw [hq] at hf
    generalize hp : w.db.project d = x at hf
    cases hf with
    | kept hsid _ hlaunched =>
      rw [hsid]
      exact h.vacant d _ hp fun hlp => hl (hlaunched.mpr hlp)
    | created hop hd hsid =>
      subst hop hd hsid
      exact hprovisioned
    | launched _ _ _ _ hactive =>
      refine absurd ⟨?_, ?_⟩ hl
      · rw [hactive]
        simp
      · rw [hactive]
        simp
  · intro d q hq hl hstate
    have hf := hfate d
    rw [hq] at hf
    generalize hp : w.db.project d = x at hf
    cases hf with
    | kept hsid hpending hlaunched =>
      rw [hsid, Settled, htransfers]
      exact h.settled d _ hp (hlaunched.mp hl) fun hs => hstate (hpending.mpr hs)
    | created _ _ _ hlaunched => exact absurd hl hlaunched
    | @launched _ p _ hop hd hprovisioning hsid =>
      subst hop hd
      obtain ⟨hplaces, hno⟩ := h.vacant _ p hp fun hlp => hlp.1 hprovisioning
      obtain ⟨-, hid⟩ := find?_eq_some.mp hp
      have hplace := hprovisioned p hp hprovisioning
      rw [hsid]
      refine ⟨⟨?_, hplaces⟩, .inl hno⟩
      rw [← hid]
      exact hplace

theorem Sound.finalizes {id project sid : String} {stamp : ℤ} (h : Sound fold w)
    (hc : Closing fold w.db w.disk id project sid True)
    (hfinal : w.db.finalizeOwnershipTransfer id stamp = .ok ((), db)) : Sound fold (w.withDB db) := by
  obtain ⟨hprojects, hback, hforth⟩ := finalized hfinal
  have hproject : ∀ d, db.project d = w.db.project d := by
    intro d
    rw [Store.project, hprojects]
    rfl
  have hsame {o o' : TransferRow} (hcl : Closes id o o') : SameRow o o' :=
    { hcl with unfinalized := fun hun => (hcl.unfinalized.mp hun).1 }
  refine h.withDB (ownership_finalizeOwnershipTransfer h.ownership hfinal) ?_ ?_ ?_ ?_ ?_ ?_
  · intro o' ho' p hp
    obtain ⟨o, ho, hcl⟩ := hback o'.id o' (find?_of_mem ho')
    rw [hcl.projectID, hproject] at hp
    exact h.launched o (find?_transfer ho).1 p hp
  · intro x o' ho'
    obtain ⟨o, ho, hcl⟩ := hback x o' ho'
    exact ⟨o, ho, hsame hcl⟩
  · intro x o ho
    obtain ⟨o', ho', hcl⟩ := hforth x o ho
    exact ⟨o', ho', hsame hcl⟩
  · intro d p hp _
    exact ⟨p, (hproject d).trans hp, rfl⟩
  · intro d q hq hl
    exact h.vacant d q ((hproject d).symm.trans hq) hl
  · intro d q hq hl hstate
    have hold := (hproject d).symm.trans hq
    obtain ⟨hplace, hno | ⟨hto, o, ho, hod, hun⟩⟩ := h.settled d q hold hl hstate
    · exact ⟨hplace, .inl hno⟩
    · by_cases hid : o.id = id
      · obtain ⟨_, ho₁, -, hop, hsid, hjournal⟩ := hc
        obtain ⟨hmem₁, hid₁⟩ := find?_transfer ho₁
        obtain rfl := eq_of_key ho hmem₁ (hid.trans hid₁.symm)
        obtain ⟨p, hp, hpsid⟩ := h.recipient o ho hun
        rw [hod, hold] at hp
        cases hp
        refine ⟨hplace, .inl ?_⟩
        intro root
        cases hroot : w.disk.journal root d with
        | none => rfl
        | some old =>
          have hgone := hjournal trivial hun
          rw [← hop, hod, ← hsid, ← hpsid, ← hto root old hroot, hroot] at hgone
          cases hgone
      · obtain ⟨o', ho', hcl⟩ := hforth o.id o (find?_of_mem ho)
        exact ⟨hplace, .inr ⟨hto, o', (find?_transfer ho').1, hcl.projectID.trans hod, hcl.unfinalized.mpr ⟨hun, hid⟩⟩⟩

end Steps

end WorkAgent.Transfers
