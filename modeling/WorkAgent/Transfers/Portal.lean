import WorkAgent.Collaboration.Ownership
import WorkAgent.Library.Executions
import WorkAgent.Transfers.Disk

namespace WorkAgent.Transfers

open Library Collaboration

inductive Stage
  | arrived
  | begun
  | preparing (job : Job)
  | aborting
  | prepared
  | failed
  | rollingBack (job : Job)
  | completed
  | committing (job : Job)
  | confirmed

namespace Stage

def go (job : Job) : Stage → Stage
  | .preparing _ => .preparing job
  | .rollingBack _ => .rollingBack job
  | .committing _ => .committing job
  | s => s

def sends : Stage → Option Stage
  | .begun => some (.preparing .sent)
  | .failed => some (.rollingBack .sent)
  | .completed => some (.committing .sent)
  | _ => none

def unsent : Stage → Option (Option Stage)
  | .begun | .failed => some (some .aborting)
  | .completed => some none
  | _ => none

def answered : Stage → Option (Option Stage)
  | .preparing (.done true) => some (some .prepared)
  | .preparing (.done false) | .preparing .stuck => some (some .aborting)
  | .rollingBack (.done _) | .rollingBack .stuck => some (some .aborting)
  | .committing (.done true) => some (some .confirmed)
  | .committing (.done false) => some none
  | _ => none

def givesUp : Stage → Option (Option Stage)
  | .preparing _ | .rollingBack _ => some (some .aborting)
  | .committing _ => some none
  | _ => none

end Stage

structure Request where
  transfer : OwnershipTransfer
  fromUserID : ℤ
  fromSID : String
  stage : Stage

def Request.goes (r : Request) (stage : Stage) : Request := { r with stage := stage }

/-- The call that the request waits for. `fold` is what the disk makes of a SID, and `strings.EqualFold`
compares by. -/
def Request.call (fold : String → String) (r : Request) : Option (Order × Job) :=
  match r.stage with
  | .preparing job => some (⟨r.transfer.projectID, fold r.transfer.toSID, .transfer (fold r.fromSID)⟩, job)
  | .rollingBack job => some (⟨r.transfer.projectID, fold r.transfer.toSID, .rollback⟩, job)
  | .committing job => some (⟨r.transfer.projectID, fold r.transfer.toSID, .commit⟩, job)
  | _ => none

inductive PassStage
  | idle
  | committing (job : Job)
  | confirmed

/-- One run of the recovery. It `covers` a project while no transfer of it was completed since it began. -/
structure Pass where
  todo : List TransferRow
  stage : PassStage
  erred : Bool
  covers : String → Bool

def PassStage.cut : PassStage → PassStage
  | .committing _ => .committing .lost
  | s => s

def Pass.order (fold : String → String) (o : TransferRow) : Order := ⟨o.projectID, fold o.toSID, .commit⟩

/-- The database and the disk, with the requests that the Portal handles, its recovery and the calls whose
answer nobody waits for. A project is `recovered` when a recovery without error has covered it. -/
structure World where
  db : Store
  disk : Disk
  requests : ℕ → Option Request
  strays : List (Order × Job)
  pass : Option Pass
  recovered : String → Bool

namespace World

def start : World := ⟨Store.empty, Disk.empty, fun _ => none, [], none, fun _ => false⟩

variable (w : World)

def put (k : ℕ) (r : Option Request) : World := { w with requests := fun i => if i = k then r else w.requests i }

def withDB (db : Store) : World := { w with db := db }

def withDisk (disk : Disk) : World := { w with disk := disk }

def withPass (pass : Option Pass) : World := { w with pass := pass }

def withStrays (strays : List (Order × Job)) : World := { w with strays := strays }

def unrecovered (project : String) : World :=
  { w with
    recovered := fun p => w.recovered p && p ≠ project
    pass := w.pass.map (fun x => { x with covers := fun p => x.covers p && p ≠ project }) }

def passed (x : Pass) : World :=
  { w with pass := none, recovered := fun p => w.recovered p || (!x.erred && x.covers p) }

def cut : World :=
  { w with
    requests := fun k => (w.requests k).map (fun r => r.goes (r.stage.go .lost))
    strays := []
    pass := w.pass.map (fun x => { x with stage := x.stage.cut }) }

def passCall (fold : String → String) : Option (Order × Job) :=
  match w.pass with
  | some ⟨o :: _, .committing job, _, _⟩ => some (Pass.order fold o, job)
  | _ => none

end World

def OtherOp : Op → Prop
  | .beginOwnershipTransfer .. | .completeOwnershipTransfer .. => False
  | .abortOwnershipTransfer .. | .finalizeOwnershipTransfer .. => False
  | _ => True

def Provisioned (fold : String → String) (w : World) : Op → Prop
  | .createProject id _ sid _ =>
    (∀ root, w.disk.place root (trimSpace id) ≠ none → root = fold sid) ∧
      ∀ root, w.disk.journal root (trimSpace id) = none
  | .setProvisioningResult id true => ∀ p, w.db.project (trimSpace id) = some p → p.state = .provisioning →
      w.disk.place (fold p.ownerSID) p.id = some (fold p.ownerSID)
  | _ => True

inductive Event
  | operated (op : Op)
  | provisioned (project : String)
  | reconciled (root project : String)
  | arrived (k : ℕ)
  | refused (k : ℕ)
  | begun (k : ℕ) (reported : Bool)
  | sent (k : ℕ)
  | unsent (k : ℕ)
  | worked (k : ℕ) (job : Job)
  | answered (k : ℕ)
  | gaveUp (k : ℕ)
  | aborted (k : ℕ)
  | unaborted (k : ℕ)
  | completed (k : ℕ) (reported : Bool)
  | uncompleted (k : ℕ)
  | finalized (k : ℕ)
  | unfinalized (k : ℕ)
  | strayed (job : Job)
  | passBegan
  | passSent
  | passUnsent
  | passWorked (job : Job)
  | passAnswered
  | passGaveUp
  | passFinalized
  | passUnfinalized
  | passEnded
  | portalDied
  | managerDied

inductive Step (fold : String → String) : World → Event → World → Prop
  | operates {w env op a db} (heffect : Effect env op a w.db db) (hother : OtherOp op)
      (hprovisioned : Provisioned fold w op) : Step fold w (.operated op) (w.withDB db)
  | provisions {w project p acl} (hp : w.db.project project = some p) (hstate : p.state = .provisioning) :
      Step fold w (.provisioned project) (w.withDisk (w.disk.setPlace (fold p.ownerSID) project acl))
  | reconciles {w root project} (hplace : w.disk.place root project ≠ none) :
      Step fold w (.reconciled root project) (w.withDisk (w.disk.setPlace root project (some root)))
  | arrives {w k r} (hfree : w.requests k = none) (hstage : r.stage = .arrived) :
      Step fold w (.arrived k) (w.put k (some r))
  | refuses {w k r} (hr : w.requests k = some r) (hstage : r.stage = .arrived) :
      Step fold w (.refused k) (w.put k none)
  | begins {w k r db stamp reported} (hr : w.requests k = some r) (hstage : r.stage = .arrived)
      (hvalid : stableID r.transfer.id ∧ 0 < r.transfer.toUserID ∧ r.transfer.toUserID ≠ r.fromUserID ∧
        validSID r.transfer.toSID)
      (h : w.db.beginOwnershipTransfer (fun a b => fold a = fold b) r.transfer r.fromUserID stamp = .ok ((), db)) :
      Step fold w (.begun k reported) ((w.withDB db).put k (if reported then some (r.goes .begun) else none))
  | sends {w k r s} (hr : w.requests k = some r) (hsends : r.stage.sends = some s)
      (howner : r.stage = .begun → ∃ p, w.db.project r.transfer.projectID = some p ∧ p.ownerSID = r.fromSID) :
      Step fold w (.sent k) (w.put k (some (r.goes s)))
  | unsent {w k r s} (hr : w.requests k = some r) (hunsent : r.stage.unsent = some s) :
      Step fold w (.unsent k) (w.put k (s.map r.goes))
  | works {w k r o job disk job'} (hr : w.requests k = some r) (hcall : r.call fold = some (o, job))
      (hwork : Work o w.disk job disk job') :
      Step fold w (.worked k job') ((w.withDisk disk).put k (some (r.goes (r.stage.go job'))))
  | answers {w k r s} (hr : w.requests k = some r) (hanswered : r.stage.answered = some s) :
      Step fold w (.answered k) (w.put k (s.map r.goes))
  | givesUp {w k r s c} (hr : w.requests k = some r) (hcall : r.call fold = some c)
      (hgivesUp : r.stage.givesUp = some s) :
      Step fold w (.gaveUp k) ((w.withStrays (c :: w.strays)).put k (s.map r.goes))
  | aborts {w k r db stamp} (hr : w.requests k = some r) (hstage : r.stage = .aborting)
      (h : w.db.abortOwnershipTransfer r.transfer.id stamp = .ok ((), db)) :
      Step fold w (.aborted k) ((w.withDB db).put k none)
  | unaborted {w k r} (hr : w.requests k = some r) (hstage : r.stage = .aborting) :
      Step fold w (.unaborted k) (w.put k none)
  | completes {w k r o db stamp reported} (hr : w.requests k = some r) (hstage : r.stage = .prepared)
      (h : w.db.completeOwnershipTransfer r.transfer.id stamp = .ok (o, db)) :
      Step fold w (.completed k reported)
        (((w.withDB db).unrecovered o.projectID).put k (some (r.goes (if reported then .completed else .failed))))
  | uncompleted {w k r} (hr : w.requests k = some r) (hstage : r.stage = .prepared) :
      Step fold w (.uncompleted k) (w.put k (some (r.goes .failed)))
  | finalizes {w k r db stamp} (hr : w.requests k = some r) (hstage : r.stage = .confirmed)
      (h : w.db.finalizeOwnershipTransfer r.transfer.id stamp = .ok ((), db)) :
      Step fold w (.finalized k) ((w.withDB db).put k none)
  | unfinalized {w k r} (hr : w.requests k = some r) (hstage : r.stage = .confirmed) :
      Step fold w (.unfinalized k) (w.put k none)
  | strays {w before after o job disk job'} (hstrays : w.strays = before ++ (o, job) :: after)
      (hwork : Work o w.disk job disk job') :
      Step fold w (.strayed job') ((w.withDisk disk).withStrays (before ++ (o, job') :: after))
  | passBegins {w todo} (hpass : w.pass = none)
      (htodo : todo.Perm (w.db.transfers.rows.filter (fun o => Store.Unfinalized o))) :
      Step fold w .passBegan (w.withPass (some ⟨todo, .idle, false, fun _ => true⟩))
  | passSends {w o todo erred covers} (hpass : w.pass = some ⟨o :: todo, .idle, erred, covers⟩) :
      Step fold w .passSent (w.withPass (some ⟨o :: todo, .committing .sent, erred, covers⟩))
  | passUnsent {w o todo erred covers} (hpass : w.pass = some ⟨o :: todo, .idle, erred, covers⟩) :
      Step fold w .passUnsent (w.withPass (some ⟨todo, .idle, true, covers⟩))
  | passWorks {w o todo job erred covers disk job'}
      (hpass : w.pass = some ⟨o :: todo, .committing job, erred, covers⟩)
      (hwork : Work (Pass.order fold o) w.disk job disk job') :
      Step fold w (.passWorked job')
        ((w.withDisk disk).withPass (some ⟨o :: todo, .committing job', erred, covers⟩))
  | passAnswers {w o todo ok erred covers}
      (hpass : w.pass = some ⟨o :: todo, .committing (.done ok), erred, covers⟩) :
      Step fold w .passAnswered
        (w.withPass (some (if ok then ⟨o :: todo, .confirmed, erred, covers⟩ else ⟨todo, .idle, true, covers⟩)))
  | passGivesUp {w o todo job erred covers} (hpass : w.pass = some ⟨o :: todo, .committing job, erred, covers⟩) :
      Step fold w .passGaveUp ((w.withStrays ((Pass.order fold o, job) :: w.strays)).withPass
        (some ⟨todo, .idle, true, covers⟩))
  | passFinalizes {w o todo erred covers db stamp} (hpass : w.pass = some ⟨o :: todo, .confirmed, erred, covers⟩)
      (h : w.db.finalizeOwnershipTransfer o.id stamp = .ok ((), db)) :
      Step fold w .passFinalized ((w.withDB db).withPass (some ⟨todo, .idle, erred, covers⟩))
  | passUnfinalized {w o todo erred covers} (hpass : w.pass = some ⟨o :: todo, .confirmed, erred, covers⟩) :
      Step fold w .passUnfinalized (w.withPass (some ⟨todo, .idle, true, covers⟩))
  | passEnds {w erred covers} (hpass : w.pass = some ⟨[], .idle, erred, covers⟩) :
      Step fold w .passEnded (w.passed ⟨[], .idle, erred, covers⟩)
  | portalDies {w db strays stamp} (hreopened : w.db.reopened stamp = .ok db)
      (hstrays : ∀ c, c ∈ strays ↔ c ∈ w.strays ∨ (∃ k r, w.requests k = some r ∧ r.call fold = some c) ∨
        w.passCall fold = some c) :
      Step fold w .portalDied ⟨db, w.disk, fun _ => none, strays, none, w.recovered⟩
  | managerDies {w} : Step fold w .managerDied w.cut

end WorkAgent.Transfers
