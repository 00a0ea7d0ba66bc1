import Mathlib.Data.Finset.Insert
import Mathlib.Data.Set.Insert
import WorkAgent.Library.Executions

namespace WorkAgent.AppRunner

structure Key where
  id : String
  version : String
  deriving DecidableEq

inductive Lease
  | absent
  | broken
  | written
  deriving DecidableEq

/-- How far `closeProcess` is: `killed` when both processes are closed, `revoking` while `RevokeNetwork` is called. -/
inductive Closing
  | no
  | begun
  | killed
  | revoking
  | closed
  deriving DecidableEq

/-- An `applicationProcess`: `alive` is its application process, `validation` tells that a snapshot tries it, `starter` is the call
that started it. -/
structure Instance where
  key : Key
  preview : Bool
  validation : Bool
  starter : ℕ
  launched : Bool
  alive : Bool
  active : ℕ
  closing : Closing
  deriving DecidableEq

/-- Where `start` is. `building` is a snapshot before it, `discarding` an `Acquire` that was stopped when its process had started. -/
inductive Stage
  | building
  | preparing
  | brokered (i : ℕ)
  | authorizing (i : ℕ)
  | granted (i : ℕ)
  | launched (i : ℕ)
  | failing (i : Option ℕ)
  | discarding (i : ℕ)
  deriving DecidableEq

def Stage.instance? : Stage → Option ℕ
  | .building | .preparing => none
  | .brokered i | .authorizing i | .granted i | .launched i | .discarding i => some i
  | .failing i => i

def Stage.MayFail : Stage → Prop
  | .preparing | .brokered _ | .granted _ | .launched _ => True
  | _ => False

structure Start where
  key : Key
  preview : Bool
  validation : Bool
  stopped : Bool
  stage : Stage
  deriving DecidableEq

def Start.on (s : Start) (stage : Stage) : Start := { s with stage := stage }

@[simp] theorem Start.stage_on (s : Start) (stage : Stage) : (s.on stage).stage = stage := rfl

def Start.stop (s : Start) : Start := { s with stopped := true }

abbrev Target := Option String

def Target.Covers (target : Target) (id : String) : Prop := target = none ∨ target = some id

instance (target : Target) (id : String) : Decidable (target.Covers id) :=
  inferInstanceAs (Decidable (target = none ∨ target = some id))

/-- A call of the Runner. `clearing` is `Acquire` while it closes the others of its slot; `conflict` tells that it waits for another
version of the slot. -/
inductive Call
  | acquiring (key : Key) (preview : Bool)
  | awaiting (key : Key) (preview : Bool) (other : ℕ) (conflict : Bool)
  | clearing (key : Key) (preview : Bool)
  | starting (s : Start)
  | serving (i : ℕ)
  | failed
  | released
  | snapshotting (key : Key) (preview : Bool)
  | stopping (target : Target)
  | closing (target : Target) (todo : Set ℕ) (pending : Set ℕ)
  | stopped (target : Target)
  | reaping (todo : Set ℕ)
  | sweeping (found tried : Set Key)
  | swept (found tried : Set Key)

def Call.takenOut : Call → Set ℕ
  | .closing _ todo _ => todo
  | .reaping todo => todo
  | _ => ∅

def Call.stop (target : Target) : Call → Call
  | .starting s => if target.Covers s.key.id then .starting s.stop else .starting s
  | c => c

inductive Holder
  | closer (i : ℕ)
  | starter (t : ℕ)
  | sweeper (t : ℕ)
  deriving DecidableEq

/-- Calls are numbered in the order in which they begin; `mu` is the one that has `r.mu` over more than one step. -/
structure World where
  closed : Bool
  running : Key → Option ℕ
  instances : ℕ → Option Instance
  calls : ℕ → Option Call
  next : ℕ
  mu : Option ℕ
  network : Option Holder
  cleanup : Set Key
  leases : Key → Lease
  permitted : Set Key

namespace World

variable (w : World)

def call (t : ℕ) (c : Call) : World := { w with calls := Function.update w.calls t (some c) }

def put (i : ℕ) (x : Instance) : World := { w with instances := Function.update w.instances i (some x) }

def lock (t : ℕ) : World := { w with mu := some t }

def unlock : World := { w with mu := none }

def hold (h : Holder) : World := { w with network := some h }

def free : World := { w with network := none }

def lease (key : Key) (lease : Lease) : World := { w with leases := Function.update w.leases key lease }

def permit (permitted : Set Key) : World := { w with permitted := permitted }

def clean (cleanup : Set Key) : World := { w with cleanup := cleanup }

def run (key : Key) (i : Option ℕ) : World := { w with running := Function.update w.running key i }

def begin (c : Call) : World := ⟨w.closed, w.running, w.instances, Function.update w.calls w.next (some c), w.next + 1, w.mu, w.network,
  w.cleanup, w.leases, w.permitted⟩

def Pending (t : ℕ) (s : Start) : Prop := w.calls t = some (.starting s)

def Starting (key : Key) (preview : Bool) (t : ℕ) (conflict : Bool) : Prop :=
  ∃ s, w.Pending t s ∧ s.validation = false ∧
    if conflict then s.key ≠ key ∧ s.key.id = key.id ∧ s.preview = preview else s.key = key

def InTheWay (key : Key) (preview : Bool) (i : ℕ) : Prop :=
  ∃ k x, w.running k = some i ∧ w.instances i = some x ∧ (k = key ∨ (x.key.id = key.id ∧ x.preview = preview))

def Wants (i : ℕ) : Call → Prop
  | .closing _ todo _ => i ∈ todo
  | .reaping todo => i ∈ todo
  | .clearing key preview => w.InTheWay key preview i
  | .starting s => s.stage = .failing (some i) ∨ s.stage = .discarding i ∨ (s.validation = true ∧ s.stage = .launched i)
  | _ => False

def IsClosed (i : ℕ) : Prop := ∃ x, w.instances i = some x ∧ x.closing = .closed

def Leaving (i : ℕ) : Prop := ∃ t c, w.calls t = some c ∧ i ∈ c.takenOut

def takeOut (t : ℕ) (target : Target) : World :=
  ⟨w.closed || target.isNone, fun k => if target.Covers k.id then none else w.running k, w.instances,
    Function.update (fun t => (w.calls t).map (Call.stop target)) t
      (some (.closing target {i | ∃ k, target.Covers k.id ∧ w.running k = some i} {t | ∃ s, w.Pending t s ∧ target.Covers s.key.id})),
    w.next, w.mu, w.network, w.cleanup, w.leases, w.permitted⟩

/-- The section of `reap`; the processes it takes have no active requests and are idle for five minutes. -/
def reapOut (todo : Finset ℕ) : World :=
  ⟨w.closed, fun k => (w.running k).filter (· ∉ todo), w.instances, Function.update w.calls w.next (some (.reaping ↑todo)), w.next + 1,
    w.mu, w.network, w.cleanup, w.leases, w.permitted⟩

def crash : World :=
  ⟨false, fun _ => none, fun _ => none, fun _ => none, w.next, none, none, {key | w.leases key = .written}, w.leases, w.permitted⟩

def Outside (key : Key) (permitted : Set Key) : Prop := ∀ k, k ≠ key → (k ∈ permitted ↔ k ∈ w.permitted)

end World

inductive Event
  | registers (t : ℕ) (key : Key) (preview : Bool)
  | validates (t : ℕ) (key : Key)
  | takes (t : ℕ) (target : Target)
  | breaks (key : Key)
  | sweepFails (t : ℕ) (key : Key)
  | revokes (key : Key)
  | other
  deriving DecidableEq

inductive Step (w : World) : Event → World → Prop
  | acquires (key : Key) (preview : Bool) : Step w .other (w.begin (.acquiring key preview))
  | snapshots (key : Key) (preview : Bool) : Step w .other (w.begin (.snapshotting key preview))
  | stops (target : Target) : Step w .other (w.begin (.stopping target))
  /-- The context is done, the manifest does not fit or the Runner is closed. -/
  | gives {t : ℕ} {c : Call} (ht : w.calls t = some c)
      (hc : (∃ key preview, c = .acquiring key preview) ∨ (∃ key preview other conflict, c = .awaiting key preview other conflict) ∨
        ∃ key preview, c = .snapshotting key preview) : Step w .other (w.call t .failed)
  | waits {t other : ℕ} {key : Key} {preview : Bool} (ht : w.calls t = some (.acquiring key preview)) (hmu : w.mu = none)
      (hopen : w.closed = false) (hother : w.Starting key preview other false) :
      Step w .other (w.call t (.awaiting key preview other false))
  | conflicts {t other : ℕ} {key : Key} {preview : Bool} {s : Start} (ht : w.calls t = some (.acquiring key preview)) (hmu : w.mu = none)
      (hopen : w.closed = false) (hnone : ∀ o, ¬ w.Starting key preview o false) (hother : w.Starting key preview other true)
      (hs : w.Pending other s) : Step w .other ((w.call other (.starting s.stop)).call t (.awaiting key preview other true))
  | retries {t other : ℕ} {key : Key} {preview conflict : Bool} {c : Call} (ht : w.calls t = some (.awaiting key preview other conflict))
      (hc : w.calls other = some c) (hdone : (c = .failed ∧ conflict = true) ∨ c = .released ∨ ∃ i, c = .serving i) :
      Step w .other (w.call t (.acquiring key preview))
  | serves {t i : ℕ} {key : Key} {preview : Bool} {x : Instance} (ht : w.calls t = some (.acquiring key preview)) (hmu : w.mu = none)
      (hopen : w.closed = false) (hnone : ∀ o conflict, ¬ w.Starting key preview o conflict) (hrunning : w.running key = some i)
      (hx : w.instances i = some x) : Step w .other ((w.put i { x with active := x.active + 1 }).call t (.serving i))
  | clears {t : ℕ} {key : Key} {preview : Bool} (ht : w.calls t = some (.acquiring key preview)) (hmu : w.mu = none)
      (hopen : w.closed = false) (hnone : ∀ o conflict, ¬ w.Starting key preview o conflict)
      (hrunning : ∀ i, w.running key = some i → w.IsClosed i) : Step w .other ((w.call t (.clearing key preview)).lock t)
  | deletes {t i : ℕ} {key k : Key} {preview : Bool} (ht : w.calls t = some (.clearing key preview)) (hrunning : w.running k = some i)
      (hway : w.InTheWay key preview i) (hclosed : w.IsClosed i) : Step w .other (w.run k none)
  | registers {t : ℕ} {key : Key} {preview : Bool} (ht : w.calls t = some (.clearing key preview))
      (hway : ∀ i, ¬ w.InTheWay key preview i) :
      Step w (.registers t key preview) (w.call t (.starting ⟨key, preview, false, false, .preparing⟩)).unlock
  | builds {t : ℕ} {key : Key} {preview : Bool} (ht : w.calls t = some (.snapshotting key preview)) (hmu : w.mu = none)
      (hopen : w.closed = false) (hbusy : ∀ o s, w.Pending o s → s.validation = true → s.key ≠ key) :
      Step w .other (w.call t (.starting ⟨key, preview, true, false, .building⟩))
  | validates {t : ℕ} {s : Start} (ht : w.Pending t s) (hs : s.stage = .building) :
      Step w (.validates t s.key) (w.call t (.starting (s.on .preparing)))
  | brokers {t i : ℕ} {s : Start} (ht : w.Pending t s) (hs : s.stage = .preparing) (hi : w.instances i = none) :
      Step w .other ((w.put i ⟨s.key, s.preview, s.validation, t, false, false, 0, .no⟩).call t (.starting (s.on (.brokered i))))
  | leases {t i : ℕ} {s : Start} (ht : w.Pending t s) (hs : s.stage = .brokered i) (hnetwork : w.network = none) :
      Step w .other (((w.lease s.key .written).hold (.starter t)).call t (.starting (s.on (.authorizing i))))
  | leaseBreaks {t i : ℕ} {s : Start} (ht : w.Pending t s) (hs : s.stage = .brokered i) (hnetwork : w.network = none) :
      Step w (.breaks s.key) ((w.lease s.key .broken).call t (.starting (s.on (.failing (some i)))))
  | grants {t i : ℕ} {s : Start} (ht : w.Pending t s) (hs : s.stage = .authorizing i) :
      Step w .other ((((w.permit (insert s.key w.permitted)).clean (w.cleanup \ {s.key})).free).call t (.starting (s.on (.granted i))))
  | denies {t i : ℕ} {s : Start} {permitted : Set Key} (ht : w.Pending t s) (hs : s.stage = .authorizing i)
      (hpermitted : w.Outside s.key permitted) :
      Step w .other ((((w.permit permitted).clean (w.cleanup \ {s.key})).free).call t (.starting (s.on (.failing (some i)))))
  | launches {t i : ℕ} {s : Start} {x : Instance} (ht : w.Pending t s) (hs : s.stage = .granted i) (hx : w.instances i = some x) :
      Step w .other ((w.put i { x with launched := true, alive := true }).call t (.starting (s.on (.launched i))))
  | fails {t : ℕ} {s : Start} (ht : w.Pending t s) (hs : s.stage.MayFail) :
      Step w .other (w.call t (.starting (s.on (.failing s.stage.instance?))))
  | lands {t i : ℕ} {s : Start} {x : Instance} (ht : w.Pending t s) (hs : s.stage = .launched i) (hacquire : s.validation = false)
      (hmu : w.mu = none) (hopen : w.closed = false) (hstopped : s.stopped = false) (hx : w.instances i = some x) :
      Step w .other (((w.put i { x with active := x.active + 1 }).run s.key (some i)).call t (.serving i))
  | discards {t i : ℕ} {s : Start} (ht : w.Pending t s) (hs : s.stage = .launched i) (hacquire : s.validation = false)
      (hmu : w.mu = none) (hstopped : s.stopped = true ∨ w.closed = true) :
      Step w .other ((w.call t (.starting (s.on (.discarding i)))).lock t)
  | drops {t i : ℕ} {s : Start} (ht : w.Pending t s) (hs : s.stage = .discarding i) (hclosed : w.IsClosed i) :
      Step w .other (w.call t .failed).unlock
  | ends {t : ℕ} {s : Start} {o : Option ℕ} (ht : w.Pending t s) (hs : s.stage = .failing o) (hmu : w.mu = none)
      (hclosed : ∀ i, o = some i → w.IsClosed i) : Step w .other (w.call t .failed)
  | snapshotEnds {t : ℕ} {s : Start} (ht : w.Pending t s) (hsnapshot : s.validation = true) (hmu : w.mu = none)
      (hs : s.stage = .building ∨ ∃ i, s.stage = .launched i ∧ w.IsClosed i) : Step w .other (w.call t .released)
  /-- Who wants it closed, or the goroutine of `start` when the broker or the application has exited. -/
  | begins {i : ℕ} {x : Instance} (hx : w.instances i = some x) (hclosing : x.closing = .no)
      (hwanted : x.launched = true ∨ ∃ t c, w.calls t = some c ∧ w.Wants i c) : Step w .other (w.put i { x with closing := .begun })
  | kills {i : ℕ} {x : Instance} (hx : w.instances i = some x) (hclosing : x.closing = .begun) :
      Step w .other (w.put i { x with closing := .killed, alive := false })
  | asks {i : ℕ} {x : Instance} (hx : w.instances i = some x) (hclosing : x.closing = .killed) (hnetwork : w.network = none) :
      Step w .other ((w.put i { x with closing := .revoking }).hold (.closer i))
  | revokes {i : ℕ} {x : Instance} (hx : w.instances i = some x) (hclosing : x.closing = .revoking) :
      Step w (.revokes x.key) (((((w.permit (w.permitted \ {x.key})).clean (w.cleanup \ {x.key})).lease x.key .absent).put i
        { x with closing := .closed }).free)
  | refuses {i : ℕ} {x : Instance} {permitted : Set Key} {lease : Lease} (hx : w.instances i = some x) (hclosing : x.closing = .revoking)
      (hpermitted : w.Outside x.key permitted) (hless : permitted ⊆ w.permitted) (hlease : lease = .written ∨ lease = w.leases x.key) :
      Step w .other (((((w.permit permitted).clean (insert x.key w.cleanup)).lease x.key lease).put i { x with closing := .closed }).free)
  | refusalBreaks {i : ℕ} {x : Instance} {permitted : Set Key} (hx : w.instances i = some x) (hclosing : x.closing = .revoking)
      (hpermitted : w.Outside x.key permitted) (hless : permitted ⊆ w.permitted) :
      Step w (.breaks x.key) (((((w.permit permitted).clean (insert x.key w.cleanup)).lease x.key .broken).put i
        { x with closing := .closed }).free)
  | exits {i : ℕ} {x : Instance} (hx : w.instances i = some x) (halive : x.alive = true) : Step w .other (w.put i { x with alive := false })
  | releases {t i : ℕ} {x : Instance} (ht : w.calls t = some (.serving i)) (hmu : w.mu = none) (hx : w.instances i = some x) :
      Step w .other ((w.put i { x with active := x.active - 1 }).call t .released)
  | takes {t : ℕ} {target : Target} (ht : w.calls t = some (.stopping target)) (hmu : w.mu = none) :
      Step w (.takes t target) (w.takeOut t target)
  | stopped {t : ℕ} {target : Target} {todo pending : Set ℕ} (ht : w.calls t = some (.closing target todo pending))
      (htodo : ∀ i ∈ todo, w.IsClosed i) (hpending : ∀ o ∈ pending, ∀ s, ¬ w.Pending o s) : Step w .other (w.call t (.stopped target))
  | reaps (todo : Finset ℕ) (hmu : w.mu = none)
      (hidle : ∀ i ∈ todo, ∃ k x, w.running k = some i ∧ w.instances i = some x ∧ x.active = 0) : Step w .other (w.reapOut todo)
  | sweeps {t : ℕ} {todo : Set ℕ} (ht : w.calls t = some (.reaping todo)) (htodo : ∀ i ∈ todo, w.IsClosed i) (hnetwork : w.network = none) :
      Step w .other ((w.call t (.sweeping w.cleanup ∅)).hold (.sweeper t))
  | sweepRevokes {t : ℕ} {key : Key} {found tried : Set Key} (ht : w.calls t = some (.sweeping found tried)) (hkey : key ∈ found \ tried) :
      Step w (.revokes key) ((((w.permit (w.permitted \ {key})).clean (w.cleanup \ {key})).lease key .absent).call t
        (.sweeping found (insert key tried)))
  | sweepFails {t : ℕ} {key : Key} {found tried permitted : Set Key} (ht : w.calls t = some (.sweeping found tried))
      (hkey : key ∈ found \ tried) (hpermitted : w.Outside key permitted) (hless : permitted ⊆ w.permitted) :
      Step w (.sweepFails t key) (((w.permit permitted).call t (.swept found (insert key tried))).free)
  | sweepEnds {t : ℕ} {found tried : Set Key} (ht : w.calls t = some (.sweeping found tried)) (hall : found ⊆ tried) :
      Step w .other ((w.call t (.swept found tried)).free)
  | crashes : Step w .other w.crash

def Careful (w : World) : Event → Prop
  | .registers t key preview =>
    (∀ i x, w.Leaving i → w.instances i = some x →
      (x.key.id = key.id → x.preview = preview → x.alive = false) ∧ (x.key = key → x.closing = .closed)) ∧
    (∀ o s, w.Pending o s → s.validation = true → s.key = key → s.stage = .building) ∧
    ∀ o target, t < o → ((∃ todo pending, w.calls o = some (.closing target todo pending)) ∨ w.calls o = some (.stopped target)) →
      ¬ target.Covers key.id
  | .validates _ key =>
    w.running key = none ∧ (∀ o s, w.Pending o s → s.validation = false → s.key ≠ key) ∧
    ∀ i x, w.Leaving i → w.instances i = some x → x.key = key → x.closing = .closed
  | .takes _ target => ∀ i x, w.Leaving i → w.instances i = some x → target.Covers x.key.id → x.alive = false
  | .breaks key => key ∉ w.permitted
  | .sweepFails t key => ∀ found tried, w.calls t = some (.sweeping found tried) → found ⊆ insert key tried
  | _ => True

def CarefulStep (w : World) (e : Event) (w' : World) : Prop := Step w e w' ∧ Careful w e

end WorkAgent.AppRunner
