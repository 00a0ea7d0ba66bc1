import WorkAgent.Library.Table
import WorkAgent.Library.Text
import WorkAgent.Quota.Calendar

namespace WorkAgent.ChatForward

open Library
open Quota (Time)

inductive Error
  | conflict
  | notFound
  | invalid
  | text (message : String)
  | database
  deriving DecidableEq

def validID (id : String) : Bool :=
  16 ≤ id.toList.length && id.toList.length ≤ 128 && id.toList.all fun c => c.isAlphanum || c = '_' || c = '-'

inductive State
  | reserved
  | unknown
  | dispatched
  | cancelled
  deriving DecidableEq

inductive Outcome
  | blank
  | pending
  | completed
  | failed
  | interrupted
  | unknown
  deriving DecidableEq

inductive Kind
  | dispatch
  | unknown
  | cancel
  | settle
  deriving DecidableEq

structure Subject where
  sid : String
  id : ℕ
  deriving DecidableEq

structure Limit where
  sid : String
  weeklyLimit : ℕ
  deriving DecidableEq

structure Send where
  subject : ℕ
  logicalID : String
  attemptID : String
  model : String
  weekStart : ℤ
  state : State
  outcome : Outcome
  upstreamStatus : ℤ
  reservedAt : ℤ
  updatedAt : ℤ
  resolved : Bool
  deriving DecidableEq

def Send.key (send : Send) : ℕ × String := (send.subject, send.logicalID)

structure Event where
  eventID : String
  logicalID : String
  attemptID : String
  kind : Kind
  outcome : Outcome
  upstreamStatus : ℤ
  dispatched : Bool
  deriving DecidableEq

structure EventRow where
  subject : ℕ
  eventID : String
  payload : Event
  deriving DecidableEq

def EventRow.key (row : EventRow) : ℕ × String := (row.subject, row.eventID)

structure Resolution where
  subject : ℕ
  logicalID : String
  actor : String
  decision : State
  reason : String
  «at» : ℤ
  deriving DecidableEq

structure Ledger where
  subjects : Table Subject.sid
  sequence : ℕ
  limits : Table Limit.sid
  sends : Table Send.key
  events : Table EventRow.key
  resolutions : List Resolution

def Ledger.empty : Ledger := ⟨.empty, 0, .empty, .empty, .empty, []⟩

structure Usage where
  limit : ℕ
  used : ℕ
  pending : ℕ
  unknown : ℕ
  remaining : ℕ
  weekStart : ℤ
  resetAt : ℤ
  deriving DecidableEq

structure Reservation where
  allowed : Bool
  code : String
  usage : Usage
  deriving DecidableEq

def defaultWeeklyLimit : ℕ := 7

def weekOf (unix : ℤ) : ℤ :=
  let day := (unix + 8 * 3600) / 86400
  (day - Time.weekday day) * 86400 - 8 * 3600

def week (now : Time) : ℤ × ℤ := (weekOf now.unix, weekOf now.unix + 7 * 86400)

namespace Ledger

variable (l : Ledger)

def validSID (sid : String) : Bool := "S-1-".toList.isPrefixOf sid.toList

def subject (sid : String) : Except Error (ℕ × Ledger) :=
  if ¬ validSID sid then .error (.text "invalid employee SID")
  else match l.subjects.find? sid with
    | some p => .ok (p.id, l)
    | none => .ok (l.sequence + 1, { l with subjects := l.subjects.insertOrIgnore ⟨sid, l.sequence + 1⟩, sequence := l.sequence + 1 })

def subjectSID (id : ℕ) : Option String := (l.subjects.rows.find? fun p => p.id = id).map Subject.sid

def weeklyLimit (sid : String) : ℕ :=
  match l.limits.find? sid with
  | some limit => limit.weeklyLimit
  | none => defaultWeeklyLimit

def weekly (sid : String) (start : ℤ) : List Send :=
  l.sends.rows.filter fun s => (l.subjects.find? sid).any (fun p => p.id = s.subject) && s.weekStart = start

def usage (sid : String) (now : Time) : Usage :=
  let rows := l.weekly sid (week now).1
  let used := rows.countP fun s => s.state = .dispatched
  let pending := rows.countP fun s => s.state = .reserved || s.state = .unknown
  { limit := l.weeklyLimit sid
    used := used
    pending := pending
    unknown := rows.countP fun s => s.state = .unknown
    remaining := l.weeklyLimit sid - used - pending
    weekStart := (week now).1
    resetAt := (week now).2 }

def setLimit (sid : String) (limit : ℤ) : Except Error Ledger :=
  if ¬ validSID sid ∨ limit < 0 ∨ 10000 < limit then .error (.text "invalid weekly limit")
  else .ok { l with limits := l.limits.set ⟨sid, limit.toNat⟩ }

def refuses (subject : ℕ) (attempt : String) : Bool :=
  l.sends.rows.any (fun s => s.subject = subject && s.attemptID = attempt) || !l.subjects.rows.any fun p => p.id = subject

def reserve (subject : ℕ) (logical attempt model : String) (now : Time) : Except Error (Reservation × Ledger) :=
  if ¬ validID logical ∨ ¬ validID attempt ∨ 128 < model.utf8ByteSize ∨ model = "" then .error (.text "invalid send")
  else match l.subjectSID subject with
    | none => .error .notFound
    | some sid =>
      match l.sends.find? (subject, logical) with
      | some old =>
        if old.attemptID ≠ attempt ∨ old.model ≠ "" ∧ old.model ≠ model then .error .conflict
        else .ok (⟨old.state = .reserved,
          if old.state = .reserved then ""
          else if old.state = .unknown then "chatgpt_pro_send_pending"
          else "chatgpt_pro_send_already_processed", l.usage sid now⟩, l)
      | none =>
        let usage := l.usage sid now
        if usage.remaining = 0 then .ok (⟨false, "chatgpt_pro_quota_exceeded", usage⟩, l)
        else if l.refuses subject attempt then .error .conflict
        else
          let send : Send :=
            ⟨subject, logical, attempt, model, usage.weekStart, .reserved, .pending, 0, now.unixMilli, now.unixMilli, false⟩
          .ok (⟨true, "", { usage with pending := usage.pending + 1, remaining := usage.remaining - 1 }⟩,
            { l with sends := l.sends.insertOrIgnore send })

end Ledger

def Event.valid (e : Event) : Bool :=
  validID e.eventID && validID e.logicalID && validID e.attemptID && 0 ≤ e.upstreamStatus && e.upstreamStatus ≤ 599 && e.outcome ≠ .pending

def Event.shows (e : Event) : Bool := e.kind = .dispatch || e.dispatched || 0 < e.upstreamStatus

def Send.apply (send : Send) (e : Event) (now : Time) : Except Error Send :=
  if send.attemptID ≠ e.attemptID then .error .conflict
  else if (send.resolved ∨ send.state = .cancelled) ∧ e.shows ∧ send.state ≠ .dispatched then .error .conflict
  else
    let state :=
      if send.resolved ∨ send.state = .cancelled then send.state
      else if e.shows then .dispatched
      else if e.kind = .cancel ∧ send.state ≠ .dispatched then .cancelled
      else if (e.kind = .unknown ∨ e.kind = .settle) ∧ send.state = .reserved then .unknown
      else send.state
    let settles := e.kind = .settle ∧ (send.outcome = .pending ∨ send.outcome = .unknown ∨ e.outcome = .completed)
    .ok { send with
      state := state
      outcome := if settles ∧ e.outcome ≠ .blank then e.outcome else send.outcome
      upstreamStatus := if settles ∧ 0 < e.upstreamStatus then e.upstreamStatus else send.upstreamStatus
      updatedAt := now.unixMilli }

namespace Ledger

variable (l : Ledger)

def found (subject : ℕ) (e : Event) (now : Time) : Except Error (Ledger × Send) :=
  match l.sends.find? (subject, e.logicalID) with
  | some send => .ok (l, send)
  | none =>
    if e.kind ≠ .cancel then .error .notFound
    else if l.refuses subject e.attemptID then .error .database
    else
      let send : Send :=
        ⟨subject, e.logicalID, e.attemptID, "", (week now).1, .cancelled, .blank, 0, now.unixMilli, now.unixMilli, false⟩
      .ok ({ l with sends := l.sends.insertOrIgnore send }, send)

def applyEvent (subject : ℕ) (e : Event) (now : Time) : Except Error Ledger :=
  if ¬ e.valid then .error .invalid
  else match l.events.find? (subject, e.eventID) with
    | some previous => if previous.payload ≠ e then .error .conflict else .ok l
    | none => do
      let (m, send) ← l.found subject e now
      let send ← send.apply e now
      return { m with sends := m.sends.set send, events := m.events.insertOrIgnore ⟨subject, e.eventID, e⟩ }

def resolve (sid logical : String) (decision : State) (actor reason : String) (now : Time) : Except Error Ledger :=
  if ¬ validID logical ∨ (decision ≠ .dispatched ∧ decision ≠ .cancelled) ∨ blank reason ∨ 500 < reason.utf8ByteSize ∨ actor = "" then
    .error (.text "invalid resolution")
  else match l.subjects.find? sid with
    | none => .error .notFound
    | some p =>
      match l.sends.find? (p.id, logical) with
      | none => .error .notFound
      | some send =>
        if send.state ≠ .unknown ∧ send.state ≠ .reserved then .error .conflict
        else if send.state = .reserved ∧ now.ns - send.reservedAt * 1000000 < 15 * 60 * Time.second then .error .conflict
        else .ok { l with
          sends := l.sends.set { send with state := decision, resolved := true, updatedAt := now.unixMilli }
          resolutions := l.resolutions ++ [⟨p.id, logical, actor, decision, reason, now.unixMilli⟩] }

end Ledger

inductive Call
  | subject (sid : String)
  | setLimit (sid : String) (limit : ℤ)
  | reserve (subject : ℕ) (logical attempt model : String) (now : Time)
  | applyEvent (subject : ℕ) (event : Event) (now : Time)
  | resolve (sid logical : String) (decision : State) (actor reason : String) (now : Time)

inductive Answer
  | done
  | failed (error : Error)
  | subject (id : ℕ)
  | reserved (reservation : Reservation)
  deriving DecidableEq

namespace Ledger

variable (l : Ledger)

def call : Call → Answer × Ledger
  | .subject sid =>
    match l.subject sid with
    | .ok (id, m) => (.subject id, m)
    | .error error => (.failed error, l)
  | .setLimit sid limit =>
    match l.setLimit sid limit with
    | .ok m => (.done, m)
    | .error error => (.failed error, l)
  | .reserve subject logical attempt model now =>
    match l.reserve subject logical attempt model now with
    | .ok (reservation, m) => (.reserved reservation, m)
    | .error error => (.failed error, l)
  | .applyEvent subject event now =>
    match l.applyEvent subject event now with
    | .ok m => (.done, m)
    | .error error => (.failed error, l)
  | .resolve sid logical decision actor reason now =>
    match l.resolve sid logical decision actor reason now with
    | .ok m => (.done, m)
    | .error error => (.failed error, l)

end Ledger

inductive Step (l : Ledger) : Call × Answer → Ledger → Prop
  | calls (call : Call) : Step l (call, (l.call call).1) (l.call call).2
  | fails (call : Call) : Step l (call, .failed .database) l

end WorkAgent.ChatForward
