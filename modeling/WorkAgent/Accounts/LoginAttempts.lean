import WorkAgent.Accounts.Logins

namespace WorkAgent.Accounts

open Library
open Quota (Time)

structure LoginPolicy where
  accountLimit : ℤ
  ipLimit : ℤ
  window : ℤ
  lockout : ℤ
  window_le : Time.second ≤ window
  lockout_le : Time.second ≤ lockout

structure AttemptRow where
  key : String
  startedAt : ℤ
  failures : ℤ
  blockedUntil : ℤ
  deriving DecidableEq

abbrev Attempts := Table AttemptRow.key

def accountKey (account : String) : String := "account:" ++ nocase account

def ipKey (ip : String) : String := "ip:" ++ ip

def later (t : Time) (duration : ℤ) : Time := ⟨t.ns + duration⟩

def loginBlockedUntil (rows : Attempts) (account ip : String) (now : Time) : Option ℤ :=
  let blocked := (((rows.rows.filter (fun r => r.key ∈ [accountKey account, ipKey ip])).map
    AttemptRow.blockedUntil).max?).getD 0
  if blocked ≤ now.unix then none else some blocked

def AttemptRow.count (policy : LoginPolicy) (limit : ℤ) (now : Time) (r : AttemptRow) : AttemptRow :=
  let r := if r.startedAt = 0 ∨ r.startedAt + policy.window / Time.second ≤ now.unix ∨ r.blockedUntil ≠ 0
    then { r with startedAt := now.unix, failures := 0, blockedUntil := 0 } else r
  { r with
    failures := r.failures + 1
    blockedUntil := if limit ≤ r.failures + 1 then (later now policy.lockout).unix else r.blockedUntil }

def recordFailure (policy : LoginPolicy) (now : Time) (rows : Attempts) (key : String) (limit : ℤ) : Attempts :=
  if key = "ip:" ∨ limit ≤ 0 then rows
  else
    let r := (rows.find? key).getD ⟨key, 0, 0, 0⟩
    if now.unix < r.blockedUntil then rows else rows.set (r.count policy limit now)

/-- `RecordLoginAttempt`; at its end the rows that have run out are deleted, whosever they are. -/
def recordLoginAttempt (policy : LoginPolicy) (rows : Attempts) (account ip : String) (success : Bool) (now : Time) :
    Attempts :=
  let rows := if success then rows.delete (fun r => r.key = accountKey account)
    else recordFailure policy now (recordFailure policy now rows (accountKey account) policy.accountLimit) (ipKey ip)
      policy.ipLimit
  rows.delete (fun r => r.startedAt < (later now (-policy.window)).unix ∧ r.blockedUntil ≤ now.unix)

inductive Progress
  | admitted
  | judged (success : Bool)
  | recorded
  deriving DecidableEq

structure Attempt where
  account : String
  ip : String
  progress : Progress
  deriving DecidableEq

def Attempt.keys (a : Attempt) : List String := [accountKey a.account, ipKey a.ip]

inductive Entry
  | verified (keys : List String)
  | failed (keys : List String) (time : Time)
  | succeeded (account : String) (ip : String)

def Entry.keys : Entry → List String
  | .verified keys => keys
  | .failed keys _ => keys
  | .succeeded account ip => [accountKey account, ipKey ip]

/-- The table, the clock, the request in the login slot and what has happened, the last first. -/
structure Gate where
  rows : Attempts
  now : Time
  slot : Option Attempt
  log : List Entry

inductive Gate.Step (policy : LoginPolicy) (g : Gate) : Gate → Prop
  | waits (now : Time) (h : g.now.ns ≤ now.ns) : Step policy g { g with now := now }
  | admits (account ip : String) (hvalid : validateUsername account = true) (hslot : g.slot = none)
      (hfree : loginBlockedUntil g.rows account ip g.now = none) :
      Step policy g { g with slot := some ⟨account, ip, .admitted⟩ }
  | verifies (a : Attempt) (success : Bool) (hslot : g.slot = some a) (ha : a.progress = .admitted) :
      Step policy g { g with slot := some { a with progress := .judged success }, log := .verified a.keys :: g.log }
  | remembers (a : Attempt) (success : Bool) (hslot : g.slot = some a) (ha : a.progress = .admitted) :
      Step policy g { g with slot := some { a with progress := .judged success } }
  | fails (a : Attempt) (hslot : g.slot = some a) (ha : a.progress = .judged false) :
      Step policy g { g with
        rows := recordLoginAttempt policy g.rows a.account a.ip false g.now
        slot := none
        log := .failed a.keys g.now :: g.log }
  | succeeds (a : Attempt) (hslot : g.slot = some a) (ha : a.progress = .judged true) :
      Step policy g { g with
        rows := recordLoginAttempt policy g.rows a.account a.ip true g.now
        slot := some { a with progress := .recorded }
        log := .succeeded a.account a.ip :: g.log }
  | compares (a : Attempt) (hslot : g.slot = some a) (ha : a.progress = .recorded) :
      Step policy g { g with log := .verified a.keys :: g.log }
  | finishes (a : Attempt) (hslot : g.slot = some a) (ha : a.progress = .recorded) : Step policy g { g with slot := none }
  | restarts : Step policy g { g with slot := none }

def Gate.Run (policy : LoginPolicy) : Gate → Gate → Prop := Relation.ReflTransGen (Gate.Step policy)

def Gate.opened (now : Time) : Gate := ⟨.empty, now, none, []⟩

def Gate.Reachable (policy : LoginPolicy) (g : Gate) : Prop :=
  ∃ now : Time, 1 ≤ now.unix ∧ Gate.Run policy (Gate.opened now) g

end WorkAgent.Accounts
