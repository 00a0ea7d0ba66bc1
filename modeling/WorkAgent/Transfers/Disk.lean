import Mathlib.Tactic.Common

namespace WorkAgent.Transfers

structure Disk where
  place : String → String → Option String
  journal : String → String → Option String

namespace Disk

def empty : Disk := ⟨fun _ _ => none, fun _ _ => none⟩

def setPlace (d : Disk) (root project : String) (acl : Option String) : Disk :=
  { d with place := fun r p => if r = root ∧ p = project then acl else d.place r p }

def setJournal (d : Disk) (root project : String) (old : Option String) : Disk :=
  { d with journal := fun r p => if r = root ∧ p = project then old else d.journal r p }

def rename (d : Disk) (source target project : String) : Disk :=
  (d.setPlace target project (d.place source project)).setPlace source project none

variable {d : Disk} {root root' project project' source target : String} {acl old : Option String}

theorem place_setPlace : (d.setPlace root project acl).place root' project' =
    if root' = root ∧ project' = project then acl else d.place root' project' := rfl

theorem journal_setJournal : (d.setJournal root project old).journal root' project' =
    if root' = root ∧ project' = project then old else d.journal root' project' := rfl

theorem place_rename : (d.rename source target project).place root' project' =
    if root' = source ∧ project' = project then none
    else if root' = target ∧ project' = project then d.place source project
    else d.place root' project' := rfl

end Disk

inductive Action
  | transfer (old : String)
  | commit
  | rollback
  deriving DecidableEq

structure Order where
  project : String
  owner : String
  action : Action
  deriving DecidableEq

inductive Job
  | sent
  | checked
  | journaled
  | moved
  | found
  | rolling (old : String)
  | returned (old : String)
  | restored (old : String)
  | stuck
  | done (ok : Bool)
  | lost
  deriving DecidableEq

inductive Work (o : Order) : Disk → Job → Disk → Job → Prop
  | checks {d old} (haction : o.action = .transfer old) (hother : old ≠ o.owner)
      (hsource : d.place old o.project ≠ none) (htarget : d.place o.owner o.project = none) : Work o d .sent d .checked
  | journals {d old} (haction : o.action = .transfer old) :
      Work o d .checked (d.setJournal o.owner o.project (some old)) .journaled
  | moves {d old} (haction : o.action = .transfer old) (hsource : d.place old o.project ≠ none)
      (htarget : d.place o.owner o.project = none) : Work o d .journaled (d.rename old o.owner o.project) .moved
  | unmoved {d old} (haction : o.action = .transfer old) : Work o d .journaled d (.rolling old)
  | applies {d old} (haction : o.action = .transfer old) (htarget : d.place o.owner o.project ≠ none) :
      Work o d .moved (d.setPlace o.owner o.project (some o.owner)) (.done true)
  | unapplied {d old} (haction : o.action = .transfer old) : Work o d .moved d (.rolling old)
  | reads {d old} (haction : o.action = .rollback) (hjournal : d.journal o.owner o.project = some old) :
      Work o d .sent d (.rolling old)
  | unread {d} (haction : o.action = .rollback) : Work o d .sent d .stuck
  | movesBack {d old} (htarget : d.place o.owner o.project ≠ none) (hsource : d.place old o.project = none) :
      Work o d (.rolling old) (d.rename o.owner old o.project) (.returned old)
  | stays {d old} (htarget : d.place o.owner o.project = none) (hsource : d.place old o.project ≠ none) :
      Work o d (.rolling old) d (.returned old)
  | restores {d old} (hsource : d.place old o.project ≠ none) :
      Work o d (.returned old) (d.setPlace old o.project (some old)) (.restored old)
  | removes {d old} (hjournal : d.journal o.owner o.project ≠ none) :
      Work o d (.restored old) (d.setJournal o.owner o.project none) (.done (o.action = .rollback))
  | gone {d old} (hjournal : d.journal o.owner o.project = none) : Work o d (.restored old) d (.done false)
  | unmovedBack {d old} : Work o d (.rolling old) d .stuck
  | unrestored {d old} : Work o d (.returned old) d .stuck
  | unremoved {d old} : Work o d (.restored old) d .stuck
  | finds {d} (haction : o.action = .commit) (hjournal : d.journal o.owner o.project ≠ none)
      (htarget : d.place o.owner o.project ≠ none) : Work o d .sent d .found
  | absent {d} (haction : o.action = .commit) (hjournal : d.journal o.owner o.project = none)
      (htarget : d.place o.owner o.project ≠ none) : Work o d .sent d (.done true)
  | confirms {d} (hjournal : d.journal o.owner o.project ≠ none) :
      Work o d .found (d.setJournal o.owner o.project none) (.done true)
  | unconfirmed {d} : Work o d .found d (.done false)
  | refuses {d} (haction : o.action ≠ .rollback) : Work o d .sent d (.done false)
  | unjournaled {d} : Work o d .checked d (.done false)

end WorkAgent.Transfers
