import WorkAgent.PublishedApps.Store

namespace WorkAgent.PublishedApps.Gateway

open Library
open Quota (Time)

structure Account where
  id : ℤ
  disabled : Bool
  offboarded : Bool
  deriving DecidableEq

structure Project where
  ownerSID : String
  state : String
  deriving DecidableEq

structure AppGrant where
  appID : String
  sid : String
  userID : ℤ
  revision : ℤ
  preview : Bool
  expires : Time
  anonymous : Bool
  deriving DecidableEq

structure Pass where
  token : String
  grant : AppGrant
  deriving DecidableEq

def Account.blocked (account : Account) : Bool := account.disabled || account.offboarded

def sharedProject (a : App) : Option String :=
  if "shared:".toList.isPrefixOf a.workspaceID.toList then some (String.ofList (a.workspaceID.toList.drop 7)) else none

def anonymousMode (a : App) : Bool := a.access = "token" || a.access = "password"

def grantAllowed (a : App) (grant : AppGrant) (now : Time) : Bool :=
  a.allows now grant.userID grant.preview || (grant.anonymous && anonymousMode a && a.enabled && !a.expired now)

def anonymousGrantExpiry (a : App) (now : Time) : Time :=
  let limit : Time := ⟨now.ns + 12 * 3600 * Time.second⟩
  if a.expiresAt ≠ .zero ∧ a.expiresAt.ns < limit.ns then a.expiresAt else limit

inductive Stage
  | begun
  | read (a : App)
  | owner (a : App) (account : Account)
  | allowed (a : App)
  | sharing (a : App)
  | exchanging (a : App) (ticket : String) (grant : AppGrant)
  | exchanged (a : App) (ticket : String) (grant : AppGrant)
  | viewing (a : App) (grant : AppGrant)
  | admitted (a : App) (viewer : Option AppGrant)
  | proxied (a : App) (viewer : Option AppGrant)
  | answered (a : App)
  deriving DecidableEq

def Stage.app : Stage → Option App
  | begun => none
  | read a | owner a _ | allowed a | sharing a | exchanging a _ _ | exchanged a _ _ | viewing a _ | admitted a _ | proxied a _ | answered a => some a

structure Request where
  key : ℕ
  appID : String
  preview : Bool
  stage : Stage
  cancelled : Bool
  registered : Bool
  deriving DecidableEq

inductive Visit
  | user (sid : String) (account : Account)
  | read (a : App)
  | owner (a : App) (account : Account)
  | allowed (a : App)
  | admitted (a : App) (sid : String) (userID : ℤ) (preview anonymous : Bool)
  deriving DecidableEq

inductive ClosingStage
  | stopping (a : App)
  | updated (revision : ℤ)
  | draining (revision : ℤ) (pending : List ℕ) (deadline : Time)
  | deleting (a : App)
  | emptying (a : App) (pending : List ℕ) (deadline : Time)
  deriving DecidableEq

structure Closing where
  id : String
  stage : ClosingStage
  deriving DecidableEq

/-- The database, the clock, the accounts and the projects as the Portal finds them, and what the
gateway holds. `changes` are the apps saved whose connections are still to be cut. -/
structure World where
  store : Store
  now : Time
  users : String → Option Account
  project : String → ℤ → Option Project
  visits : List Visit
  tickets : Table Pass.token
  grants : Table Pass.token
  requests : Table Request.key
  nextRequest : ℕ
  closings : Table Closing.id
  changes : List App

namespace World

variable (w : World)

def start (limits : Limits) (now : Time) (users : String → Option Account) (project : String → ℤ → Option Project) : World :=
  ⟨⟨.empty, limits⟩, now, users, project, [], .empty, .empty, .empty, 0, .empty, []⟩

def Finds (sid : String) (account : Account) : Prop := w.users sid = some account ∧ account.blocked = false

def Shares (a : App) (account : Account) : Prop := ∃ id project, sharedProject a = some id ∧ w.project id account.id = some project ∧
  project.ownerSID = a.ownerSID ∧ (project.state = "active" ∨ project.state = "transfer_pending")

def prune : World :=
  { w with tickets := w.tickets.delete fun pass => pass.grant.expires.ns < w.now.ns, grants := w.grants.delete fun pass => pass.grant.expires.ns < w.now.ns }

def disconnect (id : String) : World :=
  { w with requests := w.requests.update (fun q => q.appID = id ∧ q.registered = true) fun q => { q with cancelled := true, registered := false } }

def pending (id : String) : List ℕ := (w.requests.rows.filter fun q => q.appID = id && q.registered).map Request.key

def progress (q : Request) (stage : Stage) : World := { w with requests := w.requests.set { q with stage := stage } }

def issue (token : String) (grant : AppGrant) : World := { w with tickets := w.tickets.set ⟨token, grant⟩ }

def take (ticket : String) : World := { w with tickets := w.tickets.delete fun pass => pass.token = ticket }

def accept (token : String) (grant : AppGrant) : World := { w with grants := w.grants.set ⟨token, grant⟩ }

def close (closing : Closing) : World := { w with closings := w.closings.set closing }

def closed (id : String) : World := { w with closings := w.closings.delete fun closing => closing.id = id }

def changed (a : App) : World := { w with changes := w.changes.erase a }

end World

inductive Advance (w : World) (q : Request) : Stage → Prop
  | reads {a : App} (hstage : q.stage = .begun) (hget : w.store.db.get q.appID = .ok a) : Advance w q (.read a)
  | findsOwner {a : App} {account : Account} (hstage : q.stage = .read a) (howner : w.Finds a.ownerSID account)
      (hshared : (sharedProject a).isSome) : Advance w q (.owner a account)
  | allowsOwner {a : App} {account : Account} (hstage : q.stage = .read a) (howner : w.Finds a.ownerSID account)
      (hshared : sharedProject a = none) : Advance w q (.allowed a)
  | allowsProject {a : App} {account : Account} (hstage : q.stage = .owner a account) (hproject : w.Shares a account) : Advance w q (.allowed a)
  -- `shareTokenAccess`
  | shares {a : App} {token : String} (hstage : q.stage = .allowed a) (hpreview : q.preview = false) (haccess : a.access = "token")
      (htoken : a.shareToken ≠ "" ∧ token = a.shareToken) (henabled : a.enabled = true) (hexpired : a.expired w.now = false) :
      Advance w q (.sharing a)
  | checks {a : App} {ticket : String} {grant : AppGrant} (hstage : q.stage = .exchanging a ticket grant) (happ : grant.appID = q.appID)
      (hpreview : grant.preview = q.preview) (hrevision : grant.revision = a.revision) (hallowed : grantAllowed a grant w.now = true) :
      Advance w q (.exchanged a ticket grant)
  | admits {a : App} (hstage : q.stage = .allowed a) (hallows : a.allows w.now 0 q.preview = true) : Advance w q (.admitted a none)
  -- the cookie names a grant
  | shows {a : App} {pass : Pass} (hstage : q.stage = .allowed a) (hpass : pass ∈ w.grants) (hexpires : w.now.ns < pass.grant.expires.ns)
      (happ : pass.grant.appID = q.appID) (hpreview : pass.grant.preview = q.preview) (hrevision : pass.grant.revision = a.revision) :
      Advance w q (.viewing a pass.grant)
  | admitsAnonymous {a : App} {grant : AppGrant} (hstage : q.stage = .viewing a grant) (hallowed : grantAllowed a grant w.now = true)
      (hanonymous : grant.anonymous = true) : Advance w q (.admitted a (some grant))
  | admitsViewer {a : App} {grant : AppGrant} {account : Account} (hstage : q.stage = .viewing a grant) (hallowed : grantAllowed a grant w.now = true)
      (hanonymous : grant.anonymous = false) (hviewer : w.Finds grant.sid account) (hid : account.id = grant.userID) :
      Advance w q (.admitted a (some grant))

inductive Learns (w : World) : Visit → Prop
  | user {sid : String} {account : Account} (hfinds : w.Finds sid account) : Learns w (.user sid account)
  | read {id : String} {a : App} (hget : w.store.db.get id = .ok a) : Learns w (.read a)
  | owner {a : App} {account : Account} (hread : Visit.read a ∈ w.visits) (howner : w.Finds a.ownerSID account)
      (hshared : (sharedProject a).isSome) : Learns w (.owner a account)
  | own {a : App} {account : Account} (hread : Visit.read a ∈ w.visits) (howner : w.Finds a.ownerSID account) (hshared : sharedProject a = none) :
      Learns w (.allowed a)
  | project {a : App} {account : Account} (howner : Visit.owner a account ∈ w.visits) (hproject : w.Shares a account) : Learns w (.allowed a)
  | opens {a : App} {sid : String} {account : Account} {preview : Bool} (hallowed : Visit.allowed a ∈ w.visits)
      (huser : Visit.user sid account ∈ w.visits) (hallows : a.allows w.now account.id preview = true) :
      Learns w (.admitted a sid account.id preview false)
  -- the entry page with the token of the share link
  | token {a : App} {token : String} (hread : Visit.read a ∈ w.visits) (hexpired : a.expired w.now = false) (haccess : a.access = "token")
      (htoken : a.shareToken ≠ "" ∧ token = a.shareToken) : Learns w (.admitted a "" 0 false true)
  | password {a : App} {password : String} (hread : Visit.read a ∈ w.visits) (haccess : a.access = "password") (henabled : a.enabled = true)
      (hexpired : a.expired w.now = false) (hpassword : a.password ≠ "" ∧ password = a.password) : Learns w (.admitted a "" 0 false true)

inductive Event
  | moved
  | issued (ticket : String)
  | exchanged (ticket : String)
  | proxied (key : ℕ)
  | watched (id : String)
  | changed (id : String) (revision : ℤ)
  | stopping (id : String) (revision : ℤ)
  | stopped (id : String) (revision : ℤ)
  | deleting (id : String)
  deriving DecidableEq

def Manages : Call → Prop
  | .update _ _ => False
  | .delete _ _ => False
  | _ => True

variable (parse : String → Option URL)

inductive Step (w : World) : Event → World → Prop
  -- the world around the gateway
  | ticks {now : Time} (h : w.now.ns ≤ now.ns) : Step w .moved { w with now := now }
  | accounts {users : String → Option Account} {project : String → ℤ → Option Project} : Step w .moved { w with users := users, project := project }
  | manages {call : Call} (h : Manages call) : Step w .moved { w with store := (w.store.call parse call).2 }
  | restarts {first last max : ℤ} {store : Store} (h : w.store.db.start first last max = .ok store) : Step w .moved
      ⟨store, w.now, w.users, w.project, [], .empty, .empty, .empty, w.nextRequest, .empty, []⟩
  -- tickets
  | learns {visit : Visit} (h : Learns w visit) : Step w .moved { w with visits := w.visits ++ [visit] }
  | issues {a : App} {sid token : String} {userID : ℤ} {preview anonymous : Bool} (h : Visit.admitted a sid userID preview anonymous ∈ w.visits)
      (hroom : w.prune.tickets.rows.length < 4096) :
      Step w (.issued token) (w.prune.issue token ⟨a.id, sid, userID, a.revision, preview, ⟨w.now.ns + 60 * Time.second⟩, anonymous⟩)
  | prunes : Step w .moved w.prune
  -- the owner's changes, but for stopping and deleting
  | changes {read a updated : App} {store : Store} (hread : Visit.read read ∈ w.visits) (hedited : read.Edited a)
      (hupdate : w.store.update a read.revision = .ok (updated, store)) : Step w .moved { w with store := store, changes := w.changes ++ [updated] }
  | changed {a : App} (h : a ∈ w.changes) : Step w (.changed a.id a.revision) ((w.disconnect a.id).changed a)
  -- `stopApp`
  | stops {read : App} (hread : Visit.read read ∈ w.visits) (hfree : w.closings.find? read.id = none) :
      Step w .moved (w.close ⟨read.id, .stopping { read with enabled := false, previewVersion := "" }⟩)
  | stopUpdates {id : String} {a updated : App} {store : Store} (h : ⟨id, .stopping a⟩ ∈ w.closings)
      (hupdate : w.store.update a a.revision = .ok (updated, store)) : Step w .moved { w.close ⟨id, .updated updated.revision⟩ with store := store }
  | stopRefused {id : String} {a : App} (h : ⟨id, .stopping a⟩ ∈ w.closings) : Step w .moved (w.closed id)
  | stopDisconnects {id : String} {revision : ℤ} (h : ⟨id, .updated revision⟩ ∈ w.closings) :
      Step w (.stopping id revision) ((w.disconnect id).close ⟨id, .draining revision (w.pending id) ⟨w.now.ns + 20 * Time.second⟩⟩)
  | stopPending {id : String} {revision : ℤ} {pending : List ℕ} {deadline : Time} (h : ⟨id, .draining revision pending deadline⟩ ∈ w.closings)
      (hdeadline : deadline.ns ≤ w.now.ns) : Step w .moved (w.closed id)
  | stopFailed {id : String} {revision : ℤ} {pending : List ℕ} {deadline : Time} (h : ⟨id, .draining revision pending deadline⟩ ∈ w.closings)
      (hdone : ∀ key ∈ pending, w.requests.find? key = none) : Step w .moved (w.closed id)
  | stopped {id : String} {revision : ℤ} {pending : List ℕ} {deadline : Time} (h : ⟨id, .draining revision pending deadline⟩ ∈ w.closings)
      (hdone : ∀ key ∈ pending, w.requests.find? key = none) : Step w (.stopped id revision) (w.closed id)
  -- `deleteApplication`
  | deletes {read : App} (hread : Visit.read read ∈ w.visits) (hfree : w.closings.find? read.id = none) :
      Step w .moved (w.close ⟨read.id, .deleting read⟩)
  | deleteDisconnects {id : String} {a : App} (h : ⟨id, .deleting a⟩ ∈ w.closings) :
      Step w (.deleting id) ((w.disconnect id).close ⟨id, .emptying a (w.pending id) ⟨w.now.ns + 20 * Time.second⟩⟩)
  | deletePending {id : String} {a : App} {pending : List ℕ} {deadline : Time} (h : ⟨id, .emptying a pending deadline⟩ ∈ w.closings)
      (hdeadline : deadline.ns ≤ w.now.ns) : Step w .moved (w.closed id)
  | deleteFailed {id : String} {a : App} {pending : List ℕ} {deadline : Time} (h : ⟨id, .emptying a pending deadline⟩ ∈ w.closings)
      (hdone : ∀ key ∈ pending, w.requests.find? key = none) : Step w .moved (w.closed id)
  | deleted {id : String} {a : App} {pending : List ℕ} {deadline : Time} {store : Store} (h : ⟨id, .emptying a pending deadline⟩ ∈ w.closings)
      (hdone : ∀ key ∈ pending, w.requests.find? key = none) (hdelete : w.store.delete a.id a.ownerSID = .ok store) :
      Step w .moved { w.closed id with store := store }
  -- requests to an app
  | begins {id : String} {preview : Bool} : Step w .moved
      { w with requests := w.requests.insertOrIgnore ⟨w.nextRequest, id, preview, .begun, false, true⟩, nextRequest := w.nextRequest + 1 }
  | advances {q : Request} {stage : Stage} (hq : q ∈ w.requests) (h : Advance w q stage) : Step w .moved (w.progress q stage)
  | shares {q : Request} {a : App} {token : String} (hq : q ∈ w.requests) (hstage : q.stage = .sharing a) (hroom : w.grants.rows.length < 4096) :
      Step w .moved ((w.accept token ⟨a.id, "", 0, a.revision, false, anonymousGrantExpiry a w.now, true⟩).progress q (.answered a))
  | takes {q : Request} {a : App} {pass : Pass} (hq : q ∈ w.requests) (hstage : q.stage = .allowed a) (hpass : pass ∈ w.prune.tickets) :
      Step w .moved ((w.prune.take pass.token).progress q (.exchanging a pass.token pass.grant))
  | exchanges {q : Request} {a : App} {ticket token : String} {grant : AppGrant} {expires : Time} (hq : q ∈ w.requests)
      (hstage : q.stage = .exchanged a ticket grant) (hroom : w.grants.rows.length < 4096)
      (hexpires : expires = if grant.anonymous then anonymousGrantExpiry a w.now else ⟨w.now.ns + 30 * 60 * Time.second⟩) :
      Step w (.exchanged ticket) ((w.accept token { grant with expires := expires }).progress q (.answered a))
  -- a request whose context is done is not sent
  | proxies {q : Request} {a : App} {viewer : Option AppGrant} (hq : q ∈ w.requests) (hstage : q.stage = .admitted a viewer)
      (hversion : (if q.preview then a.previewVersion else a.version) ≠ "") (hcancelled : q.cancelled = false) :
      Step w (.proxied q.key) (w.progress q (.proxied a viewer))
  -- the visitor leaves, or is found to have lost the access
  | leaves {q : Request} (hq : q ∈ w.requests) : Step w .moved { w with requests := w.requests.set { q with cancelled := true } }
  -- the reads of the watcher find a change, or fail
  | watches {q : Request} {a : App} {viewer : Option AppGrant} (hq : q ∈ w.requests) (hstage : q.stage = .proxied a viewer) :
      Step w (.watched q.appID) (w.disconnect q.appID)
  | ends {q : Request} (hq : q ∈ w.requests) : Step w .moved { w with requests := w.requests.delete fun row => row.key = q.key }

end WorkAgent.PublishedApps.Gateway
