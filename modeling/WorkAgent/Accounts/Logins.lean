import WorkAgent.Accounts.Store

namespace WorkAgent.Accounts

open Library
open Quota (Time)

structure Server where
  verifyPassword : String → String → Bool
  equalFold : String → String → Bool
  sessionLife : ℤ

def validateUsername (username : String) : Bool :=
  1 ≤ username.utf8ByteSize ∧ username.utf8ByteSize ≤ 64 ∧ username.toList.all (fun c => c.isAlphanum ∨ c ∈ ['.', '_', '-']) ∧
    username.toList.head?.all (·.isAlphanum)

def validatePassword (password : String) : Bool := 12 ≤ password.toList.length ∧ password.utf8ByteSize ≤ 256

inductive Input
  | login (username password : String) (remember useRemembered : Bool)
  | changePassword (username currentPassword newPassword confirmPassword : String)
  | logout
  | forgetLogin
  deriving DecidableEq

def Input.valid : Input → Bool
  | .login username _ _ _ => validateUsername username
  | .changePassword username currentPassword newPassword confirmPassword =>
    validateUsername username ∧ currentPassword ≠ "" ∧ newPassword = confirmPassword ∧ validatePassword newPassword
  | .logout | .forgetLogin => true

def Input.remember : Input → Bool
  | .login _ _ remember _ => remember
  | _ => false

/-- How far a request is; `issued` has a session, `forgotten` has also deleted the remembered login it came with. -/
inductive Stage
  | arrived
  | checked (user : User)
  | recorded (user : User)
  | issued (user : User) (token : String)
  | forgotten (user : User) (token : String)
  | undoing (token : String)
  | done
  deriving DecidableEq

structure Request where
  input : Input
  session : Option String
  remembered : Option String
  stage : Stage
  deriving DecidableEq

structure World where
  db : Database
  requests : ℕ → Option Request
  drawn : List String

inductive Kind
  | session
  | remembered
  deriving DecidableEq

inductive Event
  | checked (k : ℕ) (userID : ℤ)
  | issued (kind : Kind) (k : ℕ) (userID : ℤ) (token : String)
  | revoked (userID : ℤ)
  | other
  deriving DecidableEq

inductive Change
  | setUserEnabled (username : String) (enabled : Bool)
  | resetUserPassword (username passwordHash : String)
  | setUserAdmin (username : String) (admin : Bool)
  deriving DecidableEq

def Change.username : Change → String
  | .setUserEnabled username _ => username
  | .resetUserPassword username _ => username
  | .setUserAdmin username _ => username

def Change.apply (db : Database) : Change → Except Error Database
  | .setUserEnabled username enabled => db.setUserEnabled username enabled
  | .resetUserPassword username passwordHash => db.resetUserPassword username passwordHash
  | .setUserAdmin username admin => db.setUserAdmin username admin

variable (server : Server)

def Server.check (db : Database) (r : Request) (now : Time) : Option User :=
  match r.input with
  | .login username password _ true => do
    let user ← r.remembered.bind fun token => (db.userByRememberedLogin token now).toOption
    if server.equalFold user.username username ∧ password = "" then some user else none
  | .login username password _ false => do
    let user ← db.userByUsername username
    if server.verifyPassword user.passwordHash password ∧ user.disabled = false then some user else none
  | .changePassword username currentPassword _ _ => do
    let user ← db.userByUsername username
    if server.verifyPassword user.passwordHash currentPassword ∧ user.disabled = false then some user else none
  | .logout => r.session.bind fun token => (db.userBySession token now).toOption
  | .forgetLogin => none

def Server.lifetime (remember : Bool) : ℤ := if remember then 30 * 24 * 3600 * Time.second else server.sessionLife

def World.put (w : World) (k : ℕ) (r : Request) : World := { w with requests := Function.update w.requests k (some r) }

def World.draw (w : World) (token : String) : World := { w with drawn := token :: w.drawn }

def Stage.failed : Stage → Stage
  | .issued _ token | .forgotten _ token => .undoing token
  | _ => .done

def Database.forget (db : Database) (token : Option String) : Database := token.elim db db.deleteRememberedLogin

inductive Step (w : World) : Event → World → Prop
  | arrives {k : ℕ} {r : Request} (hnew : w.requests k = none) (hstage : r.stage = .arrived) (hvalid : r.input.valid) :
      Step w .other (w.put k r)
  | passes {k : ℕ} {r : Request} {user : User} (now : Time) (hr : w.requests k = some r) (hstage : r.stage = .arrived)
      (hcheck : server.check w.db r now = some user) : Step w (.checked k user.id) (w.put k { r with stage := .checked user })
  | refused {k : ℕ} {r : Request} (now : Time) (hr : w.requests k = some r) (hstage : r.stage = .arrived)
      (hcheck : server.check w.db r now = none) (hinput : r.input ≠ .forgetLogin) : Step w .other (w.put k { r with stage := .done })
  | recorded {k : ℕ} {r : Request} {user : User} (hr : w.requests k = some r) (hstage : r.stage = .checked user)
      (hinput : r.input ≠ .logout) : Step w .other (w.put k { r with stage := .recorded user })
  | creates {k : ℕ} {r : Request} {user : User} {username password token : String} {remember useRemembered : Bool} {db : Database}
      (now : Time) (hr : w.requests k = some r) (hstage : r.stage = .recorded user)
      (hinput : r.input = .login username password remember useRemembered) (hfresh : token ∉ w.drawn)
      (hdb : w.db.createSession token user.id ⟨now.ns + server.lifetime remember⟩ = .ok db) :
      Step w (.issued .session k user.id token)
        (({ w with db := db }.draw token).put k
          { r with stage := if useRemembered ∧ remember then .done else .issued user token })
  | forgets {k : ℕ} {r : Request} {user : User} {token : String} (hr : w.requests k = some r) (hstage : r.stage = .issued user token) :
      Step w .other ({ w with db := w.db.forget r.remembered }.put k
        { r with stage := if r.input.remember then .forgotten user token else .done })
  | forgetsLogin {k : ℕ} {r : Request} (hr : w.requests k = some r) (hstage : r.stage = .arrived) (hinput : r.input = .forgetLogin) :
      Step w .other ({ w with db := w.db.forget r.remembered }.put k { r with stage := .done })
  | remembers {k : ℕ} {r : Request} {user : User} {session token : String} {db : Database} (now : Time) (hr : w.requests k = some r)
      (hstage : r.stage = .forgotten user session) (hfresh : token ∉ w.drawn)
      (hdb : w.db.createRememberedLogin token user.id ⟨now.ns + 30 * 24 * 3600 * Time.second⟩ = .ok db) :
      Step w (.issued .remembered k user.id token) (({ w with db := db }.draw token).put k { r with stage := .done })
  | undoes {k : ℕ} {r : Request} {token : String} (hr : w.requests k = some r) (hstage : r.stage = .undoing token) :
      Step w .other ({ w with db := w.db.deleteSession token }.put k { r with stage := .done })
  | logsOut {k : ℕ} {r : Request} {user : User} {token : String} (hr : w.requests k = some r) (hstage : r.stage = .checked user)
      (hinput : r.input = .logout) (htoken : r.session = some token) :
      Step w .other ({ w with db := w.db.deleteSession token }.put k { r with stage := .done })
  | changesPassword {k : ℕ} {r : Request} {user : User} {username currentPassword newPassword confirmPassword passwordHash : String}
      {current : User} {db : Database} (hr : w.requests k = some r) (hstage : r.stage = .recorded user)
      (hinput : r.input = .changePassword username currentPassword newPassword confirmPassword)
      (hreused : server.verifyPassword user.passwordHash newPassword = false)
      (huser : w.db.userByUsername user.username = some current)
      (hdb : w.db.resetUserPassword user.username passwordHash = .ok db) :
      Step w (.revoked current.id) ({ w with db := db }.put k { r with stage := .done })
  /-- A refusal, a failed write, or the Portal stops; what was begun is undone only after a failure. -/
  | fails {k : ℕ} {r : Request} (hr : w.requests k = some r) : Step w .other (w.put k { r with stage := r.stage.failed })
  | dies {k : ℕ} {r : Request} (hr : w.requests k = some r) : Step w .other (w.put k { r with stage := .done })
  | changes {user : User} {db : Database} (change : Change) (huser : w.db.userByUsername change.username = some user)
      (hdb : change.apply w.db = .ok db) : Step w (.revoked user.id) { w with db := db }

end WorkAgent.Accounts
