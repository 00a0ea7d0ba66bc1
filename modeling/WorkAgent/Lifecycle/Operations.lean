import WorkAgent.Library.Faults
import Mathlib.Data.Option.Basic
import Mathlib.Data.Nat.Notation

namespace WorkAgent.Lifecycle

open Library

structure Account where
  username : String
  windowsUsername : String
  passwordHash : String
  disabled : Bool
  admin : Bool
  offboarded : Bool
  deriving DecidableEq

structure JobLimits where
  memoryBytes : ℕ
  cpuPercent : ℕ
  activeProcesses : ℕ
  deriving DecidableEq

/-- The Portal account of an employee, the gateway keys, and the runtime: whether it runs, whether
its task is there, its data root with the registration credential, and its limits. -/
structure Employee where
  account : Option Account
  keys : Bool
  running : Bool
  task : Bool
  data : Bool
  limits : JobLimits
  deriving DecidableEq

namespace Employee

variable (s : Employee)

def setAccount (f : Account → Account) : Employee := { s with account := s.account.map f }

def isOpen : Bool := s.account.any fun a => !a.disabled

def isClosed : Bool := s.account.any fun a => a.disabled

def isOffboarded : Bool := s.account.any fun a => a.offboarded

end Employee

inductive Call
  | userByUsername
  | setUserEnabled (enabled : Bool)
  | resetUserPassword (hash : String)
  | setUserOffboarded (offboarded : Bool)
  | setWindowsUsername (name : String)
  | deleteOffboardedUser
  | setKeysEnabled (enabled : Bool)
  | revokeKeys
  | seedDefaults
  | hashPassword
  | checkManagedCredential
  | startInstalledRuntime
  | stopInstalledRuntime
  | removeInstalledRuntime
  | updateInstalledLimits (limits : JobLimits)
  | renameLocalUser (name : String)
  | ensureAccount
  | ensureProfile
  | ensurePrivateDataRoot
  | readCredential
  | installRuntime
  | startRuntime
  | removeData
  | deleteLocalAccount
  | removeCredential
  deriving DecidableEq

def Employee.start (s : Employee) : Option Employee := if s.task && !s.running then some { s with running := true } else none

def effect : Call → Employee → Option Employee
  | .userByUsername, s => if s.account.isSome then some s else none
  | .setUserEnabled enabled, s =>
    if s.account.any fun a => !(enabled && a.offboarded) then some (s.setAccount fun a => { a with disabled := !enabled }) else none
  | .resetUserPassword hash, s => if s.account.isSome then some (s.setAccount fun a => { a with passwordHash := hash }) else none
  | .setUserOffboarded offboarded, s =>
    if s.account.any fun a => !offboarded || a.disabled then some (s.setAccount fun a => { a with offboarded := offboarded }) else none
  | .setWindowsUsername name, s => if s.account.isSome then some (s.setAccount fun a => { a with windowsUsername := name }) else none
  | .deleteOffboardedUser, s =>
    if s.account.any fun a => a.disabled && a.offboarded && !a.admin then some { s with account := none } else none
  | .setKeysEnabled enabled, s => some { s with keys := enabled }
  | .revokeKeys, s => some { s with keys := false }
  | .startInstalledRuntime, s => if s.data then s.start else none
  | .startRuntime, s => s.start
  | .stopInstalledRuntime, s => if s.task then some { s with running := false } else none
  | .removeInstalledRuntime, s => some { s with task := false }
  | .updateInstalledLimits limits, s => if s.data then some { s with limits := limits } else none
  | .ensurePrivateDataRoot, s => some { s with keys := true }
  | .readCredential, s => if s.data then some s else none
  | .installRuntime, s => some { s with task := true }
  | .removeData, s => some { s with data := false }
  | .seedDefaults, s | .hashPassword, s | .checkManagedCredential, s | .renameLocalUser _, s | .ensureAccount, s | .ensureProfile, s
  | .deleteLocalAccount, s | .removeCredential, s => some s

inductive Error
  | text (message : String)
  | wrapped (message : String)
  | passed
  deriving DecidableEq

structure Answer where
  user : Option Account
  error : Option Error
  deriving DecidableEq

abbrev Operation := Script Employee Call Answer

def succeed (user : Account) : Operation := .done ⟨some user, none⟩

def fail (error : Error) : Operation := .done ⟨none, some error⟩

def failWith (user : Account) (error : Error) : Operation := .done ⟨some user, some error⟩

def closed (user : Account) : Account := { user with disabled := true }

def opened (user : Account) : Account := { user with disabled := false }

def withUser (next : Account → Operation) : Operation :=
  .attempt .userByUsername (fail .passed) <| .look fun s => match s.account with
    | none => fail .passed
    | some user => next user

def setEnabled (enabled : Bool) : Operation := withUser fun user =>
  if enabled then
    if !user.disabled then succeed user
    else
      .attempt (.setKeysEnabled true) (fail (.wrapped "set employee model gateway keys enabled=true")) <|
      .attempt .startInstalledRuntime (.ignoring (.setKeysEnabled false) <| fail (.wrapped "start employee runtime")) <|
      .attempt (.setUserEnabled true)
        (.ignoring .stopInstalledRuntime <| .ignoring (.setKeysEnabled false) <| fail .passed) <|
      succeed (opened user)
  else if user.disabled then
    if user.offboarded then succeed user
    else
      .attempt (.setKeysEnabled false) (failWith user (.wrapped "set employee model gateway keys enabled=false")) <|
      .attempt .stopInstalledRuntime (failWith user (.wrapped "employee runtime stop failed")) <|
      succeed user
  else
    .attempt (.setUserEnabled false) (fail .passed) <|
    .attempt (.setKeysEnabled false) (failWith (closed user) (.wrapped "Portal account disabled but model gateway keys are still enabled")) <|
    .attempt .stopInstalledRuntime (failWith (closed user) (.wrapped "Portal account disabled but employee runtime stop failed")) <|
    succeed (closed user)

def validatePassword (password : String) : Option Error :=
  if password.length < 12 then some (.text "password must contain at least 12 characters")
  else if 256 < password.utf8ByteSize then some (.text "password must not exceed 256 UTF-8 bytes")
  else none

def resetPortalPassword (password hash : String) : Operation := withUser fun user =>
  match validatePassword password with
  | some error => fail error
  | none =>
    .attempt .hashPassword (fail .passed) <|
    .attempt (.setKeysEnabled false) (fail (.wrapped "disable model gateway keys before password reset")) <|
    if user.disabled then .attempt (.resetUserPassword hash) (fail .passed) <| .done ⟨none, none⟩
    else
      .attempt (.resetUserPassword hash) (.ignoring (.setKeysEnabled true) <| fail .passed) <|
      .attempt (.setKeysEnabled true) (fail (.wrapped "Portal password reset but model gateway keys are still disabled")) <|
      .done ⟨none, none⟩

def restart : Operation := withUser fun user =>
  if user.disabled || user.offboarded then fail (.text "restart requires an enabled employee")
  else (setEnabled false).bind fun answer =>
    if answer.error.isSome then .done ⟨none, answer.error⟩
    else (setEnabled true).bind fun answer => .done ⟨none, answer.error⟩

def close (user : Account) (message : String) (next : Account → Operation) : Operation :=
  if !user.disabled then
    .attempt (.setUserEnabled false) (fail .passed) <|
    .attempt (.setKeysEnabled false) (failWith (closed user) (.wrapped "Portal account disabled but model gateway keys are still enabled")) <|
    .attempt .stopInstalledRuntime (failWith (closed user) (.wrapped "Portal account disabled but employee runtime stop failed")) <|
    next (closed user)
  else .attempt (.setKeysEnabled false) (failWith user (.wrapped message)) <| next user

def JobLimits.valid (l : JobLimits) : Bool :=
  256 * 1024 * 1024 ≤ l.memoryBytes && 1 ≤ l.cpuPercent && l.cpuPercent ≤ 100 && 3 ≤ l.activeProcesses

def setLimits (limits : JobLimits) : Operation :=
  if !limits.valid then fail (.text "invalid Job Object limits")
  else withUser fun was => close was "disable employee model gateway keys before limits update" fun user =>
    .attempt (.updateInstalledLimits limits) (failWith user (.wrapped "update employee runtime limits")) <|
    if was.disabled then succeed user
    else
      .attempt (.setKeysEnabled true) (failWith user (.wrapped "limits updated but model gateway keys are still disabled")) <|
      .attempt .startInstalledRuntime
        (.ignoring (.setKeysEnabled false) <| failWith user (.wrapped "limits updated but employee runtime health check failed")) <|
      .attempt (.setUserEnabled true)
        (.ignoring .stopInstalledRuntime <| .ignoring (.setKeysEnabled false) <| failWith user .passed) <|
      succeed (opened user)

def offboardRetain : Operation := withUser fun user =>
  if user.admin then fail (.text "administrator account cannot be offboarded as an employee")
  else if user.offboarded then succeed user
  else close user "disable retained employee model gateway keys" fun user =>
    .attempt .removeInstalledRuntime (failWith user (.wrapped "employee data retained but scheduled runtime removal failed")) <|
    .attempt (.setUserOffboarded true) (failWith user .passed) <|
    succeed { user with offboarded := true }

def repairInstalledRuntime (windowsPassword : String) : Script Employee Call Bool :=
  if windowsPassword ≠ "" then .done false
  else
    .attempt .ensureAccount (.done false) <|
    .attempt .ensureProfile (.done false) <|
    .attempt .ensurePrivateDataRoot (.done false) <|
    .attempt .readCredential (.done false) <|
    .attempt .installRuntime (.done false) <|
    .attempt .startRuntime (.done false) <|
    .done true

def preflight (windowsPassword : String) (next : Operation) : Operation :=
  if windowsPassword ≠ "" then fail (.text "Windows passwords are managed by the service")
  else .attempt .checkManagedCredential (fail .passed) next

def reopen (user : Account) : Operation :=
  .attempt (.setUserEnabled true)
    (.ignoring .stopInstalledRuntime <| .ignoring (.setKeysEnabled false) <| failWith user .passed) <|
  succeed (opened user)

def repairClosed (windowsPassword : String) (user : Account) : Operation :=
  .attempt .seedDefaults (failWith user (.wrapped "seed employee model entitlements")) <|
  (repairInstalledRuntime windowsPassword).bind fun repaired =>
    if !repaired then .ignoring (.setKeysEnabled false) <| failWith user (.wrapped "repair employee runtime")
    else if user.offboarded then
      .attempt (.setUserOffboarded false)
        (.ignoring .stopInstalledRuntime <| .ignoring (.setKeysEnabled false) <| failWith user .passed) <|
      reopen { user with offboarded := false }
    else reopen user

def repair (windowsPassword : String) : Operation := withUser fun user => preflight windowsPassword <|
  close user "disable employee model gateway keys before repair" (repairClosed windowsPassword)

def validateLocalUsername (name : String) : Option Error :=
  if name.utf8ByteSize < 1 || 20 < name.utf8ByteSize then some (.text "Windows username must be between 1 and 20 ASCII characters")
  else if name.toList.zipIdx.all fun (c, i) => c.isAlphanum || (0 < i && (c = '.' || c = '_' || c = '-')) then none
  else some (.text "invalid Windows local username")

def renameInstalledAccount (name windowsPassword : String) : Script Employee Call Bool :=
  if (validateLocalUsername name).isSome then .done false
  else .attempt (.renameLocalUser name) (.done false) <| repairInstalledRuntime windowsPassword

def renameClosed (wasEnabled : Bool) (name canonical windowsPassword : String) (user : Account) : Operation :=
  (renameInstalledAccount name windowsPassword).bind fun renamed =>
    if !renamed then .ignoring (.setKeysEnabled false) <| failWith user (.wrapped "rename Windows account")
    else
      .attempt (.setWindowsUsername canonical) (.ignoring (.setKeysEnabled false) <| failWith user .passed) <|
      let user := { user with windowsUsername := canonical }
      if !wasEnabled then
        .ignoring .stopInstalledRuntime <|
        .attempt (.setKeysEnabled false)
          (failWith user (.wrapped "Windows account renamed but model gateway keys are still enabled")) <|
        succeed user
      else reopen user

def renameWindowsAccount (name canonical windowsPassword : String) : Operation :=
  match validateLocalUsername name with
  | some error => fail error
  | none => withUser fun user =>
    if user.admin || user.offboarded then fail (.text "active managed employee is required for Windows rename")
    else preflight windowsPassword <| close user "disable employee model gateway keys before rename" <|
      renameClosed (!user.disabled) name canonical windowsPassword

def deleteInstalledEmployee : Script Employee Call Bool :=
  .attempt .removeInstalledRuntime (.done false) <|
  .attempt .removeData (.done false) <|
  .attempt .deleteLocalAccount (.done false) <|
  .attempt .removeCredential (.done false) <|
  .done true

def deleteRetainedEmployee (username confirmation : String) : Operation :=
  if confirmation ≠ "DELETE " ++ username then fail (.text "exact employee deletion confirmation is required")
  else withUser fun user =>
    if user.admin || !user.disabled || !user.offboarded then fail (.text "only a retained offboarded employee can be deleted")
    else
      .attempt .revokeKeys (fail (.wrapped "revoke employee model gateway keys")) <|
      deleteInstalledEmployee.bind fun deleted =>
        if !deleted then fail (.wrapped "delete retained employee data")
        else .attempt .deleteOffboardedUser (fail .passed) <| .done ⟨none, none⟩

inductive Request
  | setEnabled (enabled : Bool)
  | resetPortalPassword (password hash : String)
  | restart
  | setLimits (limits : JobLimits)
  | offboardRetain
  | repair (windowsPassword : String)
  | renameWindowsAccount (name canonical windowsPassword : String)
  | deleteRetainedEmployee (username confirmation : String)
  deriving DecidableEq

def Request.operation : Request → Operation
  | .setEnabled enabled => Lifecycle.setEnabled enabled
  | .resetPortalPassword password hash => Lifecycle.resetPortalPassword password hash
  | .restart => Lifecycle.restart
  | .setLimits limits => Lifecycle.setLimits limits
  | .offboardRetain => Lifecycle.offboardRetain
  | .repair windowsPassword => Lifecycle.repair windowsPassword
  | .renameWindowsAccount name canonical windowsPassword => Lifecycle.renameWindowsAccount name canonical windowsPassword
  | .deleteRetainedEmployee username confirmation => Lifecycle.deleteRetainedEmployee username confirmation

/-- A request as it went: what it was made on, the faults it met, and how it came out. -/
structure Entry where
  request : Request
  before : Employee
  faults : List Fault

def Entry.outcome (entry : Entry) : Outcome Employee Call Answer := entry.request.operation.run effect entry.before entry.faults

def Entry.succeeded (entry : Entry) : Bool := entry.outcome.answer.any fun answer => answer.error.isNone

inductive Step : Employee → Entry → Employee → Prop
  | requests (s : Employee) (request : Request) (faults : List Fault) :
      Step s ⟨request, s, faults⟩ (Entry.outcome ⟨request, s, faults⟩).state

end WorkAgent.Lifecycle
