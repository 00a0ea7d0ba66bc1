import WorkAgent.Library.Guards
import WorkAgent.Quota.Calendar

namespace WorkAgent.Accounts

open Library
open Quota (Time)

inductive Error
  | noRows
  | disabled
  | missingUser
  | missingOrOffboarded
  | constraint
  deriving DecidableEq

structure User where
  id : ℤ
  username : String
  passwordHash : String
  disabled : Bool
  admin : Bool
  offboarded : Bool
  deriving DecidableEq

structure TokenRow where
  token : String
  userID : ℤ
  expiresAt : ℤ
  deriving DecidableEq

def nocase (s : String) : String := String.ofList (s.toList.map Char.toLower)

structure Database where
  users : Table User.id
  usernames : (users.rows.map fun u => nocase u.username).Nodup
  sessions : Table TokenRow.token
  rememberedLogins : Table TokenRow.token

namespace Database

variable (db : Database)

def updateUsers (p : User → Prop) [DecidablePred p] (f : User → User) (hid : ∀ u, (f u).id = u.id)
    (hname : ∀ u, (f u).username = u.username) : Database :=
  { db with
    users := db.users.update p f hid
    usernames := by
      have hsame : (fun u => nocase u.username) ∘ (fun u => if p u then f u else u) = fun u => nocase u.username := by
        funext u
        by_cases hp : p u <;> simp [hp, hname]
      rw [Table.rows_update, List.map_map, hsame]
      exact db.usernames }

def userByUsername (username : String) : Option User := db.users.rows.find? (fun u => nocase u.username = nocase username)

def userByToken (tokens : Table TokenRow.token) (token : String) (now : Time) : Except Error User := do
  let row ← orError ((tokens.find? token).filter (now.unix < ·.expiresAt)) .noRows
  let user ← orError (db.users.find? row.userID) .noRows
  require (¬ user.disabled) .disabled
  return user

def userBySession (token : String) (now : Time) : Except Error User := db.userByToken db.sessions token now

def userByRememberedLogin (token : String) (now : Time) : Except Error User := db.userByToken db.rememberedLogins token now

def createSession (token : String) (userID : ℤ) (expiresAt : Time) : Except Error Database := do
  let sessions ← db.sessions.insertChecked (db.users.has userID) ⟨token, userID, expiresAt.unix⟩ .constraint
  return { db with sessions := sessions }

def deleteSession (token : String) : Database := { db with sessions := db.sessions.delete (·.token = token) }

def createRememberedLogin (token : String) (userID : ℤ) (expires : Time) : Except Error Database := do
  let rememberedLogins ← db.rememberedLogins.insertChecked (db.users.has userID) ⟨token, userID, expires.unix⟩ .constraint
  return { db with rememberedLogins := rememberedLogins }

def deleteRememberedLogin (token : String) : Database :=
  { db with rememberedLogins := db.rememberedLogins.delete (·.token = token) }

def revoke (username : String) : Database :=
  let id := (db.userByUsername username).map (·.id)
  { db with
    sessions := db.sessions.delete (fun r => id = some r.userID)
    rememberedLogins := db.rememberedLogins.delete (fun r => id = some r.userID) }

def change (username : String) (p : User → Prop) [DecidablePred p] (f : User → User) (hid : ∀ u, (f u).id = u.id)
    (hname : ∀ u, (f u).username = u.username) (e : Error) : Except Error Database := do
  require (db.users.count (fun u => nocase u.username = nocase username ∧ p u) = 1) e
  return (db.updateUsers (fun u => nocase u.username = nocase username ∧ p u) f hid hname).revoke username

def setUserEnabled (username : String) (enabled : Bool) : Except Error Database :=
  db.change username (fun u => enabled = false ∨ u.offboarded = false) (fun u => { u with disabled := !enabled })
    (fun _ => rfl) (fun _ => rfl) .missingOrOffboarded

def resetUserPassword (username passwordHash : String) : Except Error Database :=
  db.change username (fun _ => True) (fun u => { u with passwordHash := passwordHash }) (fun _ => rfl) (fun _ => rfl) .missingUser

def setUserAdmin (username : String) (admin : Bool) : Except Error Database :=
  db.change username (fun _ => True) (fun u => { u with admin := admin }) (fun _ => rfl) (fun _ => rfl) .missingUser

end Database

end WorkAgent.Accounts
