import InventixDB.Storage.CStr
import Mathlib.Data.Nat.Notation

/-!
# Security — accounts, roles and the session table

Sessions live in one array.  A login appends, and every removal moves the sessions behind it down
by one slot; the slots from `sessionCount` on keep whatever was left in them.
-/

namespace InventixDB
namespace Server

open Storage

/-! ## Permissions -/

abbrev Permission := UInt32

namespace Permission

def bit (i : UInt32) : Permission := (1 : UInt32) <<< i

def none : Permission := 0
def createDb : Permission := bit 0
def dropDb : Permission := bit 1
def createTable : Permission := bit 3
def dropTable : Permission := bit 4
def select : Permission := bit 6
def insert : Permission := bit 7
def update : Permission := bit 8
def delete : Permission := bit 9
def grant : Permission := bit 12
def revoke : Permission := bit 13
def transaction : Permission := bit 19
def all : Permission := 0xFFFFFFFF

end Permission

/-! ## Data -/

structure Role where
  name : CStr
  permissions : Permission
  isSystemRole : Bool
  deriving DecidableEq

inductive UserStatus
  | active | locked | disabled | pending
  deriving DecidableEq

structure User where
  userId : Nat
  username : CStr
  passwordHash : CStr
  salt : CStr
  roles : List CStr
  status : UserStatus
  lastLogin : Int
  failedAttempts : Int
  lockoutUntil : Int
  isSuperuser : Bool
  mustChangePassword : Bool
  deriving DecidableEq

structure Session where
  token : CStr
  userId : Nat
  username : CStr
  permissions : Permission
  createdAt : Int
  lastActivity : Int
  expiresAt : Int
  isAuthenticated : Bool
  isSuperuser : Bool
  deriving DecidableEq

/-- A zeroed slot of the session array. -/
def Session.zero : Session where
  token := CStr.lit ""
  userId := 0
  username := CStr.lit ""
  permissions := Permission.none
  createdAt := 0
  lastActivity := 0
  expiresAt := 0
  isAuthenticated := false
  isSuperuser := false

/-- `SECURITY_MAX_SESSIONS`, `SECURITY_MAX_USERS`, `SECURITY_MAX_ROLES` -/
def maxSessions : Nat := 1024
def maxUsers : Nat := 256
def maxRoles : Nat := 32

structure SecurityContext where
  users : List User
  roles : List Role
  sessions : Nat → Session
  sessionCount : Nat
  sessionTimeout : Int
  maxFailedAttempts : Int
  lockoutDuration : Int
  passwordMinLength : Int
  requireUppercase : Bool
  requireLowercase : Bool
  requireDigit : Bool
  requireSpecial : Bool

namespace SecurityContext

variable (ctx : SecurityContext)

/-! ## Users -/

/-- `security_find_user` -/
def findUser (username : CStr) : Option User :=
  ctx.users.find? fun u => u.username = username

/-- Write through the pointer `security_find_user` returns. -/
def modifyUser (username : CStr) (f : User → User) : SecurityContext :=
  { ctx with users := ctx.users.modify (ctx.users.findIdx fun u => u.username = username) f }

/-- `security_find_role` -/
def findRole (name : CStr) : Option Role :=
  ctx.roles.find? fun r => r.name = name

/-- `security_validate_password` -/
def validatePassword (password : CStr) : Bool :=
  let isUpper := fun c : UInt8 => 65 ≤ c && c ≤ 90
  let isLower := fun c : UInt8 => 97 ≤ c && c ≤ 122
  !((password.length : Int).bmod (2 ^ 32) < ctx.passwordMinLength) &&
    (!ctx.requireUppercase || password.val.any isUpper) &&
    (!ctx.requireLowercase || password.val.any isLower) &&
    (!ctx.requireDigit || password.val.any CStr.isDigit) &&
    (!ctx.requireSpecial ||
      password.val.any fun c => !isUpper c && !isLower c && !CStr.isDigit c)

/-- `security_create_user`; `salt` and `hash` are what hashing the password gives. -/
def createUser (username password role salt hash : CStr) : Option SecurityContext :=
  if (ctx.findUser username).isSome then none
  else if !ctx.validatePassword password then none
  else if maxUsers ≤ ctx.users.length then none
  else
    let user : User :=
      { userId := ctx.users.length + 1
        username := CStr.snprintf 64 username
        passwordHash := hash
        salt := salt
        roles :=
          [if (ctx.findRole role).isSome then CStr.snprintf 32 role else CStr.lit "guest"]
        status := .active
        lastLogin := 0
        failedAttempts := 0
        lockoutUntil := 0
        isSuperuser := role = CStr.lit "superadmin"
        mustChangePassword := false }
    some { ctx with users := ctx.users ++ [user] }

/-- `security_delete_user`: the last superuser stays. -/
def deleteUser (username : CStr) : Option SecurityContext :=
  match ctx.findUser username with
  | none => none
  | some user =>
      if user.isSuperuser ∧ (ctx.users.filter User.isSuperuser).length ≤ 1 then none
      else
        some { ctx with
          users := ctx.users.eraseIdx (ctx.users.findIdx fun u => u.username = username) }

/-- `security_change_password` -/
def changePassword (username newPassword salt hash : CStr) : Option SecurityContext :=
  if (ctx.findUser username).isNone then none
  else if !ctx.validatePassword newPassword then none
  else
    some (ctx.modifyUser username fun u =>
      { u with salt := salt, passwordHash := hash, mustChangePassword := false })

/-- `security_lock_user` -/
def lockUser (username : CStr) (now : Int) : Option SecurityContext :=
  if (ctx.findUser username).isNone then none
  else
    some (ctx.modifyUser username fun u =>
      { u with status := .locked, lockoutUntil := now + ctx.lockoutDuration })

/-- `security_unlock_user` -/
def unlockUser (username : CStr) : Option SecurityContext :=
  if (ctx.findUser username).isNone then none
  else
    some (ctx.modifyUser username fun u =>
      { u with status := .active, failedAttempts := 0, lockoutUntil := 0 })

/-! ## Roles -/

/-- `security_create_role` -/
def createRole (name : CStr) (permissions : Permission) : Option SecurityContext :=
  if maxRoles ≤ ctx.roles.length then none
  else if (ctx.findRole name).isSome then none
  else
    some { ctx with
      roles := ctx.roles ++
        [{ name := CStr.snprintf 32 name, permissions := permissions, isSystemRole := false }] }

/-- `security_delete_role` -/
def deleteRole (name : CStr) : Option SecurityContext :=
  match ctx.findRole name with
  | none => none
  | some role =>
      if role.isSystemRole then none
      else
        some { ctx with
          roles := ctx.roles.eraseIdx (ctx.roles.findIdx fun r => r.name = name) }

/-- `security_grant_role`: a user has eight roles at most. -/
def grantRole (username rolename : CStr) : Option SecurityContext :=
  match ctx.findUser username, ctx.findRole rolename with
  | some user, some _ =>
      if rolename ∈ user.roles then some ctx
      else if 8 ≤ user.roles.length then none
      else
        some (ctx.modifyUser username fun u =>
          { u with roles := u.roles ++ [CStr.snprintf 32 rolename] })
  | _, _ => none

/-- `security_revoke_role` -/
def revokeRole (username rolename : CStr) : Option SecurityContext :=
  match ctx.findUser username with
  | none => none
  | some user =>
      if rolename ∈ user.roles then
        some (ctx.modifyUser username fun u => { u with roles := u.roles.erase rolename })
      else none

/-- What the roles of a user permit together. -/
def rolePermissions (roles : List CStr) : Permission :=
  roles.foldl (fun perms name =>
    match ctx.findRole name with
    | some role => perms ||| role.permissions
    | none => perms) Permission.none

/-- `security_get_user_permissions` -/
def userPermissions (username : CStr) : Permission :=
  match ctx.findUser username with
  | none => Permission.none
  | some user => if user.isSuperuser then Permission.all else ctx.rolePermissions user.roles

/-! ## Sessions -/

/-- The slot of the first session with the token. -/
def sessionSlot (token : CStr) : Option Nat :=
  (List.range ctx.sessionCount).find? fun i => (ctx.sessions i).token = token

/-- `security_find_session` -/
def findSession (token : CStr) : Option Session :=
  (ctx.sessionSlot token).map ctx.sessions

/-- The `memmove` that closes the gap at slot `i`. -/
def removeSlot (i : Nat) : SecurityContext :=
  { ctx with
    sessions := fun j =>
      if i ≤ j ∧ j + 1 < ctx.sessionCount then ctx.sessions (j + 1) else ctx.sessions j
    sessionCount := ctx.sessionCount - 1 }

/-- `security_logout` -/
def logout (token : CStr) : SecurityContext :=
  match ctx.sessionSlot token with
  | none => ctx
  | some i => ctx.removeSlot i

/-- `security_touch_session` -/
def touchSession (token : CStr) (now : Int) : SecurityContext :=
  match ctx.sessionSlot token with
  | none => ctx
  | some i =>
      { ctx with
        sessions := Function.update ctx.sessions i
          { ctx.sessions i with lastActivity := now, expiresAt := now + ctx.sessionTimeout } }

/-- `security_validate_session` -/
def validateSession (token : CStr) (now : Int) : SecurityContext × Bool :=
  match ctx.findSession token with
  | none => (ctx, false)
  | some session =>
      if !session.isAuthenticated then (ctx, false)
      else if now > session.expiresAt then (ctx.logout token, false)
      else (ctx, true)

/-- The loop of `security_cleanup_sessions`, with slot `i - 1` next. -/
def cleanupFrom (now : Int) : Nat → SecurityContext → SecurityContext
  | 0, ctx => ctx
  | i + 1, ctx =>
      cleanupFrom now i
        (if now > (ctx.sessions i).expiresAt then ctx.removeSlot i else ctx)

/-- `security_cleanup_sessions` -/
def cleanupSessions (now : Int) : SecurityContext :=
  cleanupFrom now ctx.sessionCount ctx

/-- The session a successful login appends. -/
def newSession (user : User) (username token : CStr) (now : Int) : Session where
  token := token
  userId := user.userId
  username := CStr.snprintf 64 username
  permissions := ctx.userPermissions username
  createdAt := now
  lastActivity := now
  expiresAt := now + ctx.sessionTimeout
  isAuthenticated := true
  isSuperuser := user.isSuperuser

/-- The end of `security_login`, after the password was verified. -/
def openSession (user : User) (username token : CStr) (now : Int) :
    SecurityContext × Option Nat :=
  let ctx := if maxSessions ≤ ctx.sessionCount then ctx.cleanupSessions now else ctx
  if maxSessions ≤ ctx.sessionCount then (ctx, none)
  else
    ({ ctx with
        sessions := Function.update ctx.sessions ctx.sessionCount
          (ctx.newSession user username token now)
        sessionCount := ctx.sessionCount + 1 }.modifyUser username fun u =>
          { u with failedAttempts := 0, lastLogin := now },
      some ctx.sessionCount)

/-- A wrong password: the account is locked after too many of them. -/
def failedLogin (username : CStr) (attempts now : Int) : SecurityContext :=
  let ctx := ctx.modifyUser username fun u => { u with failedAttempts := attempts }
  if ctx.maxFailedAttempts ≤ attempts then (ctx.lockUser username now).getD ctx else ctx

/-- The first part of `security_login`, up to the verified password.  `verify` is
`security_verify_password`; a refused login leaves what it has changed. -/
def checkLogin (verify : CStr → CStr → CStr → Bool) (username password : CStr) (now : Int) :
    Except SecurityContext (SecurityContext × User) :=
  match ctx.findUser username with
  | none => .error ctx
  | some user =>
      if user.status = .locked ∧ user.lockoutUntil > now then .error ctx
      else
        -- an expired lockout makes the account active again
        let unlock := fun u : User =>
          if u.status = .locked then { u with status := .active, failedAttempts := 0 } else u
        let ctx := if user.status = .locked then ctx.modifyUser username unlock else ctx
        let user := unlock user
        if user.status ≠ .active then .error ctx
        else if !verify password user.salt user.passwordHash then
          .error (ctx.failedLogin username (user.failedAttempts + 1) now)
        else .ok (ctx, user)

/-- `security_login`: the slot of the new session.  `token` is the random token and `now` the
time. -/
def login (verify : CStr → CStr → CStr → Bool) (username password token : CStr) (now : Int) :
    SecurityContext × Option Nat :=
  match ctx.checkLogin verify username password now with
  | .error ctx => (ctx, none)
  | .ok (ctx, user) => ctx.openSession user username token now

/-! ## What a call that succeeds changes -/

variable {ctx} {ctx' : SecurityContext} {username rolename name password role salt hash : CStr}
  {permissions : Permission} {now : Int}

theorem createUser_eq_some (h : ctx.createUser username password role salt hash = some ctx') :
    ctx.findUser username = none ∧ ∃ user : User, user.username = CStr.snprintf 64 username ∧
      ctx' = { ctx with users := ctx.users ++ [user] } := by
  unfold createUser at h
  split at h
  · cases h
  · next hfind =>
      split at h
      · cases h
      · split at h
        · cases h
        · cases h
          exact ⟨by simpa using hfind, _, rfl, rfl⟩

theorem deleteUser_eq_some (h : ctx.deleteUser username = some ctx') :
    ctx' = { ctx with
      users := ctx.users.eraseIdx (ctx.users.findIdx fun u => u.username = username) } := by
  unfold deleteUser at h
  split at h
  · cases h
  · split at h
    · cases h
    · cases h
      rfl

theorem changePassword_eq_some
    (h : ctx.changePassword username password salt hash = some ctx') :
    ctx' = ctx.modifyUser username fun u =>
      { u with salt := salt, passwordHash := hash, mustChangePassword := false } := by
  unfold changePassword at h
  split at h
  · cases h
  · split at h
    · cases h
    · cases h
      rfl

theorem lockUser_eq_some (h : ctx.lockUser username now = some ctx') :
    ctx' = ctx.modifyUser username fun u =>
      { u with status := .locked, lockoutUntil := now + ctx.lockoutDuration } := by
  unfold lockUser at h
  split at h
  · cases h
  · cases h
    rfl

theorem unlockUser_eq_some (h : ctx.unlockUser username = some ctx') :
    ctx' = ctx.modifyUser username fun u =>
      { u with status := .active, failedAttempts := 0, lockoutUntil := 0 } := by
  unfold unlockUser at h
  split at h
  · cases h
  · cases h
    rfl

theorem createRole_eq_some (h : ctx.createRole name permissions = some ctx') :
    ctx.findRole name = none ∧ ∃ role : Role,
      ctx' = { ctx with roles := ctx.roles ++ [role] } := by
  unfold createRole at h
  split at h
  · cases h
  · split at h
    · cases h
    · next hfind =>
        cases h
        exact ⟨by simpa using hfind, _, rfl⟩

theorem deleteRole_eq_some (h : ctx.deleteRole name = some ctx') :
    ctx' = { ctx with
      roles := ctx.roles.eraseIdx (ctx.roles.findIdx fun r => r.name = name) } := by
  unfold deleteRole at h
  split at h
  · cases h
  · split at h
    · cases h
    · cases h
      rfl

theorem grantRole_eq_some (h : ctx.grantRole username rolename = some ctx') :
    ctx' = ctx ∨ ctx' = ctx.modifyUser username fun u =>
      { u with roles := u.roles ++ [CStr.snprintf 32 rolename] } := by
  unfold grantRole at h
  split at h
  · split at h
    · cases h
      exact .inl rfl
    · split at h
      · cases h
      · cases h
        exact .inr rfl
  · cases h

theorem revokeRole_eq_some (h : ctx.revokeRole username rolename = some ctx') :
    ctx' = ctx.modifyUser username fun u => { u with roles := u.roles.erase rolename } := by
  unfold revokeRole at h
  split at h
  · cases h
  · split at h
    · cases h
      rfl
    · cases h

/-- A user whose lockout is over is active again. -/
def unlockExpired (u : User) : User :=
  if u.status = .locked then { u with status := .active, failedAttempts := 0 } else u

/-- The accounts once the lockout of `user` is over. -/
def lockoutOver (ctx : SecurityContext) (username : CStr) (user : User) : SecurityContext :=
  if user.status = .locked then ctx.modifyUser username unlockExpired else ctx

/-- What the check of a user who is not locked out comes to. -/
theorem checkLogin_of_open {ctx : SecurityContext} {username : CStr} {user : User} {now : Int}
    (verify : CStr → CStr → CStr → Bool) (password : CStr)
    (hfind : ctx.findUser username = some user)
    (hopen : ¬ (user.status = .locked ∧ user.lockoutUntil > now)) :
    ctx.checkLogin verify username password now =
      if (unlockExpired user).status ≠ .active then .error (ctx.lockoutOver username user)
      else if !verify password user.salt user.passwordHash then
        .error ((ctx.lockoutOver username user).failedLogin username
          ((unlockExpired user).failedAttempts + 1) now)
      else .ok (ctx.lockoutOver username user, unlockExpired user) := by
  have hsalt : (unlockExpired user).salt = user.salt := by
    unfold unlockExpired
    split <;> rfl
  have hhash : (unlockExpired user).passwordHash = user.passwordHash := by
    unfold unlockExpired
    split <;> rfl
  rw [← hsalt, ← hhash]
  simp only [checkLogin, hfind, if_neg hopen]
  rfl

/-- The ways a login check ends: refused at once, or with the lockout over. -/
theorem checkLogin_cases (ctx : SecurityContext) (verify : CStr → CStr → CStr → Bool)
    (username password : CStr) (now : Int) :
    ctx.checkLogin verify username password now = .error ctx ∨
      ∃ user, ctx.findUser username = some user ∧
        ¬ (user.status = .locked ∧ user.lockoutUntil > now) ∧
          ((unlockExpired user).status ≠ .active ∧
              ctx.checkLogin verify username password now =
                .error (ctx.lockoutOver username user) ∨
            (unlockExpired user).status = .active ∧
              verify password user.salt user.passwordHash = false ∧
              ctx.checkLogin verify username password now =
                .error ((ctx.lockoutOver username user).failedLogin username
                  ((unlockExpired user).failedAttempts + 1) now) ∨
            (unlockExpired user).status = .active ∧
              verify password user.salt user.passwordHash = true ∧
              ctx.checkLogin verify username password now =
                .ok (ctx.lockoutOver username user, unlockExpired user)) := by
  cases hfind : ctx.findUser username with
  | none => exact .inl (by rw [checkLogin, hfind])
  | some user =>
      by_cases hlocked : user.status = .locked ∧ user.lockoutUntil > now
      · exact .inl (by simp only [checkLogin, hfind, if_pos hlocked])
      · refine .inr ⟨user, rfl, hlocked, ?_⟩
        have hcheck := checkLogin_of_open verify password hfind hlocked
        by_cases hactive : (unlockExpired user).status = .active
        · cases hverify : verify password user.salt user.passwordHash with
          | false => exact .inr (.inl ⟨hactive, rfl, by simp [hcheck, hactive, hverify]⟩)
          | true => exact .inr (.inr ⟨hactive, rfl, by simp [hcheck, hactive, hverify]⟩)
        · exact .inl ⟨hactive, hcheck.trans (if_pos hactive)⟩

end SecurityContext

/-! ## Authorization -/

/-- `security_session_has_permission` -/
def Session.hasPermission (session : Session) (perm : Permission) : Bool :=
  session.isAuthenticated &&
    (session.isSuperuser || session.permissions &&& perm == perm)

/-- The words `security_authorize_command` knows, with the permission each of them requires. -/
def commandPermissions : List (String × Permission) :=
  [("SELECT", .select), ("DIKHAO", .select), ("INSERT", .insert), ("DALO", .insert),
    ("UPDATE", .update), ("BADLO", .update), ("DELETE", .delete), ("HATAO", .delete),
    ("CREATE TABLE", .createTable), ("BANAO", .createTable), ("TABLE", .createTable),
    ("CREATE", .createTable), ("DROP TABLE", .dropTable), ("GIRAO", .dropTable),
    ("CREATE DATABASE", .createDb), ("DROP DATABASE", .dropDb), ("BEGIN", .transaction),
    ("COMMIT", .transaction), ("ROLLBACK", .transaction), ("GRANT", .grant),
    ("REVOKE", .revoke), ("SHOW", .select), ("DEKHO", .select)]

/-- The permission a command word requires; a word that is not listed requires none. -/
def requiredPermission (cmdType : CStr) : Permission :=
  ((commandPermissions.find? fun c => CStr.lit c.1 = cmdType).map Prod.snd).getD .none

/-- `security_authorize_command` -/
def Session.authorizeCommand (session : Session) (cmdType : CStr) : Bool :=
  session.isSuperuser || session.hasPermission (requiredPermission cmdType)

end Server
end InventixDB
