import InventixDB.Server.Accounts

/-!
# Persistence — accounts and roles across a restart

`security_save` writes both tables to `security.dat`, and `security_init` reads them back.  Three of
the calls that change the tables end with a save; the others leave the file as it was.
-/

namespace InventixDB
namespace Server

open Storage
open Lib

/-! ## The file -/

/-- What `security.dat` holds.  Each table is preceded by its count, and the records are written
as they lie in memory. -/
structure SecurityFile where
  magic : UInt32
  users : List User
  roles : List Role
  deriving DecidableEq

def securityMagic : UInt32 := 0x53454355

/-- `security_save` -/
def SecurityContext.save (ctx : SecurityContext) : SecurityFile where
  magic := securityMagic
  users := ctx.users
  roles := ctx.roles

/-- `security_load`; `none` is a file that is not there or is none of this module's. -/
def SecurityContext.load (ctx : SecurityContext) (file : Option SecurityFile) :
    Option SecurityContext :=
  match file with
  | none => none
  | some file =>
      if file.magic = securityMagic then
        some { ctx with users := file.users, roles := file.roles }
      else none

/-! ## Starting -/

namespace Permission

def useDb : Permission := bit 2
def alterTable : Permission := bit 5
def shutdown : Permission := bit 14
def viewStats : Permission := bit 16
def restore : Permission := bit 18

end Permission

def systemRole (name : String) (permissions : Permission) : Role where
  name := CStr.lit name
  permissions := permissions
  isSystemRole := true

/-- The permissions of all of `perms` together. -/
def Permission.union (perms : List Permission) : Permission :=
  perms.foldl (· ||| ·) Permission.none

/-- `security_init_roles` -/
def systemRoles : List Role :=
  [systemRole "superadmin" .all,
    systemRole "admin" (Permission.all &&& ~~~Permission.union [.shutdown, .restore]),
    systemRole "developer"
      (.union [.createDb, .useDb, .createTable, .dropTable, .alterTable, .select, .insert, .update,
        .delete, .transaction, .viewStats]),
    systemRole "analyst" (.union [.useDb, .select, .insert, .viewStats]),
    systemRole "readonly" (.union [.useDb, .select]),
    systemRole "guest" .useDb]

/-- The default configuration, with the system roles and no user. -/
def SecurityContext.default : SecurityContext where
  users := []
  roles := systemRoles
  sessions := fun _ => Session.zero
  sessionCount := 0
  sessionTimeout := 3600
  maxFailedAttempts := 5
  lockoutDuration := 300
  passwordMinLength := 8
  requireUppercase := true
  requireLowercase := true
  requireDigit := true
  requireSpecial := false

/-- The module and its file. -/
structure SecurityServer where
  ctx : SecurityContext
  file : Option SecurityFile

/-- `security_init`: without a file to load it makes the user `admin`, and saves it. -/
def securityInit (file : Option SecurityFile) (salt hash : CStr) : SecurityServer :=
  match SecurityContext.default.load file with
  | some ctx => { ctx := ctx, file := file }
  | none =>
      match SecurityContext.default.createUser (CStr.lit "admin") (CStr.lit "Admin@123")
          (CStr.lit "superadmin") salt hash with
      | some ctx => { ctx := ctx, file := some ctx.save }
      | none => { ctx := SecurityContext.default, file := file }

/-! ## Calls that succeed -/

/-- An administration call; `none` is one that is refused. -/
def SecurityContext.perform (ctx : SecurityContext) : AdminCall → Option SecurityContext
  | .createUser username password role salt hash =>
      ctx.createUser username password role salt hash
  | .deleteUser username => ctx.deleteUser username
  | .changePassword username newPassword salt hash =>
      ctx.changePassword username newPassword salt hash
  | .lockUser username now => ctx.lockUser username now
  | .unlockUser username => ctx.unlockUser username
  | .createRole name permissions => ctx.createRole name permissions
  | .deleteRole name => ctx.deleteRole name
  | .grantRole username rolename => ctx.grantRole username rolename
  | .revokeRole username rolename => ctx.revokeRole username rolename

/-- The calls that end with `security_save`. -/
def AdminCall.saves : AdminCall → Bool
  | .createUser _ _ _ _ _ | .deleteUser _ | .changePassword _ _ _ _ => true
  | .lockUser _ _ | .unlockUser _ | .createRole _ _ | .deleteRole _ | .grantRole _ _
  | .revokeRole _ _ => false

namespace SecurityServer

def perform (server : SecurityServer) (call : AdminCall) : Option SecurityServer :=
  (server.ctx.perform call).map fun ctx =>
    { ctx := ctx, file := if call.saves then some ctx.save else server.file }

/-- After a stop, `security_init` restores the users and the roles in force: names, passwords, roles
and lock states. -/
def Durable (server : SecurityServer) : Prop :=
  ∀ salt hash, (securityInit server.file salt hash).ctx.users = server.ctx.users ∧
    (securityInit server.file salt hash).ctx.roles = server.ctx.roles

/-- So they are after each of a sequence of calls that succeed. -/
def StaysDurable : SecurityServer → List AdminCall → Prop
  | server, [] => server.Durable
  | server, call :: calls =>
      server.Durable ∧ ∀ after ∈ server.perform call, after.StaysDurable calls

/-- The call saves, or there is nothing to save: the role is held already, the user is not locked
and has no failed attempts, or is locked until that very time. -/
def Fits (server : SecurityServer) (call : AdminCall) : Prop :=
  call.saves = true ∨
    match call with
    | .grantRole username rolename =>
        ∃ user ∈ server.ctx.findUser username, rolename ∈ user.roles
    | .lockUser username now =>
        ∃ user ∈ server.ctx.findUser username,
          user.status = .locked ∧ user.lockoutUntil = now + server.ctx.lockoutDuration
    | .unlockUser username =>
        ∃ user ∈ server.ctx.findUser username,
          user.status = .active ∧ user.failedAttempts = 0 ∧ user.lockoutUntil = 0
    | _ => False

/-- Every call of a run that succeeds saves or has nothing to save. -/
def RunFits : SecurityServer → List AdminCall → Prop
  | _, [] => True
  | server, call :: calls =>
      ∀ after ∈ server.perform call, server.Fits call ∧ after.RunFits calls

end SecurityServer

/-! ## Calls that change nothing -/

section Unchanged

variable {ctx ctx' : SecurityContext} {username rolename name : CStr} {user : User}

/-- Changing a user through the pointer found changes nothing exactly if it leaves that user. -/
theorem users_modifyUser_iff (hfind : ctx.findUser username = some user) (f : User → User) :
    (ctx.modifyUser username f).users = ctx.users ↔ f user = user :=
  modify_findIdx_eq_self_iff hfind f

theorem lockUser_unchanged_iff {now : Int} (hcall : ctx.lockUser username now = some ctx') :
    ctx'.users = ctx.users ↔
      ∃ user ∈ ctx.findUser username,
        user.status = .locked ∧ user.lockoutUntil = now + ctx.lockoutDuration := by
  rw [SecurityContext.lockUser_eq_some hcall]
  cases hfind : ctx.findUser username with
  | none => simp [SecurityContext.lockUser, hfind] at hcall
  | some user =>
      rw [users_modifyUser_iff hfind]
      simp only [Option.mem_def, Option.some.injEq, exists_eq_left']
      constructor
      · intro h
        exact ⟨(congrArg User.status h).symm, (congrArg User.lockoutUntil h).symm⟩
      · rintro ⟨hstatus, huntil⟩
        rw [← hstatus, ← huntil]

theorem unlockUser_unchanged_iff (hcall : ctx.unlockUser username = some ctx') :
    ctx'.users = ctx.users ↔
      ∃ user ∈ ctx.findUser username,
        user.status = .active ∧ user.failedAttempts = 0 ∧ user.lockoutUntil = 0 := by
  rw [SecurityContext.unlockUser_eq_some hcall]
  cases hfind : ctx.findUser username with
  | none => simp [SecurityContext.unlockUser, hfind] at hcall
  | some user =>
      rw [users_modifyUser_iff hfind]
      simp only [Option.mem_def, Option.some.injEq, exists_eq_left']
      constructor
      · intro h
        exact ⟨(congrArg User.status h).symm, (congrArg User.failedAttempts h).symm,
          (congrArg User.lockoutUntil h).symm⟩
      · rintro ⟨hstatus, hattempts, huntil⟩
        cases user with
        | mk => simp_all only

theorem grantRole_unchanged_iff (hcall : ctx.grantRole username rolename = some ctx') :
    ctx'.users = ctx.users ↔ ∃ user ∈ ctx.findUser username, rolename ∈ user.roles := by
  unfold SecurityContext.grantRole at hcall
  split at hcall
  · next user role hfind _ =>
      simp only [hfind, Option.mem_def, Option.some.injEq, exists_eq_left']
      split_ifs at hcall with hheld hfull
      · cases hcall
        exact iff_of_true rfl hheld
      · cases hcall
        rw [users_modifyUser_iff hfind]
        refine iff_of_false (fun h => ?_) hheld
        have hlength := congrArg (fun u => u.roles.length) h
        simp at hlength
  · cases hcall

theorem revokeRole_changes (hcall : ctx.revokeRole username rolename = some ctx') :
    ctx'.users ≠ ctx.users := by
  unfold SecurityContext.revokeRole at hcall
  split at hcall
  · cases hcall
  · next user hfind =>
      split_ifs at hcall with hheld
      cases hcall
      rw [ne_eq, users_modifyUser_iff hfind]
      intro h
      have hlength := congrArg (fun u => u.roles.length) h
      have hpos := List.length_pos_of_mem hheld
      simp only [List.length_erase_of_mem hheld] at hlength
      omega

theorem createRole_changes {permissions : Permission}
    (hcall : ctx.createRole name permissions = some ctx') : ctx'.roles ≠ ctx.roles := by
  obtain ⟨_, role, rfl⟩ := SecurityContext.createRole_eq_some hcall
  intro h
  have hlength := congrArg List.length h
  simp at hlength

theorem deleteRole_changes (hcall : ctx.deleteRole name = some ctx') :
    ctx'.roles ≠ ctx.roles := by
  have heq := SecurityContext.deleteRole_eq_some hcall
  unfold SecurityContext.deleteRole at hcall
  split at hcall
  · cases hcall
  · next role hfind =>
      rw [heq]
      intro h
      have hbound : ctx.roles.findIdx (fun r => r.name = name) < ctx.roles.length :=
        List.findIdx_lt_length.mpr ⟨role, List.mem_of_find?_eq_some hfind, by
          simpa using List.find?_some hfind⟩
      have hlength := congrArg List.length h
      simp only [List.length_eraseIdx, if_pos hbound] at hlength
      omega

end Unchanged

/-! ## Saving and loading -/

theorem SecurityContext.load_save (ctx ctx' : SecurityContext) :
    ctx.load (some ctx'.save) = some { ctx with users := ctx'.users, roles := ctx'.roles } := by
  unfold load save
  exact if_pos rfl

namespace SecurityServer

variable {server after : SecurityServer} {call : AdminCall}

/-- What is saved is what `security_init` restores. -/
theorem durable_save (ctx : SecurityContext) : Durable { ctx := ctx, file := some ctx.save } := by
  intro salt hash
  unfold securityInit
  rw [SecurityContext.load_save]
  exact ⟨rfl, rfl⟩

/-- The server is durable from its start on. -/
theorem durable_securityInit (file : Option SecurityFile) (salt hash : CStr) :
    (securityInit file salt hash).Durable := by
  cases hload : SecurityContext.default.load file with
  | some ctx =>
      have hinit : securityInit file salt hash = { ctx := ctx, file := file } := by
        unfold securityInit
        rw [hload]
      rw [hinit]
      intro salt' hash'
      unfold securityInit
      rw [hload]
      exact ⟨rfl, rfl⟩
  | none =>
      unfold securityInit
      rw [hload]
      cases hcreate : SecurityContext.default.createUser (CStr.lit "admin") (CStr.lit "Admin@123")
          (CStr.lit "superadmin") salt hash with
      | some ctx => exact durable_save ctx
      | none =>
          -- the first user fits the password rules
          have hfind : SecurityContext.default.findUser (CStr.lit "admin") = none := rfl
          have hpassword :
              SecurityContext.default.validatePassword (CStr.lit "Admin@123") = true := by
            decide +kernel
          have hroom : ¬ maxUsers ≤ SecurityContext.default.users.length := by decide
          simp [SecurityContext.createUser, hfind, hpassword, hroom] at hcreate

/-- A call that changes nothing and does not save leaves the server durable. -/
theorem durable_of_unsaved {ctx : SecurityContext} (hdurable : server.Durable) :
    Durable { ctx := ctx, file := server.file } ↔
      ctx.users = server.ctx.users ∧ ctx.roles = server.ctx.roles := by
  constructor
  · intro hafter
    obtain ⟨husers, hroles⟩ := hdurable (CStr.lit "") (CStr.lit "")
    obtain ⟨husers', hroles'⟩ := hafter (CStr.lit "") (CStr.lit "")
    exact ⟨husers'.symm.trans husers, hroles'.symm.trans hroles⟩
  · rintro ⟨husers, hroles⟩ salt hash
    obtain ⟨husers', hroles'⟩ := hdurable salt hash
    exact ⟨husers'.trans husers.symm, hroles'.trans hroles.symm⟩

/-- After a call that succeeds the server is durable exactly if the call saves or has nothing to
save. -/
theorem durable_perform_iff (hdurable : server.Durable)
    (hcall : server.perform call = some after) : after.Durable ↔ server.Fits call := by
  obtain ⟨ctx, hperform, rfl⟩ := Option.map_eq_some_iff.mp hcall
  cases call with
  | createUser username password role salt hash => exact iff_of_true (durable_save ctx) (.inl rfl)
  | deleteUser username => exact iff_of_true (durable_save ctx) (.inl rfl)
  | changePassword username newPassword salt hash =>
      exact iff_of_true (durable_save ctx) (.inl rfl)
  | lockUser username now =>
      have hroles : ctx.roles = server.ctx.roles := by
        rw [SecurityContext.lockUser_eq_some hperform]
        rfl
      refine (durable_of_unsaved hdurable).trans ?_
      rw [lockUser_unchanged_iff hperform]
      simp [Fits, AdminCall.saves, hroles]
  | unlockUser username =>
      have hroles : ctx.roles = server.ctx.roles := by
        rw [SecurityContext.unlockUser_eq_some hperform]
        rfl
      refine (durable_of_unsaved hdurable).trans ?_
      rw [unlockUser_unchanged_iff hperform]
      simp [Fits, AdminCall.saves, hroles]
  | createRole name permissions =>
      refine (durable_of_unsaved hdurable).trans (iff_of_false ?_ ?_)
      · exact fun h => createRole_changes hperform h.2
      · simp [Fits, AdminCall.saves]
  | deleteRole name =>
      refine (durable_of_unsaved hdurable).trans (iff_of_false ?_ ?_)
      · exact fun h => deleteRole_changes hperform h.2
      · simp [Fits, AdminCall.saves]
  | grantRole username rolename =>
      have hroles : ctx.roles = server.ctx.roles := by
        rcases SecurityContext.grantRole_eq_some hperform with rfl | rfl <;> rfl
      refine (durable_of_unsaved hdurable).trans ?_
      rw [grantRole_unchanged_iff hperform]
      simp [Fits, AdminCall.saves, hroles]
  | revokeRole username rolename =>
      refine (durable_of_unsaved hdurable).trans (iff_of_false ?_ ?_)
      · exact fun h => revokeRole_changes hperform h.1
      · simp [Fits, AdminCall.saves]

theorem StaysDurable.durable {calls : List AdminCall} (hstays : server.StaysDurable calls) :
    server.Durable := by
  cases calls with
  | nil => exact hstays
  | cons _ _ => exact hstays.1

theorem staysDurable_iff {calls : List AdminCall} (hdurable : server.Durable) :
    server.StaysDurable calls ↔ server.RunFits calls := by
  induction calls generalizing server with
  | nil => exact iff_of_true hdurable trivial
  | cons call calls ih =>
      constructor
      · rintro ⟨_, hstays⟩ after hcall
        have hrest := hstays after hcall
        exact ⟨(durable_perform_iff hdurable hcall).mp hrest.durable,
          (ih hrest.durable).mp hrest⟩
      · intro hfits
        refine ⟨hdurable, fun after hcall => ?_⟩
        obtain ⟨hfit, hrest⟩ := hfits after hcall
        exact (ih ((durable_perform_iff hdurable hcall).mpr hfit)).mpr hrest

/-! ## User administration over whole runs -/

/-- From the start of the module on, whatever file it finds, a stop after any of a sequence of
administration calls that succeed loses nothing exactly if every call saves or has nothing to
save. -/
theorem userAdministration_durable_iff (file : Option SecurityFile) (salt hash : CStr)
    (calls : List AdminCall) :
    (securityInit file salt hash).StaysDurable calls ↔
      (securityInit file salt hash).RunFits calls :=
  staysDurable_iff (durable_securityInit file salt hash)

/-- A user who is locked is active again after a restart. -/
theorem lockUser_reverts :
    ∃ after, (securityInit none (CStr.lit "") (CStr.lit "")).perform
        (.lockUser (CStr.lit "admin") 100) = some after ∧
      after.ctx.users.map User.status = [.locked] ∧
      (securityInit after.file (CStr.lit "") (CStr.lit "")).ctx.users.map User.status =
        [.active] ∧
      ¬ (securityInit none (CStr.lit "") (CStr.lit "")).StaysDurable
        [.lockUser (CStr.lit "admin") 100] := by
  have hview : ((securityInit none (CStr.lit "") (CStr.lit "")).perform
      (.lockUser (CStr.lit "admin") 100)).map (fun after => (after.ctx.users.map User.status,
        (securityInit after.file (CStr.lit "") (CStr.lit "")).ctx.users.map User.status)) =
      some ([.locked], [.active]) := by decide +kernel
  obtain ⟨after, hcall, hstatus⟩ := Option.map_eq_some_iff.mp hview
  obtain ⟨hlocked, hactive⟩ := Prod.mk.inj hstatus
  refine ⟨after, hcall, hlocked, hactive, fun hstays => ?_⟩
  have hsame := (hstays.2 after hcall (CStr.lit "") (CStr.lit "")).1
  rw [← hsame, hactive] at hlocked
  cases hlocked

end SecurityServer

end Server
end InventixDB
