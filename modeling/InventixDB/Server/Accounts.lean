import InventixDB.Lib.FirstMatch
import InventixDB.Server.Clients

/-!
# Accounts — what a call leaves to an account

A grant, a new role or another account's affairs only ever add to what an account may do.
-/

namespace InventixDB
namespace Server

open Storage
open Lib

/-! ## Permissions as sets of bits -/

/-- Every permission of `a` is one of `b`. -/
def Permission.Within (a b : Permission) : Prop :=
  ∀ i, a.toBitVec.getLsbD i = true → b.toBitVec.getLsbD i = true

namespace Permission

variable {a b c : Permission}

theorem within_iff : a.Within b ↔ b &&& a = a := by
  rw [← UInt32.toBitVec_inj]
  constructor
  · intro h
    refine BitVec.eq_of_getLsbD_eq fun i _ => ?_
    have hi := h i
    rw [UInt32.toBitVec_and, BitVec.getLsbD_and]
    cases ha : a.toBitVec.getLsbD i with
    | false => simp
    | true => simp [hi ha]
  · intro h i hi
    rw [← h, UInt32.toBitVec_and, BitVec.getLsbD_and, Bool.and_eq_true] at hi
    exact hi.1

theorem Within.refl (a : Permission) : a.Within a := fun _ h => h

theorem Within.trans (hab : a.Within b) (hbc : b.Within c) : a.Within c :=
  fun i h => hbc i (hab i h)

theorem none_within (a : Permission) : none.Within a := by
  intro i h
  simp [none] at h

theorem or_within : (a ||| b).Within c ↔ a.Within c ∧ b.Within c := by
  constructor
  · intro h
    exact ⟨fun i hi => h i (by simp [hi]), fun i hi => h i (by simp [hi])⟩
  · rintro ⟨ha, hb⟩ i hi
    rw [UInt32.toBitVec_or, BitVec.getLsbD_or, Bool.or_eq_true] at hi
    exact hi.elim (ha i) (hb i)

end Permission

/-! ## The permissions of roles -/

namespace SecurityContext

/-- What one role name permits. -/
def roleBits (ctx : SecurityContext) (name : CStr) : Permission :=
  ((ctx.findRole name).map Role.permissions).getD Permission.none

theorem rolePermissions_eq (ctx : SecurityContext) (roles : List CStr) :
    ctx.rolePermissions roles =
      roles.foldl (fun perms name => perms ||| ctx.roleBits name) Permission.none := by
  unfold rolePermissions
  congr 1
  funext perms name
  unfold roleBits
  cases ctx.findRole name with
  | none => exact (UInt32.or_zero).symm
  | some role => rfl

/-- The roles of an account permit no more than `b` exactly if none of them does. -/
theorem rolePermissions_within {ctx : SecurityContext} {roles : List CStr} {b : Permission} :
    (ctx.rolePermissions roles).Within b ↔ ∀ name ∈ roles, (ctx.roleBits name).Within b := by
  have hfold : ∀ acc : Permission,
      (roles.foldl (fun perms name => perms ||| ctx.roleBits name) acc).Within b ↔
        acc.Within b ∧ ∀ name ∈ roles, (ctx.roleBits name).Within b := by
    induction roles with
    | nil => simp
    | cons name roles ih =>
        intro acc
        rw [List.foldl_cons, ih, Permission.or_within]
        simp [and_assoc]
  rw [rolePermissions_eq, hfold]
  simp [Permission.none_within]

/-! ## What an account keeps -/

/-- Going from `ctx` to `ctx'`, the account keeps what it has: if it is there and not locked, so
it is afterwards, with no fewer permissions. -/
def Keeps (ctx ctx' : SecurityContext) (account : CStr) : Prop :=
  ∀ user, ctx.findUser account = some user → user.status ≠ .locked →
    (∃ user', ctx'.findUser account = some user' ∧ user'.status ≠ .locked) ∧
      (ctx.userPermissions account).Within (ctx'.userPermissions account)

variable {ctx ctx' ctx'' : SecurityContext} {account username : CStr}

theorem Keeps.refl (ctx : SecurityContext) (account : CStr) : ctx.Keeps ctx account :=
  fun user hfind hstatus => ⟨⟨user, hfind, hstatus⟩, .refl _⟩

theorem Keeps.trans (h : ctx.Keeps ctx' account) (h' : ctx'.Keeps ctx'' account) :
    ctx.Keeps ctx'' account := by
  intro user hfind hstatus
  obtain ⟨⟨user', hfind', hstatus'⟩, hwithin⟩ := h user hfind hstatus
  obtain ⟨hafter, hwithin'⟩ := h' user' hfind' hstatus'
  exact ⟨hafter, hwithin.trans hwithin'⟩

/-- An account keeps what it has if its record does and its roles permit no less. -/
theorem keeps_of_user
    (huser : ∀ user, ctx.findUser account = some user → user.status ≠ .locked →
      ∃ user', ctx'.findUser account = some user' ∧ user'.status ≠ .locked ∧
        user'.isSuperuser = user.isSuperuser ∧
          ∀ name ∈ user.roles, name ∈ user'.roles ∧
            (ctx.roleBits name).Within (ctx'.roleBits name)) :
    ctx.Keeps ctx' account := by
  intro user hfind hstatus
  obtain ⟨user', hfind', hstatus', hsuper, hroles⟩ := huser user hfind hstatus
  refine ⟨⟨user', hfind', hstatus'⟩, ?_⟩
  simp only [userPermissions, hfind, hfind', hsuper]
  split
  · exact .refl _
  · refine rolePermissions_within.mpr fun name hname => ?_
    obtain ⟨hname', hbits⟩ := hroles name hname
    exact hbits.trans (rolePermissions_within.mp (.refl _) name hname')

/-- Accounts and roles that are as they were. -/
theorem keeps_of_eq (husers : ctx'.users = ctx.users) (hroles : ctx'.roles = ctx.roles)
    (account : CStr) : ctx.Keeps ctx' account := by
  refine keeps_of_user fun user hfind hstatus => ⟨user, ?_, hstatus, rfl, fun name hname => ?_⟩
  · rw [← hfind, findUser, findUser, husers]
  · refine ⟨hname, ?_⟩
    simp only [roleBits, findRole, hroles]
    exact .refl _

theorem findUser_modifyUser (ctx : SecurityContext) {username : CStr} {f : User → User}
    (hname : ∀ u, (f u).username = u.username) :
    (ctx.modifyUser username f).findUser username = (ctx.findUser username).map f :=
  find?_modify_findIdx (fun u => by rw [hname]) ctx.users

theorem findUser_modifyUser_of_ne (ctx : SecurityContext) {f : User → User}
    (hname : ∀ u, (f u).username = u.username) (hne : username ≠ account) :
    (ctx.modifyUser username f).findUser account = ctx.findUser account := by
  refine find?_modify_findIdx_of_disjoint (fun u hu => ?_) ctx.users
  have hu : u.username = username := by simpa using hu
  simp [hname, hu, hne]

/-- Changing another account takes nothing. -/
theorem keeps_modifyUser_of_ne {f : User → User} (hname : ∀ u, (f u).username = u.username)
    (hne : username ≠ account) : ctx.Keeps (ctx.modifyUser username f) account :=
  keeps_of_user fun user hfind hstatus =>
    ⟨user, (findUser_modifyUser_of_ne ctx hname hne).trans hfind, hstatus, rfl,
      fun _ hmem => ⟨hmem, .refl _⟩⟩

/-- A change that neither locks an account nor takes a role from it. -/
structure TakesNothing (f : User → User) : Prop where
  username : ∀ u, (f u).username = u.username
  isSuperuser : ∀ u, (f u).isSuperuser = u.isSuperuser
  status : ∀ u, u.status ≠ .locked → (f u).status ≠ .locked
  roles : ∀ u, u.roles ⊆ (f u).roles

theorem keeps_modifyUser {f : User → User} (hf : TakesNothing f) (username account : CStr) :
    ctx.Keeps (ctx.modifyUser username f) account := by
  by_cases hsame : username = account
  · subst hsame
    refine keeps_of_user fun user hfind hlocked => ⟨f user, ?_, hf.status user hlocked,
      hf.isSuperuser user, fun _ hmem => ⟨hf.roles user hmem, .refl _⟩⟩
    rw [findUser_modifyUser ctx hf.username, hfind]
    rfl
  · exact keeps_modifyUser_of_ne hf.username hsame

/-! ## What each call takes -/

theorem findRole_append {ctx : SecurityContext} {role : Role} {name : CStr} {found : Role}
    (h : ctx.findRole name = some found) :
    { ctx with roles := ctx.roles ++ [role] }.findRole name = some found := by
  rw [findRole, List.find?_append]
  exact Option.or_of_isSome (Option.isSome_of_eq_some h) |>.trans h

/-- A new role takes nothing from a name. -/
theorem roleBits_append (ctx : SecurityContext) (role : Role) (name : CStr) :
    (ctx.roleBits name).Within ({ ctx with roles := ctx.roles ++ [role] }.roleBits name) := by
  unfold roleBits
  cases hfind : ctx.findRole name with
  | none => exact Permission.none_within _
  | some found =>
      rw [findRole_append hfind]
      exact .refl _

theorem keeps_getD {result : Option SecurityContext}
    (h : ∀ ctx', result = some ctx' → ctx.Keeps ctx' account) :
    ctx.Keeps (result.getD ctx) account := by
  cases result with
  | none => exact .refl ctx account
  | some ctx' => exact h ctx' rfl

/-- An administration call that takes nothing from an account leaves it what it has. -/
theorem administer_keeps {call : AdminCall} (htakes : ctx.takesFrom account call = false) :
    ctx.Keeps (ctx.administer call) account := by
  cases call with
  | createUser username password role salt hash =>
      refine keeps_getD fun ctx' hresult => ?_
      obtain ⟨_, user, _, rfl⟩ := createUser_eq_some hresult
      refine keeps_of_user fun found hfind hstatus =>
        ⟨found, ?_, hstatus, rfl, fun _ hmem => ⟨hmem, .refl _⟩⟩
      rw [findUser, List.find?_append]
      exact (Option.or_of_isSome (Option.isSome_of_eq_some hfind)).trans hfind
  | deleteUser username =>
      refine keeps_getD fun ctx' hresult => ?_
      have hne : username ≠ account := by
        rintro rfl
        simp [takesFrom, hresult] at htakes
      rw [deleteUser_eq_some hresult]
      refine keeps_of_user fun found hfind hstatus =>
        ⟨found, ?_, hstatus, rfl, fun _ hmem => ⟨hmem, .refl _⟩⟩
      rw [← hfind]
      refine find?_eraseIdx_findIdx_of_disjoint (fun u hu => ?_) ctx.users
      have hu : u.username = username := by simpa using hu
      simp [hu, hne]
  | changePassword username newPassword salt hash =>
      refine keeps_getD fun ctx' hresult => ?_
      rw [changePassword_eq_some hresult]
      refine keeps_modifyUser ?_ username account
      exact ⟨fun _ => rfl, fun _ => rfl, fun _ h => h, fun u => List.Subset.refl u.roles⟩
  | lockUser username now =>
      refine keeps_getD fun ctx' hresult => ?_
      rw [lockUser_eq_some hresult]
      exact keeps_modifyUser_of_ne (fun _ => rfl) (by simpa [takesFrom] using htakes)
  | unlockUser username =>
      refine keeps_getD fun ctx' hresult => ?_
      rw [unlockUser_eq_some hresult]
      refine keeps_modifyUser ?_ username account
      exact ⟨fun _ => rfl, fun _ => rfl, fun _ _ h => UserStatus.noConfusion h,
        fun u => List.Subset.refl u.roles⟩
  | createRole name permissions =>
      refine keeps_getD fun ctx' hresult => ?_
      obtain ⟨_, role, rfl⟩ := createRole_eq_some hresult
      exact keeps_of_user fun found hfind hstatus =>
        ⟨found, hfind, hstatus, rfl, fun n hmem => ⟨hmem, roleBits_append ctx role n⟩⟩
  | deleteRole name =>
      refine keeps_getD fun ctx' hresult => ?_
      rw [deleteRole_eq_some hresult]
      refine keeps_of_user fun found hfind hstatus =>
        ⟨found, hfind, hstatus, rfl, fun n hmem => ⟨hmem, ?_⟩⟩
      have hne : name ≠ n := by
        rintro rfl
        simp [takesFrom, hresult, hfind, hmem] at htakes
      have hfindRole : (ctx.roles.eraseIdx (ctx.roles.findIdx fun r => r.name = name)).find?
          (fun r => r.name = n) = ctx.roles.find? fun r => r.name = n := by
        refine find?_eraseIdx_findIdx_of_disjoint (fun r hr => ?_) ctx.roles
        have hr : r.name = name := by simpa using hr
        simp [hr, hne]
      simp only [roleBits, findRole, hfindRole]
      exact .refl _
  | grantRole username rolename =>
      refine keeps_getD fun ctx' hresult => ?_
      rcases grantRole_eq_some hresult with rfl | rfl
      · exact .refl ctx' account
      · refine keeps_modifyUser ?_ username account
        exact ⟨fun _ => rfl, fun _ => rfl, fun _ h => h,
          fun u => List.subset_append_left u.roles _⟩
  | revokeRole username rolename =>
      refine keeps_getD fun ctx' hresult => ?_
      rw [revokeRole_eq_some hresult]
      refine keeps_modifyUser_of_ne (fun _ => rfl) ?_
      simpa [takesFrom, hresult] using htakes

theorem unlockExpired_takesNothing : TakesNothing unlockExpired where
  username u := by
    unfold unlockExpired
    split <;> rfl
  isSuperuser u := by
    unfold unlockExpired
    split <;> rfl
  status u h := by
    simp [unlockExpired, h]
  roles u := by
    unfold unlockExpired
    split
    · exact List.Subset.refl u.roles
    · exact List.Subset.refl u.roles

/-- An account whose lockout is over loses nothing. -/
theorem lockoutOver_keeps (ctx : SecurityContext) (username account : CStr) (user : User) :
    ctx.Keeps (ctx.lockoutOver username user) account := by
  unfold lockoutOver
  split
  · exact keeps_modifyUser unlockExpired_takesNothing username account
  · exact .refl ctx account

/-- A wrong password takes nothing from an account it does not lock. -/
theorem failedLogin_keeps {attempts now : Int}
    (hlocks : ctx.maxFailedAttempts ≤ attempts → username ≠ account) :
    ctx.Keeps (ctx.failedLogin username attempts now) account := by
  have hcount : ctx.Keeps (ctx.modifyUser username fun u => { u with failedAttempts := attempts })
      account := by
    refine keeps_modifyUser ?_ username account
    exact ⟨fun _ => rfl, fun _ => rfl, fun _ h => h, fun u => List.Subset.refl u.roles⟩
  unfold failedLogin
  dsimp only
  split
  · next hlimit =>
      refine hcount.trans (keeps_getD fun ctx' hresult => ?_)
      rw [lockUser_eq_some hresult]
      exact keeps_modifyUser_of_ne (fun _ => rfl) (hlocks hlimit)
  · exact hcount

end SecurityContext

end Server
end InventixDB
