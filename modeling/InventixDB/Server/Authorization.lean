import InventixDB.Server.Accounts
import InventixDB.Server.SessionTable

/-!
# Authorization — commands against the account of the moment

The server asks neither the account nor the clock when it runs a command: a session's permissions
are those of its login, and a use of the session only pushes its expiry back.
-/

namespace InventixDB
namespace Server

open Storage
open Sql

namespace SecurityContext

variable {ctx : SecurityContext} {account : CStr}

/-! ## Sessions and accounts -/

/-- Calls on the session table leave the accounts and the roles. -/
def SameAccounts (ctx ctx' : SecurityContext) : Prop :=
  ctx'.users = ctx.users ∧ ctx'.roles = ctx.roles

theorem SameAccounts.keeps {ctx' : SecurityContext} (h : ctx.SameAccounts ctx')
    (account : CStr) : ctx.Keeps ctx' account :=
  keeps_of_eq h.1 h.2 account

theorem logout_sameAccounts (ctx : SecurityContext) (token : CStr) :
    ctx.SameAccounts (ctx.logout token) := by
  unfold logout
  cases ctx.sessionSlot token with
  | none => exact ⟨rfl, rfl⟩
  | some i => exact ⟨rfl, rfl⟩

theorem touchSession_sameAccounts (ctx : SecurityContext) (token : CStr) (now : Int) :
    ctx.SameAccounts (ctx.touchSession token now) := by
  unfold touchSession
  cases ctx.sessionSlot token with
  | none => exact ⟨rfl, rfl⟩
  | some i => exact ⟨rfl, rfl⟩

theorem cleanupFrom_sameAccounts (ctx : SecurityContext) (now : Int) (i : Nat) :
    ctx.SameAccounts (cleanupFrom now i ctx) := by
  induction i generalizing ctx with
  | zero => exact ⟨rfl, rfl⟩
  | succ i ih =>
      rw [cleanupFrom]
      split
      · exact ih (ctx.removeSlot i)
      · exact ih ctx

theorem makeRoom_sameAccounts (ctx : SecurityContext) (now : Int) :
    ctx.SameAccounts (ctx.makeRoom now) := by
  unfold makeRoom
  split
  · exact cleanupFrom_sameAccounts ctx now ctx.sessionCount
  · exact ⟨rfl, rfl⟩

/-! ## Logins -/

/-- What the end of a login does to the accounts. -/
theorem openSession_keeps (ctx : SecurityContext) (user : User) (username token : CStr)
    (now : Int) (account : CStr) :
    ctx.Keeps (ctx.openSession user username token now).1 account := by
  have hroom := (makeRoom_sameAccounts ctx now).keeps account
  rw [openSession_eq]
  split
  · exact hroom
  · have hopened : ∀ sessions count, (ctx.makeRoom now).SameAccounts
        { ctx.makeRoom now with sessions := sessions, sessionCount := count } :=
      fun _ _ => ⟨rfl, rfl⟩
    refine (hroom.trans ((hopened _ _).keeps account)).trans (keeps_modifyUser ?_ username account)
    exact ⟨fun _ => rfl, fun _ => rfl, fun _ h => h, fun u => List.Subset.refl u.roles⟩

/-- A login takes nothing from an account it does not lock. -/
theorem login_keeps {verify : CStr → CStr → CStr → Bool} {username password : CStr}
    (token : CStr) {now : Int}
    (hlocks : ctx.locksOut verify username password now = true → username ≠ account) :
    ctx.Keeps (ctx.login verify username password token now).1 account := by
  unfold login
  rcases checkLogin_cases ctx verify username password now with
    hend | ⟨user, hfind, hover, ⟨_, hend⟩ | ⟨hactive, hwrong, hend⟩ | ⟨_, _, hend⟩⟩
  · rw [hend]
    exact .refl ctx account
  · rw [hend]
    exact lockoutOver_keeps ctx username account user
  · rw [hend]
    refine (lockoutOver_keeps ctx username account user).trans (failedLogin_keeps fun hlimit => ?_)
    refine hlocks ?_
    have hmax : (ctx.lockoutOver username user).maxFailedAttempts = ctx.maxFailedAttempts := by
      unfold lockoutOver
      split <;> rfl
    rw [hmax] at hlimit
    simp only [locksOut, hfind, Option.any_some, hwrong, hactive, hlimit, decide_true,
      Bool.not_false, Bool.and_true, Bool.not_eq_true']
    simpa using hover
  · rw [hend]
    exact (lockoutOver_keeps ctx username account user).trans
      (openSession_keeps _ _ username token now account)

theorem lockoutOver_findUser {username : CStr} {user : User}
    (hfind : ctx.findUser username = some user) :
    (ctx.lockoutOver username user).findUser username = some (unlockExpired user) := by
  unfold lockoutOver
  split
  · rw [findUser_modifyUser ctx unlockExpired_takesNothing.username, hfind]
    rfl
  · next hlocked => rw [hfind, unlockExpired, if_neg hlocked]

/-- A new session has the permissions its account has. -/
theorem openSession_opened {user found : User} {username token : CStr} {now : Int} {p : Nat}
    (hfind : ctx.findUser username = some found) (hstatus : found.status ≠ .locked)
    (hslot : (ctx.openSession user username token now).2 = some p) :
    let after := (ctx.openSession user username token now).1
    (∃ user', after.findUser username = some user' ∧ user'.status ≠ .locked) ∧
      (after.sessions p).permissions.Within (after.userPermissions username) := by
  have hkeeps := openSession_keeps ctx user username token now username
  obtain ⟨hafter, hwithin⟩ := hkeeps found hfind hstatus
  refine ⟨hafter, .trans ?_ hwithin⟩
  have hroom : (ctx.makeRoom now).userPermissions username = ctx.userPermissions username := by
    obtain ⟨husers, hroles⟩ := makeRoom_sameAccounts ctx now
    simp only [userPermissions, rolePermissions, findUser, findRole, husers, hroles]
  rw [openSession_eq] at hslot ⊢
  split at hslot
  · cases hslot
  · next hfree =>
      cases hslot
      simp only [if_neg hfree, modifyUser_sessions, Function.update_self, newSession, hroom]
      exact .refl _

/-- A login that opens a session gives it permissions of an account that is not locked. -/
theorem login_opened {verify : CStr → CStr → CStr → Bool} {username password token : CStr}
    {now : Int} {p : Nat}
    (hslot : (ctx.login verify username password token now).2 = some p) :
    let after := (ctx.login verify username password token now).1
    (∃ user', after.findUser username = some user' ∧ user'.status ≠ .locked) ∧
      (after.sessions p).permissions.Within (after.userPermissions username) := by
  unfold login at hslot ⊢
  rcases checkLogin_cases ctx verify username password now with
    hend | ⟨user, hfind, hover, ⟨_, hend⟩ | ⟨_, _, hend⟩ | ⟨hactive, _, hend⟩⟩
  · rw [hend] at hslot
    cases hslot
  · rw [hend] at hslot
    cases hslot
  · rw [hend] at hslot
    cases hslot
  · rw [hend] at hslot ⊢
    have hstatus : (unlockExpired user).status ≠ .locked := by
      rw [hactive]
      exact UserStatus.noConfusion
    exact openSession_opened (lockoutOver_findUser hfind) hstatus hslot

end SecurityContext

/-! ## Connections in standing -/

variable {ι : Type*} {env : ServerEnv} {verify : CStr → CStr → CStr → Bool}

/-- The account has the permission, exists and is not locked, and the session was used within the
last `session_timeout` seconds. -/
def Clients.AuthorizedNow (s : Clients ι) (i : ι) (perm : Permission) (now : Int) : Prop :=
  now ≤ (s.conns i).lastUse + s.security.sessionTimeout ∧
    (∃ user, s.security.findUser (s.conns i).account = some user ∧ user.status ≠ .locked) ∧
      s.security.userPermissions (s.conns i).account &&& perm = perm

/-- The account of a connection in standing has what its session was given. -/
def Clients.Standing (s : Clients ι) : Prop :=
  ∀ i, (s.conns i).authenticated = true → (s.conns i).inStanding = true →
    (∃ user, s.security.findUser (s.conns i).account = some user ∧ user.status ≠ .locked) ∧
      (s.conns i).opened.permissions.Within (s.security.userPermissions (s.conns i).account)

/-- A connection that is as before stays in standing if its account keeps what it has. -/
theorem Clients.Standing.of_keeps {s : Clients ι} (hs : s.Standing) {ctx : SecurityContext}
    {c : Client} {j : ι} (haccount : c.account = (s.conns j).account)
    (hopened : c.opened = (s.conns j).opened) (hauth : (s.conns j).authenticated = true)
    (hin : (s.conns j).inStanding = true) (hkeeps : s.security.Keeps ctx (s.conns j).account) :
    (∃ user, ctx.findUser c.account = some user ∧ user.status ≠ .locked) ∧
      c.opened.permissions.Within (ctx.userPermissions c.account) := by
  obtain ⟨⟨user, hfind, hstatus⟩, hwithin⟩ := hs j hauth hin
  obtain ⟨hafter, hmore⟩ := hkeeps user hfind hstatus
  rw [haccount, hopened]
  exact ⟨hafter, hwithin.trans hmore⟩

variable [DecidableEq ι]

theorem step_standing {s s' : Clients ι} {a : Action ι} (hs : s.Standing)
    (hstep : s.step env verify a = some s') : s'.Standing := by
  cases a with
  | login i username password token now =>
      have hkeeps : ∀ j, ((s.conns j).inStanding && !(s.security.locksOut verify username password
          now && username = (s.conns j).account)) = true → (s.conns j).inStanding = true ∧
            s.security.Keeps (s.security.login verify username password token now).1
              (s.conns j).account := by
        intro j hin
        rw [Bool.and_eq_true, Bool.not_eq_true', Bool.and_eq_false_iff] at hin
        refine ⟨hin.1, SecurityContext.login_keeps token fun hlocks => ?_⟩
        rcases hin.2 with hopen | hother
        · rw [hlocks] at hopen
          cases hopen
        · simpa using hother
      cases hslot : (s.security.login verify username password token now).2 with
      | none =>
          simp only [Clients.step, hslot, Option.some.injEq] at hstep
          subst hstep
          intro j hauth hin
          obtain ⟨hbefore, hkept⟩ := hkeeps j hin
          exact hs.of_keeps rfl rfl hauth hbefore hkept
      | some p =>
          simp only [Clients.step, hslot, Option.some.injEq] at hstep
          subst hstep
          intro j hauth hin
          by_cases hji : j = i
          · subst hji
            simp only [Function.update_self, Client.loggedIn]
            exact SecurityContext.login_opened hslot
          · simp only [Function.update_of_ne hji] at hauth hin ⊢
            obtain ⟨hbefore, hkept⟩ := hkeeps j hin
            exact hs.of_keeps rfl rfl hauth hbefore hkept
  | logout i =>
      rw [Clients.step] at hstep
      split at hstep
      · cases hstep
        intro j hauth hin
        by_cases hji : j = i
        · subst hji
          simp [Client.loggedOut] at hauth
        · simp only [Function.update_of_ne hji] at hauth hin ⊢
          exact hs.of_keeps rfl rfl hauth hin ((s.security.logout_sameAccounts _).keeps _)
      · cases hstep
        exact hs
  | disconnect i =>
      cases hstep
      intro j hauth hin
      by_cases hji : j = i
      · subst hji
        simp [Client.fresh] at hauth
      · simp only [Function.update_of_ne hji] at hauth hin ⊢
        refine hs.of_keeps rfl rfl hauth hin ?_
        split
        · exact (s.security.logout_sameAccounts _).keeps _
        · exact .refl _ _
  | cleanup now =>
      cases hstep
      intro j hauth hin
      exact hs.of_keeps rfl rfl hauth hin
        ((s.security.cleanupFrom_sameAccounts now s.security.sessionCount).keeps _)
  | command i query quota depth now =>
      rw [Clients.step] at hstep
      split at hstep
      · cases hstep
        exact hs
      · dsimp only at hstep
        split at hstep
        · cases hstep
          intro j hauth hin
          have htouched := s.security.touchSession_sameAccounts (s.conns i).authToken now
          by_cases hji : j = i
          · subst hji
            simp only [Function.update_self] at hauth hin ⊢
            exact hs.of_keeps rfl rfl hauth hin (htouched.keeps _)
          · simp only [Function.update_of_ne hji] at hauth hin ⊢
            exact hs.of_keeps rfl rfl hauth hin (htouched.keeps _)
        · cases hstep
  | admin call =>
      cases hstep
      intro j hauth hin
      rw [Bool.and_eq_true, Bool.not_eq_true'] at hin
      exact hs.of_keeps rfl rfl hauth hin.1 (SecurityContext.administer_keeps hin.2)

theorem run_standing {run : List (Action ι)} {s s' : Clients ι} (hs : s.Standing)
    (hrun : s.run env verify run = some s') : s'.Standing := by
  induction run generalizing s with
  | nil =>
      cases hrun
      exact hs
  | cons a rest ih =>
      obtain ⟨s₁, hstep, hrest⟩ := Option.bind_eq_some_iff.mp hrun
      exact ih (step_standing hs hstep) hrest

/-! ## Commands -/

/-- A command finds its connection in standing: every statement it stands for that needs a
permission needs one the account had at the login, nothing was taken from the account since, and
the session was used within the last `session_timeout` seconds. -/
def Clients.Warranted (env : ServerEnv) (s : Clients ι) (i : ι) (query : CStr) (now : Int) :
    Prop :=
  ∀ text ast ctx, StandsFor env (s.conns i).stmtStore query text →
    parse (tokenize text) = .ok ast ctx → statementPermission ast ≠ .none →
      (s.conns i).inStanding = true ∧
        (s.conns i).opened.permissions &&& statementPermission ast = statementPermission ast ∧
          now ≤ (s.conns i).lastUse + s.security.sessionTimeout

/-- In any run from a server nobody is logged into, a command that finds its connection in
standing is executed only where the account of the moment authorizes it. -/
theorem command_authorized (env : ServerEnv) (verify : CStr → CStr → CStr → Bool)
    (ctx : SecurityContext) (run : List (Action ι)) (s : Clients ι)
    (hrun : (Clients.initial ctx).run env verify run = some s) (i : ι) (query : CStr)
    (quota : Option QuotaStatus) (now : Int) (hwarranted : s.Warranted env i query now)
    (depth : Nat) : ∀ event ∈ (s.query env i query quota depth now).events,
      ∀ ast ∈ event.statement, statementPermission ast ≠ .none →
        s.AuthorizedNow i (statementPermission ast) now := by
  intro event hevent ast hast hneeds
  obtain ⟨hauth, _, _, text, parsed, hstands, hparse⟩ := standsFor_of_events hevent hast
  obtain ⟨hin, hgiven, hused⟩ := hwarranted text ast parsed hstands hparse hneeds
  have hinitial : (Clients.initial ctx : Clients ι).Standing := by
    intro j hauth
    simp [Clients.initial, Client.fresh] at hauth
  obtain ⟨hexists, hwithin⟩ := run_standing hinitial hrun i hauth hin
  refine ⟨hused, hexists, ?_⟩
  exact Permission.within_iff.mp ((Permission.within_iff.mpr hgiven).trans hwithin)

/-! ## A command after its account was locked -/

def dropQuery : CStr := CStr.lit "DROP TABLE t;"

theorem standsFor_dropQuery {env : ServerEnv} {store : SessionStatementStore} {text : CStr}
    (hstands : StandsFor env store dropQuery text) : text = dropQuery := by
  cases hstands with
  | itself => rfl
  | execute hword =>
      have hnone : commandWord (tokenize dropQuery) = none := by decide +kernel
      rw [hnone] at hword
      cases hword

/-- Alice, who may drop tables, drops one in time and in standing. -/
theorem command_authorized_alice : ∃ s, (Clients.initial officeContext).run plainEnv officeVerify
    [officeLogin 1 "alice"] = some s ∧
      ∀ event ∈ (s.query plainEnv 1 dropQuery none 1 60).events,
        ∀ ast ∈ event.statement, statementPermission ast ≠ .none →
          s.AuthorizedNow 1 (statementPermission ast) 60 := by
  obtain ⟨s, hrun⟩ := Option.isSome_iff_exists.mp
    (show ((Clients.initial officeContext).run plainEnv officeVerify
      [officeLogin 1 "alice"]).isSome from by decide)
  have hstate : ((Clients.initial officeContext).run plainEnv officeVerify
      [officeLogin 1 "alice"]).all (fun s => decide
        ((s.conns 1).inStanding = true ∧
          (s.conns 1).opened.permissions &&& Permission.dropTable = Permission.dropTable ∧
            60 ≤ (s.conns 1).lastUse + s.security.sessionTimeout)) = true := by decide
  rw [hrun, Option.all_some, decide_eq_true_iff] at hstate
  refine ⟨s, hrun, command_authorized plainEnv officeVerify officeContext _ s hrun 1 dropQuery
    none 60 (fun text ast parsed hstands hparse _ => ?_) 1⟩
  have hpermission : (match parse (tokenize dropQuery) with
      | .ok ast _ => some (statementPermission ast)
      | _ => none) = some Permission.dropTable := by decide +kernel
  rw [standsFor_dropQuery hstands] at hparse
  rw [hparse] at hpermission
  have hdrop : statementPermission ast = Permission.dropTable := Option.some.inj hpermission
  rw [hdrop]
  exact hstate

/-- Alice logs in, her account is locked, and her DROP TABLE is executed all the same. -/
theorem locked_account_executes : ∃ s, (Clients.initial officeContext).run plainEnv officeVerify
    [officeLogin 1 "alice", .admin (.lockUser (CStr.lit "alice") 0)] = some s ∧
      (s.query plainEnv 1 dropQuery none 1 60).events.map
          (fun event => event.statement.map statementPermission) =
        [some Permission.dropTable] ∧
      ((s.security.findUser (s.conns 1).account).map User.status) = some .locked ∧
      ¬ ∀ event ∈ (s.query plainEnv 1 dropQuery none 1 60).events,
        ∀ ast ∈ event.statement, statementPermission ast ≠ .none →
          s.AuthorizedNow 1 (statementPermission ast) 60 := by
  have hview : ((Clients.initial officeContext).run plainEnv officeVerify
      [officeLogin 1 "alice", .admin (.lockUser (CStr.lit "alice") 0)]).map
        (fun s => ((s.query plainEnv 1 dropQuery none 1 60).events.map
            (fun event => event.statement.map statementPermission),
          (s.security.findUser (s.conns 1).account).map User.status)) =
      some ([some Permission.dropTable], some .locked) := by decide +kernel
  obtain ⟨s, hrun, hs⟩ := Option.map_eq_some_iff.mp hview
  simp only [Prod.mk.injEq] at hs
  obtain ⟨hevents, hlocked⟩ := hs
  refine ⟨s, hrun, hevents, hlocked, fun hauthorized => ?_⟩
  obtain ⟨event, hsingle, hpermission⟩ := List.map_eq_singleton_iff.mp hevents
  obtain ⟨ast, hast, hneeds⟩ := Option.map_eq_some_iff.mp hpermission
  obtain ⟨_, ⟨user, hfind, hstatus⟩, _⟩ := hauthorized event (by rw [hsingle]; simp) ast hast
    (by rw [hneeds]; decide)
  rw [hfind] at hlocked
  exact hstatus (Option.some.inj hlocked)

end Server
end InventixDB
