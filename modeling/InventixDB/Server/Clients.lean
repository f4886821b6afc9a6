import InventixDB.Server.Queries
import Mathlib.Logic.Function.Basic

/-!
# Clients — connections over one session table

A connection keeps a pointer into the session array and the token of its session.  What other
connections and the administration do to the accounts and to the array happens behind its back.
-/

namespace InventixDB
namespace Server

open Storage
open Sql

/-! ## Connections -/

/-- What `client_handler` keeps for its client.  `opened`, `account`, `lastUse` and `inStanding`
are history variables: the session the last login made, the account it was for, when the session
was last used, and whether nothing has been taken from the account since. -/
structure Client where
  session : Option Nat
  authToken : CStr
  authenticated : Bool
  stmtStore : SessionStatementStore
  opened : Session
  account : CStr
  lastUse : Int
  inStanding : Bool

/-- A connection nobody has logged into. -/
def Client.fresh : Client where
  session := none
  authToken := CStr.lit ""
  authenticated := false
  stmtStore := []
  opened := Session.zero
  account := CStr.lit ""
  lastUse := 0
  inStanding := false

/-- The connection as `execute_client_query` sees it, its pointer followed. -/
def Client.connection (c : Client) (ctx : SecurityContext) (quota : Option QuotaStatus) :
    ClientConnection where
  session := c.session.map ctx.sessions
  authToken := c.authToken
  authenticated := c.authenticated
  quota := quota
  stmtStore := c.stmtStore

/-! ## Administration -/

inductive AdminCall
  | createUser (username password role salt hash : CStr)
  | deleteUser (username : CStr)
  | changePassword (username newPassword salt hash : CStr)
  | lockUser (username : CStr) (now : Int)
  | unlockUser (username : CStr)
  | createRole (name : CStr) (permissions : Permission)
  | deleteRole (name : CStr)
  | grantRole (username rolename : CStr)
  | revokeRole (username rolename : CStr)

namespace SecurityContext

variable (ctx : SecurityContext)

/-- A call that is refused changes nothing. -/
def administer : AdminCall → SecurityContext
  | .createUser username password role salt hash =>
      (ctx.createUser username password role salt hash).getD ctx
  | .deleteUser username => (ctx.deleteUser username).getD ctx
  | .changePassword username newPassword salt hash =>
      (ctx.changePassword username newPassword salt hash).getD ctx
  | .lockUser username now => (ctx.lockUser username now).getD ctx
  | .unlockUser username => (ctx.unlockUser username).getD ctx
  | .createRole name permissions => (ctx.createRole name permissions).getD ctx
  | .deleteRole name => (ctx.deleteRole name).getD ctx
  | .grantRole username rolename => (ctx.grantRole username rolename).getD ctx
  | .revokeRole username rolename => (ctx.revokeRole username rolename).getD ctx

/-- The calls that take something from an account: they delete or lock it, or one of its roles
goes. -/
def takesFrom (account : CStr) : AdminCall → Bool
  | .deleteUser username => username = account && (ctx.deleteUser username).isSome
  | .lockUser username _ => username = account
  | .revokeRole username rolename =>
      username = account && (ctx.revokeRole username rolename).isSome
  | .deleteRole name =>
      (ctx.deleteRole name).isSome && (ctx.findUser account).any fun user => name ∈ user.roles
  | _ => false

/-- A login with a wrong password that reaches the limit locks the account. -/
def locksOut (verify : CStr → CStr → CStr → Bool) (username password : CStr) (now : Int) :
    Bool :=
  (ctx.findUser username).any fun user =>
    !(user.status = .locked && user.lockoutUntil > now) && (unlockExpired user).status = .active &&
      !verify password user.salt user.passwordHash &&
        ctx.maxFailedAttempts ≤ (unlockExpired user).failedAttempts + 1

end SecurityContext

/-! ## Steps -/

variable {ι : Type*}

structure Clients (ι : Type*) where
  security : SecurityContext
  conns : ι → Client

inductive Action (ι : Type*)
  | login (i : ι) (username password token : CStr) (now : Int)
  | logout (i : ι)
  | disconnect (i : ι)
  | cleanup (now : Int)
  | command (i : ι) (query : CStr) (quota : Option QuotaStatus) (depth : Nat) (now : Int)
  | admin (call : AdminCall)

/-- The connection after `handle_login` was given slot `p`. -/
def Client.loggedIn (c : Client) (ctx : SecurityContext) (username : CStr) (p : Nat) (now : Int) :
    Client :=
  { c with
    session := some p
    authToken := CStr.snprintf 65 (ctx.sessions p).token
    authenticated := true
    opened := ctx.sessions p
    account := username
    lastUse := now
    inStanding := true }

/-- `handle_logout` -/
def Client.loggedOut (c : Client) : Client :=
  { c with session := none, authToken := CStr.lit "", authenticated := false }

/-- `execute_client_query` as `depth` calls of it see it. -/
def Clients.query (env : ServerEnv) [DecidableEq ι] (s : Clients ι) (i : ι) (query : CStr)
    (quota : Option QuotaStatus) (depth : Nat) (now : Int) : QueryRun :=
  let ctx := s.security.touchSession (s.conns i).authToken now
  executeClientQuery env depth ((s.conns i).connection ctx quota) query

/-- What one call does to the accounts, the session array and the connections.  A query that does
not return ends the run. -/
def Clients.step (env : ServerEnv) (verify : CStr → CStr → CStr → Bool) [DecidableEq ι]
    (s : Clients ι) : Action ι → Option (Clients ι)
  | .login i username password token now =>
      let (ctx, slot) := s.security.login verify username password token now
      let locked := s.security.locksOut verify username password now
      let conns := fun j =>
        { s.conns j with
          inStanding := (s.conns j).inStanding && !(locked && username = (s.conns j).account) }
      match slot with
      | none => some { security := ctx, conns := conns }
      | some p =>
          some
            { security := ctx
              conns := Function.update conns i ((s.conns i).loggedIn ctx username p now) }
  | .logout i =>
      if (s.conns i).authenticated && (s.conns i).session.isSome then
        some
          { security := s.security.logout (s.conns i).authToken
            conns := Function.update s.conns i (s.conns i).loggedOut }
      else some s
  | .disconnect i =>
      some
        { security :=
            if (s.conns i).authenticated then s.security.logout (s.conns i).authToken
            else s.security
          conns := Function.update s.conns i Client.fresh }
  | .cleanup now => some { s with security := s.security.cleanupSessions now }
  | .command i query quota depth now =>
      if !(s.conns i).authenticated then some s
      else
        let run := s.query env i query quota depth now
        if run.ending = .returned then
          some
            { security := s.security.touchSession (s.conns i).authToken now
              conns := Function.update s.conns i
                { s.conns i with stmtStore := run.stmtStore, lastUse := now } }
        else none
  | .admin call =>
      some
        { security := s.security.administer call
          conns := fun j =>
            { s.conns j with
              inStanding := (s.conns j).inStanding &&
                !s.security.takesFrom (s.conns j).account call } }

/-- A run of calls, in any order. -/
def Clients.run (env : ServerEnv) (verify : CStr → CStr → CStr → Bool) [DecidableEq ι] :
    Clients ι → List (Action ι) → Option (Clients ι)
  | s, [] => some s
  | s, a :: rest => (s.step env verify a).bind fun s' => s'.run env verify rest

/-- Connections before any login. -/
def Clients.initial (ctx : SecurityContext) : Clients ι where
  security := ctx
  conns := fun _ => Client.fresh

end Server
end InventixDB
