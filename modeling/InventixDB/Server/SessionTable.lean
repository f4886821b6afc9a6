import InventixDB.Lib.Compaction
import InventixDB.Server.Clients

/-!
# SessionTable — the session behind a connection's pointer

A connection finds its session through the slot it got at login.  Taking a session out of the
table moves the sessions behind it, and a login writes the first slot that is free by count; a
pointer to such a slot then leads to the session of somebody else.
-/

namespace InventixDB
namespace Server

open Storage
open Lib

/-! ## The table as an array -/

namespace SecurityContext

variable (ctx : SecurityContext)

/-- The session array, as memory and a count. -/
def table : Compaction.Slots Session where
  mem := ctx.sessions
  count := ctx.sessionCount

/-- `now > session->expires_at` -/
def Expired (now : Int) (session : Session) : Bool :=
  now > session.expiresAt

theorem table_removeSlot (i : Nat) :
    (ctx.removeSlot i).table = Compaction.closeGap ctx.table i := rfl

theorem table_cleanupFrom (now : Int) (i : Nat) :
    (cleanupFrom now i ctx).table = Compaction.sweep (Expired now) i ctx.table := by
  induction i generalizing ctx with
  | zero => rfl
  | succ i ih =>
      rw [cleanupFrom, Compaction.sweep, ih]
      by_cases hexpired : now > (ctx.sessions i).expiresAt
      · rw [if_pos hexpired, if_pos (by simpa [Expired, table] using hexpired), table_removeSlot]
      · rw [if_neg hexpired, if_neg (by simpa [Expired, table] using hexpired)]

theorem table_cleanupSessions (now : Int) :
    (ctx.cleanupSessions now).table =
      Compaction.sweep (Expired now) ctx.table.count ctx.table :=
  table_cleanupFrom ctx now ctx.sessionCount

/-- A clean-up writes slot `p`: a session at or before it has expired, one behind it has not. -/
def CleanupWrites (now : Int) (p : Nat) : Prop :=
  Compaction.Writes ctx.sessionCount (fun q => Expired now (ctx.sessions q) = true) p

/-- A logout writes slot `p`: it takes out a session at or before it, and one behind it stays. -/
def LogoutWrites (token : CStr) (p : Nat) : Prop :=
  ∃ i, ctx.sessionSlot token = some i ∧ Compaction.Writes ctx.sessionCount (· = i) p

/-- How many sessions have not expired. -/
def unexpired (now : Int) : Nat :=
  ctx.sessionCount -
    (List.range ctx.sessionCount).countP fun q => Expired now (ctx.sessions q)

/-- The slot a login writes: the first free one, of a full table after its clean-up. -/
def firstFree (now : Int) : Nat :=
  if maxSessions ≤ ctx.sessionCount then ctx.unexpired now else ctx.sessionCount

/-- The login passes and finds a free slot. -/
def Admits (verify : CStr → CStr → CStr → Bool) (username password : CStr) (now : Int) : Prop :=
  (ctx.checkLogin verify username password now).isOk = true ∧ ctx.firstFree now < maxSessions

/-- A login writes slot `p`: it is the slot of the new session, or the clean-up of a full table
writes it. -/
def LoginWrites (verify : CStr → CStr → CStr → Bool) (username password : CStr) (now : Int)
    (p : Nat) : Prop :=
  (ctx.checkLogin verify username password now).isOk = true ∧
    ((maxSessions ≤ ctx.sessionCount ∧ ctx.CleanupWrites now p) ∨
      (ctx.firstFree now < maxSessions ∧ p = ctx.firstFree now))

/-! ## What each call leaves in a slot -/

variable {ctx}

theorem cleanupSessions_sessions {now : Int} {p : Nat} (hp : ¬ ctx.CleanupWrites now p) :
    (ctx.cleanupSessions now).sessions p = ctx.sessions p := by
  have htable := table_cleanupSessions ctx now
  have hmem : (ctx.cleanupSessions now).table.mem p = ctx.table.mem p := by
    rw [htable]
    exact Compaction.sweep_mem hp
  exact hmem

theorem cleanupSessions_sessionCount (ctx : SecurityContext) (now : Int) :
    (ctx.cleanupSessions now).sessionCount = ctx.unexpired now := by
  have hcount := Compaction.sweep_count (Expired now) (Nat.le_refl ctx.table.count)
  rw [← table_cleanupSessions] at hcount
  have hsum : (ctx.cleanupSessions now).sessionCount +
      ((List.range ctx.sessionCount).countP fun q => Expired now (ctx.sessions q)) =
        ctx.sessionCount := hcount
  unfold unexpired
  omega

theorem sessionSlot_lt {token : CStr} {i : Nat} (hslot : ctx.sessionSlot token = some i) :
    i < ctx.sessionCount :=
  List.mem_range.mp (List.mem_of_find?_eq_some hslot)

theorem logout_sessions {token : CStr} {p : Nat} (hp : ¬ ctx.LogoutWrites token p) :
    (ctx.logout token).sessions p = ctx.sessions p := by
  unfold logout
  cases hslot : ctx.sessionSlot token with
  | none => rfl
  | some i =>
      exact Compaction.closeGap_mem (s := ctx.table) (sessionSlot_lt hslot)
        fun hwrites => hp ⟨i, hslot, hwrites⟩

@[simp]
theorem modifyUser_sessions (ctx : SecurityContext) (username : CStr) (f : User → User) :
    (ctx.modifyUser username f).sessions = ctx.sessions := rfl

theorem getD_of_forall_some {α β : Type*} {o : Option α} {a : α} {f : α → β}
    (h : ∀ b, o = some b → f b = f a) : f (o.getD a) = f a := by
  cases o with
  | none => rfl
  | some b => exact h b rfl

/-- No call of the administration touches the sessions. -/
theorem administer_table (ctx : SecurityContext) (call : AdminCall) :
    (ctx.administer call).table = ctx.table := by
  cases call with
  | createUser username password role salt hash =>
      refine getD_of_forall_some fun ctx' h => ?_
      obtain ⟨_, user, _, rfl⟩ := createUser_eq_some h
      rfl
  | deleteUser username =>
      refine getD_of_forall_some fun ctx' h => ?_
      rw [deleteUser_eq_some h]
      rfl
  | changePassword username newPassword salt hash =>
      refine getD_of_forall_some fun ctx' h => ?_
      rw [changePassword_eq_some h]
      rfl
  | lockUser username now =>
      refine getD_of_forall_some fun ctx' h => ?_
      rw [lockUser_eq_some h]
      rfl
  | unlockUser username =>
      refine getD_of_forall_some fun ctx' h => ?_
      rw [unlockUser_eq_some h]
      rfl
  | createRole name permissions =>
      refine getD_of_forall_some fun ctx' h => ?_
      obtain ⟨_, role, rfl⟩ := createRole_eq_some h
      rfl
  | deleteRole name =>
      refine getD_of_forall_some fun ctx' h => ?_
      rw [deleteRole_eq_some h]
      rfl
  | grantRole username rolename =>
      refine getD_of_forall_some fun ctx' h => ?_
      rcases grantRole_eq_some h with rfl | rfl
      · rfl
      · rfl
  | revokeRole username rolename =>
      refine getD_of_forall_some fun ctx' h => ?_
      rw [revokeRole_eq_some h]
      rfl

theorem failedLogin_table (ctx : SecurityContext) (username : CStr) (attempts now : Int) :
    (ctx.failedLogin username attempts now).table = ctx.table := by
  unfold failedLogin
  dsimp only
  split
  · refine getD_of_forall_some (f := table) fun ctx' h => ?_
    rw [lockUser_eq_some h]
    rfl
  · rfl

theorem lockoutOver_table (ctx : SecurityContext) (username : CStr) (user : User) :
    (ctx.lockoutOver username user).table = ctx.table := by
  unfold lockoutOver
  split <;> rfl

/-- Checking a login, refused or not, leaves the sessions. -/
theorem checkLogin_table (ctx : SecurityContext) (verify : CStr → CStr → CStr → Bool)
    (username password : CStr) (now : Int) :
    match ctx.checkLogin verify username password now with
    | .error ctx' => ctx'.table = ctx.table
    | .ok (ctx', _) => ctx'.table = ctx.table := by
  rcases checkLogin_cases ctx verify username password now with
    hrefused | ⟨user, _, _, ⟨_, hend⟩ | ⟨_, _, hend⟩ | ⟨_, _, hend⟩⟩
  · rw [hrefused]
  · rw [hend]
    exact lockoutOver_table ctx username user
  · rw [hend]
    exact (failedLogin_table _ username _ now).trans (lockoutOver_table ctx username user)
  · rw [hend]
    exact lockoutOver_table ctx username user

/-- The table a login finds, cleaned up if it was full. -/
def makeRoom (ctx : SecurityContext) (now : Int) : SecurityContext :=
  if maxSessions ≤ ctx.sessionCount then ctx.cleanupSessions now else ctx

theorem openSession_eq (ctx : SecurityContext) (user : User) (username token : CStr) (now : Int) :
    ctx.openSession user username token now =
      if maxSessions ≤ (ctx.makeRoom now).sessionCount then (ctx.makeRoom now, none)
      else
        ({ ctx.makeRoom now with
            sessions := Function.update (ctx.makeRoom now).sessions
              (ctx.makeRoom now).sessionCount
              ((ctx.makeRoom now).newSession user username token now)
            sessionCount := (ctx.makeRoom now).sessionCount + 1 }.modifyUser username fun u =>
              { u with failedAttempts := 0, lastLogin := now },
          some (ctx.makeRoom now).sessionCount) := rfl

theorem makeRoom_congr {ctx' : SecurityContext} (htable : ctx'.table = ctx.table) (now : Int) :
    (ctx'.makeRoom now).table = (ctx.makeRoom now).table := by
  have hcount : ctx'.sessionCount = ctx.sessionCount := congrArg Compaction.Slots.count htable
  unfold makeRoom
  rw [hcount]
  split
  · rw [table_cleanupSessions, table_cleanupSessions, htable]
  · exact htable

theorem makeRoom_sessionCount (ctx : SecurityContext) (now : Int) :
    (ctx.makeRoom now).sessionCount = ctx.firstFree now := by
  unfold makeRoom firstFree
  split
  · exact cleanupSessions_sessionCount ctx now
  · rfl

theorem makeRoom_sessions {now : Int} {p : Nat}
    (hp : maxSessions ≤ ctx.sessionCount → ¬ ctx.CleanupWrites now p) :
    (ctx.makeRoom now).sessions p = ctx.sessions p := by
  unfold makeRoom
  split
  · next hfull => exact cleanupSessions_sessions (hp hfull)
  · rfl

/-- A login opens a session exactly if it passes and there is room, and it leaves the slots it
does not write. -/
theorem login_cases (ctx : SecurityContext) (verify : CStr → CStr → CStr → Bool)
    (username password token : CStr) (now : Int) :
    (∀ p, ¬ ctx.LoginWrites verify username password now p →
        (ctx.login verify username password token now).1.sessions p = ctx.sessions p) ∧
      ((ctx.login verify username password token now).2 = none ∧
          ¬ ctx.Admits verify username password now ∨
        (ctx.login verify username password token now).2 = some (ctx.firstFree now) ∧
          ctx.Admits verify username password now) := by
  have hcheck := checkLogin_table ctx verify username password now
  unfold login
  cases hresult : ctx.checkLogin verify username password now with
  | error ctx' =>
      rw [hresult] at hcheck
      have hsessions : ctx'.sessions = ctx.sessions := congrArg Compaction.Slots.mem hcheck
      refine ⟨fun p _ => congrFun hsessions p, .inl ⟨rfl, fun hadmits => ?_⟩⟩
      rw [Admits, hresult] at hadmits
      cases hadmits.1
  | ok checked =>
      rw [hresult] at hcheck
      have hok : (ctx.checkLogin verify username password now).isOk = true := by
        rw [hresult]
        rfl
      have hroom := makeRoom_congr hcheck now
      have hcount : (checked.1.makeRoom now).sessionCount = ctx.firstFree now :=
        (congrArg Compaction.Slots.count hroom).trans (makeRoom_sessionCount ctx now)
      have hsessions : (checked.1.makeRoom now).sessions = (ctx.makeRoom now).sessions :=
        congrArg Compaction.Slots.mem hroom
      have hkept : ∀ p, ¬ ctx.LoginWrites verify username password now p →
          (checked.1.makeRoom now).sessions p = ctx.sessions p := by
        intro p hp
        rw [hsessions]
        exact makeRoom_sessions fun hfull hcleanup => hp ⟨hok, .inl ⟨hfull, hcleanup⟩⟩
      dsimp only
      rw [openSession_eq, hcount]
      by_cases hfull : maxSessions ≤ ctx.firstFree now
      · rw [if_pos hfull]
        exact ⟨hkept, .inl ⟨rfl, fun hadmits => Nat.not_lt.mpr hfull hadmits.2⟩⟩
      · rw [if_neg hfull]
        have hfree : ctx.firstFree now < maxSessions := Nat.lt_of_not_le hfull
        refine ⟨fun p hp => ?_, .inr ⟨rfl, hok, hfree⟩⟩
        have hother : p ≠ ctx.firstFree now := fun hpf => hp ⟨hok, .inr ⟨hfree, hpf⟩⟩
        exact (Function.update_of_ne hother _ _).trans (hkept p hp)

end SecurityContext

/-! ## Whose session a connection sees -/

/-- Two records of one session: only its stamps differ. -/
def Session.Same (a b : Session) : Prop :=
  a = { b with lastActivity := a.lastActivity, expiresAt := a.expiresAt }

theorem Session.Same.refl (a : Session) : a.Same a := rfl

/-- A touch changes the stamps only. -/
theorem SecurityContext.touchSession_sessions (ctx : SecurityContext) (token : CStr) (now : Int)
    (p : Nat) : ((ctx.touchSession token now).sessions p).Same (ctx.sessions p) := by
  unfold touchSession
  cases hslot : ctx.sessionSlot token with
  | none => rfl
  | some i =>
      by_cases hpi : p = i
      · subst hpi
        simp [Session.Same]
      · simp [Session.Same, Function.update_of_ne hpi]

theorem Session.Same.trans {a b c : Session} (hab : a.Same b) (hbc : b.Same c) : a.Same c := by
  unfold Same at *
  rw [hab, hbc]

variable {ι : Type*} {env : ServerEnv} {verify : CStr → CStr → CStr → Bool}

/-- Every connection that is logged in finds the session of its own login behind its pointer. -/
def Clients.KeepsOwn (s : Clients ι) : Prop :=
  ∀ i, (s.conns i).authenticated = true →
    ∃ p, (s.conns i).session = some p ∧ (s.security.sessions p).Same (s.conns i).opened

/-- The slots of the session array a call writes with another session. -/
def Clients.Writes (verify : CStr → CStr → CStr → Bool) (s : Clients ι) (p : Nat) :
    Action ι → Prop
  | .login _ username password _ now => s.security.LoginWrites verify username password now p
  | .logout i | .disconnect i =>
      (s.conns i).authenticated = true ∧ s.security.LogoutWrites (s.conns i).authToken p
  | .cleanup now => s.security.CleanupWrites now p
  | .command _ _ _ _ _ => False
  | .admin _ => False

/-- The connection whose session a call replaces or ends. -/
def Clients.Renews (verify : CStr → CStr → CStr → Bool) (s : Clients ι) (j : ι) :
    Action ι → Prop
  | .login i username password _ now => j = i ∧ s.security.Admits verify username password now
  | .logout i => j = i
  | .disconnect i => j = i
  | _ => False

/-- The call writes no slot that a connection which stays logged in points to. -/
def Clients.Spares (verify : CStr → CStr → CStr → Bool) (s : Clients ι) (a : Action ι) : Prop :=
  ∀ j p, (s.conns j).authenticated = true → (s.conns j).session = some p →
    ¬ s.Renews verify j a → ¬ s.Writes verify p a

/-- A connection that is as before still finds its own session, if its slot was spared. -/
theorem Clients.KeepsOwn.of_same {s : Clients ι} (hkeep : s.KeepsOwn) {ctx : SecurityContext}
    {c : Client} {j : ι} (hsession : c.session = (s.conns j).session)
    (hopened : c.opened = (s.conns j).opened) (hauth : (s.conns j).authenticated = true)
    (hslot : ∀ p, (s.conns j).session = some p →
      (ctx.sessions p).Same (s.security.sessions p)) :
    ∃ p, c.session = some p ∧ (ctx.sessions p).Same c.opened := by
  obtain ⟨p, hp, hsame⟩ := hkeep j hauth
  exact ⟨p, hsession.trans hp, by rw [hopened]; exact (hslot p hp).trans hsame⟩

theorem Session.same_of_eq {a b : Session} (h : a = b) : a.Same b := by
  rw [h]
  exact .refl b

variable [DecidableEq ι]

/-- One call keeps the sessions of the connections it spares. -/
theorem step_keepsOwn {s s' : Clients ι} {a : Action ι} (hkeep : s.KeepsOwn)
    (hspares : s.Spares verify a) (hstep : s.step env verify a = some s') : s'.KeepsOwn := by
  cases a with
  | login i username password token now =>
      obtain ⟨hslots, hend⟩ := s.security.login_cases verify username password token now
      have hspared : ∀ j p, (s.conns j).authenticated = true → (s.conns j).session = some p →
          ¬ (j = i ∧ s.security.Admits verify username password now) →
            ((s.security.login verify username password token now).1.sessions p).Same
              (s.security.sessions p) :=
        fun j p hauth hp hrenews => Session.same_of_eq (hslots p (hspares j p hauth hp hrenews))
      rcases hend with ⟨hnone, hrefused⟩ | ⟨hsome, hadmits⟩
      · simp only [Clients.step, hnone, Option.some.injEq] at hstep
        subst hstep
        intro j hauth
        exact hkeep.of_same rfl rfl hauth fun p hp =>
          hspared j p hauth hp fun hrenews => hrefused hrenews.2
      · simp only [Clients.step, hsome, Option.some.injEq] at hstep
        subst hstep
        intro j hauth
        by_cases hji : j = i
        · subst hji
          simp only [Function.update_self, Client.loggedIn]
          exact ⟨_, rfl, .refl _⟩
        · simp only [Function.update_of_ne hji] at hauth ⊢
          exact hkeep.of_same rfl rfl hauth fun p hp =>
            hspared j p hauth hp fun hrenews => hji hrenews.1
  | logout i =>
      rw [Clients.step] at hstep
      split at hstep
      · next hin =>
          have hauthi : (s.conns i).authenticated = true := (Bool.and_eq_true _ _ ▸ hin).1
          cases hstep
          intro j hauth
          by_cases hji : j = i
          · subst hji
            simp [Client.loggedOut] at hauth
          · simp only [Function.update_of_ne hji] at hauth ⊢
            exact hkeep.of_same rfl rfl hauth fun p hp => Session.same_of_eq
              (SecurityContext.logout_sessions fun hwrites =>
                hspares j p hauth hp hji ⟨hauthi, hwrites⟩)
      · cases hstep
        exact hkeep
  | disconnect i =>
      cases hstep
      intro j hauth
      by_cases hji : j = i
      · subst hji
        simp [Client.fresh] at hauth
      · simp only [Function.update_of_ne hji] at hauth ⊢
        refine hkeep.of_same rfl rfl hauth fun p hp => Session.same_of_eq ?_
        split
        · next hauthi =>
            exact SecurityContext.logout_sessions fun hwrites =>
              hspares j p hauth hp hji ⟨hauthi, hwrites⟩
        · rfl
  | cleanup now =>
      cases hstep
      intro j hauth
      exact hkeep.of_same rfl rfl hauth fun p hp => Session.same_of_eq
        (SecurityContext.cleanupSessions_sessions (hspares j p hauth hp id))
  | command i query quota depth now =>
      rw [Clients.step] at hstep
      split at hstep
      · cases hstep
        exact hkeep
      · dsimp only at hstep
        split at hstep
        · cases hstep
          intro j hauth
          have htouched := s.security.touchSession_sessions (s.conns i).authToken now
          by_cases hji : j = i
          · subst hji
            simp only [Function.update_self] at hauth ⊢
            exact hkeep.of_same rfl rfl hauth fun p _ => htouched p
          · simp only [Function.update_of_ne hji] at hauth ⊢
            exact hkeep.of_same rfl rfl hauth fun p _ => htouched p
        · cases hstep
  | admin call =>
      cases hstep
      intro j hauth
      have hsessions : (s.security.administer call).sessions = s.security.sessions :=
        congrArg Compaction.Slots.mem (s.security.administer_table call)
      exact hkeep.of_same rfl rfl hauth fun p _ => Session.same_of_eq (congrFun hsessions p)

/-- Every call of the run spares the connections that stay logged in. -/
def Clients.SparingRun (env : ServerEnv) (verify : CStr → CStr → CStr → Bool) :
    Clients ι → List (Action ι) → Prop
  | _, [] => True
  | s, a :: rest =>
      s.Spares verify a ∧ ∀ s', s.step env verify a = some s' → s'.SparingRun env verify rest

/-- The sessions stay their own connections' through a run of calls that spare them. -/
theorem run_keepsOwn {run : List (Action ι)} {s s' : Clients ι} (hkeep : s.KeepsOwn)
    (hspares : s.SparingRun env verify run) (hrun : s.run env verify run = some s') :
    s'.KeepsOwn := by
  induction run generalizing s with
  | nil =>
      cases hrun
      exact hkeep
  | cons a rest ih =>
      obtain ⟨s₁, hstep, hrest⟩ := Option.bind_eq_some_iff.mp hrun
      exact ih (step_keepsOwn hkeep hspares.1 hstep) (hspares.2 s₁ hstep) hrest

/-- From a server nobody is logged into: a run of logins, logouts, ended connections, clean-ups,
commands and administration, in any order, leaves every connection its own session if each call
spares the connections that stay logged in. -/
theorem connections_keepOwn (env : ServerEnv) (verify : CStr → CStr → CStr → Bool)
    (ctx : SecurityContext) (run : List (Action ι)) (s : Clients ι)
    (hspares : (Clients.initial ctx).SparingRun env verify run)
    (hrun : (Clients.initial ctx).run env verify run = some s) : s.KeepsOwn := by
  refine run_keepsOwn (fun i hauth => ?_) hspares hrun
  simp [Clients.initial, Client.fresh] at hauth

/-! ## A pointer that was left behind -/

def officeUser (username role : String) (isSuperuser : Bool) : User where
  userId := 1
  username := CStr.lit username
  passwordHash := CStr.lit username
  salt := CStr.lit ""
  roles := [CStr.lit role]
  status := .active
  lastLogin := 0
  failedAttempts := 0
  lockoutUntil := 0
  isSuperuser := isSuperuser
  mustChangePassword := false

/-- Three accounts, whose passwords are their names, and no session yet. -/
def officeContext : SecurityContext where
  users := [officeUser "guest" "guest" false, officeUser "alice" "user" false,
    officeUser "root" "superadmin" true]
  roles :=
    [{ name := CStr.lit "guest", permissions := .select, isSystemRole := true },
      { name := CStr.lit "user", permissions := .select ||| .dropTable, isSystemRole := true }]
  sessions := fun _ => Session.zero
  sessionCount := 0
  sessionTimeout := 3600
  maxFailedAttempts := 5
  lockoutDuration := 900
  passwordMinLength := 8
  requireUppercase := false
  requireLowercase := false
  requireDigit := false
  requireSpecial := false

/-- The password verification of `officeContext`. -/
def officeVerify (password _ hash : CStr) : Bool := password = hash

def officeLogin (i : Fin 3) (username : String) : Action (Fin 3) :=
  .login i (CStr.lit username) (CStr.lit username) (CStr.lit (username ++ "-token")) 0

/-- A guest and the superuser log in, and the superuser, who came last, logs out. -/
theorem connections_keepOwn_lastOut : ∃ s, (Clients.initial officeContext).run plainEnv
    officeVerify [officeLogin 0 "guest", officeLogin 2 "root", .logout 2] = some s ∧
      s.KeepsOwn := by
  obtain ⟨s, hrun⟩ := Option.isSome_iff_exists.mp
    (show ((Clients.initial officeContext).run plainEnv officeVerify
      [officeLogin 0 "guest", officeLogin 2 "root", .logout 2]).isSome from by decide)
  refine ⟨s, hrun, connections_keepOwn plainEnv officeVerify officeContext _ s ?_ hrun⟩
  have hafter₁ : ((Clients.initial officeContext).step plainEnv officeVerify
      (officeLogin 0 "guest")).all (fun s => decide
        ((∀ j, (s.conns j).authenticated = true → (s.conns j).session = some 0) ∧
          s.security.sessionCount = 1)) = true := by decide
  have hafter₂ : ((Clients.initial officeContext).run plainEnv officeVerify
      [officeLogin 0 "guest", officeLogin 2 "root"]).all (fun s => decide
        ((∀ j, (s.conns j).authenticated = true → j ≠ 2 → (s.conns j).session = some 0) ∧
          s.security.sessionSlot (s.conns 2).authToken = some 1)) = true := by decide
  refine ⟨fun j p hauth => by simp [Clients.initial, Client.fresh] at hauth, fun s₁ hstep₁ => ?_⟩
  rw [hstep₁, Option.all_some, decide_eq_true_iff] at hafter₁
  refine ⟨fun j p hauth hp _ ⟨_, hwrites⟩ => ?_, fun s₂ hstep₂ => ⟨?_, fun _ _ => trivial⟩⟩
  · -- the second login writes slot 1
    obtain ⟨hslots, hcount⟩ := hafter₁
    have hzero : p = 0 := Option.some.inj (hp.symm.trans (hslots j hauth))
    have hroom : ¬ maxSessions ≤ s₁.security.sessionCount := by
      rw [hcount]
      decide
    rcases hwrites with ⟨hfull, _⟩ | ⟨_, hfree⟩
    · exact hroom hfull
    · rw [SecurityContext.firstFree, if_neg hroom, hcount] at hfree
      omega
  · -- the logout takes out slot 1, and slot 0 is before it
    simp only [Clients.run, hstep₁, hstep₂, Option.bind_some, Option.all_some,
      decide_eq_true_iff] at hafter₂
    rintro j p hauth hp hother ⟨_, i, hi, ⟨q, hqp, _, hqi⟩, _⟩
    have hzero : p = 0 := Option.some.inj (hp.symm.trans (hafter₂.1 j hauth hother))
    have hone : i = 1 := Option.some.inj (hi.symm.trans hafter₂.2)
    omega

/-- A guest, Alice and the superuser log in, and the guest logs out: the pointer of Alice's
connection leads to the session of the superuser. -/
theorem logout_hands_over :
    ∃ s, (Clients.initial officeContext).run plainEnv officeVerify
        [officeLogin 0 "guest", officeLogin 1 "alice", officeLogin 2 "root", .logout 0] = some s ∧
      (s.conns 1).authenticated = true ∧ (s.conns 1).opened.username = CStr.lit "alice" ∧
        ((s.conns 1).session.map fun p =>
          ((s.security.sessions p).username, (s.security.sessions p).isSuperuser)) =
            some (CStr.lit "root", true) ∧
          ¬ s.KeepsOwn := by
  have hview : ((Clients.initial officeContext).run plainEnv officeVerify
      [officeLogin 0 "guest", officeLogin 1 "alice", officeLogin 2 "root", .logout 0]).map
        (fun s => ((s.conns 1).authenticated, (s.conns 1).opened.username,
          (s.conns 1).session.map fun p =>
            ((s.security.sessions p).username, (s.security.sessions p).isSuperuser))) =
      some (true, CStr.lit "alice", some (CStr.lit "root", true)) := by decide
  obtain ⟨s, hrun, hs⟩ := Option.map_eq_some_iff.mp hview
  simp only [Prod.mk.injEq] at hs
  obtain ⟨hauth, hopened, hseen⟩ := hs
  refine ⟨s, hrun, hauth, hopened, hseen, fun hkeep => ?_⟩
  obtain ⟨p, hp, hsame⟩ := hkeep 1 hauth
  have hname : (s.security.sessions p).username = CStr.lit "root" := by
    rw [hp] at hseen
    simp only [Option.map_some, Option.some.injEq, Prod.mk.injEq] at hseen
    exact hseen.1
  have hother : (s.security.sessions p).username = (s.conns 1).opened.username := by
    rw [hsame]
  rw [hname, hopened] at hother
  exact absurd hother (by decide)

end Server
end InventixDB
