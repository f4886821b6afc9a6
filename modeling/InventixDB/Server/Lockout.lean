import InventixDB.Lib.Budget
import InventixDB.Server.Authorization
import InventixDB.Server.Persistence

/-!
# Lockout — how often the password of an account may be guessed

Every wrong password counts, and the one that reaches the limit locks the account.  The count goes
back with a login that succeeds, a lockout that is over, and an explicit unlock.
-/

namespace InventixDB
namespace Server

open Storage
open Lib

/-! ## Events -/

/-- What a call does to an account. -/
inductive AccountEvent
  /-- A login finds the account locked and its lockout over. -/
  | expired
  /-- The password was verified and is wrong. -/
  | failed
  /-- The password was right, and a session was opened. -/
  | succeeded
  | unlocked
  /-- The account is gone. -/
  | deleted
  deriving DecidableEq

namespace AccountEvent

/-- The password was guessed in vain. -/
def fails : AccountEvent → Bool
  | .failed => true
  | _ => false

/-- Guesses are counted anew. -/
def renews : AccountEvent → Bool
  | .failed => false
  | _ => true

end AccountEvent

/-- A call of the module, at a time the caller does not choose. -/
inductive AccountCall
  | login (username password token : CStr) (now : Int)
  | logout (token : CStr)
  | touch (token : CStr) (now : Int)
  | validate (token : CStr) (now : Int)
  | cleanup (now : Int)
  | admin (call : AdminCall)

namespace SecurityContext

variable (verify : CStr → CStr → CStr → Bool) (ctx : SecurityContext)

def handle : AccountCall → SecurityContext
  | .login username password token now => (ctx.login verify username password token now).1
  | .logout token => ctx.logout token
  | .touch token now => ctx.touchSession token now
  | .validate token now => (ctx.validateSession token now).1
  | .cleanup now => ctx.cleanupSessions now
  | .admin call => ctx.administer call

/-- What an attempt to log into an account does to it.  A right password without room for a session
is no success and leaves the count. -/
def loginEvents (username password token : CStr) (now : Int) : List AccountEvent :=
  match ctx.findUser username with
  | none => []
  | some user =>
      if user.status = .locked ∧ user.lockoutUntil > now then []
      else
        (if user.status = .locked then [.expired] else []) ++
          if (unlockExpired user).status ≠ .active then []
          else if !verify password user.salt user.passwordHash then [.failed]
          else if (ctx.login verify username password token now).2.isSome then [.succeeded]
          else []

def events (account : CStr) : AccountCall → List AccountEvent
  | .login username password token now =>
      if username = account then ctx.loginEvents verify username password token now else []
  | .admin (.unlockUser username) =>
      if username = account ∧ (ctx.unlockUser username).isSome then [.unlocked] else []
  | .admin (.deleteUser username) =>
      if username = account ∧ (ctx.deleteUser username).isSome then [.deleted] else []
  | _ => []

/-- The state behind a run of calls. -/
def handleAll (calls : List AccountCall) : SecurityContext :=
  calls.foldl (handle verify) ctx

/-- What the calls of a run do to an account. -/
def trace (account : CStr) : SecurityContext → List AccountCall → List AccountEvent
  | _, [] => []
  | ctx, call :: calls =>
      ctx.events verify account call ++ trace account (ctx.handle verify call) calls

/-- There is a limit, the guesses counted are within it, and an active account has some left. -/
structure Regular : Prop where
  limit : 0 < ctx.maxFailedAttempts
  counted : ∀ user ∈ ctx.users,
    0 ≤ user.failedAttempts ∧ user.failedAttempts ≤ ctx.maxFailedAttempts
  left : ∀ user ∈ ctx.users, user.status = .active → user.failedAttempts < ctx.maxFailedAttempts

/-- Behind a run, a locked account opens to nobody before its lockout is over, and no stretch of the
run without a success, an expiry, an unlock or the end of an account has more guesses at it than
the limit. -/
structure LockoutHolds (calls : List AccountCall) : Prop where
  closed : ∀ username password token now user,
    (ctx.handleAll verify calls).findUser username = some user → user.status = .locked →
      now < user.lockoutUntil →
        ((ctx.handleAll verify calls).login verify username password token now).2 = none
  bounded : ∀ account stretch, stretch <:+: ctx.trace verify account calls →
    (∀ e ∈ stretch, e.renews = false) →
      (stretch.countP AccountEvent.fails : Int) ≤ ctx.maxFailedAttempts

/-- The guesses counted for an account. -/
def guesses (account : CStr) : Int :=
  ((ctx.findUser account).map User.failedAttempts).getD 0

/-! ## Changing one account -/

variable {verify ctx} {ctx' ctx'' : SecurityContext} {account username password token : CStr}
  {user : User} {f : User → User} {attempts now : Int} {used : Nat}

/-- A change that keeps the name, and the account within the limit. -/
structure KeepsLimit (limit : Int) (f : User → User) : Prop where
  username : ∀ u, (f u).username = u.username
  counted : ∀ u, 0 ≤ u.failedAttempts ∧ u.failedAttempts ≤ limit →
    0 ≤ (f u).failedAttempts ∧ (f u).failedAttempts ≤ limit
  left : ∀ u, (u.status = .active → u.failedAttempts < limit) →
    (f u).status = .active → (f u).failedAttempts < limit

/-- From `ctx` to `ctx'` the limit and the other accounts stay, and no account gets beyond it. -/
structure Touches (username : CStr) (ctx ctx' : SecurityContext) : Prop where
  limit : ctx'.maxFailedAttempts = ctx.maxFailedAttempts
  others : ∀ account, account ≠ username → ctx'.findUser account = ctx.findUser account
  regular : ctx.Regular → ctx'.Regular

theorem Touches.refl (username : CStr) (ctx : SecurityContext) : Touches username ctx ctx :=
  ⟨rfl, fun _ _ => rfl, id⟩

theorem Touches.trans (h : Touches username ctx ctx') (h' : Touches username ctx' ctx'') :
    Touches username ctx ctx'' where
  limit := h'.limit.trans h.limit
  others account hne := (h'.others account hne).trans (h.others account hne)
  regular hregular := h'.regular (h.regular hregular)

/-- Only the session table or the roles change. -/
theorem touches_of_eq (hlimit : ctx'.maxFailedAttempts = ctx.maxFailedAttempts)
    (husers : ctx'.users = ctx.users) (username : CStr) : Touches username ctx ctx' where
  limit := hlimit
  others account _ := by rw [findUser, findUser, husers]
  regular hregular := by
    constructor
    · rw [hlimit]
      exact hregular.limit
    · rw [husers, hlimit]
      exact hregular.counted
    · rw [husers, hlimit]
      exact hregular.left

theorem mem_modifyUser {found : User} (hmem : found ∈ (ctx.modifyUser username f).users) :
    ∃ user ∈ ctx.users, found = user ∨ found = f user := by
  obtain ⟨i, hget⟩ := List.mem_iff_getElem?.mp hmem
  rw [modifyUser, List.getElem?_modify] at hget
  obtain ⟨user, huser, hfound⟩ := Option.map_eq_some_iff.mp hget
  refine ⟨user, List.mem_of_getElem? huser, ?_⟩
  split at hfound
  · exact .inr hfound.symm
  · exact .inl hfound.symm

theorem touches_modifyUser (hf : KeepsLimit ctx.maxFailedAttempts f) (username : CStr) :
    Touches username ctx (ctx.modifyUser username f) where
  limit := rfl
  others account hne := findUser_modifyUser_of_ne ctx hf.username hne.symm
  regular hregular := by
    refine ⟨hregular.limit, fun found hfound => ?_, fun found hfound => ?_⟩
    · obtain ⟨user, huser, rfl | rfl⟩ := mem_modifyUser hfound
      · exact hregular.counted found huser
      · exact hf.counted user (hregular.counted user huser)
    · obtain ⟨user, huser, rfl | rfl⟩ := mem_modifyUser hfound
      · exact hregular.left found huser
      · exact hf.left user (hregular.left user huser)

theorem findUser_mem (hfind : ctx.findUser username = some user) : user ∈ ctx.users :=
  List.mem_of_find?_eq_some hfind

theorem guesses_of_findUser (hfind : ctx.findUser account = some user) :
    ctx.guesses account = user.failedAttempts := by
  rw [guesses, hfind]
  rfl

theorem Regular.guesses_bounds (h : ctx.Regular) (account : CStr) :
    0 ≤ ctx.guesses account ∧ ctx.guesses account ≤ ctx.maxFailedAttempts := by
  cases hfind : ctx.findUser account with
  | none =>
      rw [guesses, hfind]
      exact ⟨Int.le_refl 0, Int.le_of_lt h.limit⟩
  | some user =>
      rw [guesses_of_findUser hfind]
      exact h.counted user (findUser_mem hfind)

theorem Touches.guesses (h : Touches username ctx ctx') (hne : account ≠ username) :
    ctx'.guesses account = ctx.guesses account := by
  rw [SecurityContext.guesses, SecurityContext.guesses, h.others account hne]

/-- A change of an account that leaves its count. -/
theorem guesses_modifyUser (hname : ∀ u, (f u).username = u.username)
    (hcount : ∀ u, (f u).failedAttempts = u.failedAttempts) (username account : CStr) :
    (ctx.modifyUser username f).guesses account = ctx.guesses account := by
  by_cases hsame : username = account
  · subst hsame
    rw [guesses, guesses, findUser_modifyUser ctx hname, Option.map_map]
    congr 2
    funext u
    exact hcount u
  · rw [guesses, guesses, findUser_modifyUser_of_ne ctx hname hsame]

theorem modifyUser_modifyUser {g : User → User} (hname : ∀ u, (f u).username = u.username)
    (username : CStr) :
    (ctx.modifyUser username f).modifyUser username g = ctx.modifyUser username (g ∘ f) := by
  unfold modifyUser
  dsimp only
  rw [modify_findIdx_modify_findIdx fun u => by rw [hname]]

/-! ## Logins -/

theorem keepsLimit_unlockExpired {limit : Int} (hlimit : 0 < limit) :
    KeepsLimit limit unlockExpired where
  username := unlockExpired_takesNothing.username
  counted u hu := by
    unfold unlockExpired
    split
    · exact ⟨Int.le_refl 0, Int.le_of_lt hlimit⟩
    · exact hu
  left u hu := by
    unfold unlockExpired
    split
    · exact fun _ => hlimit
    · exact hu

theorem touches_lockoutOver (hlimit : 0 < ctx.maxFailedAttempts) (username : CStr) (user : User) :
    Touches username ctx (ctx.lockoutOver username user) := by
  unfold lockoutOver
  split
  · exact touches_modifyUser (keepsLimit_unlockExpired hlimit) username
  · exact .refl username ctx

/-- The account behind one more guess. -/
def guessed (ctx : SecurityContext) (attempts now : Int) (u : User) : User :=
  if ctx.maxFailedAttempts ≤ attempts then
    { u with
      failedAttempts := attempts
      status := .locked
      lockoutUntil := now + ctx.lockoutDuration }
  else { u with failedAttempts := attempts }

theorem username_guessed (u : User) : (ctx.guessed attempts now u).username = u.username := by
  unfold guessed
  split <;> rfl

theorem failedAttempts_guessed (u : User) :
    (ctx.guessed attempts now u).failedAttempts = attempts := by
  unfold guessed
  split <;> rfl

theorem failedLogin_eq (hfind : ctx.findUser username = some user) :
    ctx.failedLogin username attempts now = ctx.modifyUser username (ctx.guessed attempts now) := by
  unfold failedLogin
  generalize hcount : (fun u : User => { u with failedAttempts := attempts }) = count
  have hname : ∀ u, (count u).username = u.username := by
    rintro u
    rw [← hcount]
  by_cases hlimit : ctx.maxFailedAttempts ≤ attempts
  · have hfound : (ctx.modifyUser username count).findUser username = some (count user) := by
      rw [findUser_modifyUser ctx hname, hfind]
      rfl
    have hlock : (ctx.modifyUser username count).maxFailedAttempts ≤ attempts := hlimit
    rw [if_pos hlock, lockUser, hfound, if_neg (by simp), Option.getD_some,
      modifyUser_modifyUser hname, ← hcount]
    congr 1
    funext u
    exact (if_pos hlimit).symm
  · have hlock : ¬ (ctx.modifyUser username count).maxFailedAttempts ≤ attempts := hlimit
    rw [if_neg hlock, ← hcount]
    congr 1
    funext u
    exact (if_neg hlimit).symm

theorem touches_failedLogin (hfind : ctx.findUser username = some user)
    (hattempts : 0 ≤ attempts ∧ attempts ≤ ctx.maxFailedAttempts) (now : Int) :
    Touches username ctx (ctx.failedLogin username attempts now) := by
  rw [failedLogin_eq hfind]
  refine touches_modifyUser ⟨username_guessed, fun u _ => ?_, fun u _ hactive => ?_⟩ username
  · rw [failedAttempts_guessed]
    exact hattempts
  · rw [failedAttempts_guessed]
    unfold guessed at hactive
    split at hactive
    · cases hactive
    · next hlimit => exact Int.not_le.mp hlimit

theorem guesses_failedLogin (hfind : ctx.findUser username = some user) :
    (ctx.failedLogin username attempts now).guesses username = attempts := by
  rw [failedLogin_eq hfind, guesses, findUser_modifyUser ctx username_guessed, hfind]
  exact failedAttempts_guessed user

theorem cleanupFrom_limit (ctx : SecurityContext) (now : Int) (i : Nat) :
    (cleanupFrom now i ctx).maxFailedAttempts = ctx.maxFailedAttempts := by
  induction i generalizing ctx with
  | zero => rfl
  | succ i ih =>
      rw [cleanupFrom]
      split
      · exact ih (ctx.removeSlot i)
      · exact ih ctx

theorem touches_cleanupSessions (ctx : SecurityContext) (now : Int) (username : CStr) :
    Touches username ctx (ctx.cleanupSessions now) :=
  touches_of_eq (cleanupFrom_limit ctx now ctx.sessionCount)
    (cleanupFrom_sameAccounts ctx now ctx.sessionCount).1 username

theorem touches_makeRoom (ctx : SecurityContext) (now : Int) (username : CStr) :
    Touches username ctx (ctx.makeRoom now) := by
  unfold makeRoom
  split
  · exact touches_cleanupSessions ctx now username
  · exact .refl username ctx

theorem touches_openSession (hlimit : 0 < ctx.maxFailedAttempts) (user : User)
    (username token : CStr) (now : Int) :
    Touches username ctx (ctx.openSession user username token now).1 := by
  have hroom := touches_makeRoom ctx now username
  rw [openSession_eq]
  split
  · exact hroom
  · have hopened : ∀ sessions count, Touches username (ctx.makeRoom now)
        { ctx.makeRoom now with sessions := sessions, sessionCount := count } :=
      fun _ _ => touches_of_eq (by rfl) (by rfl) username
    have hreset : 0 < (ctx.makeRoom now).maxFailedAttempts := by
      rw [hroom.limit]
      exact hlimit
    refine (hroom.trans (hopened _ _)).trans (touches_modifyUser ?_ username)
    exact ⟨fun _ => rfl, fun _ _ => ⟨Int.le_refl 0, Int.le_of_lt hreset⟩, fun _ _ _ => hreset⟩

/-- Without room for a session the counts stay. -/
theorem guesses_openSession (hslot : (ctx.openSession user username token now).2 = none)
    (account : CStr) :
    (ctx.openSession user username token now).1.guesses account = ctx.guesses account := by
  rw [openSession_eq] at hslot ⊢
  split at hslot
  · next hfull =>
      rw [if_pos hfull, guesses, guesses, findUser, findUser, (makeRoom_sameAccounts ctx now).1]
  · cases hslot

/-- What an account is left after the events of a call. -/
structure Accounts (limit : Int) (before behind : Int) (events : List AccountEvent) : Prop where
  within : ∀ used : Nat, (used : Int) ≤ before →
    Budget.Within AccountEvent.fails AccountEvent.renews limit.toNat used events
  counted : ∀ used : Nat, (used : Int) ≤ before →
    (Budget.spent AccountEvent.fails AccountEvent.renews used events : Int) ≤ behind

theorem accounts_nil {limit before behind : Int} (hlimit : before ≤ limit)
    (hkept : before ≤ behind) : Accounts limit before behind [] where
  within used hused := by
    have hle : (used : Int) ≤ limit := hused.trans hlimit
    exact Int.le_toNat (by omega) |>.mpr hle
  counted used hused := hused.trans hkept

theorem accounts_renewed {limit before behind : Int} {e : AccountEvent} (he : e.renews = true)
    (hlimit : before ≤ limit) (hbehind : 0 ≤ behind) : Accounts limit before behind [e] where
  within used hused := by
    rw [Budget.Within, Budget.Within, he]
    exact ⟨by omega, Nat.zero_le _⟩
  counted used _ := by
    rw [Budget.spent, Budget.spent, he]
    exact hbehind

theorem accounts_failed {limit before : Int} (hlimit : before < limit) :
    Accounts limit before (before + 1) [.failed] where
  within used hused := by
    have hnot : AccountEvent.failed.renews = false := rfl
    have hfails : AccountEvent.failed.fails = true := rfl
    rw [Budget.Within, Budget.Within, hnot, hfails]
    simp only [Bool.false_eq_true, if_false, if_true]
    omega
  counted used hused := by
    change ((used + 1 : Nat) : Int) ≤ before + 1
    omega

theorem Accounts.append {limit before mid behind : Int} {es es' : List AccountEvent}
    (h : Accounts limit before mid es) (h' : Accounts limit mid behind es') :
    Accounts limit before behind (es ++ es') where
  within used hused :=
    Budget.within_append.mpr ⟨h.within used hused, h'.within _ (h.counted used hused)⟩
  counted used hused := by
    rw [Budget.spent_append]
    exact h'.counted _ (h.counted used hused)

/-- A login counts what it does. -/
theorem login_accounts (verify : CStr → CStr → CStr → Bool) (hregular : ctx.Regular)
    (username password token : CStr) (now : Int) :
    Touches username ctx (ctx.login verify username password token now).1 ∧
      Accounts ctx.maxFailedAttempts (ctx.guesses username)
        ((ctx.login verify username password token now).1.guesses username)
        (ctx.loginEvents verify username password token now) := by
  have hbounds := hregular.guesses_bounds username
  have hnothing : Accounts ctx.maxFailedAttempts (ctx.guesses username) (ctx.guesses username) [] :=
    accounts_nil hbounds.2 (Int.le_refl _)
  cases hfind : ctx.findUser username with
  | none =>
      have hend : ctx.login verify username password token now = (ctx, none) := by
        rw [login, checkLogin, hfind]
      rw [loginEvents, hfind, hend]
      exact ⟨.refl username ctx, hnothing⟩
  | some user =>
      by_cases hblocked : user.status = .locked ∧ user.lockoutUntil > now
      · have hend : ctx.login verify username password token now = (ctx, none) := by
          simp only [login, checkLogin, hfind, if_pos hblocked]
        simp only [loginEvents, hfind, if_pos hblocked, hend]
        exact ⟨.refl username ctx, hnothing⟩
      · -- a lockout that is over comes first
        have hover := touches_lockoutOver hregular.limit username user
        have hfound := lockoutOver_findUser hfind
        have hcount := guesses_of_findUser hfound
        have hafter := hover.regular hregular
        have hexpired : Accounts ctx.maxFailedAttempts (ctx.guesses username)
            (unlockExpired user).failedAttempts
            (if user.status = .locked then [.expired] else []) := by
          have hbefore := guesses_of_findUser hfind
          by_cases hlocked : user.status = .locked
          · rw [if_pos hlocked, unlockExpired, if_pos hlocked]
            exact accounts_renewed rfl hbounds.2 (Int.le_refl 0)
          · rw [if_neg hlocked, unlockExpired, if_neg hlocked]
            exact accounts_nil hbounds.2 (Int.le_of_eq hbefore)
        simp only [loginEvents, hfind, if_neg hblocked]
        have hcheck := checkLogin_of_open verify password hfind hblocked
        by_cases hactive : (unlockExpired user).status = .active
        · rw [if_neg (not_not_intro hactive)] at hcheck ⊢
          cases hverify : verify password user.salt user.passwordHash with
          | false =>
              have hleft : (unlockExpired user).failedAttempts < ctx.maxFailedAttempts := by
                rw [← hover.limit]
                exact hafter.left _ (findUser_mem hfound) hactive
              have hnonneg := (hafter.counted _ (findUser_mem hfound)).1
              rw [hverify, Bool.not_false, if_pos rfl] at hcheck
              rw [Bool.not_false, if_pos rfl, login, hcheck]
              refine ⟨hover.trans (touches_failedLogin hfound ?_ now), hexpired.append ?_⟩
              · rw [hover.limit]
                omega
              · dsimp only
                rw [guesses_failedLogin hfound]
                exact accounts_failed hleft
          | true =>
              rw [hverify, Bool.not_true, if_neg Bool.false_ne_true] at hcheck
              rw [Bool.not_true, if_neg Bool.false_ne_true, login, hcheck]
              dsimp only
              have hopened := touches_openSession (hover.limit ▸ hregular.limit)
                (unlockExpired user) username token now
              refine ⟨hover.trans hopened, hexpired.append ?_⟩
              have hle : (unlockExpired user).failedAttempts ≤ ctx.maxFailedAttempts := by
                rw [← hover.limit]
                exact (hafter.counted _ (findUser_mem hfound)).2
              cases hslot : ((ctx.lockoutOver username user).openSession (unlockExpired user)
                  username token now).2 with
              | none =>
                  rw [guesses_openSession hslot, hcount]
                  exact accounts_nil hle (Int.le_refl _)
              | some slot =>
                  exact accounts_renewed rfl hle
                    ((hopened.regular hafter).guesses_bounds username).1
        · rw [if_pos hactive] at hcheck ⊢
          rw [login, hcheck, List.append_nil]
          dsimp only
          rw [hcount]
          exact ⟨hover, hexpired⟩

/-! ## Administration -/

/-- A new user has made no guesses. -/
theorem createUser_counts {role salt hash : CStr}
    (hcreate : ctx.createUser username password role salt hash = some ctx') :
    ∃ user : User, user.failedAttempts = 0 ∧ ctx' = { ctx with users := ctx.users ++ [user] } := by
  unfold createUser at hcreate
  split at hcreate
  · cases hcreate
  · split at hcreate
    · cases hcreate
    · split at hcreate
      · cases hcreate
      · cases hcreate
        exact ⟨_, rfl, rfl⟩

/-- What a call does to an account, and that none gets beyond the limit. -/
structure Counts (account : CStr) (ctx ctx' : SecurityContext) (events : List AccountEvent) :
    Prop where
  limit : ctx'.maxFailedAttempts = ctx.maxFailedAttempts
  regular : ctx'.Regular
  accounts : Accounts ctx.maxFailedAttempts (ctx.guesses account) (ctx'.guesses account) events

theorem counts_of_touches (hregular : ctx.Regular) (htouches : Touches username ctx ctx')
    (hkept : ctx.guesses account ≤ ctx'.guesses account) : Counts account ctx ctx' [] :=
  ⟨htouches.limit, htouches.regular hregular,
    accounts_nil (hregular.guesses_bounds account).2 hkept⟩

theorem counts_modifyUser (hregular : ctx.Regular) (hf : KeepsLimit ctx.maxFailedAttempts f)
    (hcount : ∀ u, (f u).failedAttempts = u.failedAttempts) (username account : CStr) :
    Counts account ctx (ctx.modifyUser username f) [] :=
  counts_of_touches hregular (touches_modifyUser hf username)
    (Int.le_of_eq (guesses_modifyUser hf.username hcount username account).symm)

theorem counts_refl (hregular : ctx.Regular) (account : CStr) : Counts account ctx ctx [] :=
  counts_of_touches hregular (.refl account ctx) (Int.le_refl _)

/-- A change that leaves the status and the count. -/
theorem keepsLimit_of_eq {limit : Int} (hname : ∀ u, (f u).username = u.username)
    (hstatus : ∀ u, (f u).status = u.status)
    (hcount : ∀ u, (f u).failedAttempts = u.failedAttempts) : KeepsLimit limit f where
  username := hname
  counted u hu := by
    rw [hcount]
    exact hu
  left u hu := by
    rw [hcount, hstatus]
    exact hu

theorem counts_createUser (hregular : ctx.Regular) {role salt hash : CStr}
    (hcreate : ctx.createUser username password role salt hash = some ctx') (account : CStr) :
    Counts account ctx ctx' [] := by
  obtain ⟨user, hzero, rfl⟩ := createUser_counts hcreate
  have hafter : Regular { ctx with users := ctx.users ++ [user] } := by
    refine ⟨hregular.limit, fun found hfound => ?_, fun found hfound => ?_⟩
    · rcases List.mem_append.mp hfound with hfound | hfound
      · exact hregular.counted found hfound
      · rw [List.mem_singleton.mp hfound, hzero]
        exact ⟨Int.le_refl 0, Int.le_of_lt hregular.limit⟩
    · rcases List.mem_append.mp hfound with hfound | hfound
      · exact hregular.left found hfound
      · intro _
        rw [List.mem_singleton.mp hfound, hzero]
        exact hregular.limit
  refine ⟨rfl, hafter, accounts_nil (hregular.guesses_bounds account).2 ?_⟩
  cases hfind : ctx.findUser account with
  | none =>
      rw [guesses, hfind]
      exact (hafter.guesses_bounds account).1
  | some found =>
      have hfind' : findUser { ctx with users := ctx.users ++ [user] } account = some found := by
        rw [findUser, List.find?_append]
        exact (Option.or_of_isSome (Option.isSome_of_eq_some hfind)).trans hfind
      rw [guesses_of_findUser hfind, guesses_of_findUser hfind']

theorem counts_deleteUser (hregular : ctx.Regular)
    (hdelete : ctx.deleteUser username = some ctx') (account : CStr) :
    Counts account ctx ctx' (if username = account then [.deleted] else []) := by
  have hafter : ctx'.Regular := by
    rw [deleteUser_eq_some hdelete]
    exact ⟨hregular.limit,
      fun found hfound => hregular.counted found (List.mem_of_mem_eraseIdx hfound),
      fun found hfound => hregular.left found (List.mem_of_mem_eraseIdx hfound)⟩
  have hlimit : ctx'.maxFailedAttempts = ctx.maxFailedAttempts := by
    rw [deleteUser_eq_some hdelete]
  refine ⟨hlimit, hafter, ?_⟩
  split
  · exact accounts_renewed rfl (hregular.guesses_bounds account).2
      (hafter.guesses_bounds account).1
  · next hne =>
      have hfind : ctx'.findUser account = ctx.findUser account := by
        rw [deleteUser_eq_some hdelete]
        refine find?_eraseIdx_findIdx_of_disjoint (fun u hu => ?_) ctx.users
        have hu : u.username = username := by simpa using hu
        simp [hu, hne]
      rw [guesses, guesses, hfind]
      exact accounts_nil (hregular.guesses_bounds account).2 (Int.le_refl _)

theorem counts_unlockUser (hregular : ctx.Regular)
    (hunlock : ctx.unlockUser username = some ctx') (account : CStr) :
    Counts account ctx ctx' (if username = account then [.unlocked] else []) := by
  have htouches : Touches username ctx ctx' := by
    have hunlocks : KeepsLimit ctx.maxFailedAttempts fun u =>
        { u with status := .active, failedAttempts := 0, lockoutUntil := 0 } :=
      ⟨fun _ => rfl, fun _ _ => ⟨Int.le_refl 0, Int.le_of_lt hregular.limit⟩,
        fun _ _ _ => hregular.limit⟩
    rw [unlockUser_eq_some hunlock]
    exact touches_modifyUser hunlocks username
  have hafter := htouches.regular hregular
  refine ⟨htouches.limit, hafter, ?_⟩
  split
  · exact accounts_renewed rfl (hregular.guesses_bounds account).2
      (hafter.guesses_bounds account).1
  · next hne =>
      rw [guesses, guesses, htouches.others account fun heq => hne heq.symm]
      exact accounts_nil (hregular.guesses_bounds account).2 (Int.le_refl _)

theorem counts_lockUser (hregular : ctx.Regular)
    (hlock : ctx.lockUser username now = some ctx') (account : CStr) :
    Counts account ctx ctx' [] := by
  have hlocks : KeepsLimit ctx.maxFailedAttempts fun u =>
      { u with status := .locked, lockoutUntil := now + ctx.lockoutDuration } :=
    ⟨fun _ => rfl, fun _ hu => hu, fun _ _ hactive => UserStatus.noConfusion hactive⟩
  rw [lockUser_eq_some hlock]
  exact counts_modifyUser hregular hlocks (fun _ => rfl) username account

/-- A change of a user that is not about logins. -/
theorem counts_edit (hregular : ctx.Regular) (hname : ∀ u, (f u).username = u.username)
    (hstatus : ∀ u, (f u).status = u.status)
    (hcount : ∀ u, (f u).failedAttempts = u.failedAttempts) (username account : CStr) :
    Counts account ctx (ctx.modifyUser username f) [] :=
  counts_modifyUser hregular (keepsLimit_of_eq hname hstatus hcount) hcount username account

theorem counts_getD {result : Option SecurityContext} (hregular : ctx.Regular)
    (hresult : ∀ after, result = some after → Counts account ctx after []) :
    Counts account ctx (result.getD ctx) [] := by
  cases result with
  | none => exact counts_refl hregular account
  | some after => exact hresult after rfl

theorem administer_counts (hregular : ctx.Regular) (call : AdminCall) (account : CStr) :
    Counts account ctx (ctx.administer call) (ctx.events verify account (.admin call)) := by
  cases call with
  | createUser username password role salt hash =>
      exact counts_getD hregular fun after hcreate => counts_createUser hregular hcreate account
  | deleteUser username =>
      rw [administer, events]
      cases hdelete : ctx.deleteUser username with
      | none => simpa using counts_refl hregular account
      | some after => simpa using counts_deleteUser hregular hdelete account
  | changePassword username newPassword salt hash =>
      refine counts_getD hregular fun after hchange => ?_
      rw [changePassword_eq_some hchange]
      exact counts_edit hregular (by simp) (by simp) (by simp) username account
  | lockUser username now =>
      exact counts_getD hregular fun after hlock => counts_lockUser hregular hlock account
  | unlockUser username =>
      rw [administer, events]
      cases hunlock : ctx.unlockUser username with
      | none => simpa using counts_refl hregular account
      | some after => simpa using counts_unlockUser hregular hunlock account
  | createRole name permissions =>
      refine counts_getD hregular fun after hcreate => ?_
      obtain ⟨_, role, rfl⟩ := createRole_eq_some hcreate
      exact counts_of_touches hregular (touches_of_eq (by rfl) (by rfl) account) (Int.le_refl _)
  | deleteRole name =>
      refine counts_getD hregular fun after hdelete => ?_
      rw [deleteRole_eq_some hdelete]
      exact counts_of_touches hregular (touches_of_eq (by rfl) (by rfl) account) (Int.le_refl _)
  | grantRole username rolename =>
      refine counts_getD hregular fun after hgrant => ?_
      rcases grantRole_eq_some hgrant with rfl | rfl
      · exact counts_refl hregular account
      · exact counts_edit hregular (by simp) (by simp) (by simp) username account
  | revokeRole username rolename =>
      refine counts_getD hregular fun after hrevoke => ?_
      rw [revokeRole_eq_some hrevoke]
      exact counts_edit hregular (by simp) (by simp) (by simp) username account

/-- A call on the session table counts nothing. -/
theorem counts_sameAccounts (hregular : ctx.Regular) (hsame : ctx.SameAccounts ctx')
    (hlimit : ctx'.maxFailedAttempts = ctx.maxFailedAttempts) (account : CStr) :
    Counts account ctx ctx' [] := by
  refine counts_of_touches hregular (touches_of_eq hlimit hsame.1 account) ?_
  rw [guesses, guesses, findUser, findUser, hsame.1]

theorem logout_limit (ctx : SecurityContext) (token : CStr) :
    (ctx.logout token).maxFailedAttempts = ctx.maxFailedAttempts := by
  unfold logout
  cases ctx.sessionSlot token with
  | none => rfl
  | some i => rfl

theorem touchSession_limit (ctx : SecurityContext) (token : CStr) (now : Int) :
    (ctx.touchSession token now).maxFailedAttempts = ctx.maxFailedAttempts := by
  unfold touchSession
  cases ctx.sessionSlot token with
  | none => rfl
  | some i => rfl

theorem validateSession_counts (hregular : ctx.Regular) (token : CStr) (now : Int)
    (account : CStr) : Counts account ctx (ctx.validateSession token now).1 [] := by
  unfold validateSession
  cases ctx.findSession token with
  | none => exact counts_refl hregular account
  | some session =>
      dsimp only
      split
      · exact counts_refl hregular account
      · split
        · exact counts_sameAccounts hregular (logout_sameAccounts ctx token)
            (logout_limit ctx token) account
        · exact counts_refl hregular account

/-- A call counts what it does. -/
theorem handle_counts (verify : CStr → CStr → CStr → Bool) (hregular : ctx.Regular)
    (call : AccountCall) (account : CStr) :
    Counts account ctx (ctx.handle verify call) (ctx.events verify account call) := by
  cases call with
  | login username password token now =>
      obtain ⟨htouches, haccounts⟩ :=
        login_accounts verify hregular username password token now
      by_cases hsame : username = account
      · subst hsame
        rw [events, if_pos rfl]
        exact ⟨htouches.limit, htouches.regular hregular, haccounts⟩
      · rw [events, if_neg hsame]
        exact counts_of_touches hregular htouches
          (Int.le_of_eq (htouches.guesses fun heq => hsame heq.symm).symm)
  | logout token =>
      exact counts_sameAccounts hregular (logout_sameAccounts ctx token) (logout_limit ctx token)
        account
  | touch token now =>
      exact counts_sameAccounts hregular (touchSession_sameAccounts ctx token now)
        (touchSession_limit ctx token now) account
  | validate token now => exact validateSession_counts hregular token now account
  | cleanup now =>
      exact counts_sameAccounts hregular (cleanupFrom_sameAccounts ctx now ctx.sessionCount)
        (cleanupFrom_limit ctx now ctx.sessionCount) account
  | admin call => exact administer_counts hregular call account

/-! ## Runs -/

theorem trace_within (verify : CStr → CStr → CStr → Bool) (hregular : ctx.Regular)
    (account : CStr) (calls : List AccountCall) (hused : (used : Int) ≤ ctx.guesses account) :
    Budget.Within AccountEvent.fails AccountEvent.renews ctx.maxFailedAttempts.toNat used
      (ctx.trace verify account calls) := by
  induction calls generalizing ctx used with
  | nil =>
      have hlimit := (hregular.guesses_bounds account).2
      exact (accounts_nil hlimit (Int.le_refl _)).within used hused
  | cons call calls ih =>
      obtain ⟨hlimit, hafter, haccounts⟩ := handle_counts verify hregular call account
      rw [trace, Budget.within_append]
      refine ⟨haccounts.within used hused, ?_⟩
      rw [← hlimit]
      exact ih hafter (haccounts.counted used hused)

theorem regular_default : SecurityContext.default.Regular where
  limit := by decide
  counted _ := nofun
  left _ := nofun

/-- A server that starts without a file has its default user. -/
theorem regular_securityInit (salt hash : CStr) : (securityInit none salt hash).ctx.Regular := by
  unfold securityInit
  cases hcreate : SecurityContext.default.createUser (CStr.lit "admin") (CStr.lit "Admin@123")
      (CStr.lit "superadmin") salt hash with
  | none => exact regular_default
  | some ctx => exact (counts_createUser regular_default hcreate (CStr.lit "admin")).regular

/-- And so does one that starts with what another has saved. -/
theorem regular_restart (hregular : ctx.Regular)
    (hlimit : ctx.maxFailedAttempts = SecurityContext.default.maxFailedAttempts)
    (salt hash : CStr) : (securityInit (some ctx.save) salt hash).ctx.Regular := by
  unfold securityInit
  rw [load_save]
  have hcounted := hregular.counted
  have hleft := hregular.left
  rw [hlimit] at hcounted hleft
  exact ⟨regular_default.limit, hcounted, hleft⟩

end SecurityContext

/-- However an account is attacked, it is locked in time. -/
theorem lockout_holds (verify : CStr → CStr → CStr → Bool) (start : SecurityContext)
    (hstart : start.Regular) (calls : List AccountCall) : start.LockoutHolds verify calls where
  closed username password token now user hfind hlocked huntil := by
    have hblocked : user.status = .locked ∧ user.lockoutUntil > now := ⟨hlocked, huntil⟩
    simp only [SecurityContext.login, SecurityContext.checkLogin, hfind, if_pos hblocked]
  bounded account stretch hin hnone := by
    have hzero : ((0 : Nat) : Int) ≤ start.guesses account := (hstart.guesses_bounds account).1
    have hwithin := SecurityContext.trace_within verify hstart account calls hzero
    have hle := hwithin.countP_le hin hnone
    have hlimit := hstart.limit
    omega

/-- Six guesses at the first user of a new server. -/
theorem lockout_holds_newServer :
    (securityInit none (CStr.lit "") (CStr.lit "")).ctx.LockoutHolds (fun _ _ _ => false)
      (List.replicate 6 (.login (CStr.lit "admin") (CStr.lit "guess") (CStr.lit "") 0)) :=
  lockout_holds _ _ (SecurityContext.regular_securityInit _ _) _

end Server
end InventixDB
