import InventixDB.Server.SessionTable
import Mathlib.Data.Finset.Card

/-!
# LoginThrottle — failed logins counted by address

A connection gets a pointer into the table of addresses when it is accepted.  The table has room
for `MAX_CLIENTS` addresses and lets none of them go.  A connection that comes too late gets no
pointer, and nothing counts its logins.
-/

namespace InventixDB
namespace Server

open Storage

/-! ## Trackers -/

/-- The text of an address.  It has room in a `char [64]`, so `strncpy` copies all of it. -/
abbrev Address := { ip : CStr // ip.length < 64 }

structure IPTracker where
  ip : Address
  failedLogins : Nat
  lockoutUntil : Nat
  queriesThisMinute : Nat
  minuteStart : Nat
  lastActivity : Nat

/-- `MAX_CLIENTS`, `MAX_LOGIN_ATTEMPTS`, `LOGIN_LOCKOUT_SECONDS`, `MAX_QUERIES_PER_MINUTE` -/
def maxClients : Nat := 256
def maxLoginAttempts : Nat := 5
def loginLockoutSeconds : Nat := 300
def maxQueriesPerMinute : Nat := 1000

namespace IPTracker

def fresh (ip : Address) (now : Nat) : IPTracker where
  ip := ip
  failedLogins := 0
  lockoutUntil := 0
  queriesThisMinute := 0
  minuteStart := now
  lastActivity := now

variable (t : IPTracker)

/-- The clock is read a second time for the lockout that is over. -/
def isIpLockedOut (now again : Nat) : IPTracker × Bool :=
  if t.lockoutUntil > 0 ∧ now < t.lockoutUntil then (t, true)
  else if t.lockoutUntil > 0 ∧ again ≥ t.lockoutUntil then
    ({ t with failedLogins := 0, lockoutUntil := 0 }, false)
  else (t, false)

def checkRateLimit (now : Nat) : IPTracker × Bool :=
  let t := if now - t.minuteStart ≥ 60 then { t with queriesThisMinute := 0, minuteStart := now }
    else t
  let t := { t with queriesThisMinute := t.queriesThisMinute + 1, lastActivity := now }
  (t, t.queriesThisMinute ≤ maxQueriesPerMinute)

def recordFailedLogin (now : Nat) : IPTracker :=
  let t := { t with failedLogins := t.failedLogins + 1 }
  if t.failedLogins ≥ maxLoginAttempts then { t with lockoutUntil := now + loginLockoutSeconds }
  else t

def recordSuccessfulLogin : IPTracker :=
  { t with failedLogins := 0, lockoutUntil := 0 }

end IPTracker

/-- `g_ip_tracker` and `g_ip_tracker_count` -/
structure TrackerTable where
  trackers : Nat → IPTracker
  count : Nat
  room : count ≤ maxClients

namespace TrackerTable

variable (table : TrackerTable)

def findOrCreateIpTracker (ip : Address) (now : Nat) : TrackerTable × Option Nat :=
  match (List.range table.count).find? fun p => (table.trackers p).ip = ip with
  | some p => (table, some p)
  | none =>
      if hroom : table.count < maxClients then
        ({ trackers := Function.update table.trackers table.count (.fresh ip now)
           count := table.count + 1
           room := hroom }, some table.count)
      else (table, none)

/-- What a call makes of the tracker behind a pointer; a null pointer is left alone. -/
def modify (p : Option Nat) (f : IPTracker → IPTracker) : TrackerTable :=
  match p with
  | none => table
  | some p => { table with trackers := Function.update table.trackers p (f (table.trackers p)) }

end TrackerTable

/-! ## Attempts -/

/-- What became of a login: refused without `security_login`, or let through to it. -/
inductive Outcome
  | refused
  | failed
  | succeeded
  deriving DecidableEq

/-- A login from an address, when it was checked and when it was recorded. -/
structure Attempt where
  ip : Address
  start : Nat
  finish : Nat
  outcome : Outcome

/-- The failed logins in a row.  The last attempt is in front; the count starts again with a success
and with a lockout. -/
def streak : List Attempt → Nat
  | [] => 0
  | a :: earlier =>
      match a.outcome with
      | .refused => streak earlier
      | .succeeded => 0
      | .failed => if streak earlier + 1 = maxLoginAttempts then 0 else streak earlier + 1

/-- When the lockouts began: with the last of `MAX_LOGIN_ATTEMPTS` failed logins in a row. -/
def lockouts : List Attempt → List Nat
  | [] => []
  | a :: earlier =>
      if a.outcome = .failed ∧ streak earlier + 1 = maxLoginAttempts then
        a.finish :: lockouts earlier
      else lockouts earlier

/-- Every attempt within a lockout is refused. -/
def Throttled : List Attempt → Prop
  | [] => True
  | a :: earlier =>
      (∀ began ∈ lockouts earlier, a.start < began + loginLockoutSeconds → a.outcome = .refused) ∧
        Throttled earlier

/-! ## The server -/

variable {ι : Type*}

/-- What `client_handler` knows of its client. -/
structure Peer where
  clientIp : Address
  ipTracker : Option Nat

/-- `clock` is what `time` gives, and `attempts` is a history variable: the logins so far, the last
one in front. -/
structure LoginServer (ι : Type*) where
  clients : Clients ι
  peers : ι → Option Peer
  table : TrackerTable
  clock : Nat
  attempts : List Attempt

/-- The seconds that pass before the rate limit, before each of the two looks at the lockout, and
before the outcome is recorded. -/
structure Waits where
  limit : Nat
  check : Nat
  again : Nat
  record : Nat

inductive Traffic (ι : Type*)
  | connect (i : ι) (ip : Address) (wait : Nat)
  | call (a : Action ι) (waits : Waits)

/-- The connection a command comes from. -/
def Action.sender : Action ι → Option ι
  | .login i .. => some i
  | .logout i => some i
  | .command i .. => some i
  | .disconnect _ | .cleanup _ | .admin _ => none

namespace LoginServer

variable (env : ServerEnv) (verify : CStr → CStr → CStr → Bool) [DecidableEq ι]
  (s : LoginServer ι)

/-- What the call does to accounts, sessions and connections.  One that does not return does
nothing more. -/
def act (a : Action ι) : Clients ι :=
  (s.clients.step env verify a).getD s.clients

/-- `handle_login`.  `security_login` reads the clock for itself. -/
def handleLogin (i : ι) (peer : Peer) (username password token : CStr) (now : Int)
    (waits : Waits) : LoginServer ι :=
  let start := s.clock + waits.check
  let again := start + waits.again
  let locked := peer.ipTracker.any fun p => ((s.table.trackers p).isIpLockedOut start again).2
  let table := s.table.modify peer.ipTracker fun t => (t.isIpLockedOut start again).1
  if locked then
    { s with
      table := table
      clock := again
      attempts :=
        { ip := peer.clientIp, start := start, finish := again, outcome := .refused } ::
          s.attempts }
  else
    let finish := again + waits.record
    match (s.clients.security.login verify username password token now).2 with
    | some _ =>
        { s with
          clients := s.act env verify (.login i username password token now)
          table := table.modify peer.ipTracker IPTracker.recordSuccessfulLogin
          clock := finish
          attempts :=
            { ip := peer.clientIp, start := start, finish := finish, outcome := .succeeded } ::
              s.attempts }
    | none =>
        { s with
          clients := s.act env verify (.login i username password token now)
          table := table.modify peer.ipTracker fun t => t.recordFailedLogin finish
          clock := finish
          attempts :=
            { ip := peer.clientIp, start := start, finish := finish, outcome := .failed } ::
              s.attempts }

/-- A command that the rate limit stops. -/
def refuse (peer : Peer) : Action ι → LoginServer ι
  | .login .. =>
      { s with
        attempts :=
          { ip := peer.clientIp, start := s.clock, finish := s.clock, outcome := .refused } ::
            s.attempts }
  | _ => s

/-- A command that the rate limit lets through. -/
def perform (peer : Option Peer) (waits : Waits) : Action ι → LoginServer ι
  | .login i username password token now =>
      match peer with
      | none => s
      | some peer => s.handleLogin env verify i peer username password token now waits
  | a => { s with clients := s.act env verify a }

/-- The accept loop takes a connection, or `client_handler` a command. -/
def step : Traffic ι → LoginServer ι
  | .connect i ip wait =>
      let now := s.clock + wait
      let (table, tracker) := s.table.findOrCreateIpTracker ip now
      { s with
        clients := { s.clients with conns := Function.update s.clients.conns i Client.fresh }
        peers := Function.update s.peers i (some { clientIp := ip, ipTracker := tracker })
        table := table
        clock := now }
  | .call a waits =>
      let now := s.clock + waits.limit
      let peer := a.sender.bind s.peers
      let tracker := peer.bind Peer.ipTracker
      let limited := tracker.any fun p => !((s.table.trackers p).checkRateLimit now).2
      let s :=
        { s with
          table := s.table.modify tracker fun t => (t.checkRateLimit now).1
          clock := now }
      if limited then peer.elim s fun peer => s.refuse peer a
      else s.perform env verify peer waits a

/-- Connections and commands, in any order. -/
def run (traffic : List (Traffic ι)) : LoginServer ι :=
  traffic.foldl (fun s a => s.step env verify a) s

/-- The server before its first connection. -/
def initial (security : SecurityContext) (trackers : Nat → IPTracker) (clock : Nat) :
    LoginServer ι where
  clients := Clients.initial security
  peers := fun _ => none
  table := { trackers := trackers, count := 0, room := Nat.zero_le _ }
  clock := clock
  attempts := []

/-- The logins from an address. -/
def attemptsFrom (ip : Address) : List Attempt :=
  s.attempts.filter fun a => a.ip = ip

end LoginServer

/-- When the address first connects, fewer than `MAX_CLIENTS` others have. -/
def InTime (ip : Address) : Finset Address → List (Traffic ι) → Prop
  | _, [] => True
  | seen, .connect _ other _ :: traffic =>
      (other = ip → ip ∉ seen → seen.card < maxClients) ∧ InTime ip (insert other seen) traffic
  | seen, .call _ _ :: traffic => InTime ip seen traffic

/-! ## One tracker -/

theorem streak_lt (attempts : List Attempt) : streak attempts < maxLoginAttempts := by
  induction attempts with
  | nil => decide
  | cons a earlier ih =>
      rw [streak]
      cases a.outcome with
      | refused => exact ih
      | succeeded => exact (by decide : 0 < maxLoginAttempts)
      | failed =>
          dsimp only
          split
          · decide
          · next hne => exact Nat.lt_of_le_of_ne ih hne

/-- The tracker counts what has happened to its address by `now`. -/
structure Books (now : Nat) (t : IPTracker) (attempts : List Attempt) : Prop where
  counts : t.lockoutUntil = 0 → t.failedLogins = streak attempts
  past : t.lockoutUntil = 0 → ∀ began ∈ lockouts attempts, began + loginLockoutSeconds ≤ now
  locked : 0 < t.lockoutUntil → streak attempts = 0
  holds : 0 < t.lockoutUntil →
    ∀ began ∈ lockouts attempts, began + loginLockoutSeconds ≤ t.lockoutUntil

namespace Books

variable {now later start finish : Nat} {ip : Address} {t t' : IPTracker}
  {attempts : List Attempt}

theorem fresh (ip : Address) (now : Nat) : Books now (IPTracker.fresh ip now) [] where
  counts := fun _ => rfl
  past := fun _ _ h => nomatch h
  locked := fun h => nomatch h
  holds := fun _ _ h => nomatch h

theorem mono (hbooks : Books now t attempts) (hle : now ≤ later) : Books later t attempts where
  counts := hbooks.counts
  past := fun h began hbegan => (hbooks.past h began hbegan).trans hle
  locked := hbooks.locked
  holds := hbooks.holds

/-- Only the two fields of the count matter. -/
theorem congr (hbooks : Books now t attempts) (hfailed : t'.failedLogins = t.failedLogins)
    (huntil : t'.lockoutUntil = t.lockoutUntil) : Books now t' attempts where
  counts := by rw [huntil, hfailed]; exact hbooks.counts
  past := by rw [huntil]; exact hbooks.past
  locked := by rw [huntil]; exact hbooks.locked
  holds := by rw [huntil]; exact hbooks.holds

theorem refused (hbooks : Books now t attempts) :
    Books now t (⟨ip, start, finish, .refused⟩ :: attempts) := by
  have hlockouts : lockouts (⟨ip, start, finish, .refused⟩ :: attempts) = lockouts attempts :=
    if_neg fun h => nomatch h.1
  exact ⟨hbooks.counts, hlockouts ▸ hbooks.past, hbooks.locked, hlockouts ▸ hbooks.holds⟩

/-- An address that is not locked out: its lockouts are over, and the count goes on. -/
theorem passed (hbooks : Books now t attempts) {start again : Nat} (hstart : now ≤ start)
    (hagain : start ≤ again) (hpassed : (t.isIpLockedOut start again).2 = false) :
    Books start (t.isIpLockedOut start again).1 attempts ∧
      (t.isIpLockedOut start again).1.lockoutUntil = 0 := by
  unfold IPTracker.isIpLockedOut at hpassed ⊢
  split at hpassed
  next => cases hpassed
  next hopen =>
      rw [if_neg hopen]
      rcases Nat.eq_zero_or_pos t.lockoutUntil with hzero | hpos
      · rw [if_neg fun h => absurd hzero (Nat.ne_of_gt h.1)]
        exact ⟨hbooks.mono hstart, hzero⟩
      · have hended : t.lockoutUntil ≤ start := Nat.not_lt.mp fun h => hopen ⟨hpos, h⟩
        rw [if_pos ⟨hpos, hended.trans hagain⟩]
        refine ⟨⟨fun _ => (hbooks.locked hpos).symm, fun _ began hbegan => ?_,
          (fun h => nomatch h), (fun h => nomatch h)⟩, rfl⟩
        exact (hbooks.holds hpos began hbegan).trans hended

theorem failed (hbooks : Books now t attempts) (hopen : t.lockoutUntil = 0) (hnow : now ≤ finish) :
    Books finish (t.recordFailedLogin finish) (⟨ip, start, finish, .failed⟩ :: attempts) := by
  have hcount := hbooks.counts hopen
  have hbefore : ∀ began ∈ lockouts attempts, began + loginLockoutSeconds ≤ finish :=
    fun began hbegan => (hbooks.past hopen began hbegan).trans hnow
  have hlt := streak_lt attempts
  unfold IPTracker.recordFailedLogin
  rw [hcount]
  by_cases hlast : streak attempts + 1 = maxLoginAttempts
  · have hstreak : streak (⟨ip, start, finish, .failed⟩ :: attempts) = 0 := if_pos hlast
    have hlockouts : lockouts (⟨ip, start, finish, .failed⟩ :: attempts) =
        finish :: lockouts attempts := if_pos ⟨rfl, hlast⟩
    rw [if_pos (Nat.le_of_eq hlast.symm)]
    refine ⟨(fun h => nomatch h), (fun h => nomatch h), fun _ => hstreak, fun _ began hbegan => ?_⟩
    rw [hlockouts] at hbegan
    rcases List.mem_cons.mp hbegan with rfl | hbegan
    · exact Nat.le_refl _
    · exact (hbefore began hbegan).trans (Nat.le_add_right _ _)
  · have hstreak : streak (⟨ip, start, finish, .failed⟩ :: attempts) = streak attempts + 1 :=
      if_neg hlast
    have hlockouts : lockouts (⟨ip, start, finish, .failed⟩ :: attempts) = lockouts attempts :=
      if_neg fun h => hlast h.2
    rw [if_neg (by dsimp only; omega)]
    refine ⟨fun _ => hstreak.symm, fun _ => hlockouts ▸ hbefore, fun h => ?_, fun h => ?_⟩
    · exact absurd hopen (Nat.ne_of_gt h)
    · exact absurd hopen (Nat.ne_of_gt h)

theorem succeeded (hbooks : Books now t attempts) (hopen : t.lockoutUntil = 0)
    (hnow : now ≤ finish) :
    Books finish t.recordSuccessfulLogin (⟨ip, start, finish, .succeeded⟩ :: attempts) := by
  have hlockouts : lockouts (⟨ip, start, finish, .succeeded⟩ :: attempts) = lockouts attempts :=
    if_neg fun h => nomatch h.1
  refine ⟨fun _ => rfl, fun _ => ?_, (fun h => nomatch h), (fun h => nomatch h)⟩
  rw [hlockouts]
  exact fun began hbegan => (hbooks.past hopen began hbegan).trans hnow

end Books

/-! ## The table -/

namespace TrackerTable

variable {table : TrackerTable} {f g : IPTracker → IPTracker} {tracker : Option Nat}

/-- The address is found, put at the end, or comes too late. -/
theorem findOrCreateIpTracker_cases (table : TrackerTable) (ip : Address) (now : Nat) :
    (∃ p < table.count, (table.trackers p).ip = ip ∧
      table.findOrCreateIpTracker ip now = (table, some p)) ∨
    (∀ p < table.count, (table.trackers p).ip ≠ ip) ∧
      ((∃ hroom : table.count < maxClients, table.findOrCreateIpTracker ip now =
        ({ trackers := Function.update table.trackers table.count (.fresh ip now)
           count := table.count + 1
           room := hroom }, some table.count)) ∨
      maxClients ≤ table.count ∧ table.findOrCreateIpTracker ip now = (table, none)) := by
  unfold findOrCreateIpTracker
  cases hfind : (List.range table.count).find? fun p => (table.trackers p).ip = ip with
  | some p =>
      have hp := List.find?_some hfind
      exact .inl ⟨p, List.mem_range.mp (List.mem_of_find?_eq_some hfind), of_decide_eq_true hp, rfl⟩
  | none =>
      have hnone := List.find?_eq_none.mp hfind
      refine .inr ⟨fun p hp h => hnone p (List.mem_range.mpr hp) (decide_eq_true h), ?_⟩
      by_cases hroom : table.count < maxClients
      · exact .inl ⟨hroom, dif_pos hroom⟩
      · exact .inr ⟨Nat.not_lt.mp hroom, dif_neg hroom⟩

@[simp]
theorem count_modify : (table.modify tracker f).count = table.count := by
  cases tracker <;> rfl

@[simp]
theorem trackers_modify_self (p : Nat) :
    (table.modify (some p) f).trackers p = f (table.trackers p) :=
  Function.update_self _ _ _

theorem trackers_modify_of_ne {p q : Nat} (hq : q ≠ p) :
    (table.modify (some p) f).trackers q = table.trackers q :=
  Function.update_of_ne hq _ _

theorem modify_modify :
    (table.modify tracker f).modify tracker g = table.modify tracker fun t => g (f t) := by
  cases tracker with
  | none => rfl
  | some p =>
      simp only [modify, Function.update_self, Function.update_idem]

theorem modify_id (table : TrackerTable) (tracker : Option Nat) :
    (table.modify tracker fun t => t) = table := by
  cases tracker with
  | none => rfl
  | some p =>
      simp only [modify, Function.update_eq_self]

theorem ip_modify (hf : ∀ t, (f t).ip = t.ip) (q : Nat) :
    ((table.modify tracker f).trackers q).ip = (table.trackers q).ip := by
  cases tracker with
  | none => rfl
  | some p =>
      by_cases hq : q = p
      · rw [hq, trackers_modify_self, hf]
      · rw [trackers_modify_of_ne hq]

end TrackerTable

/-! ## One step -/

/-- The table holds addresses that have connected, each of them once.  The connections from an
address have its tracker, and those from `ip` have one. -/
structure Addressed (seen : Finset Address) (ip : Address) (table : TrackerTable)
    (peers : ι → Option Peer) : Prop where
  distinct : ∀ p < table.count, ∀ q < table.count,
    (table.trackers p).ip = (table.trackers q).ip → p = q
  listed : ∀ p < table.count, (table.trackers p).ip ∈ seen
  pointer : ∀ i, ∀ peer ∈ peers i, ∀ p ∈ peer.ipTracker,
    p < table.count ∧ (table.trackers p).ip = peer.clientIp
  tracked : ip ∈ seen → ∃ p < table.count, (table.trackers p).ip = ip
  held : ∀ i, ∀ peer ∈ peers i, peer.clientIp = ip → ∃ p, peer.ipTracker = some p

/-- What holds between two steps for an address that connected in time. -/
structure Kept (seen : Finset Address) (ip : Address) (s : LoginServer ι) : Prop where
  addressed : Addressed seen ip s.table s.peers
  known : ∀ i, ∀ peer ∈ s.peers i, peer.clientIp ∈ seen
  quiet : ip ∉ seen → s.attemptsFrom ip = []
  books : ∀ p < s.table.count, (s.table.trackers p).ip = ip →
    Books s.clock (s.table.trackers p) (s.attemptsFrom ip)
  throttled : Throttled (s.attemptsFrom ip)

section Steps

variable {seen : Finset Address} {ip other : Address} {s : LoginServer ι} {table : TrackerTable}
  {peers : ι → Option Peer} {peer : Peer} {f : IPTracker → IPTracker} {later : Nat}

theorem Addressed.modify (h : Addressed seen ip table peers) (hf : ∀ t, (f t).ip = t.ip)
    (tracker : Option Nat) : Addressed seen ip (table.modify tracker f) peers where
  distinct := by
    intro p hp q hq heq
    rw [TrackerTable.ip_modify hf, TrackerTable.ip_modify hf] at heq
    rw [TrackerTable.count_modify] at hp hq
    exact h.distinct p hp q hq heq
  listed := by
    intro p hp
    rw [TrackerTable.ip_modify hf]
    exact h.listed p (TrackerTable.count_modify ▸ hp)
  pointer := by
    intro i peer hpeer p hp
    rw [TrackerTable.ip_modify hf, TrackerTable.count_modify]
    exact h.pointer i peer hpeer p hp
  tracked := by
    intro hseen
    obtain ⟨p, hp, hip⟩ := h.tracked hseen
    exact ⟨p, TrackerTable.count_modify.symm ▸ hp, (TrackerTable.ip_modify hf p).trans hip⟩
  held := h.held

/-- A step of a connection: what it does to its own tracker and to the history of its address is all
that counts. -/
theorem Kept.advance (h : Kept seen ip s) {i : ι} (hpeer : s.peers i = some peer)
    (hf : ∀ t, (f t).ip = t.ip) (hlater : s.clock ≤ later) (clients : Clients ι)
    {attempts : List Attempt}
    (hother : peer.clientIp ≠ ip → (attempts.filter fun a => a.ip = ip) = s.attemptsFrom ip)
    (hown : peer.clientIp = ip → ∀ p, peer.ipTracker = some p →
      Books s.clock (s.table.trackers p) (s.attemptsFrom ip) →
        Books later (f (s.table.trackers p)) (attempts.filter fun a => a.ip = ip) ∧
          Throttled (attempts.filter fun a => a.ip = ip)) :
    Kept seen ip
      { clients := clients
        peers := s.peers
        table := s.table.modify peer.ipTracker f
        clock := later
        attempts := attempts } := by
  have haddressed := h.addressed.modify hf peer.ipTracker
  by_cases hip : peer.clientIp = ip
  · obtain ⟨p, hp⟩ := h.addressed.held i peer hpeer hip
    obtain ⟨hcount, hpip⟩ := h.addressed.pointer i peer hpeer p hp
    obtain ⟨hbooks, hthrottled⟩ := hown hip p hp (h.books p hcount (hpip.trans hip))
    refine ⟨haddressed, h.known, fun hseen => ?_, fun q hq hqip => ?_, hthrottled⟩
    · exact absurd (hip ▸ h.known i peer hpeer) hseen
    · -- the tracker of the address is the one of the connection
      rw [TrackerTable.ip_modify hf] at hqip
      rw [TrackerTable.count_modify] at hq
      have hqp : q = p := h.addressed.distinct q hq p hcount (hqip.trans (hpip.trans hip).symm)
      dsimp only [LoginServer.attemptsFrom]
      rw [hqp, hp, TrackerTable.trackers_modify_self]
      exact hbooks
  · have hsame := hother hip
    refine ⟨haddressed, h.known, fun hseen => hsame.trans (h.quiet hseen), fun q hq hqip => ?_, ?_⟩
    · rw [TrackerTable.ip_modify hf] at hqip
      rw [TrackerTable.count_modify] at hq
      have hbooks := (h.books q hq hqip).mono hlater
      dsimp only [LoginServer.attemptsFrom]
      rw [hsame]
      cases hp : peer.ipTracker with
      | none => exact hbooks
      | some p =>
          have hqp : q ≠ p := by
            rintro rfl
            exact hip ((h.addressed.pointer i peer hpeer q hp).2.symm.trans hqip)
          rw [TrackerTable.trackers_modify_of_ne hqp]
          exact hbooks
    · dsimp only [LoginServer.attemptsFrom]
      rw [hsame]
      exact h.throttled

/-- An attempt from another address leaves the history of `ip` alone. -/
theorem filter_cons_other {a : Attempt} (ha : a.ip ≠ ip) :
    ((a :: s.attempts).filter fun a => a.ip = ip) = s.attemptsFrom ip :=
  List.filter_cons_of_neg fun h => ha (of_decide_eq_true h)

theorem filter_cons_own {a : Attempt} (ha : a.ip = ip) :
    ((a :: s.attempts).filter fun a => a.ip = ip) = a :: s.attemptsFrom ip :=
  List.filter_cons_of_pos (decide_eq_true ha)

theorem ip_isIpLockedOut (t : IPTracker) (start again : Nat) :
    (t.isIpLockedOut start again).1.ip = t.ip := by
  unfold IPTracker.isIpLockedOut
  split
  · rfl
  · split <;> rfl

theorem isIpLockedOut_locked {t : IPTracker} {start again : Nat}
    (hlocked : (t.isIpLockedOut start again).2 = true) : (t.isIpLockedOut start again).1 = t := by
  unfold IPTracker.isIpLockedOut at hlocked ⊢
  split at hlocked
  next hopen => rw [if_pos hopen]
  next => split at hlocked <;> cases hlocked

theorem checkRateLimit_fields (t : IPTracker) (now : Nat) :
    (t.checkRateLimit now).1.ip = t.ip ∧
      (t.checkRateLimit now).1.failedLogins = t.failedLogins ∧
        (t.checkRateLimit now).1.lockoutUntil = t.lockoutUntil := by
  unfold IPTracker.checkRateLimit
  dsimp only
  split <;> exact ⟨rfl, rfl, rfl⟩

theorem ip_recordFailedLogin (t : IPTracker) (now : Nat) :
    (t.recordFailedLogin now).ip = t.ip := by
  unfold IPTracker.recordFailedLogin
  dsimp only
  split <;> rfl

/-- A connection is given the tracker of its address, or none. -/
theorem Addressed.connected [DecidableEq ι] (h : Addressed seen ip table peers) (i : ι)
    {tracker : Option Nat}
    (htracker : ∀ p ∈ tracker, p < table.count ∧ (table.trackers p).ip = other)
    (hown : other = ip → ∃ p, tracker = some p) :
    Addressed (insert other seen) ip table
      (Function.update peers i (some { clientIp := other, ipTracker := tracker })) where
  distinct := h.distinct
  listed := fun p hp => Finset.mem_insert_of_mem (h.listed p hp)
  pointer := by
    intro j peer hpeer p hp
    by_cases hj : j = i
    · rw [hj, Function.update_self] at hpeer
      cases hpeer
      exact htracker p hp
    · rw [Function.update_of_ne hj] at hpeer
      exact h.pointer j peer hpeer p hp
  tracked := by
    intro hseen
    rcases Finset.mem_insert.mp hseen with rfl | hseen
    · obtain ⟨p, hp⟩ := hown rfl
      exact ⟨p, htracker p hp⟩
    · exact h.tracked hseen
  held := by
    intro j peer hpeer hip
    by_cases hj : j = i
    · rw [hj, Function.update_self] at hpeer
      cases hpeer
      exact hown hip
    · rw [Function.update_of_ne hj] at hpeer
      exact h.held j peer hpeer hip

/-- A new address behind the others. -/
theorem Addressed.added (h : Addressed seen ip table peers)
    (hnew : ∀ p < table.count, (table.trackers p).ip ≠ other) (hroom : table.count < maxClients)
    (now : Nat) :
    Addressed (insert other seen) ip
      { trackers := Function.update table.trackers table.count (.fresh other now)
        count := table.count + 1
        room := hroom } peers where
  distinct := by
    intro p hp q hq heq
    dsimp only at hp hq heq
    rcases Nat.lt_succ_iff_lt_or_eq.mp hp with hp | rfl <;>
      rcases Nat.lt_succ_iff_lt_or_eq.mp hq with hq | rfl
    · rw [Function.update_of_ne (Nat.ne_of_lt hp), Function.update_of_ne (Nat.ne_of_lt hq)] at heq
      exact h.distinct p hp q hq heq
    · rw [Function.update_of_ne (Nat.ne_of_lt hp), Function.update_self] at heq
      exact absurd heq (hnew p hp)
    · rw [Function.update_self, Function.update_of_ne (Nat.ne_of_lt hq)] at heq
      exact absurd heq.symm (hnew q hq)
    · rfl
  listed := by
    intro p hp
    dsimp only at hp ⊢
    rcases Nat.lt_succ_iff_lt_or_eq.mp hp with hp | rfl
    · rw [Function.update_of_ne (Nat.ne_of_lt hp)]
      exact Finset.mem_insert_of_mem (h.listed p hp)
    · rw [Function.update_self]
      exact Finset.mem_insert_self _ _
  pointer := by
    intro i peer hpeer p hp
    obtain ⟨hcount, hip⟩ := h.pointer i peer hpeer p hp
    dsimp only
    rw [Function.update_of_ne (Nat.ne_of_lt hcount)]
    exact ⟨hcount.trans (Nat.lt_succ_self _), hip⟩
  tracked := by
    intro hseen
    dsimp only
    rcases Finset.mem_insert.mp hseen with rfl | hseen
    · exact ⟨table.count, Nat.lt_succ_self _, by rw [Function.update_self]; rfl⟩
    · obtain ⟨p, hp, hip⟩ := h.tracked hseen
      exact ⟨p, hp.trans (Nat.lt_succ_self _), by rwa [Function.update_of_ne (Nat.ne_of_lt hp)]⟩
  held := h.held

/-- The table never holds more addresses than have connected. -/
theorem Addressed.count_le_card (h : Addressed seen ip table peers) : table.count ≤ seen.card := by
  have hle := Finset.card_le_card_of_injOn (fun p => (table.trackers p).ip)
    (fun p hp => h.listed p (Finset.mem_range.mp hp))
    (fun p hp q hq => h.distinct p (Finset.mem_range.mp hp) q (Finset.mem_range.mp hq))
  rwa [Finset.card_range] at hle

/-- An address that connects in time gets a tracker, and no other loses its own. -/
theorem Kept.connect [DecidableEq ι] (env : ServerEnv) (verify : CStr → CStr → CStr → Bool)
    (h : Kept seen ip s) (i : ι) (wait : Nat)
    (htime : other = ip → ip ∉ seen → seen.card < maxClients) :
    Kept (insert other seen) ip (s.step env verify (.connect i other wait)) := by
  have hlater : s.clock ≤ s.clock + wait := Nat.le_add_right _ _
  have hquiet : ip ∉ insert other seen → s.attemptsFrom ip = [] :=
    fun hseen => h.quiet fun hmem => hseen (Finset.mem_insert_of_mem hmem)
  have hknown : ∀ tracker j, ∀ peer ∈ Function.update s.peers i
      (some { clientIp := other, ipTracker := tracker }) j, peer.clientIp ∈ insert other seen := by
    intro tracker j peer hpeer
    by_cases hj : j = i
    · rw [hj, Function.update_self] at hpeer
      cases hpeer
      exact Finset.mem_insert_self _ _
    · rw [Function.update_of_ne hj] at hpeer
      exact Finset.mem_insert_of_mem (h.known j peer hpeer)
  have hunseen : (∀ p < s.table.count, (s.table.trackers p).ip ≠ other) → other = ip →
      ip ∉ seen := by
    rintro hnew rfl hseen
    obtain ⟨p, hp, hip⟩ := h.addressed.tracked hseen
    exact hnew p hp hip
  rw [LoginServer.step]
  rcases s.table.findOrCreateIpTracker_cases other (s.clock + wait) with
    ⟨p, hp, hip, hfound⟩ | ⟨hnew, ⟨hroom, hadded⟩ | ⟨hfull, hlate⟩⟩
  · rw [hfound]
    refine ⟨h.addressed.connected i ?_ fun _ => ⟨p, rfl⟩, hknown _, hquiet, ?_, h.throttled⟩
    · rintro q ⟨⟩
      exact ⟨hp, hip⟩
    · exact fun q hq hqip => (h.books q hq hqip).mono hlater
  · rw [hadded]
    have hadded' := h.addressed.added hnew hroom (s.clock + wait)
    have htracker : ∀ p ∈ some s.table.count, p < s.table.count + 1 ∧
        (Function.update s.table.trackers s.table.count (.fresh other (s.clock + wait)) p).ip =
          other := by
      rintro _ ⟨⟩
      exact ⟨Nat.lt_succ_self _, by rw [Function.update_self]; rfl⟩
    have haddressed := @Addressed.connected ι _ ip other _ _ _ hadded' i (some s.table.count)
      htracker fun _ => ⟨_, rfl⟩
    rw [Finset.insert_idem] at haddressed
    refine ⟨haddressed, hknown _, hquiet, fun q hq hqip => ?_, h.throttled⟩
    dsimp only at hq hqip ⊢
    rcases Nat.lt_succ_iff_lt_or_eq.mp hq with hq | rfl
    · rw [Function.update_of_ne (Nat.ne_of_lt hq)] at hqip ⊢
      exact (h.books q hq hqip).mono hlater
    · rw [Function.update_self] at hqip ⊢
      replace hqip : other = ip := hqip
      have hempty : (s.attempts.filter fun a => a.ip = ip) = [] := h.quiet (hunseen hnew hqip)
      rw [LoginServer.attemptsFrom, hempty]
      exact Books.fresh other _
  · rw [hlate]
    refine ⟨h.addressed.connected i (fun q hq => nomatch hq) fun hip => ?_, hknown _, hquiet,
      fun q hq hqip => (h.books q hq hqip).mono hlater, h.throttled⟩
    -- the address is new, so there was room for it
    have hroom := htime hip (hunseen hnew hip)
    have hcount := h.addressed.count_le_card
    omega

/-- A login that is refused. -/
theorem Kept.refuse (h : Kept seen ip s) {i : ι} (hpeer : s.peers i = some peer) (a : Action ι) :
    Kept seen ip (s.refuse peer a) := by
  cases a with
  | login j username password token now =>
      rw [LoginServer.refuse, ← TrackerTable.modify_id s.table peer.ipTracker]
      refine h.advance hpeer (f := fun t => t) (fun _ => rfl) (Nat.le_refl _) s.clients
        (fun hip => filter_cons_other hip) fun hip p hp hbooks => ?_
      rw [filter_cons_own hip]
      exact ⟨hbooks.refused, fun _ _ _ => rfl, h.throttled⟩
  | _ => exact h

/-- `handle_login` keeps the books of its address. -/
theorem Kept.handleLogin [DecidableEq ι] (env : ServerEnv) (verify : CStr → CStr → CStr → Bool)
    (h : Kept seen ip s) {i : ι} (hpeer : s.peers i = some peer) (username password token : CStr)
    (now : Int) (waits : Waits) :
    Kept seen ip (s.handleLogin env verify i peer username password token now waits) := by
  have hstart : s.clock ≤ s.clock + waits.check := Nat.le_add_right _ _
  have hagain : s.clock + waits.check ≤ s.clock + waits.check + waits.again := Nat.le_add_right _ _
  have hfinish : s.clock + waits.check + waits.again ≤
      s.clock + waits.check + waits.again + waits.record := Nat.le_add_right _ _
  unfold LoginServer.handleLogin
  dsimp only
  split
  next hlocked =>
      refine h.advance hpeer (fun t => ip_isIpLockedOut t _ _) (hstart.trans hagain) _
        (fun hip => filter_cons_other hip) fun hip p hp hbooks => ?_
      rw [filter_cons_own hip]
      rw [hp, Option.any_some] at hlocked
      rw [isIpLockedOut_locked hlocked]
      exact ⟨(hbooks.mono (hstart.trans hagain)).refused, fun _ _ _ => rfl, h.throttled⟩
  next hpassed =>
      -- the lockouts of the address are over when it is let through
      have hover : peer.clientIp = ip → ∀ p, peer.ipTracker = some p →
          Books s.clock (s.table.trackers p) (s.attemptsFrom ip) →
            Books (s.clock + waits.check)
              ((s.table.trackers p).isIpLockedOut (s.clock + waits.check)
                (s.clock + waits.check + waits.again)).1 (s.attemptsFrom ip) ∧
            ((s.table.trackers p).isIpLockedOut (s.clock + waits.check)
              (s.clock + waits.check + waits.again)).1.lockoutUntil = 0 := by
        intro _ p hp hbooks
        rw [hp, Option.any_some, Bool.not_eq_true] at hpassed
        exact hbooks.passed hstart hagain hpassed
      have hlater := (hstart.trans hagain).trans hfinish
      split
      next _ hanswer =>
          rw [TrackerTable.modify_modify]
          refine h.advance hpeer (f := fun t => (t.isIpLockedOut _ _).1.recordSuccessfulLogin)
            (fun t => ip_isIpLockedOut t _ _) hlater _ (fun hip => filter_cons_other hip)
            fun hip p hp hbooks => ?_
          obtain ⟨hbooks, hopen⟩ := hover hip p hp hbooks
          rw [filter_cons_own hip]
          refine ⟨hbooks.succeeded hopen (hagain.trans hfinish), fun began hbegan hearly => ?_,
            h.throttled⟩
          exact absurd hearly (Nat.not_lt.mpr (hbooks.past hopen began hbegan))
      next hanswer =>
          rw [TrackerTable.modify_modify]
          refine h.advance hpeer (f := fun t => (t.isIpLockedOut _ _).1.recordFailedLogin _)
            (fun t => (ip_recordFailedLogin _ _).trans (ip_isIpLockedOut t _ _)) hlater _
            (fun hip => filter_cons_other hip) fun hip p hp hbooks => ?_
          obtain ⟨hbooks, hopen⟩ := hover hip p hp hbooks
          rw [filter_cons_own hip]
          refine ⟨hbooks.failed hopen (hagain.trans hfinish), fun began hbegan hearly => ?_,
            h.throttled⟩
          exact absurd hearly (Nat.not_lt.mpr (hbooks.past hopen began hbegan))

theorem Kept.perform [DecidableEq ι] (env : ServerEnv) (verify : CStr → CStr → CStr → Bool)
    (h : Kept seen ip s) (waits : Waits) (a : Action ι) :
    Kept seen ip (s.perform env verify (a.sender.bind s.peers) waits a) := by
  cases a with
  | login i username password token now =>
      cases hpeer : (Action.login i username password token now).sender.bind s.peers with
      | none => exact h
      | some peer => exact h.handleLogin env verify hpeer username password token now waits
  | _ => exact ⟨h.addressed, h.known, h.quiet, h.books, h.throttled⟩

/-- The rate limit counts the command and leaves the failed logins alone. -/
theorem Kept.limited (h : Kept seen ip s) (a : Action ι) (hlater : s.clock ≤ later) :
    Kept seen ip
      { s with
        table := s.table.modify ((a.sender.bind s.peers).bind Peer.ipTracker) fun t =>
          (t.checkRateLimit later).1
        clock := later } := by
  cases hpeer : a.sender.bind s.peers with
  | none =>
      exact ⟨h.addressed, h.known, h.quiet, fun p hp hip => (h.books p hp hip).mono hlater,
        h.throttled⟩
  | some peer =>
      obtain ⟨i, _, hpeer⟩ := Option.bind_eq_some_iff.mp hpeer
      refine h.advance hpeer (fun t => (checkRateLimit_fields t later).1) hlater s.clients
        (fun _ => rfl) fun _ p _ hbooks => ?_
      obtain ⟨_, hfailed, huntil⟩ := checkRateLimit_fields (s.table.trackers p) later
      exact ⟨(hbooks.mono hlater).congr hfailed huntil, h.throttled⟩

theorem Kept.call [DecidableEq ι] (env : ServerEnv) (verify : CStr → CStr → CStr → Bool)
    (h : Kept seen ip s) (a : Action ι) (waits : Waits) :
    Kept seen ip (s.step env verify (.call a waits)) := by
  have hkept := h.limited a (Nat.le_add_right s.clock waits.limit)
  rw [LoginServer.step]
  split
  next =>
      cases hpeer : a.sender.bind s.peers with
      | none =>
          rw [hpeer] at hkept
          exact hkept
      | some peer =>
          obtain ⟨i, _, hi⟩ := Option.bind_eq_some_iff.mp hpeer
          rw [hpeer] at hkept
          exact hkept.refuse hi a
  next => exact hkept.perform env verify waits a

end Steps

/-- In a run, an address that connects in time stays throttled. -/
theorem Kept.run [DecidableEq ι] (env : ServerEnv) (verify : CStr → CStr → CStr → Bool)
    {ip : Address} {traffic : List (Traffic ι)} {seen : Finset Address} {s : LoginServer ι}
    (h : Kept seen ip s) (htime : InTime ip seen traffic) :
    ∃ after, Kept after ip (s.run env verify traffic) := by
  induction traffic generalizing seen s with
  | nil => exact ⟨seen, h⟩
  | cons a traffic ih =>
      cases a with
      | connect i other wait => exact ih (h.connect env verify i wait htime.1) htime.2
      | call a waits => exact ih (h.call env verify a waits) htime

/-- Where an address connects in time, its logins are throttled whatever others do. -/
theorem throttled_of_inTime [DecidableEq ι] (env : ServerEnv)
    (verify : CStr → CStr → CStr → Bool) (security : SecurityContext)
    (trackers : Nat → IPTracker) (clock : Nat) (traffic : List (Traffic ι)) (ip : Address)
    (htime : InTime ip ∅ traffic) :
    Throttled (((LoginServer.initial security trackers clock).run env verify
      traffic).attemptsFrom ip) := by
  have hinitial : Kept ∅ ip (LoginServer.initial (ι := ι) security trackers clock) := by
    refine ⟨⟨fun p hp => ?_, fun p hp => ?_, fun i peer hpeer => ?_, fun hseen => ?_,
      fun i peer hpeer => ?_⟩, fun i peer hpeer => ?_, fun _ => rfl, fun p hp => ?_, trivial⟩
    · exact absurd hp (Nat.not_lt_zero p)
    · exact absurd hp (Nat.not_lt_zero p)
    · cases hpeer
    · cases hseen
    · cases hpeer
    · cases hpeer
    · exact absurd hp (Nat.not_lt_zero p)
  obtain ⟨seen, hkept⟩ := hinitial.run env verify htime
  exact hkept.throttled

theorem inTime_calls (ip : Address) (seen : Finset Address) (calls : List (Action ι))
    (waits : Waits) : InTime ip seen (calls.map fun a => .call a waits) := by
  induction calls with
  | nil => trivial
  | cons a calls ih => exact ih

/-- An address that is not among the `localAddress`es. -/
def lateAddress : Address :=
  ⟨CStr.lit "10.0.1.0", by decide⟩

/-- A connection from the address, and six wrong passwords on it. -/
def guesses : List (Traffic Unit) :=
  .connect () lateAddress 0 ::
    (List.replicate 6 (.login () (CStr.lit "root") (CStr.lit "guess") (CStr.lit "") 0)).map
      fun a => .call a ⟨0, 0, 0, 0⟩

theorem inTime_guesses : InTime lateAddress ∅ guesses := by
  rw [guesses, InTime]
  exact ⟨fun _ _ => (by decide : 0 < maxClients), inTime_calls _ _ _ _⟩

/-- The address connects first. -/
theorem throttled_guesses :
    Throttled (((LoginServer.initial officeContext (fun _ => .fresh lateAddress 0) 0).run plainEnv
      officeVerify guesses).attemptsFrom lateAddress) := by
  have hthrottled := throttled_of_inTime plainEnv officeVerify officeContext
    (fun _ => .fresh lateAddress 0) 0 _ _ inTime_guesses
  exact hthrottled

/-! ## An address that comes too late -/

def localAddress (n : Fin 256) : Address :=
  ⟨CStr.lit "10.0.0." ++ CStr.ofInt n.val, by
    have hdigits : (CStr.decimal n.val).length ≤ 3 := by
      rw [CStr.decimal, List.length_reverse]
      exact CStr.length_digitsRev_le (Nat.lt_trans n.isLt (by decide))
    have hfront : (CStr.lit "10.0.0.").val.length = 7 := rfl
    rw [CStr.length, CStr.val_append, CStr.val_ofInt_natCast, List.length_append, hfront]
    omega⟩

theorem localAddress_injective : Function.Injective localAddress := by
  intro m n heq
  have htext := congrArg (fun a : Address => a.val.val) heq
  dsimp only [localAddress] at htext
  rw [CStr.val_append, CStr.val_append, CStr.val_ofInt_natCast, CStr.val_ofInt_natCast] at htext
  have hvalue := congrArg CStr.digitsValue (List.append_cancel_left htext)
  rw [CStr.digitsValue_decimal, CStr.digitsValue_decimal] at hvalue
  exact Fin.ext (Int.ofNat_inj.mp hvalue)

theorem localAddress_ne_lateAddress (n : Fin 256) : localAddress n ≠ lateAddress := by
  intro heq
  have hfront := congrArg (fun a : Address => a.val.val.take 7) heq
  dsimp only [localAddress] at hfront
  have hlength : (CStr.lit "10.0.0.").val.length = 7 := rfl
  rw [CStr.val_append, List.take_left' hlength] at hfront
  exact absurd hfront (by decide)

section Late

variable [DecidableEq ι] (env : ServerEnv) (verify : CStr → CStr → CStr → Bool) (i : ι)
  {s : LoginServer ι} {ip : Address}

/-- A new address takes the next place. -/
theorem step_connect_new (hnew : ∀ p < s.table.count, (s.table.trackers p).ip ≠ ip)
    (hroom : s.table.count < maxClients) :
    (s.step env verify (.connect i ip 0)).table.count = s.table.count + 1 ∧
      ((s.step env verify (.connect i ip 0)).table.trackers s.table.count).ip = ip ∧
      (∀ p < s.table.count,
        (s.step env verify (.connect i ip 0)).table.trackers p = s.table.trackers p) ∧
      (s.step env verify (.connect i ip 0)).clock = s.clock ∧
      (s.step env verify (.connect i ip 0)).attempts = s.attempts := by
  rw [LoginServer.step]
  rcases s.table.findOrCreateIpTracker_cases ip (s.clock + 0) with
    ⟨p, hp, hip, _⟩ | ⟨_, ⟨_, hadded⟩ | ⟨hfull, _⟩⟩
  · exact absurd hip (hnew p hp)
  · rw [hadded]
    refine ⟨rfl, ?_, fun p hp => ?_, rfl, rfl⟩
    · dsimp only
      rw [Function.update_self]
      rfl
    · exact Function.update_of_ne (Nat.ne_of_lt hp) _ _
  · exact absurd hroom (Nat.not_lt.mpr hfull)

/-- Addresses that are all different fill the table. -/
theorem run_connect {addresses : List Address}
    (hnew : ∀ a ∈ addresses, ∀ p < s.table.count, (s.table.trackers p).ip ≠ a)
    (hnodup : addresses.Nodup) (hroom : s.table.count + addresses.length ≤ maxClients)
    (hlate : ip ∉ addresses) (hother : ∀ p < s.table.count, (s.table.trackers p).ip ≠ ip) :
    ∃ full, s.run env verify (addresses.map fun a => .connect i a 0) = full ∧
      full.table.count = s.table.count + addresses.length ∧
      (∀ p < full.table.count, (full.table.trackers p).ip ≠ ip) ∧ full.clock = s.clock ∧
      full.attempts = s.attempts := by
  induction addresses generalizing s with
  | nil => exact ⟨s, rfl, rfl, hother, rfl, rfl⟩
  | cons a addresses ih =>
      obtain ⟨ha, hnodup⟩ := List.nodup_cons.mp hnodup
      obtain ⟨hnewa, hnew⟩ := List.forall_mem_cons.mp hnew
      obtain ⟨hne, hlate⟩ := not_or.mp (mt List.mem_cons.mpr hlate)
      rw [List.length_cons] at hroom
      obtain ⟨hcount, hip, hold, hclock, hattempts⟩ :=
        step_connect_new env verify i hnewa (by omega)
      -- no place is taken by an address that is still to come
      have hplaces : ∀ b, b ≠ a → (∀ p < s.table.count, (s.table.trackers p).ip ≠ b) →
          ∀ p < (s.step env verify (.connect i a 0)).table.count,
            ((s.step env verify (.connect i a 0)).table.trackers p).ip ≠ b := by
        intro b hb hfree p hp
        rw [hcount] at hp
        rcases Nat.lt_succ_iff_lt_or_eq.mp hp with hp | rfl
        · rw [hold p hp]
          exact hfree p hp
        · rw [hip]
          exact hb.symm
      obtain ⟨full, hrun, hfull, hfree, htime, hlog⟩ := ih
        (fun b hb => hplaces b (fun heq => ha (heq ▸ hb)) (hnew b hb)) hnodup
        (by rw [hcount]; omega) hlate (hplaces ip hne hother)
      refine ⟨full, hrun, ?_, hfree, htime.trans hclock, hlog.trans hattempts⟩
      rw [hfull, hcount, List.length_cons]
      omega

/-- A connection that comes too late has no tracker. -/
theorem step_connect_late (hnew : ∀ p < s.table.count, (s.table.trackers p).ip ≠ ip)
    (hfull : s.table.count = maxClients) :
    (s.step env verify (.connect i ip 0)).peers i = some { clientIp := ip, ipTracker := none } ∧
      (s.step env verify (.connect i ip 0)).clock = s.clock ∧
      (s.step env verify (.connect i ip 0)).attempts = s.attempts := by
  rw [LoginServer.step]
  rcases s.table.findOrCreateIpTracker_cases ip (s.clock + 0) with
    ⟨p, hp, hip, _⟩ | ⟨_, ⟨hroom, _⟩ | ⟨_, hlate⟩⟩
  · exact absurd hip (hnew p hp)
  · exact absurd hroom (Nat.not_lt.mpr (Nat.le_of_eq hfull.symm))
  · rw [hlate]
    exact ⟨Function.update_self _ _ _, rfl, rfl⟩

theorem step_login_late {username password token : CStr} {now : Int}
    (hwrong : ∀ ctx : SecurityContext, (ctx.login verify username password token now).2 = none)
    (hpeer : s.peers i = some { clientIp := ip, ipTracker := none }) :
    (s.step env verify (.call (.login i username password token now) ⟨0, 0, 0, 0⟩)).peers =
        s.peers ∧
      (s.step env verify (.call (.login i username password token now) ⟨0, 0, 0, 0⟩)).clock =
        s.clock ∧
      (s.step env verify (.call (.login i username password token now) ⟨0, 0, 0, 0⟩)).attempts =
        ⟨ip, s.clock, s.clock, .failed⟩ :: s.attempts := by
  have hsender : (Action.login i username password token now).sender.bind s.peers =
      some { clientIp := ip, ipTracker := none } := hpeer
  have hanswer := hwrong s.clients.security
  simp only [LoginServer.step, hsender, Option.bind_some, Option.any_none, Bool.false_eq_true,
    if_false, LoginServer.perform, LoginServer.handleLogin, TrackerTable.modify, Nat.add_zero,
    hanswer, and_self]

/-- Without a tracker every wrong password reaches `security_login`. -/
theorem run_login_late {username password token : CStr} {now : Int}
    (hwrong : ∀ ctx : SecurityContext, (ctx.login verify username password token now).2 = none)
    (hpeer : s.peers i = some { clientIp := ip, ipTracker := none }) (n : Nat) :
    (s.run env verify ((List.replicate n (.login i username password token now)).map
      fun a => .call a ⟨0, 0, 0, 0⟩)).attempts =
      List.replicate n ⟨ip, s.clock, s.clock, .failed⟩ ++ s.attempts := by
  induction n generalizing s with
  | zero => rfl
  | succ n ih =>
      obtain ⟨hpeers, hclock, hattempts⟩ := step_login_late env verify i hwrong hpeer
      rw [List.replicate_succ, List.map_cons, LoginServer.run, List.foldl_cons]
      refine (ih (hpeers ▸ hpeer)).trans ?_
      rw [hclock, hattempts, List.replicate_succ', List.append_assoc]
      rfl

end Late

/-- No password is right. -/
theorem login_wrong (ctx : SecurityContext) (username password token : CStr) (now : Int) :
    (ctx.login (fun _ _ _ => false) username password token now).2 = none := by
  unfold SecurityContext.login SecurityContext.checkLogin
  cases ctx.findUser username with
  | none => rfl
  | some user =>
      simp only [Bool.not_false, if_true]
      split_ifs <;> rfl

/-- The two hundred and fifty-seventh address guesses on. -/
theorem late_address_guesses : ¬ ∀ (env : ServerEnv) (verify : CStr → CStr → CStr → Bool)
    (security : SecurityContext) (trackers : Nat → IPTracker) (clock : Nat)
    (traffic : List (Traffic Unit)) (ip : Address),
    Throttled (((LoginServer.initial security trackers clock).run env verify
      traffic).attemptsFrom ip) := by
  intro h
  have hnodup : ((List.finRange 256).map localAddress).Nodup :=
    (List.nodup_finRange 256).map localAddress_injective
  have hlate : lateAddress ∉ (List.finRange 256).map localAddress := by
    rintro hmem
    obtain ⟨n, _, hn⟩ := List.mem_map.mp hmem
    exact localAddress_ne_lateAddress n hn
  have hlength : ((List.finRange 256).map localAddress).length = 256 := by
    rw [List.length_map, List.length_finRange]
  generalize (List.finRange 256).map localAddress = addresses at hnodup hlate hlength
  have hthrottled := h plainEnv (fun _ _ _ => false) officeContext
    (fun _ => .fresh lateAddress 0) 0 (addresses.map (fun a => .connect () a 0) ++ guesses)
    lateAddress
  generalize hstart : LoginServer.initial officeContext (fun _ => .fresh lateAddress 0) 0 = start
    at hthrottled
  have hcount : start.table.count = 0 := by rw [← hstart]; rfl
  have hempty : ∀ ip, ∀ p < start.table.count, (start.table.trackers p).ip ≠ ip := by
    intro ip p hp
    rw [hcount] at hp
    exact absurd hp (Nat.not_lt_zero p)
  obtain ⟨full, hrun, hfull, hfree, hclock, hattempts⟩ := run_connect plainEnv
    (fun _ _ _ => false) () (fun a _ => hempty a) hnodup
    (by rw [hcount, hlength]; exact Nat.le_refl _) hlate (hempty lateAddress)
  rw [hcount, hlength] at hfull
  obtain ⟨hpeer, hlater, hlog⟩ := step_connect_late plainEnv (fun _ _ _ => false) () hfree hfull
  have hguesses := run_login_late plainEnv (fun _ _ _ => false) ()
    (fun ctx => login_wrong ctx (CStr.lit "root") (CStr.lit "guess") (CStr.lit "") 0) hpeer 6
  rw [hlater, hlog, hattempts, hclock] at hguesses
  have hrest : (start.run plainEnv (fun _ _ _ => false)
      (addresses.map (fun a => .connect () a 0) ++ guesses)).attempts =
        List.replicate 6 ⟨lateAddress, start.clock, start.clock, .failed⟩ ++ start.attempts := by
    rw [LoginServer.run] at hrun
    rw [LoginServer.run, List.foldl_append, hrun, guesses, List.foldl_cons]
    exact hguesses
  have hnone : start.attempts = [] := by rw [← hstart]; rfl
  have hfrom : (List.replicate 6 (⟨lateAddress, start.clock, start.clock, .failed⟩ :
      Attempt)).filter (fun a => a.ip = lateAddress) =
        List.replicate 6 ⟨lateAddress, start.clock, start.clock, .failed⟩ :=
    List.filter_eq_self.mpr fun a ha => decide_eq_true (by rw [List.eq_of_mem_replicate ha])
  rw [LoginServer.attemptsFrom, hrest, hnone, List.append_nil, hfrom] at hthrottled
  -- the sixth attempt comes within the lockout that the fifth begins
  have hrefused := hthrottled.1 start.clock (List.mem_singleton.mpr rfl)
    (Nat.lt_add_of_pos_right (by decide : 0 < loginLockoutSeconds))
  cases hrefused

end Server
end InventixDB
