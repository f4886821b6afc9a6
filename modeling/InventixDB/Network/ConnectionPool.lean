import InventixDB.Lib.DoublyLinked
import InventixDB.Lib.Runs

/-!
# ConnectionPool — the array, the free list and the counts of a pool

A thread holds the pool's lock for one section at a time.  A thread that opens a socket in
`conn_pool_acquire` or `conn_pool_health_check` does so between two sections and enters the new
connection in the second one, whatever the count has become.
-/

namespace InventixDB
namespace Network

open Lib

/-- Where a connection lies. -/
abbrev ConnAddr := Nat

/-- `NET_POOL_MAX_SIZE` -/
def netPoolMaxSize : Nat := 256

/-- The first `count` cells of the array are `connections`. -/
structure ConnectionPool where
  minConnections : Nat
  maxConnections : Nat
  capacity : Nat
  connections : List ConnAddr
  freeList : Dll ConnAddr
  freeCount : Nat

/-- A pool with the connections allocated, those that threads hold, and the threads that open one
for `conn_pool_acquire` or for `conn_pool_health_check`. -/
structure PoolSystem where
  pool : ConnectionPool
  live : List ConnAddr
  inUse : List ConnAddr
  acquiring : Nat
  checking : Nat

namespace ConnectionPool

def count (p : ConnectionPool) : Nat :=
  p.connections.length

/-- `pool->connections[pool->count++] = conn` -/
def addConnection (p : ConnectionPool) (conn : ConnAddr) : ConnectionPool :=
  { p with connections := p.connections ++ [conn] }

/-- The connections behind it move up. -/
def removeConnection (p : ConnectionPool) (conn : ConnAddr) : ConnectionPool :=
  { p with connections := p.connections.erase conn }

def addToFreeList (p : ConnectionPool) (conn : ConnAddr) : ConnectionPool :=
  { p with freeList := p.freeList.pushFront conn, freeCount := p.freeCount + 1 }

end ConnectionPool

/-! ## Creation -/

/-- The minimum and maximum a pool gets. -/
def clampSizes (minConns maxConns : Nat) : Nat × Nat :=
  let minConns := if minConns > maxConns then maxConns else minConns
  let maxConns := if maxConns > netPoolMaxSize then netPoolMaxSize else maxConns
  let minConns := if minConns < 1 then 1 else minConns
  (minConns, maxConns)

namespace PoolSystem

/-- `create_pooled_connection`: a new connection, with its pointers cleared.  An address in use is
not given out again. -/
def createPooledConnection (s : PoolSystem) (conn : ConnAddr) : Option PoolSystem :=
  if conn ∈ s.live then none
  else
    some
      { s with
        pool := { s.pool with freeList := s.pool.freeList.detach conn }
        live := conn :: s.live }

/-- A connection opened for the pool itself. -/
def addFree (s : PoolSystem) (conn : ConnAddr) : PoolSystem :=
  { s with pool := (s.pool.addConnection conn).addToFreeList conn }

/-- The loop that opens the minimum; `none` stands for a connection that cannot be opened. -/
def preCreate : PoolSystem → List (Option ConnAddr) → Option PoolSystem
  | s, [] => some s
  | s, none :: opened => s.preCreate opened
  | s, some conn :: opened =>
      (s.createPooledConnection conn).bind fun s => (s.addFree conn).preCreate opened

end PoolSystem

def emptyPool (minConns maxConns : Nat) : PoolSystem where
  pool :=
    { minConnections := minConns
      maxConnections := maxConns
      capacity := maxConns
      connections := []
      freeList := Dll.empty
      freeCount := 0 }
  live := []
  inUse := []
  acquiring := 0
  checking := 0

/-- `conn_pool_create`, with the outcome of every round that opens a connection. -/
def connPoolCreate (minConns maxConns : Nat) (opened : List (Option ConnAddr)) :
    Option PoolSystem :=
  let (minConns, maxConns) := clampSizes minConns maxConns
  if opened.length = minConns then (emptyPool minConns maxConns).preCreate opened else none

/-! ## The sections under the lock -/

inductive PoolAction where
  /-- The section `conn_pool_acquire` starts with. -/
  | acquire
  /-- The section that enters the connection opened for `conn_pool_acquire`. -/
  | connected (conn : Option ConnAddr)
  /-- A thread opens a connection past the pool, after a miss. -/
  | direct (conn : ConnAddr)
  | release (conn : ConnAddr) (healthy : Bool)
  /-- The section `conn_pool_health_check` starts with; `dead` are stale and fail the ping. -/
  | healthCheck (dead : ConnAddr → Bool)
  /-- The section that enters a connection opened to reach the minimum. -/
  | replenished (conn : Option ConnAddr)

namespace PoolSystem

def acquire (s : PoolSystem) : PoolSystem :=
  match s.pool.freeList.head with
  | some conn =>
      { s with
        pool :=
          { s.pool with
            freeList := s.pool.freeList.popFront conn
            freeCount := s.pool.freeCount - 1 }
        inUse := conn :: s.inUse }
  | none =>
      if s.pool.count < s.pool.maxConnections then { s with acquiring := s.acquiring + 1 } else s

def connected (s : PoolSystem) (conn : Option ConnAddr) : Option PoolSystem :=
  if s.acquiring = 0 then none
  else
    let s := { s with acquiring := s.acquiring - 1 }
    match conn with
    | none => some s
    | some conn =>
        (s.createPooledConnection conn).map fun s =>
          { s with pool := s.pool.addConnection conn, inUse := conn :: s.inUse }

def direct (s : PoolSystem) (conn : ConnAddr) : Option PoolSystem :=
  (s.createPooledConnection conn).map fun s => { s with inUse := conn :: s.inUse }

/-- `conn_pool_release` by the thread that holds the connection; `healthy` is its state. -/
def release (s : PoolSystem) (conn : ConnAddr) (healthy : Bool) : Option PoolSystem :=
  if conn ∈ s.inUse then
    let s := { s with inUse := s.inUse.erase conn }
    if healthy then some { s with pool := s.pool.addToFreeList conn }
    else some { s with pool := s.pool.removeConnection conn, live := s.live.erase conn }
  else none

/-- A dead connection of the free list goes. -/
def removeDead (s : PoolSystem) (conn : ConnAddr) : PoolSystem :=
  { s with
    pool :=
      { s.pool with
        freeList := s.pool.freeList.unlink conn
        freeCount := s.pool.freeCount - 1 }.removeConnection conn
    live := s.live.erase conn }

/-- The walk along the free list, which reads `next` before it removes; `none` is no fuel left. -/
def checkFrom (dead : ConnAddr → Bool) : Nat → PoolSystem → Option ConnAddr → Option PoolSystem
  | _, s, none => some s
  | 0, _, some _ => none
  | fuel + 1, s, some conn =>
      let next := s.pool.freeList.next conn
      checkFrom dead fuel (if dead conn then s.removeDead conn else s) next

/-- A thread that finds too few connections opens one more. -/
def ensureMinimum (s : PoolSystem) : PoolSystem :=
  if s.pool.count < s.pool.minConnections then { s with checking := s.checking + 1 } else s

def healthCheck (s : PoolSystem) (dead : ConnAddr → Bool) : Option PoolSystem :=
  (checkFrom dead s.pool.freeCount s s.pool.freeList.head).map ensureMinimum

def replenished (s : PoolSystem) (conn : Option ConnAddr) : Option PoolSystem :=
  if s.checking = 0 then none
  else
    let s := { s with checking := s.checking - 1 }
    match conn with
    | none => some s
    | some conn => (s.createPooledConnection conn).map fun s => (s.addFree conn).ensureMinimum

def step (s : PoolSystem) : PoolAction → Option PoolSystem
  | .acquire => some s.acquire
  | .connected conn => s.connected conn
  | .direct conn => s.direct conn
  | .release conn healthy => s.release conn healthy
  | .healthCheck dead => s.healthCheck dead
  | .replenished conn => s.replenished conn

/-! ## What the pool accounts for -/

/-- The array holds no more than its bounds, and the free list is what no thread holds. -/
def Accounted (s : PoolSystem) : Prop :=
  s.pool.count ≤ s.pool.maxConnections ∧ s.pool.count ≤ s.pool.capacity ∧
    ∃ free, s.pool.freeList.Lists free ∧
      (∀ conn ∈ s.pool.connections, conn ∉ s.inUse → conn ∈ free) ∧
      (∀ conn ∈ free, conn ∉ s.inUse) ∧ s.pool.freeCount = free.length

/-- A connection is entered while the array has room for it. -/
def Room (s : PoolSystem) : PoolAction → Prop
  | .connected (some _) => s.pool.count < s.pool.maxConnections
  | .replenished (some _) => s.pool.count < s.pool.maxConnections
  | _ => True

instance decidableRoom (s : PoolSystem) : (a : PoolAction) → Decidable (s.Room a)
  | .connected (some _) => inferInstanceAs (Decidable (_ < _))
  | .replenished (some _) => inferInstanceAs (Decidable (_ < _))
  | .connected none | .replenished none | .acquire | .direct _ | .release _ _
  | .healthCheck _ => isTrue trivial

/-- The free list is `free`, apart from the connections in use, and nothing freed is left. -/
structure Kept (s : PoolSystem) (free : List ConnAddr) : Prop where
  lists : s.pool.freeList.Lists free
  idle : ∀ conn ∈ s.pool.connections, conn ∉ s.inUse → conn ∈ free
  notInUse : ∀ conn ∈ free, conn ∉ s.inUse
  freeCount : s.pool.freeCount = free.length
  connections : s.pool.connections.Nodup
  inUse : s.inUse.Nodup
  freeLive : ∀ conn ∈ free, conn ∈ s.live
  inUseLive : ∀ conn ∈ s.inUse, conn ∈ s.live
  connLive : ∀ conn ∈ s.pool.connections, conn ∈ s.live
  capacity : s.pool.capacity = s.pool.maxConnections

/-! ## Each section keeps the free list -/

section Sections

variable {s after : PoolSystem} {conn : ConnAddr} {free : List ConnAddr}

theorem kept_emptyPool (minConns maxConns : Nat) : (emptyPool minConns maxConns).Kept [] where
  lists := Dll.lists_empty
  idle := by rintro conn ⟨⟩
  notInUse := by rintro conn ⟨⟩
  freeCount := rfl
  connections := List.nodup_nil
  inUse := List.nodup_nil
  freeLive := by rintro conn ⟨⟩
  inUseLive := by rintro conn ⟨⟩
  connLive := by rintro conn ⟨⟩
  capacity := rfl

theorem createPooledConnection_eq_some :
    s.createPooledConnection conn = some after ↔
      conn ∉ s.live ∧
        after =
          { s with
            pool := { s.pool with freeList := s.pool.freeList.detach conn }
            live := conn :: s.live } := by
  rw [createPooledConnection, Option.ite_none_left_eq_some, Option.some_inj]
  exact and_congr_right fun _ => eq_comm

/-- A new connection that nobody has entered yet. -/
theorem Kept.createPooledConnection (hk : s.Kept free)
    (hcreate : s.createPooledConnection conn = some after) : after.Kept free := by
  obtain ⟨hnew, rfl⟩ := createPooledConnection_eq_some.mp hcreate
  have hfree : conn ∉ free := fun hmem => hnew (hk.freeLive conn hmem)
  exact
    { hk with
      lists := hk.lists.detach hfree
      freeLive := fun c hc => List.mem_cons_of_mem _ (hk.freeLive c hc)
      inUseLive := fun c hc => List.mem_cons_of_mem _ (hk.inUseLive c hc)
      connLive := fun c hc => List.mem_cons_of_mem _ (hk.connLive c hc) }

/-- A thread gets a connection that was not free. -/
theorem Kept.hold (hk : s.Kept free) (hlive : conn ∈ s.live) (hfree : conn ∉ free)
    (hnew : conn ∉ s.inUse) : Kept { s with inUse := conn :: s.inUse } free :=
  { hk with
    idle := fun c hc huse => hk.idle c hc fun hmem => huse (List.mem_cons_of_mem _ hmem)
    notInUse := by
      intro c hc huse
      rcases List.mem_cons.mp huse with rfl | huse
      · exact hfree hc
      · exact hk.notInUse c hc huse
    inUse := List.nodup_cons.mpr ⟨hnew, hk.inUse⟩
    inUseLive := List.forall_mem_cons.mpr ⟨hlive, hk.inUseLive⟩ }

theorem Kept.acquire (hk : s.Kept free) : ∃ free', s.acquire.Kept free' := by
  rw [PoolSystem.acquire]
  split
  · rename_i conn hhead
    rw [hk.lists.head] at hhead
    obtain ⟨free', rfl⟩ := List.head?_eq_some_iff.mp hhead
    obtain ⟨hconn, hnd⟩ := List.nodup_cons.mp hk.lists.nodup
    refine ⟨free', ?_⟩
    exact
      { hk with
        lists := hk.lists.popFront
        idle := by
          intro c hc huse
          obtain ⟨hne, huse⟩ := not_or.mp (fun h => huse (List.mem_cons.mpr h))
          exact (List.mem_cons.mp (hk.idle c hc huse)).resolve_left hne
        notInUse := by
          intro c hc huse
          rcases List.mem_cons.mp huse with rfl | huse
          · exact hconn hc
          · exact hk.notInUse c (List.mem_cons_of_mem _ hc) huse
        freeCount := by
          have hcount := hk.freeCount
          rw [List.length_cons] at hcount
          exact Nat.sub_eq_of_eq_add hcount
        inUse := List.nodup_cons.mpr ⟨hk.notInUse conn List.mem_cons_self, hk.inUse⟩
        freeLive := fun c hc => hk.freeLive c (List.mem_cons_of_mem _ hc)
        inUseLive := List.forall_mem_cons.mpr ⟨hk.freeLive conn List.mem_cons_self, hk.inUseLive⟩ }
  · split
    · exact ⟨free, { hk with }⟩
    · exact ⟨free, hk⟩

/-- A new connection of the pool. -/
theorem Kept.addConnection (hk : s.Kept free) (hlive : conn ∈ s.live)
    (huse : conn ∈ s.inUse) (hnew : conn ∉ s.pool.connections) :
    Kept { s with pool := s.pool.addConnection conn } free :=
  { hk with
    idle := by
      intro c hc hidle
      rcases List.mem_append.mp hc with hc | hc
      · exact hk.idle c hc hidle
      · rw [List.mem_singleton.mp hc] at hidle
        exact absurd huse hidle
    connections := List.nodup_append'.mpr
      ⟨hk.connections, List.nodup_singleton conn, List.disjoint_singleton.mpr hnew⟩
    connLive := List.forall_mem_append.mpr ⟨hk.connLive, List.forall_mem_singleton.mpr hlive⟩ }

theorem Kept.connected (hk : s.Kept free) {opened : Option ConnAddr}
    (hstep : s.connected opened = some after) : after.Kept free := by
  rw [PoolSystem.connected, Option.ite_none_left_eq_some] at hstep
  obtain ⟨-, hstep⟩ := hstep
  cases opened with
  | none =>
      cases hstep
      exact { hk with }
  | some conn =>
      obtain ⟨s', hcreate, rfl⟩ := Option.map_eq_some_iff.mp hstep
      have hkept : Kept { s with acquiring := s.acquiring - 1 } free := { hk with }
      have hk' := hkept.createPooledConnection hcreate
      obtain ⟨hnew, rfl⟩ := createPooledConnection_eq_some.mp hcreate
      have hheld := hk'.hold List.mem_cons_self (fun hmem => hnew (hk.freeLive conn hmem))
        fun hmem => hnew (hk.inUseLive conn hmem)
      exact hheld.addConnection List.mem_cons_self List.mem_cons_self
        fun hmem => hnew (hk.connLive conn hmem)

theorem Kept.direct (hk : s.Kept free) (hstep : s.direct conn = some after) :
    after.Kept free := by
  obtain ⟨s', hcreate, rfl⟩ := Option.map_eq_some_iff.mp hstep
  have hk' := hk.createPooledConnection hcreate
  obtain ⟨hnew, rfl⟩ := createPooledConnection_eq_some.mp hcreate
  exact hk'.hold List.mem_cons_self (fun hmem => hnew (hk.freeLive conn hmem))
    fun hmem => hnew (hk.inUseLive conn hmem)

/-- A connection that no thread holds goes to the front of the free list. -/
theorem Kept.addToFreeList (hk : s.Kept free) (hlive : conn ∈ s.live) (hfree : conn ∉ free)
    (huse : conn ∉ s.inUse) : Kept { s with pool := s.pool.addToFreeList conn } (conn :: free) :=
  { hk with
    lists := hk.lists.pushFront hfree
    idle := fun c hc hidle => List.mem_cons_of_mem _ (hk.idle c hc hidle)
    notInUse := List.forall_mem_cons.mpr ⟨huse, hk.notInUse⟩
    freeCount := by
      change s.pool.freeCount + 1 = (conn :: free).length
      rw [List.length_cons, hk.freeCount]
    freeLive := List.forall_mem_cons.mpr ⟨hlive, hk.freeLive⟩ }

/-- A new connection opened for the pool. -/
theorem Kept.addFree (hk : s.Kept free) (hcreate : s.createPooledConnection conn = some after) :
    (after.addFree conn).Kept (conn :: free) := by
  have hk' := hk.createPooledConnection hcreate
  obtain ⟨hnew, rfl⟩ := createPooledConnection_eq_some.mp hcreate
  have hfree : conn ∉ free := fun hmem => hnew (hk.freeLive conn hmem)
  have huse : conn ∉ s.inUse := fun hmem => hnew (hk.inUseLive conn hmem)
  have hconn : conn ∉ s.pool.connections := fun hmem => hnew (hk.connLive conn hmem)
  have hfront := hk'.addToFreeList List.mem_cons_self hfree huse
  exact
    { hfront with
      idle := by
        intro c hc hidle
        rcases List.mem_append.mp hc with hc | hc
        · exact List.mem_cons_of_mem _ (hk.idle c hc hidle)
        · rw [List.mem_singleton.mp hc]
          exact List.mem_cons_self
      connections := List.nodup_append'.mpr
        ⟨hk.connections, List.nodup_singleton conn, List.disjoint_singleton.mpr hconn⟩
      connLive := List.forall_mem_append.mpr
        ⟨fun c hc => List.mem_cons_of_mem _ (hk.connLive c hc),
          List.forall_mem_singleton.mpr List.mem_cons_self⟩ }

/-- A connection goes, from wherever it stands. -/
theorem Kept.destroy (hk : s.Kept free) {freeList : Dll ConnAddr} {free' : List ConnAddr}
    (hlists : freeList.Lists free') (hmem : ∀ c, c ∈ free' ↔ c ∈ free ∧ c ≠ conn) :
    Kept
      { s with
        pool :=
          { s.pool with
            freeList := freeList
            freeCount := free'.length
            connections := s.pool.connections.erase conn }
        live := s.live.erase conn
        inUse := s.inUse.erase conn } free' := by
  have hkeep : ∀ c, c ∈ s.live → c ≠ conn → c ∈ s.live.erase conn :=
    fun c hc hne => (List.mem_erase_of_ne hne).mpr hc
  exact
    { lists := hlists
      idle := by
        intro c hc huse
        obtain ⟨hne, hc⟩ := hk.connections.mem_erase_iff.mp hc
        exact (hmem c).mpr
          ⟨hk.idle c hc fun hheld => huse ((List.mem_erase_of_ne hne).mpr hheld), hne⟩
      notInUse := fun c hc huse => hk.notInUse c ((hmem c).mp hc).1 (List.mem_of_mem_erase huse)
      freeCount := rfl
      connections := hk.connections.erase conn
      inUse := hk.inUse.erase conn
      freeLive := by
        intro c hc
        obtain ⟨hc, hne⟩ := (hmem c).mp hc
        exact hkeep c (hk.freeLive c hc) hne
      inUseLive := by
        intro c hc
        obtain ⟨hne, hc⟩ := hk.inUse.mem_erase_iff.mp hc
        exact hkeep c (hk.inUseLive c hc) hne
      connLive := by
        intro c hc
        obtain ⟨hne, hc⟩ := hk.connections.mem_erase_iff.mp hc
        exact hkeep c (hk.connLive c hc) hne
      capacity := hk.capacity }

theorem Kept.release (hk : s.Kept free) {healthy : Bool}
    (hstep : s.release conn healthy = some after) : ∃ free', after.Kept free' := by
  rw [PoolSystem.release, Option.ite_none_right_eq_some] at hstep
  obtain ⟨hheld, hstep⟩ := hstep
  have hfree : conn ∉ free := fun hmem => hk.notInUse conn hmem hheld
  cases healthy with
  | true =>
      cases hstep
      have hlist := hk.lists.pushFront hfree
      refine ⟨conn :: free, ?_⟩
      exact
        { hk with
          lists := hlist
          idle := by
            intro c hc huse
            by_cases heq : c = conn
            · rw [heq]
              exact List.mem_cons_self
            · refine List.mem_cons_of_mem _ (hk.idle c hc fun hmem => huse ?_)
              exact (List.mem_erase_of_ne heq).mpr hmem
          notInUse := by
            refine List.forall_mem_cons.mpr ⟨hk.inUse.not_mem_erase, fun c hc huse => ?_⟩
            exact hk.notInUse c hc (List.mem_of_mem_erase huse)
          freeCount := by
            change s.pool.freeCount + 1 = (conn :: free).length
            rw [List.length_cons, hk.freeCount]
          inUse := hk.inUse.erase conn
          freeLive := List.forall_mem_cons.mpr ⟨hk.inUseLive conn hheld, hk.freeLive⟩
          inUseLive := fun c hc => hk.inUseLive c (List.mem_of_mem_erase hc) }
  | false =>
      cases hstep
      have hgone := @Kept.destroy _ conn _ hk _ _ hk.lists fun c =>
        ⟨fun hc => ⟨hc, fun heq => hfree (heq ▸ hc)⟩, And.left⟩
      rw [← hk.freeCount] at hgone
      exact ⟨free, hgone⟩

theorem Kept.removeDead {xs ys : List ConnAddr} (hk : s.Kept (xs ++ conn :: ys)) :
    (s.removeDead conn).Kept (xs ++ ys) := by
  have hheld : conn ∉ s.inUse :=
    hk.notInUse conn (List.mem_append_right xs List.mem_cons_self)
  have hperm : (xs ++ conn :: ys).Perm (conn :: (xs ++ ys)) := List.perm_middle
  have hnew := (List.nodup_cons.mp (hperm.nodup_iff.mp hk.lists.nodup)).1
  have hgone := @Kept.destroy _ conn _ hk _ _ hk.lists.unlink fun c => by
    rw [hperm.mem_iff, List.mem_cons]
    exact ⟨fun hc => ⟨Or.inr hc, fun heq => hnew (heq ▸ hc)⟩, fun ⟨hc, hne⟩ => hc.resolve_left hne⟩
  have hcount : s.pool.freeCount - 1 = (xs ++ ys).length := by
    rw [hk.freeCount, hperm.length_eq, List.length_cons, Nat.add_sub_cancel]
  rw [← hcount, List.erase_of_not_mem hheld] at hgone
  exact hgone

/-! ## The walk of a health check -/

/-- The walk ends, and takes the dead connections out of the list. -/
theorem Kept.checkFrom (dead : ConnAddr → Bool) {xs ys : List ConnAddr} {fuel : Nat}
    (hk : s.Kept (xs ++ ys)) (hfuel : ys.length ≤ fuel) :
    ∃ after, PoolSystem.checkFrom dead fuel s ys.head? = some after ∧
      after.Kept (xs ++ ys.filter fun conn => !dead conn) := by
  induction ys generalizing s xs fuel with
  | nil =>
      refine ⟨s, ?_, hk⟩
      cases fuel <;> rfl
  | cons conn ys ih =>
      obtain ⟨fuel, rfl⟩ : ∃ m, fuel = m + 1 :=
        ⟨fuel - 1, (Nat.succ_pred_eq_of_pos (Nat.lt_of_lt_of_le (Nat.succ_pos _) hfuel)).symm⟩
      have hfuel := Nat.le_of_succ_le_succ hfuel
      rw [List.head?_cons, PoolSystem.checkFrom, hk.lists.neighbours.2]
      cases hdead : dead conn with
      | true =>
          rw [if_pos rfl, List.filter_cons_of_neg (by simp [hdead])]
          exact ih hk.removeDead hfuel
      | false =>
          have happ : xs ++ conn :: ys = (xs ++ [conn]) ++ ys := by simp
          rw [happ] at hk
          obtain ⟨after, hwalk, hafter⟩ := ih hk hfuel
          rw [if_neg Bool.false_ne_true, List.filter_cons_of_pos (by simp [hdead])]
          rw [List.append_assoc] at hafter
          exact ⟨after, hwalk, hafter⟩

theorem Kept.ensureMinimum (hk : s.Kept free) : s.ensureMinimum.Kept free := by
  rw [PoolSystem.ensureMinimum]
  split
  · exact { hk with }
  · exact hk

theorem Kept.healthCheck (hk : s.Kept free) (dead : ConnAddr → Bool) :
    ∃ after, s.healthCheck dead = some after ∧
      after.Kept (free.filter fun conn => !dead conn) := by
  have hall : s.Kept ([] ++ free) := hk
  obtain ⟨after, hwalk, hafter⟩ := hall.checkFrom dead (Nat.le_of_eq hk.freeCount.symm)
  rw [PoolSystem.healthCheck, hk.lists.head, hwalk]
  exact ⟨_, rfl, hafter.ensureMinimum⟩

theorem Kept.replenished (hk : s.Kept free) {opened : Option ConnAddr}
    (hstep : s.replenished opened = some after) : ∃ free', after.Kept free' := by
  rw [PoolSystem.replenished, Option.ite_none_left_eq_some] at hstep
  obtain ⟨-, hstep⟩ := hstep
  cases opened with
  | none =>
      cases hstep
      exact ⟨free, { hk with }⟩
  | some conn =>
      obtain ⟨s', hcreate, rfl⟩ := Option.map_eq_some_iff.mp hstep
      have hkept : Kept { s with checking := s.checking - 1 } free := { hk with }
      exact ⟨conn :: free, (hkept.addFree hcreate).ensureMinimum⟩

theorem Kept.step (hk : s.Kept free) {a : PoolAction} (hstep : s.step a = some after) :
    ∃ free', after.Kept free' := by
  cases a with
  | acquire =>
      cases hstep
      exact hk.acquire
  | connected opened => exact ⟨free, hk.connected hstep⟩
  | direct conn => exact ⟨free, hk.direct hstep⟩
  | release conn healthy => exact hk.release hstep
  | healthCheck dead =>
      obtain ⟨s', hcheck, hs'⟩ := hk.healthCheck dead
      cases Option.some_inj.mp (hcheck.symm.trans hstep)
      exact ⟨_, hs'⟩
  | replenished opened => exact hk.replenished hstep

/-! ## The count -/

@[simp]
theorem ensureMinimum_pool : s.ensureMinimum.pool = s.pool := by
  rw [PoolSystem.ensureMinimum]
  split <;> rfl

/-- The bounds stay, and the array loses the connections that are dead. -/
theorem checkFrom_pool {dead : ConnAddr → Bool} {fuel : Nat} {opt : Option ConnAddr}
    (hwalk : checkFrom dead fuel s opt = some after) :
    after.pool.maxConnections = s.pool.maxConnections ∧ after.pool.count ≤ s.pool.count := by
  induction fuel generalizing s opt with
  | zero =>
      cases opt with
      | none =>
          cases hwalk
          exact ⟨rfl, Nat.le_refl _⟩
      | some conn => cases hwalk
  | succ fuel ih =>
      cases opt with
      | none =>
          cases hwalk
          exact ⟨rfl, Nat.le_refl _⟩
      | some conn =>
          obtain ⟨hmax, hcount⟩ := ih hwalk
          split at hmax
          · rename_i hdead
            rw [if_pos hdead] at hcount
            exact ⟨hmax, Nat.le_trans hcount List.length_erase_le⟩
          · rename_i hdead
            rw [if_neg hdead] at hcount
            exact ⟨hmax, hcount⟩

theorem acquire_pool :
    s.acquire.pool.maxConnections = s.pool.maxConnections ∧
      s.acquire.pool.connections = s.pool.connections := by
  rw [PoolSystem.acquire]
  split
  · exact ⟨rfl, rfl⟩
  · split <;> exact ⟨rfl, rfl⟩

theorem createPooledConnection_pool (hcreate : s.createPooledConnection conn = some after) :
    after.pool.maxConnections = s.pool.maxConnections ∧
      after.pool.connections = s.pool.connections := by
  obtain ⟨-, rfl⟩ := createPooledConnection_eq_some.mp hcreate
  exact ⟨rfl, rfl⟩

/-- The maximum is never changed, and only an entry after the lock was dropped can take the count
past it. -/
theorem step_count {a : PoolAction} (hcount : s.pool.count ≤ s.pool.maxConnections)
    (hstep : s.step a = some after) :
    after.pool.maxConnections = s.pool.maxConnections ∧
      (after.pool.count ≤ s.pool.maxConnections ↔ s.Room a) := by
  cases a with
  | acquire =>
      cases hstep
      refine ⟨acquire_pool.1, ?_⟩
      rw [ConnectionPool.count, acquire_pool.2]
      exact iff_of_true hcount trivial
  | connected opened =>
      obtain ⟨-, hstep⟩ := Option.ite_none_left_eq_some.mp hstep
      cases opened with
      | none =>
          cases hstep
          exact ⟨rfl, iff_of_true hcount trivial⟩
      | some conn =>
          obtain ⟨s', hcreate, rfl⟩ := Option.map_eq_some_iff.mp hstep
          obtain ⟨hmax, hsame⟩ := createPooledConnection_pool hcreate
          refine ⟨hmax, ?_⟩
          rw [ConnectionPool.count, ConnectionPool.addConnection, hsame, List.length_append]
          rfl
  | direct conn =>
      obtain ⟨s', hcreate, rfl⟩ := Option.map_eq_some_iff.mp hstep
      obtain ⟨hmax, hsame⟩ := createPooledConnection_pool hcreate
      refine ⟨hmax, ?_⟩
      rw [ConnectionPool.count, hsame]
      exact iff_of_true hcount trivial
  | release conn healthy =>
      obtain ⟨-, hstep⟩ := Option.ite_none_right_eq_some.mp hstep
      cases healthy with
      | true =>
          cases hstep
          exact ⟨rfl, iff_of_true hcount trivial⟩
      | false =>
          cases hstep
          exact ⟨rfl, iff_of_true (Nat.le_trans List.length_erase_le hcount) trivial⟩
  | healthCheck dead =>
      obtain ⟨s', hwalk, rfl⟩ := Option.map_eq_some_iff.mp hstep
      obtain ⟨hmax, hle⟩ := checkFrom_pool hwalk
      rw [ensureMinimum_pool]
      exact ⟨hmax, iff_of_true (Nat.le_trans hle hcount) trivial⟩
  | replenished opened =>
      obtain ⟨-, hstep⟩ := Option.ite_none_left_eq_some.mp hstep
      cases opened with
      | none =>
          cases hstep
          exact ⟨rfl, iff_of_true hcount trivial⟩
      | some conn =>
          obtain ⟨s', hcreate, rfl⟩ := Option.map_eq_some_iff.mp hstep
          obtain ⟨hmax, hsame⟩ := createPooledConnection_pool hcreate
          rw [ensureMinimum_pool]
          refine ⟨hmax, ?_⟩
          rw [ConnectionPool.count, PoolSystem.addFree, ConnectionPool.addToFreeList,
            ConnectionPool.addConnection, hsame, List.length_append]
          rfl

/-- With the free list kept, only the count can go wrong. -/
theorem Kept.accounted_iff_count (hk : s.Kept free) :
    s.Accounted ↔ s.pool.count ≤ s.pool.maxConnections := by
  refine ⟨And.left, fun hcount =>
    ⟨hcount, ?_, free, hk.lists, hk.idle, hk.notInUse, hk.freeCount⟩⟩
  rw [hk.capacity]
  exact hcount

/-! ## Whole runs -/

/-- What a pool starts with: the connections that could be opened, all of them free. -/
theorem Kept.preCreate (hk : s.Kept free) {opened : List (Option ConnAddr)}
    (hopened : s.preCreate opened = some after) :
    (∃ free', after.Kept free') ∧ after.pool.maxConnections = s.pool.maxConnections ∧
      after.pool.count = s.pool.count + opened.countP Option.isSome := by
  induction opened generalizing s free with
  | nil =>
      cases hopened
      exact ⟨⟨free, hk⟩, rfl, rfl⟩
  | cons o opened ih =>
      cases o with
      | none =>
          obtain ⟨hkept, hmax, hcount⟩ := ih hk hopened
          exact ⟨hkept, hmax, hcount.trans (by simp)⟩
      | some conn =>
          obtain ⟨s', hcreate, hrest⟩ := Option.bind_eq_some_iff.mp hopened
          obtain ⟨hkept, hmax, hcount⟩ := ih (hk.addFree hcreate) hrest
          obtain ⟨hmax', hconns⟩ := createPooledConnection_pool hcreate
          refine ⟨hkept, hmax.trans hmax', ?_⟩
          rw [hcount, ConnectionPool.count, PoolSystem.addFree, ConnectionPool.addToFreeList,
            ConnectionPool.addConnection, hconns, List.length_append, List.countP_cons_of_pos rfl,
            ConnectionPool.count, List.length_singleton, Nat.add_right_comm, Nat.add_assoc]

theorem kept_of_connPoolCreate {minConns maxConns : Nat} {opened : List (Option ConnAddr)}
    (hcreate : connPoolCreate minConns maxConns opened = some s) :
    (∃ free, s.Kept free) ∧ s.pool.maxConnections = min maxConns netPoolMaxSize ∧
      s.pool.count = opened.countP Option.isSome := by
  obtain ⟨-, hopened⟩ := Option.ite_none_right_eq_some.mp hcreate
  obtain ⟨hkept, hmax, hcount⟩ := (kept_emptyPool _ _).preCreate hopened
  refine ⟨hkept, hmax.trans ?_, hcount.trans (Nat.zero_add _)⟩
  change (if maxConns > netPoolMaxSize then netPoolMaxSize else maxConns) = _
  rw [Nat.min_comm, Nat.min_def]
  split <;> split <;> omega

end Sections

/-- The pool accounts for its connections all along just when the minimum fits the array and every
connection opened later is entered while there still is room. -/
theorem accounted_iff {minConns maxConns : Nat} {opened : List (Option ConnAddr)}
    {actions : List PoolAction} {s after : PoolSystem}
    (hcreate : connPoolCreate minConns maxConns opened = some s)
    (hrun : actions.foldlM step s = some after) :
    Stays step Accounted s actions ↔
      opened.countP Option.isSome ≤ min maxConns netPoolMaxSize ∧ StepsFit step Room s actions := by
  obtain ⟨⟨free, hkept⟩, hmax, hcount⟩ := kept_of_connPoolCreate hcreate
  rw [← hmax, ← hcount, ← hkept.accounted_iff_count]
  refine @stays_iff_stepsFit _ _ _ _ _ (fun s => ∃ free, s.Kept free) ?_ ?_ _ _ _ ⟨free, hkept⟩ hrun
  · rintro s a after ⟨free, hk⟩ hstep
    exact hk.step hstep
  · rintro s a after ⟨free, hk⟩ hs hstep
    obtain ⟨free', hk'⟩ := hk.step hstep
    obtain ⟨hmax, hiff⟩ := step_count (hk.accounted_iff_count.mp hs) hstep
    rw [hk'.accounted_iff_count, hmax]
    exact hiff

def sharedRun : List PoolAction :=
  [.acquire, .acquire, .connected (some 2), .release 1 true, .release 2 false,
    .healthCheck fun conn => conn = 1, .replenished (some 3)]

theorem accounted_iff_sharedRun :
    ∃ s after, connPoolCreate 1 2 [some 1] = some s ∧ sharedRun.foldlM step s = some after ∧
      Stays step Accounted s sharedRun :=
  ⟨_, _, rfl, rfl,
    (@accounted_iff 1 2 [some 1] sharedRun _ _ rfl rfl).mpr ⟨by decide, by decide +kernel⟩⟩

def missedTwice : List PoolAction :=
  [.acquire, .acquire, .acquire, .connected (some 2), .connected (some 3)]

/-- Two threads miss at once, and both find room for one connection. -/
theorem missedTwice_overfills :
    ∃ s after, connPoolCreate 1 2 [some 1] = some s ∧ missedTwice.foldlM step s = some after ∧
      ¬ Stays step Accounted s missedTwice :=
  ⟨_, _, rfl, rfl, fun hstays => absurd (hstays.foldlM rfl).1 (by decide)⟩

end PoolSystem
end Network
end InventixDB
