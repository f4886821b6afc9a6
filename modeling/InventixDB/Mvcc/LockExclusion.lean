import InventixDB.Mvcc.Locks

/-!
# LockExclusion — when locks exclude each other

Every granted lock is backed by an entry that covers its mode, and no two grants on a resource
conflict.  A request can break this in two ways: it is checked against the first entry of the
resource only, and an UPDATE lock counts as an EXCLUSIVE one because its mode has the larger
number.  A transaction that ends can break it through the addresses of entries it has freed.
`Covered` rules out these branches and nothing else.
-/

namespace InventixDB
namespace Mvcc

open Storage

/-! ## Modes -/

theorem locksConflict_comm (a b : LockMode) : locksConflict a b = locksConflict b a := by
  cases a <;> cases b <;> rfl

/-- Whatever conflicts with `b` conflicts with `a`. -/
def LockMode.Covers (a b : LockMode) : Prop :=
  ∀ m, locksConflict a m = false → locksConflict b m = false

theorem LockMode.Covers.refl (a : LockMode) : a.Covers a := by
  intro m hm
  exact hm

theorem LockMode.Covers.trans {a b c : LockMode} (hab : a.Covers b) (hbc : b.Covers c) :
    a.Covers c := by
  intro m hm
  exact hbc m (hab m hm)

/-- A mode covers those with smaller numbers, but UPDATE does not cover EXCLUSIVE. -/
theorem LockMode.covers_of_le {a b : LockMode} (hle : b.toNat ≤ a.toNat)
    (hupdate : a = .update → b ≠ .exclusive) : a.Covers b := by
  intro m hm
  cases a <;> cases b <;> cases m <;> simp_all [LockMode.toNat, locksConflict, compat]

/-- An upgrade that is granted covers the old mode. -/
theorem LockMode.covers_of_upgrade {a b : LockMode} (hlt : a.toNat < b.toNat)
    (hfree : locksConflict a b = false) : b.Covers a := by
  intro m hm
  cases a <;> cases b <;> cases m <;> simp_all [LockMode.toNat, locksConflict, compat]

/-! ## Exclusion -/

/-- No two transactions have been granted conflicting modes of one resource. -/
def MutualExclusion (grants : List Grant) : Prop :=
  ∀ g ∈ grants, ∀ g' ∈ grants, g'.txnId ≠ g.txnId → g'.resource = g.resource →
    locksConflict g'.mode g.mode = false

instance (grants : List Grant) : Decidable (MutualExclusion grants) := by
  unfold MutualExclusion
  infer_instance

/-- The request does not take a branch that goes wrong.  `first` is the entry it is checked
against, and the others of the resource are those it does not look at. -/
def CoveredRequest (table : LockTable) (txnId : TxnId) (resource : CStr) (mode : LockMode) :
    Prop :=
  ∀ first ∈ table.findLockEntry resource,
    (first.holder = txnId → first.mode = .update → mode ≠ .exclusive) ∧
      (locksConflict first.mode mode = false ∨
          first.holder = txnId ∧ mode.toNat ≤ first.mode.toNat →
        ∀ e ∈ (table.entriesOf resource).tail, e.holder ≠ txnId →
          locksConflict e.mode mode = false)

instance (table : LockTable) (txnId : TxnId) (resource : CStr) (mode : LockMode) :
    Decidable (CoveredRequest table txnId resource mode) := by
  unfold CoveredRequest
  infer_instance

/-- What `held_locks` of a transaction points to is its own. -/
def OwnAddrs (l : LockManager) (txnId : TxnId) : Prop :=
  ∀ i, ∀ e ∈ l.entries i, e.addr ∈ l.heldLocks txnId → e.holder = txnId

instance (l : LockManager) (txnId : TxnId) : Decidable (OwnAddrs l txnId) :=
  decidable_of_iff
    (((List.finRange lockTableSize).all fun i => (l.entries i).all fun e =>
      decide (e.addr ∈ l.heldLocks txnId → e.holder = txnId)) = true)
    (by simp only [OwnAddrs, List.all_eq_true, List.mem_finRange, decide_eq_true_eq, true_imp_iff])

def LockSystem.Covered (s : LockSystem) : LockAction → Prop
  | .mvcc a => ∀ txnId ∈ a.ends s.system.manager, OwnAddrs s.locks txnId
  | .acquire txnId resource mode _ _ =>
      (s.system.manager.getTransaction txnId).isSome →
        CoveredRequest s.locks.entries txnId resource mode
  | .release _ _ => True

instance (s : LockSystem) : (a : LockAction) → Decidable (s.Covered a)
  | .mvcc a =>
      inferInstanceAs (Decidable (∀ txnId ∈ a.ends s.system.manager, OwnAddrs s.locks txnId))
  | .acquire txnId resource mode _ _ =>
      inferInstanceAs (Decidable ((s.system.manager.getTransaction txnId).isSome →
        CoveredRequest s.locks.entries txnId resource mode))
  | .release _ _ => inferInstanceAs (Decidable True)

/-- Every step of the run is covered in the state it meets. -/
def CoveredLocks : LockSystem → List LockAction → Prop
  | _, [] => True
  | s, a :: actions => s.Covered a ∧ ∀ s' ∈ s.step a, CoveredLocks s' actions

instance decidableCoveredLocks : (s : LockSystem) → (actions : List LockAction) →
    Decidable (CoveredLocks s actions)
  | _, [] => isTrue trivial
  | s, a :: actions =>
      haveI : DecidablePred fun s' : LockSystem => CoveredLocks s' actions :=
        fun s' => decidableCoveredLocks s' actions
      inferInstanceAs (Decidable (s.Covered a ∧ ∀ s' ∈ s.step a, CoveredLocks s' actions))

/-! ## Entries behind the grants -/

/-- An entry that stands for the grant. -/
def Backs (table : LockTable) (g : Grant) (e : LockEntry) : Prop :=
  e ∈ table (lockSlot g.resource) ∧ e.resourceId = g.resource ∧ e.holder = g.txnId ∧
    e.mode.Covers g.mode

structure Guarded (s : LockSystem) : Prop where
  backed : ∀ g ∈ s.grants, ∃ e, Backs s.locks.entries g e
  exclusive : MutualExclusion s.grants

section Table

variable {table : LockTable} {resource : CStr} {g : Grant} {e : LockEntry}
  {f : List LockEntry → List LockEntry}

/-- A change of a chain that keeps the entry keeps the grant backed. -/
theorem Backs.modify (hb : Backs table g e)
    (hkeep : ∀ chain : List LockEntry, e ∈ chain → e ∈ f chain) :
    Backs (table.modify resource f) g e := by
  obtain ⟨hmem, hrest⟩ := hb
  refine ⟨?_, hrest⟩
  unfold LockTable.modify
  by_cases hslot : lockSlot g.resource = lockSlot resource
  · rw [hslot, Function.update_self, ← hslot]
    exact hkeep _ hmem
  · rw [Function.update_of_ne hslot]
    exact hmem

theorem modify_self : (table.modify resource f) (lockSlot resource) =
    f (table (lockSlot resource)) := by
  unfold LockTable.modify
  rw [Function.update_self]

/-- An entry of the resource is the one that is checked, or stands behind it. -/
theorem eq_or_mem_tail {first : LockEntry} (hfirst : table.findLockEntry resource = some first)
    (hmem : e ∈ table (lockSlot resource)) (hres : e.resourceId = resource) :
    e = first ∨ e ∈ (table.entriesOf resource).tail := by
  have he : e ∈ table.entriesOf resource := List.mem_filter.mpr ⟨hmem, by simpa using hres⟩
  unfold LockTable.findLockEntry at hfirst
  rw [← List.head?_filter] at hfirst
  unfold LockTable.entriesOf at he ⊢
  cases hentries : (table (lockSlot resource)).filter fun e => e.resourceId = resource with
  | nil =>
      rw [hentries] at he
      cases he
  | cons e' es =>
      rw [hentries] at he hfirst
      cases hfirst
      exact List.mem_cons.mp he

theorem mem_of_findLockEntry {first : LockEntry}
    (hfirst : table.findLockEntry resource = some first) :
    first ∈ table (lockSlot resource) ∧ first.resourceId = resource := by
  refine ⟨List.mem_of_find?_eq_some hfirst, ?_⟩
  simpa using List.find?_some hfirst

/-- An upgrade replaces the first entry of the resource and keeps the others. -/
theorem mem_upgradeFirst {mode : LockMode} {chain : List LockEntry} {first : LockEntry}
    (hfirst : chain.find? (fun e => e.resourceId = resource) = some first) :
    { first with mode := mode } ∈ upgradeFirst resource mode chain ∧
      ∀ e ∈ chain, e = first ∨ e ∈ upgradeFirst resource mode chain := by
  induction chain with
  | nil => cases hfirst
  | cons e es ih =>
      unfold upgradeFirst
      by_cases hres : e.resourceId = resource
      · rw [List.find?_cons_of_pos (by simpa using hres)] at hfirst
        cases hfirst
        rw [if_pos hres]
        refine ⟨List.mem_cons_self, ?_⟩
        intro e' he'
        rcases List.mem_cons.mp he' with rfl | he'
        · exact Or.inl rfl
        · exact Or.inr (List.mem_cons_of_mem _ he')
      · rw [List.find?_cons_of_neg (by simpa using hres)] at hfirst
        obtain ⟨hnew, hold⟩ := ih hfirst
        rw [if_neg hres]
        refine ⟨List.mem_cons_of_mem _ hnew, ?_⟩
        intro e' he'
        rcases List.mem_cons.mp he' with rfl | he'
        · exact Or.inr List.mem_cons_self
        · exact (hold e' he').imp_right (List.mem_cons_of_mem _)

/-- So does an upgrade of the first entry to a covering mode. -/
theorem Backs.upgrade {mode : LockMode} {first : LockEntry} (hb : Backs table g e)
    (hfirst : table.findLockEntry resource = some first) (hcovers : mode.Covers first.mode) :
    ∃ e', Backs (table.modify resource (upgradeFirst resource mode)) g e' := by
  obtain ⟨hmem, heres, hholder, hmode⟩ := hb
  obtain ⟨hnew, hold⟩ := mem_upgradeFirst hfirst
  by_cases hslot : lockSlot g.resource = lockSlot resource
  · rw [hslot] at hmem
    rcases hold e hmem with rfl | hkept
    · refine ⟨{ e with mode := mode }, ?_, heres, hholder, hcovers.trans hmode⟩
      rw [hslot, modify_self]
      exact hnew
    · refine ⟨e, ?_, heres, hholder, hmode⟩
      rw [hslot, modify_self]
      exact hkept
  · refine ⟨e, ?_, heres, hholder, hmode⟩
    unfold LockTable.modify
    rwa [Function.update_of_ne hslot]

/-- Freeing entries at other addresses keeps the grant backed. -/
theorem Backs.releaseAddrs {table' : LockTable} {addrs : List Addr} (hb : Backs table g e)
    (hrelease : addrs.foldlM LockTable.releaseAddr table = some table')
    (haddr : e.addr ∉ addrs) : Backs table' g e := by
  induction addrs generalizing table with
  | nil =>
      cases hrelease
      exact hb
  | cons addr addrs ih =>
      have hne : e.addr ≠ addr := fun heq => haddr (heq ▸ List.mem_cons_self)
      have hrest : e.addr ∉ addrs := fun hmem => haddr (List.mem_cons_of_mem _ hmem)
      rw [List.foldlM_cons] at hrelease
      obtain ⟨freed, hfree, hrelease⟩ := Option.bind_eq_some_iff.mp hrelease
      obtain ⟨lock, _, rfl⟩ := Option.map_eq_some_iff.mp hfree
      refine ih (hb.modify ?_) hrelease hrest
      intro chain hmem
      exact (List.mem_eraseP_of_neg (by simpa using hne)).mpr hmem

end Table

/-! ## Requests -/

/-- What granting `g` does to the table, and what it has made sure of. -/
structure Acquires (table table' : LockTable) (g : Grant) : Prop where
  keeps : ∀ g' e, Backs table g' e → ∃ e', Backs table' g' e'
  backed : ∃ e, Backs table' g e
  free : ∀ e ∈ table (lockSlot g.resource), e.resourceId = g.resource → e.holder ≠ g.txnId →
    locksConflict e.mode g.mode = false

section Request

variable {m : MVCCManager} {l l' : LockManager} {txnId : TxnId} {resource : CStr}
  {mode : LockMode} {gran : LockGranularity} {addr : Addr}

theorem acquireLock_unchanged {result : Int}
    (hacquire : l.acquireLock m txnId resource mode gran addr = (result, l'))
    (hresult : result ≠ 0) : l' = l := by
  unfold LockManager.acquireLock at hacquire
  dsimp only at hacquire
  split at hacquire
  · cases hacquire
    rfl
  · split at hacquire
    · cases hacquire
      exact absurd rfl hresult
    · split_ifs at hacquire <;> cases hacquire
      · rfl
      · exact absurd rfl hresult
      · rfl
      · exact absurd rfl hresult

/-- The new entry, wherever it goes in the chain, backs the new grant. -/
theorem backs_new {table : LockTable} {f : List LockEntry → List LockEntry} {lock : LockEntry}
    (hlock : ∀ chain : List LockEntry, lock ∈ f chain) (hres : lock.resourceId = resource) :
    Backs (table.modify resource f)
      { txnId := lock.holder, resource := resource, mode := lock.mode } lock := by
  refine ⟨?_, hres, rfl, LockMode.Covers.refl _⟩
  dsimp only
  rw [modify_self]
  exact hlock _

/-- A covered request that is granted keeps what is backed, is backed itself, and conflicts with
no other transaction's entry. -/
theorem acquires_of_covered (hcov : CoveredRequest l.entries txnId resource mode)
    (hacquire : l.acquireLock m txnId resource mode gran addr = (0, l')) :
    Acquires l.entries l'.entries { txnId := txnId, resource := resource, mode := mode } := by
  unfold LockManager.acquireLock at hacquire
  dsimp only at hacquire
  split at hacquire
  · cases hacquire
  · cases hfirst : l.entries.findLockEntry resource with
    | none =>
        -- The resource has no entry at all.
        rw [hfirst] at hacquire
        cases hacquire
        have hnone : ∀ e ∈ l.entries (lockSlot resource), e.resourceId ≠ resource := by
          simpa [LockTable.findLockEntry] using hfirst
        refine ⟨?_, ⟨_, backs_new (fun _ => List.mem_cons_self) rfl⟩, ?_⟩
        · intro g' e he
          exact ⟨e, he.modify fun _ hmem => List.mem_cons_of_mem _ hmem⟩
        · intro e he hres _
          exact absurd hres (hnone e he)
    | some first =>
        rw [hfirst] at hacquire
        dsimp only at hacquire
        obtain ⟨hupdate, hbehind⟩ := hcov first hfirst
        obtain ⟨hmem, hres⟩ := mem_of_findLockEntry hfirst
        -- Once the first entry is no obstacle, none is.
        have hfree (hchecked : locksConflict first.mode mode = false ∨
              first.holder = txnId ∧ mode.toNat ≤ first.mode.toNat) :
            ∀ e ∈ l.entries (lockSlot resource), e.resourceId = resource → e.holder ≠ txnId →
              locksConflict e.mode mode = false := by
          intro e he heres hother
          rcases eq_or_mem_tail hfirst he heres with rfl | htail
          · exact hchecked.resolve_right fun hown => hother hown.1
          · exact hbehind hchecked e htail hother
        split_ifs at hacquire with hown hupgrade hconflict
        · -- The mode held already is enough.
          cases hacquire
          refine ⟨fun g' e he => ⟨e, he⟩, ⟨first, hmem, hres, hown.1, ?_⟩, hfree (Or.inr hown)⟩
          exact LockMode.covers_of_le hown.2 (hupdate hown.1)
        · -- The entry is upgraded in place.
          cases hacquire
          have hlt : first.mode.toNat < mode.toNat := by
            rcases Nat.lt_or_ge first.mode.toNat mode.toNat with hlt | hge
            · exact hlt
            · exact absurd ⟨hupgrade.1, hge⟩ hown
          have hcovers : mode.Covers first.mode := LockMode.covers_of_upgrade hlt hupgrade.2
          refine ⟨fun g' e he => he.upgrade hfirst hcovers,
            ⟨{ first with mode := mode }, ?_, hres, hupgrade.1, .refl _⟩,
            hfree (Or.inl hupgrade.2)⟩
          dsimp only
          rw [modify_self]
          exact (mem_upgradeFirst hfirst).1
        · cases hacquire
        · -- A further entry goes to the end of the chain.
          cases hacquire
          have hnoconflict : locksConflict first.mode mode = false := by simpa using hconflict
          refine ⟨?_, ⟨_, backs_new (fun _ => List.mem_append_right _ List.mem_cons_self) rfl⟩,
            hfree (Or.inl hnoconflict)⟩
          intro g' e he
          exact ⟨e, he.modify fun _ hmem => List.mem_append_left _ hmem⟩

end Request

/-! ## One step -/

theorem MutualExclusion.filter {grants : List Grant} (h : MutualExclusion grants)
    (p : Grant → Bool) : MutualExclusion (grants.filter p) := by
  intro g hg g' hg'
  exact h g (List.mem_of_mem_filter hg) g' (List.mem_of_mem_filter hg')

/-- A grant that conflicts with none of the others joins them. -/
theorem MutualExclusion.cons {grants : List Grant} {g : Grant} (h : MutualExclusion grants)
    (hnew : ∀ g' ∈ grants, g'.txnId ≠ g.txnId → g'.resource = g.resource →
      locksConflict g'.mode g.mode = false) : MutualExclusion (g :: grants) := by
  intro g₁ hg₁ g₂ hg₂ hne hres
  rcases List.mem_cons.mp hg₁ with heq₁ | hold₁
  · rcases List.mem_cons.mp hg₂ with heq₂ | hold₂
    · exact absurd (by rw [heq₁, heq₂]) hne
    · rw [heq₁] at hne hres ⊢
      exact hnew g₂ hold₂ hne hres
  · rcases List.mem_cons.mp hg₂ with heq₂ | hold₂
    · rw [heq₂] at hne hres ⊢
      rw [locksConflict_comm]
      exact hnew g₁ hold₁ hne.symm hres.symm
    · exact h g₁ hold₁ g₂ hold₂ hne hres

/-- A covered step keeps every grant backed and the grants compatible. -/
theorem Guarded.step {s s' : LockSystem} (hs : Guarded s) {a : LockAction} (hcov : s.Covered a)
    (hstep : s.step a = some s') : Guarded s' := by
  cases a with
  | mvcc a =>
      obtain ⟨system, _, hstep⟩ := Option.bind_eq_some_iff.mp hstep
      cases hends : a.ends s.system.manager with
      | none =>
          rw [hends] at hstep
          cases hstep
          exact ⟨hs.backed, hs.exclusive⟩
      | some txnId =>
          rw [hends] at hstep
          obtain ⟨locks, hrelease, rfl⟩ := Option.map_eq_some_iff.mp hstep
          obtain ⟨table, haddrs, rfl⟩ := Option.map_eq_some_iff.mp hrelease
          refine ⟨?_, hs.exclusive.filter _⟩
          intro g hg
          obtain ⟨hg, hother⟩ := List.mem_filter.mp hg
          obtain ⟨e, he⟩ := hs.backed g hg
          -- The entry is another transaction's, so no freed address points to it.
          refine ⟨e, he.releaseAddrs haddrs ?_⟩
          intro haddr
          have hholder := hcov txnId hends _ e he.1 haddr
          rw [he.2.2.1] at hholder
          simp [hholder] at hother
  | acquire txnId resource mode gran addr =>
      rw [LockSystem.step, Option.ite_none_left_eq_some] at hstep
      obtain ⟨_, hstep⟩ := hstep
      cases hacquire : s.locks.acquireLock s.system.manager txnId resource mode gran addr with
      | mk result locks =>
          rw [hacquire] at hstep
          cases hstep
          by_cases hresult : result = 0
          · subst hresult
            have hregistered : (s.system.manager.getTransaction txnId).isSome = true := by
              rw [Option.isSome_iff_ne_none]
              intro hnone
              simp [LockManager.acquireLock, hnone] at hacquire
            obtain ⟨hkeeps, hbacked, hfree⟩ := acquires_of_covered (hcov hregistered) hacquire
            refine ⟨?_, hs.exclusive.cons ?_⟩
            · intro g hg
              rcases List.mem_cons.mp hg with rfl | hg
              · exact hbacked
              · obtain ⟨e, he⟩ := hs.backed g hg
                exact hkeeps g e he
            · intro g hg hother hres
              obtain ⟨e, hmem, heres, hholder, hcovers⟩ := hs.backed g hg
              refine hcovers _ (hfree e (by rwa [← hres]) (heres.trans hres) ?_)
              rwa [hholder]
          · rw [if_neg hresult, acquireLock_unchanged hacquire hresult]
            exact ⟨hs.backed, hs.exclusive⟩
  | release txnId resource =>
      cases hstep
      refine ⟨?_, hs.exclusive.filter _⟩
      intro g hg
      obtain ⟨hg, hother⟩ := List.mem_filter.mp hg
      obtain ⟨e, he⟩ := hs.backed g hg
      unfold LockManager.releaseLock
      split
      · refine ⟨e, he.modify ?_⟩
        intro chain hmem
        refine (List.mem_eraseP_of_neg ?_).mpr hmem
        have hnot : ¬ (g.txnId = txnId ∧ g.resource = resource) := of_decide_eq_true hother
        simpa [he.2.1, he.2.2.1, and_comm] using hnot
      · exact ⟨e, he⟩

/-! ## Whole runs -/

theorem Guarded.run {s s' : LockSystem} (hs : Guarded s) {actions : List LockAction}
    (hrun : runLocks s actions = some s') (hcov : CoveredLocks s actions) : Guarded s' := by
  induction actions generalizing s with
  | nil =>
      cases hrun
      exact hs
  | cons a actions ih =>
      obtain ⟨hone, hrest⟩ := hcov
      obtain ⟨s₁, hstep, hrun⟩ := Option.bind_eq_some_iff.mp hrun
      exact ih (hs.step hone hstep) hrun (hrest s₁ hstep)

theorem guarded_init : Guarded LockSystem.init where
  backed := by simp [LockSystem.init]
  exclusive := by simp [MutualExclusion, LockSystem.init]

/-- Locks granted in a covered run exclude each other. -/
theorem locks_exclude (actions : List LockAction) (s : LockSystem)
    (hrun : runLocks LockSystem.init actions = some s)
    (hcov : CoveredLocks LockSystem.init actions) : MutualExclusion s.grants := by
  exact (guarded_init.run hrun hcov).exclusive

/-- Transactions 1, 2 and 3 begin. -/
def threeBegin : List LockAction :=
  (beginTransaction .readCommitted 1 ++ beginTransaction .readCommitted 2 ++
    beginTransaction .readCommitted 3).map LockAction.mvcc

/-- Two readers; one becomes an updater, and when it has committed the other may write. -/
theorem locks_exclude_readers :
    ∃ s, runLocks LockSystem.init (threeBegin ++
        [.acquire 1 (CStr.lit "t.1") .shared .row 1, .acquire 2 (CStr.lit "t.1") .shared .row 2,
          .acquire 1 (CStr.lit "t.1") .update .row 3, .mvcc (.commit 1),
          .release 2 (CStr.lit "t.1"), .acquire 3 (CStr.lit "t.1") .exclusive .row 1]) = some s ∧
      MutualExclusion s.grants := by
  obtain ⟨s, hrun⟩ := Option.isSome_iff_exists.mp
    (show (runLocks LockSystem.init (threeBegin ++
        [.acquire 1 (CStr.lit "t.1") .shared .row 1, .acquire 2 (CStr.lit "t.1") .shared .row 2,
          .acquire 1 (CStr.lit "t.1") .update .row 3, .mvcc (.commit 1),
          .release 2 (CStr.lit "t.1"),
          .acquire 3 (CStr.lit "t.1") .exclusive .row 1])).isSome = true by decide +kernel)
  exact ⟨s, hrun, locks_exclude _ s hrun (by decide +kernel)⟩

/-- Two UPDATE locks stand behind a SHARED one, and an UPDATE lock passes for an EXCLUSIVE one
beside a SHARED one. -/
theorem locks_conflict_behind_first :
    (runLocks LockSystem.init (threeBegin ++
        [.acquire 1 (CStr.lit "t.1") .shared .row 1, .acquire 2 (CStr.lit "t.1") .update .row 2,
          .acquire 3 (CStr.lit "t.1") .update .row 3])).any
        (fun s => ¬ MutualExclusion s.grants) = true ∧
      (runLocks LockSystem.init (threeBegin ++
        [.acquire 1 (CStr.lit "t.1") .update .row 1, .acquire 2 (CStr.lit "t.1") .shared .row 2,
          .acquire 1 (CStr.lit "t.1") .exclusive .row 3])).any
        (fun s => ¬ MutualExclusion s.grants) = true := by
  refine ⟨by decide +kernel, by decide +kernel⟩

end Mvcc
end InventixDB
