import InventixDB.Executor.ResultSet
import InventixDB.Lib.FirstMatch
import InventixDB.Lib.Runs
import Mathlib.Data.List.Nodup
import Mathlib.Tactic.SplitIfs
import Mathlib.Data.UInt

/-!
# QueryCache — results kept by the hash of the query's text

Entries are found by a 32-bit hash of the text in lower case.  A put that finds its hash replaces
the result and the time of the entry, and leaves its text and its `valid` flag as they are.
-/

namespace InventixDB
namespace Executor

open Lib Storage

/-! ## Data -/

/-- `RESULT_CACHE_SIZE` -/
def resultCacheSize : Nat := 256

/-- `RESULT_CACHE_TTL`, in seconds. -/
def resultCacheTtl : Int := 300

/-- A result set with the `memory_used` the cache accounts for. -/
structure CachedResult where
  resultSet : ResultSet
  memoryUsed : UInt64
  deriving DecidableEq

structure QueryCacheEntry where
  queryHash : UInt32
  queryText : CStr
  result : CachedResult
  createdAt : Int
  valid : Bool
  deriving DecidableEq

structure QueryCache where
  entries : List QueryCacheEntry
  maxMemory : UInt64
  totalMemory : UInt64
  deriving DecidableEq

/-- `tolower` of a signed `char`: of −128 … −2 it gives 128 … 254, and −1 is `EOF`. -/
def tolower (c : UInt8) : UInt32 :=
  if c = 255 then 0xFFFFFFFF else (CStr.lowerByte c).toUInt32

/-- `result_hash_query`; the cache compares its digits in hexadecimal. -/
def resultHashQuery (query : CStr) : UInt32 :=
  query.val.foldl (fun hash c => ((hash <<< 5) + hash) + tolower c) 5381

/-- `strcasestr(s, sub) != NULL` -/
def containsIgnoringCase (sub s : CStr) : Bool :=
  (s.val.map CStr.lowerByte).tails.any fun t => (sub.val.map CStr.lowerByte).isPrefixOf t

def queryCacheInit (maxMemory : UInt64) : QueryCache where
  entries := []
  maxMemory := if 0 < maxMemory then maxMemory else 64 * 1024 * 1024
  totalMemory := 0

namespace QueryCache

/-! ## Eviction -/

/-- The loop of `evict_oldest_entry`, at position `i`. -/
def scanOldest (oldestIdx : Nat) (oldestTime : Int) (i : Nat) : List QueryCacheEntry → Nat
  | [] => oldestIdx
  | e :: rest =>
      if e.createdAt < oldestTime then scanOldest i e.createdAt (i + 1) rest
      else scanOldest oldestIdx oldestTime (i + 1) rest

def evictOldestEntry (cache : QueryCache) : QueryCache :=
  match cache.entries with
  | [] => cache
  | first :: rest =>
      let oldestIdx := scanOldest 0 first.createdAt 1 rest
      { cache with
        totalMemory := cache.totalMemory -
          ((first :: rest)[oldestIdx]?.map fun e => e.result.memoryUsed).getD 0
        entries := (first :: rest).eraseIdx oldestIdx }

def hasRoom (cache : QueryCache) (memoryUsed : UInt64) : Bool :=
  decide (cache.entries.length < resultCacheSize) &&
    decide (cache.totalMemory + memoryUsed ≤ cache.maxMemory)

/-- An empty cache that still has no room stays as it is, and the loop goes on forever. -/
def makeRoom (cache : QueryCache) (memoryUsed : UInt64) : Option QueryCache :=
  whileLoop (fun cache => !cache.hasRoom memoryUsed) (fun cache => some cache.evictOldestEntry)
    cache.entries.length cache

/-! ## The operations -/

def hit (query : CStr) (e : QueryCacheEntry) : Bool :=
  decide (e.queryHash = resultHashQuery query)

def put (cache : QueryCache) (now : Int) (query : CStr) (result : CachedResult) :
    Option QueryCache :=
  if cache.entries.any (hit query) then
    some { cache with
      entries := cache.entries.modify (cache.entries.findIdx (hit query)) fun e =>
        { e with result := result, createdAt := now } }
  else
    (cache.makeRoom result.memoryUsed).map fun cache =>
      { cache with
        entries := cache.entries ++
          [{ queryHash := resultHashQuery query
             queryText := query
             result := result
             createdAt := now
             valid := true }]
        totalMemory := cache.totalMemory + result.memoryUsed }

def expired (now : Int) (e : QueryCacheEntry) : Bool :=
  decide (now - e.createdAt > resultCacheTtl)

/-- The loop of `query_cache_get`; it goes on behind an entry that is not valid. -/
def getLoop (now : Int) (query : CStr) :
    List QueryCacheEntry → Option CachedResult × List QueryCacheEntry
  | [] => (none, [])
  | e :: rest =>
      if hit query e then
        if expired now e then (none, { e with valid := false } :: rest)
        else if e.valid then (some e.result, e :: rest)
        else ((getLoop now query rest).1, e :: (getLoop now query rest).2)
      else ((getLoop now query rest).1, e :: (getLoop now query rest).2)

def get (cache : QueryCache) (now : Int) (query : CStr) : Option CachedResult × QueryCache :=
  ((getLoop now query cache.entries).1,
    { cache with entries := (getLoop now query cache.entries).2 })

def invalidate (cache : QueryCache) (tableName : CStr) : QueryCache :=
  { cache with
    entries := cache.entries.map fun e =>
      if containsIgnoringCase tableName e.queryText then { e with valid := false } else e }

end QueryCache

/-! ## What has been put -/

/-- What happened to the cache, in its users' terms. -/
inductive CacheEvent
  | put (query : CStr) (result : CachedResult) (time : Int)
  | invalidated (tableName : CStr)
  | evicted (query : CStr)
  deriving DecidableEq

/-- The last put of the text that has since been neither invalidated, expired nor evicted; the
history has its latest event first. -/
def lastPut (now : Int) (query : CStr) : List CacheEvent → Option CachedResult
  | [] => none
  | .put query' result time :: history =>
      if query' = query ∧ now - time ≤ resultCacheTtl then some result
      else lastPut now query history
  | .invalidated tableName :: history =>
      if containsIgnoringCase tableName query then none else lastPut now query history
  | .evicted query' :: history =>
      if query' = query then none else lastPut now query history

/-- The cache with the time and its history. -/
structure CacheRun where
  cache : QueryCache
  now : Int
  history : List CacheEvent
  deriving DecidableEq

inductive CacheCall
  | put (query : CStr) (result : CachedResult)
  | get (query : CStr)
  | invalidate (tableName : CStr)
  | wait (seconds : Nat)

namespace CacheRun

def start (maxMemory : UInt64) (now : Int) : CacheRun where
  cache := queryCacheInit maxMemory
  now := now
  history := []

/-- The texts of the entries that are gone. -/
def evictions (before after : QueryCache) : List CStr :=
  (before.entries.filter fun e => e.queryHash ∉ after.entries.map QueryCacheEntry.queryHash).map
    QueryCacheEntry.queryText

def step (run : CacheRun) : CacheCall → Option CacheRun
  | .put query result =>
      (run.cache.put run.now query result).map fun cache =>
        { run with
          cache := cache
          history := .put query result run.now ::
            ((evictions run.cache cache).map CacheEvent.evicted ++ run.history) }
  | .get query => some { run with cache := (run.cache.get run.now query).2 }
  | .invalidate tableName =>
      some { run with
        cache := run.cache.invalidate tableName
        history := .invalidated tableName :: run.history }
  | .wait seconds => some { run with now := run.now + seconds }

/-- A put returns, and a get serves the last put of its text. -/
def Serves (run : CacheRun) : CacheCall → Prop
  | .put query result => (run.cache.put run.now query result).isSome
  | .get query => (run.cache.get run.now query).1 = lastPut run.now query run.history
  | .invalidate _ | .wait _ => True

/-! ## When the cache serves -/

/-- `total_memory` is what the entries use. -/
def Accounted (cache : QueryCache) : Prop :=
  cache.totalMemory = (cache.entries.map fun e => e.result.memoryUsed).sum

/-- A put that finds its hash finds its own text, and no invalid entry.  One that does not has room
at once, or the memory is accounted for. -/
def PutFits (run : CacheRun) (query : CStr) (result : CachedResult) : Prop :=
  if run.cache.entries.any (QueryCache.hit query) then
    ∀ e ∈ run.cache.entries, QueryCache.hit query e → e.queryText = query ∧ e.valid
  else
    run.cache.hasRoom result.memoryUsed ∨
      (Accounted run.cache ∧ result.memoryUsed ≤ run.cache.maxMemory)

/-- A get finds no servable entry of another text. -/
def GetFits (run : CacheRun) (query : CStr) : Prop :=
  ∀ e ∈ run.cache.entries, QueryCache.hit query e → e.valid → ¬ QueryCache.expired run.now e →
    e.queryText = query

def Fits (run : CacheRun) : CacheCall → Prop
  | .put query result => run.PutFits query result
  | .get query => run.GetFits query
  | .invalidate _ | .wait _ => True

/-- The entries are what the history makes them: `served` and `unserved` speak of all times to
come. -/
structure Tracks (run : CacheRun) : Prop where
  hash : ∀ e ∈ run.cache.entries, e.queryHash = resultHashQuery e.queryText
  unique : (run.cache.entries.map QueryCacheEntry.queryHash).Nodup
  past : ∀ e ∈ run.cache.entries, e.createdAt ≤ run.now
  served : ∀ e ∈ run.cache.entries, ∀ later ≥ run.now,
    lastPut later e.queryText run.history =
      if e.valid ∧ later - e.createdAt ≤ resultCacheTtl then some e.result else none
  unserved : ∀ query, (∀ e ∈ run.cache.entries, e.queryText ≠ query) → ∀ later ≥ run.now,
    lastPut later query run.history = none

end CacheRun

/-! ## Eviction -/

namespace QueryCache

theorem scanOldest_lt {oldestIdx i : Nat} {oldestTime : Int} {rest : List QueryCacheEntry}
    (hidx : oldestIdx < i) : scanOldest oldestIdx oldestTime i rest < i + rest.length := by
  induction rest generalizing oldestIdx oldestTime i with
  | nil => exact hidx
  | cons e rest ih =>
      unfold scanOldest
      rw [List.length_cons, Nat.add_comm rest.length, ← Nat.add_assoc]
      split_ifs
      · exact ih (Nat.lt_succ_self i)
      · exact ih (Nat.lt_succ_of_lt hidx)

/-- One entry goes, and with it its memory. -/
theorem evictOldestEntry_eq {cache : QueryCache} (hne : cache.entries ≠ []) :
    ∃ i e, cache.entries[i]? = some e ∧
      cache.evictOldestEntry = { cache with
        totalMemory := cache.totalMemory - e.result.memoryUsed
        entries := cache.entries.eraseIdx i } := by
  cases hentries : cache.entries with
  | nil => exact absurd hentries hne
  | cons first rest =>
      have hlt : scanOldest 0 first.createdAt 1 rest < (first :: rest).length := by
        rw [List.length_cons, Nat.add_comm]
        exact scanOldest_lt Nat.zero_lt_one
      have hget := List.getElem?_eq_getElem hlt
      refine ⟨_, _, hget, ?_⟩
      unfold evictOldestEntry
      simp only [hentries]
      rw [hget]
      rfl

theorem sum_eraseIdx {f : QueryCacheEntry → UInt64} {l : List QueryCacheEntry} {i : Nat}
    {e : QueryCacheEntry} (hget : l[i]? = some e) :
    (l.map f).sum - f e = ((l.eraseIdx i).map f).sum := by
  have hsum : (l.map f).sum = ((l.eraseIdx i).map f).sum + f e := by
    induction l generalizing i with
    | nil => cases hget
    | cons first rest ih =>
        rw [List.map_cons, List.sum_cons]
        cases i with
        | zero =>
            obtain rfl : first = e := by simpa using hget
            rw [List.eraseIdx_zero, List.tail_cons, UInt64.add_comm]
        | succ i =>
            rw [List.getElem?_cons_succ] at hget
            rw [List.eraseIdx_cons_succ, List.map_cons, List.sum_cons, ih hget, UInt64.add_assoc]
  rw [hsum, UInt64.add_sub_cancel]

theorem makeRoom_eq_some {cache after : QueryCache} {memoryUsed : UInt64}
    (hroom : cache.makeRoom memoryUsed = some after) :
    after.entries.Sublist cache.entries ∧ after.maxMemory = cache.maxMemory := by
  refine (whileLoop_of_invariant
    (P := fun c => c.entries.Sublist cache.entries ∧ c.maxMemory = cache.maxMemory)
    ?_ ⟨List.Sublist.refl _, rfl⟩ hroom).1
  rintro c next ⟨hsub, hmax⟩ _ hnext
  cases hnext
  by_cases hne : c.entries = []
  · unfold evictOldestEntry
    rw [hne]
    exact ⟨hsub, hmax⟩
  · obtain ⟨i, e, _, heq⟩ := evictOldestEntry_eq hne
    rw [heq]
    exact ⟨(List.eraseIdx_sublist _ _).trans hsub, hmax⟩

/-- There is room at once, or when everything that is accounted for is gone. -/
theorem makeRoom_isSome {cache : QueryCache} {memoryUsed : UInt64}
    (hfits : cache.hasRoom memoryUsed ∨
      (CacheRun.Accounted cache ∧ memoryUsed ≤ cache.maxMemory)) :
    (cache.makeRoom memoryUsed).isSome := by
  have hempty : ∀ c : QueryCache, (c.hasRoom memoryUsed ∨
      (CacheRun.Accounted c ∧ memoryUsed ≤ c.maxMemory)) → c.entries = [] →
      c.hasRoom memoryUsed = true := by
    rintro c (hroom | ⟨haccounted, hmax⟩) hnil
    · exact hroom
    · unfold CacheRun.Accounted at haccounted
      rw [hnil] at haccounted
      unfold hasRoom
      rw [haccounted, hnil, List.map_nil, List.sum_nil, UInt64.zero_add]
      simpa [resultCacheSize] using hmax
  refine whileLoop_isSome (P := fun c => c.hasRoom memoryUsed ∨
      (CacheRun.Accounted c ∧ memoryUsed ≤ c.maxMemory)) (m := fun c => c.entries.length)
    (fun c hc hnil => ?_) (fun c hc hmore => ?_) hfits (Nat.le_refl _)
  · rw [hempty c hc (List.length_eq_zero_iff.mp hnil)]
    rfl
  · have hfull : ¬ c.hasRoom memoryUsed := by simpa using hmore
    obtain ⟨haccounted, hmax⟩ := hc.resolve_left hfull
    obtain ⟨i, e, hget, heq⟩ := evictOldestEntry_eq fun hnil => hfull (hempty c hc hnil)
    refine ⟨_, rfl, Or.inr ?_, ?_⟩
    · rw [heq]
      refine ⟨?_, hmax⟩
      unfold CacheRun.Accounted at haccounted ⊢
      dsimp only
      rw [haccounted]
      exact sum_eraseIdx (f := fun e => e.result.memoryUsed) hget
    · rw [heq]
      have hlt := (List.getElem?_eq_some_iff.mp hget).1
      dsimp only
      rw [List.length_eraseIdx_of_lt hlt]
      omega

/-! ## Lookups under distinct hashes -/

theorem getLoop_of_no_hit {now : Int} {query : CStr} {entries : List QueryCacheEntry}
    (hnone : ∀ e ∈ entries, hit query e = false) : getLoop now query entries = (none, entries) := by
  induction entries with
  | nil => rfl
  | cons e rest ih =>
      unfold getLoop
      rw [if_neg (by simp [hnone e List.mem_cons_self]),
        ih fun e' he' => hnone e' (List.mem_cons_of_mem _ he')]

theorem hit_unique {query : CStr} {e e' : QueryCacheEntry} {entries : List QueryCacheEntry}
    (hunique : (entries.map QueryCacheEntry.queryHash).Nodup) (he : e ∈ entries)
    (he' : e' ∈ entries) (hhit : hit query e) (hhit' : hit query e') : e = e' :=
  List.inj_on_of_nodup_map hunique he he'
    ((of_decide_eq_true hhit).trans (of_decide_eq_true hhit').symm)

/-- What a get does to an entry. -/
def markExpired (now : Int) (query : CStr) (e : QueryCacheEntry) : QueryCacheEntry :=
  if hit query e && expired now e then { e with valid := false } else e

/-- A get looks at one entry, and marks it if it has expired. -/
theorem getLoop_eq {now : Int} {query : CStr} {entries : List QueryCacheEntry}
    (hunique : (entries.map QueryCacheEntry.queryHash).Nodup) :
    getLoop now query entries =
      ((entries.find? (hit query)).bind fun e =>
          if expired now e then none else if e.valid then some e.result else none,
        entries.map (markExpired now query)) := by
  induction entries with
  | nil => rfl
  | cons e rest ih =>
      rw [List.map_cons, List.nodup_cons] at hunique
      rw [List.map_cons, List.find?_cons]
      unfold getLoop
      cases hhit : hit query e with
      | true =>
          have hrest : ∀ e' ∈ rest, hit query e' = false := by
            intro e' he'
            rw [Bool.eq_false_iff]
            intro hhit'
            refine hunique.1 ?_
            rw [of_decide_eq_true hhit, ← of_decide_eq_true hhit']
            exact List.mem_map_of_mem he'
          have hsame : ∀ e' ∈ rest, markExpired now query e' = e' := by
            intro e' he'
            simp [markExpired, hrest e' he']
          have hmap : rest.map (markExpired now query) = rest :=
            (List.map_congr_left hsame).trans (List.map_id' rest)
          have hmark : markExpired now query e =
              if expired now e then { e with valid := false } else e := by
            simp [markExpired, hhit]
          rw [getLoop_of_no_hit hrest, hmap, hmark]
          simp only [if_true, Option.bind_some]
          split_ifs <;> rfl
      | false =>
          have hmark : markExpired now query e = e := by simp [markExpired, hhit]
          rw [ih hunique.2, hmark]
          rfl

end QueryCache

/-! ## What every call keeps -/

namespace CacheRun

open QueryCache

theorem tracks_start (maxMemory : UInt64) (now : Int) : (start maxMemory now).Tracks where
  hash := by simp [start, queryCacheInit]
  unique := List.nodup_nil
  past := by simp [start, queryCacheInit]
  served := by simp [start, queryCacheInit]
  unserved := fun _ _ _ _ => rfl

/-- A call that changes entries where they are. -/
theorem Tracks.of_map {run : CacheRun} (htracks : run.Tracks)
    {g : QueryCacheEntry → QueryCacheEntry} {history : List CacheEvent}
    (hhash : ∀ e, (g e).queryHash = e.queryHash) (htext : ∀ e, (g e).queryText = e.queryText)
    (hpast : ∀ e ∈ run.cache.entries, (g e).createdAt ≤ run.now)
    (hserved : ∀ e ∈ run.cache.entries, ∀ later ≥ run.now,
      lastPut later e.queryText history =
        if (g e).valid ∧ later - (g e).createdAt ≤ resultCacheTtl then some (g e).result else none)
    (hunserved : ∀ query, (∀ e ∈ run.cache.entries, e.queryText ≠ query) → ∀ later ≥ run.now,
      lastPut later query history = none) :
    { run with
      cache := { run.cache with entries := run.cache.entries.map g }
      history := history }.Tracks where
  hash := by
    intro e he
    obtain ⟨e, hold, rfl⟩ := List.mem_map.mp he
    rw [hhash, htext, htracks.hash e hold]
  unique := by
    have heq : (run.cache.entries.map g).map QueryCacheEntry.queryHash =
        run.cache.entries.map QueryCacheEntry.queryHash := by
      rw [List.map_map]
      exact List.map_congr_left fun e _ => hhash e
    exact heq ▸ htracks.unique
  past := by
    intro e he
    obtain ⟨e, hold, rfl⟩ := List.mem_map.mp he
    exact hpast e hold
  served := by
    intro e he later hlater
    obtain ⟨e, hold, rfl⟩ := List.mem_map.mp he
    rw [htext]
    exact hserved e hold later hlater
  unserved := by
    intro query hnone
    refine hunserved query fun e he heq => ?_
    exact hnone (g e) (List.mem_map_of_mem he) ((htext e).trans heq)

theorem Tracks.get {run : CacheRun} (htracks : run.Tracks) (query : CStr) :
    { run with cache := (run.cache.get run.now query).2 }.Tracks := by
  unfold QueryCache.get
  rw [getLoop_eq htracks.unique]
  refine htracks.of_map (fun e => ?_) (fun e => ?_) (fun e he => ?_) (fun e he later hlater => ?_)
    htracks.unserved
  · unfold markExpired
    split_ifs <;> rfl
  · unfold markExpired
    split_ifs <;> rfl
  · have hpast := htracks.past e he
    unfold markExpired
    split_ifs <;> exact hpast
  · rw [htracks.served e he later hlater]
    unfold markExpired
    by_cases hmarked : (hit query e && expired run.now e) = true
    · rw [if_pos hmarked]
      -- what has expired is never served again
      have hlate : ¬ later - e.createdAt ≤ resultCacheTtl := by
        have hexpired := of_decide_eq_true (Bool.and_eq_true_iff.mp hmarked).2
        have hle : later ≥ run.now := hlater
        omega
      rw [if_neg fun h => hlate h.2, if_neg fun h => hlate h.2]
    · rw [if_neg hmarked]

theorem Tracks.invalidate {run : CacheRun} (htracks : run.Tracks) (tableName : CStr) :
    { run with
      cache := run.cache.invalidate tableName
      history := .invalidated tableName :: run.history }.Tracks := by
  refine htracks.of_map (fun e => ?_) (fun e => ?_) (fun e he => ?_) (fun e he later hlater => ?_)
    (fun query hnone later hlater => ?_)
  · split_ifs <;> rfl
  · split_ifs <;> rfl
  · have hpast := htracks.past e he
    split_ifs <;> exact hpast
  · unfold lastPut
    rw [htracks.served e he later hlater]
    split_ifs <;> simp_all
  · unfold lastPut
    rw [htracks.unserved query hnone later hlater, ite_self]

theorem Tracks.wait {run : CacheRun} (htracks : run.Tracks) (seconds : Nat) :
    { run with now := run.now + seconds }.Tracks where
  hash := htracks.hash
  unique := htracks.unique
  past := fun e he => by
    have hpast := htracks.past e he
    dsimp only
    omega
  served := fun e he later hlater => htracks.served e he later (by dsimp only at hlater; omega)
  unserved := fun query hnone later hlater =>
    htracks.unserved query hnone later (by dsimp only at hlater; omega)

theorem lastPut_evicted {later : Int} {query : CStr} {texts : List CStr}
    {history : List CacheEvent} :
    lastPut later query (texts.map CacheEvent.evicted ++ history) =
      if query ∈ texts then none else lastPut later query history := by
  induction texts with
  | nil => rfl
  | cons text texts ih =>
      rw [List.map_cons, List.cons_append, lastPut, ih]
      by_cases heq : text = query
      · simp [heq]
      · simp [heq, Ne.symm heq]

theorem mem_evictions {before after : QueryCache} {text : CStr} :
    text ∈ evictions before after ↔
      ∃ e ∈ before.entries,
        e.queryHash ∉ after.entries.map QueryCacheEntry.queryHash ∧ e.queryText = text := by
  simp [evictions, and_assoc]

theorem evictions_eq_nil {before after : QueryCache}
    (hsame : after.entries.map QueryCacheEntry.queryHash =
      before.entries.map QueryCacheEntry.queryHash) : evictions before after = [] := by
  unfold evictions
  rw [hsame, List.filter_eq_nil_iff.mpr, List.map_nil]
  intro e he
  simpa using ⟨e, he, rfl⟩

/-- A put that finds its text refreshes the entry. -/
theorem Tracks.refresh {run : CacheRun} (htracks : run.Tracks) {query : CStr}
    {result : CachedResult} {cache : QueryCache}
    (hfound : run.cache.entries.any (hit query) = true)
    (hfits : ∀ e ∈ run.cache.entries, hit query e → e.queryText = query ∧ e.valid)
    (hput : run.cache.put run.now query result = some cache) :
    { run with
      cache := cache
      history := .put query result run.now ::
        ((evictions run.cache cache).map CacheEvent.evicted ++ run.history) }.Tracks := by
  unfold QueryCache.put at hput
  rw [if_pos hfound] at hput
  cases hput
  let refreshed : QueryCacheEntry → QueryCacheEntry := fun e =>
    if e.queryHash = resultHashQuery query then { e with result := result, createdAt := run.now }
    else e
  have hmap : run.cache.entries.modify (run.cache.entries.findIdx (hit query))
      (fun e => { e with result := result, createdAt := run.now }) =
      run.cache.entries.map refreshed :=
    modify_findIdx_eq_map htracks.unique (resultHashQuery query) _
  have hhash : ∀ e, (refreshed e).queryHash = e.queryHash := by
    intro e
    dsimp only [refreshed]
    split_ifs <;> rfl
  rw [hmap, evictions_eq_nil (by
    rw [List.map_map]
    exact List.map_congr_left fun e _ => hhash e)]
  refine htracks.of_map hhash (fun e => ?_) (fun e he => ?_) (fun e he later hlater => ?_)
    (fun query' hnone later hlater => ?_)
  · dsimp only [refreshed]
    split_ifs <;> rfl
  · have hpast := htracks.past e he
    dsimp only [refreshed]
    split_ifs
    · exact le_refl _
    · exact hpast
  · have hserved := htracks.served e he later hlater
    rw [List.map_nil, List.nil_append, lastPut]
    by_cases hhit : e.queryHash = resultHashQuery query
    · obtain ⟨htext, hvalid⟩ := hfits e he (decide_eq_true hhit)
      simp only [refreshed, if_pos hhit]
      by_cases hfresh : later - run.now ≤ resultCacheTtl
      · rw [if_pos ⟨htext.symm, hfresh⟩, if_pos ⟨hvalid, hfresh⟩]
      · -- the put before it is no younger
        have hpast := htracks.past e he
        rw [if_neg fun h => hfresh h.2, if_neg fun h => hfresh h.2, hserved,
          if_neg (by rintro ⟨_, hle⟩; omega)]
    · have hne : query ≠ e.queryText := by
        rintro rfl
        exact hhit (htracks.hash e he)
      simp only [refreshed, if_neg hhit]
      rw [if_neg fun h => hne h.1, hserved]
  · obtain ⟨e, he, hhit⟩ := List.any_eq_true.mp hfound
    have hne : query ≠ query' := by
      rintro rfl
      exact hnone e he (hfits e he hhit).1
    rw [List.map_nil, List.nil_append, lastPut, if_neg fun h => hne h.1,
      htracks.unserved query' hnone later hlater]

/-- A put that finds nothing adds an entry, behind those that have not been evicted. -/
theorem Tracks.insert {run : CacheRun} (htracks : run.Tracks) {query : CStr}
    {result : CachedResult} {cache : QueryCache}
    (hmissing : ¬ run.cache.entries.any (hit query))
    (hput : run.cache.put run.now query result = some cache) :
    { run with
      cache := cache
      history := .put query result run.now ::
        ((evictions run.cache cache).map CacheEvent.evicted ++ run.history) }.Tracks := by
  unfold QueryCache.put at hput
  rw [if_neg hmissing] at hput
  obtain ⟨roomy, hroom, hafter⟩ := Option.map_eq_some_iff.mp hput
  have hsub := (makeRoom_eq_some hroom).1
  have hentries : cache.entries =
      roomy.entries ++ [⟨resultHashQuery query, query, result, run.now, true⟩] := by
    rw [← hafter]
  have hmem : ∀ {e}, e ∈ cache.entries ↔
      e ∈ roomy.entries ∨ e = ⟨resultHashQuery query, query, result, run.now, true⟩ := by
    intro e
    rw [hentries, List.mem_append, List.mem_singleton]
  have hmiss : ∀ e ∈ run.cache.entries, e.queryHash ≠ resultHashQuery query := by
    intro e he hhash
    exact hmissing (List.any_eq_true.mpr ⟨e, he, decide_eq_true hhash⟩)
  have hmissText : ∀ e ∈ run.cache.entries, query ≠ e.queryText := by
    rintro e he rfl
    exact hmiss e he (htracks.hash e he)
  have hsame : ∀ e ∈ run.cache.entries, ∀ e' ∈ roomy.entries,
      e.queryHash = e'.queryHash → e = e' :=
    fun e he e' he' heq => List.inj_on_of_nodup_map htracks.unique he (hsub.subset he') heq
  have hevicted : ∀ e ∈ run.cache.entries,
      e.queryText ∈ evictions run.cache cache ↔ e ∉ roomy.entries := by
    intro e he
    rw [mem_evictions]
    constructor
    · rintro ⟨e', he', hgone, htext⟩ hkept
      have heq : e' = e := List.inj_on_of_nodup_map htracks.unique he' he (by
        rw [htracks.hash e' he', htracks.hash e he, htext])
      exact hgone (List.mem_map.mpr ⟨e, hmem.mpr (Or.inl hkept), by rw [heq]⟩)
    · intro hgone
      refine ⟨e, he, ?_, rfl⟩
      intro hhash
      obtain ⟨e', he', heq⟩ := List.mem_map.mp hhash
      rcases hmem.mp he' with hkept | rfl
      · exact hgone (hsame e he e' hkept heq.symm ▸ hkept)
      · exact hmiss e he heq.symm
  constructor
  · intro e he
    rcases hmem.mp he with hkept | rfl
    · exact htracks.hash e (hsub.subset hkept)
    · rfl
  · dsimp only
    rw [hentries, List.map_append, List.map_singleton]
    have hconcat := List.Nodup.concat (a := resultHashQuery query)
      (l := roomy.entries.map QueryCacheEntry.queryHash) (by
        intro hhash
        obtain ⟨e, he, heq⟩ := List.mem_map.mp hhash
        exact hmiss e (hsub.subset he) heq) (htracks.unique.sublist (hsub.map _))
    rwa [List.concat_eq_append] at hconcat
  · intro e he
    rcases hmem.mp he with hkept | rfl
    · exact htracks.past e (hsub.subset hkept)
    · exact le_refl _
  · intro e he later hlater
    dsimp only
    rw [lastPut, lastPut_evicted]
    rcases hmem.mp he with hkept | rfl
    · have hold := hsub.subset hkept
      rw [if_neg fun h => hmissText e hold h.1,
        if_neg fun h => (hevicted e hold).mp h hkept, htracks.served e hold later hlater]
    · have hnone := htracks.unserved query (fun e he => (hmissText e he).symm) later hlater
      rw [hnone, ite_self]
      simp
  · intro query' hnone later hlater
    have hne : query ≠ query' := hnone _ (hmem.mpr (Or.inr rfl))
    dsimp only
    rw [lastPut, if_neg fun h => hne h.1, lastPut_evicted]
    split_ifs with hevict
    · rfl
    · refine htracks.unserved query' (fun e he htext => ?_) later hlater
      rw [← htext, hevicted e he, not_not] at hevict
      exact hnone e (hmem.mpr (Or.inl hevict)) htext

theorem Tracks.step {run after : CacheRun} {call : CacheCall} (htracks : run.Tracks)
    (hfits : run.Fits call) (hstep : run.step call = some after) : after.Tracks := by
  cases call with
  | put query result =>
      obtain ⟨cache, hput, rfl⟩ := Option.map_eq_some_iff.mp hstep
      have hfits : run.PutFits query result := hfits
      unfold PutFits at hfits
      split_ifs at hfits with hfound
      · exact htracks.refresh hfound hfits hput
      · exact htracks.insert hfound hput
  | get query =>
      cases hstep
      exact htracks.get query
  | invalidate tableName =>
      cases hstep
      exact htracks.invalidate tableName
  | wait seconds =>
      cases hstep
      exact htracks.wait seconds

/-! ## What is served -/

/-- A get serves the last put of its text exactly if it finds no servable entry of another. -/
theorem get_serves_iff {run : CacheRun} (htracks : run.Tracks) (query : CStr) :
    run.Serves (.get query) ↔ run.GetFits query := by
  change (getLoop run.now query run.cache.entries).1 = _ ↔ _
  rw [getLoop_eq htracks.unique]
  dsimp only
  have hown : ∀ e ∈ run.cache.entries, e.queryText = query → hit query e := by
    rintro e he rfl
    exact decide_eq_true (htracks.hash e he)
  cases hfind : run.cache.entries.find? (hit query) with
  | none =>
      have hmiss := List.find?_eq_none.mp hfind
      have hnone := htracks.unserved query (fun e he htext => hmiss e he (hown e he htext)) run.now
        (le_refl _)
      rw [hnone]
      exact iff_of_true rfl fun e he hhit => absurd hhit (hmiss e he)
  | some e =>
      have he := List.mem_of_find?_eq_some hfind
      have hhit := List.find?_some hfind
      have honly : ∀ e' ∈ run.cache.entries, hit query e' → e' = e := fun e' he' hhit' =>
        hit_unique htracks.unique he' he hhit' hhit
      have hfits : run.GetFits query ↔ (e.valid → ¬ expired run.now e → e.queryText = query) := by
        constructor
        · exact fun h => h e he hhit
        · intro h e' he' hhit'
          rw [honly e' he' hhit']
          exact h
      rw [hfits, Option.bind_some]
      by_cases htext : e.queryText = query
      · have hserved := htracks.served e he run.now (le_refl _)
        rw [htext] at hserved
        refine iff_of_true ?_ fun _ _ => htext
        rw [hserved]
        unfold expired
        by_cases hlate : run.now - e.createdAt > resultCacheTtl
        · rw [if_pos (decide_eq_true hlate), if_neg (by rintro ⟨_, hle⟩; omega)]
        · have hle : run.now - e.createdAt ≤ resultCacheTtl := by omega
          simp [hle]
      · have hnone := htracks.unserved query (fun e' he' htext' =>
          htext (honly e' he' (hown e' he' htext') ▸ htext')) run.now (le_refl _)
        rw [hnone]
        split_ifs with hexpired hvalid
        · simp [hexpired]
        · simp [hvalid, hexpired, htext]
        · simp [hvalid]

theorem serves_of_fits {run : CacheRun} {call : CacheCall} (htracks : run.Tracks)
    (hfits : run.Fits call) : run.Serves call := by
  cases call with
  | put query result =>
      have hfits : run.PutFits query result := hfits
      unfold PutFits at hfits
      change (run.cache.put run.now query result).isSome = true
      unfold QueryCache.put
      split_ifs at hfits ⊢
      · rfl
      · rw [Option.isSome_map]
        exact makeRoom_isSome hfits
  | get query => exact (get_serves_iff htracks query).mpr hfits
  | invalidate tableName => trivial
  | wait seconds => trivial

instance decidableFits (run : CacheRun) : (call : CacheCall) → Decidable (run.Fits call)
  | .put query result =>
      inferInstanceAs (Decidable (if run.cache.entries.any (hit query) then
        ∀ e ∈ run.cache.entries, hit query e → e.queryText = query ∧ e.valid
      else
        run.cache.hasRoom result.memoryUsed ∨
          (run.cache.totalMemory = (run.cache.entries.map fun e => e.result.memoryUsed).sum ∧
            result.memoryUsed ≤ run.cache.maxMemory)))
  | .get _ => inferInstanceAs (Decidable (∀ e ∈ run.cache.entries, _))
  | .invalidate _ => isTrue trivial
  | .wait _ => isTrue trivial

/-! ## The cache over whole runs -/

/-- In every run whose calls fit, every put returns and every get serves the last put of its text
that is still there. -/
theorem query_cache_serves (maxMemory : UInt64) (now : Int) {calls : List CacheCall}
    (hfits : StepsFit step Fits (start maxMemory now) calls) :
    StepsFit step Serves (start maxMemory now) calls :=
  StepsFit.imp (P := Tracks) (fun _ _ _ htracks hfits hstep => htracks.step hfits hstep)
    (fun _ _ htracks hfits => serves_of_fits htracks hfits) (tracks_start maxMemory now) hfits

/-- `SELECT * FROM t` -/
def tableQuery : CStr :=
  CStr.lit "SELECT * FROM t"

/-- A result of one row. -/
def oneRow (value : String) : CachedResult where
  resultSet :=
    { columnNames := [some (CStr.lit "id")]
      columnTypes := [none]
      rows := [[CStr.lit value]] }
  memoryUsed := 600

/-- The second query evicts the first, and is refreshed after it has expired. -/
def refreshCalls : List CacheCall :=
  [.put tableQuery (oneRow "1"), .get tableQuery, .put (CStr.lit "SELECT * FROM u") (oneRow "2"),
    .get tableQuery, .wait 301, .put (CStr.lit "SELECT * FROM u") (oneRow "3"),
    .get (CStr.lit "SELECT * FROM u"), .invalidate (CStr.lit "U"),
    .get (CStr.lit "SELECT * FROM u")]

theorem query_cache_serves_refreshCalls :
    (refreshCalls.foldlM step (start 1000 0)).map CacheRun.history =
        some [.invalidated (CStr.lit "U"), .put (CStr.lit "SELECT * FROM u") (oneRow "3") 301,
          .put (CStr.lit "SELECT * FROM u") (oneRow "2") 0, .evicted tableQuery,
          .put tableQuery (oneRow "1") 0] ∧
      StepsFit step Serves (start 1000 0) refreshCalls :=
  ⟨by decide +kernel, query_cache_serves 1000 0 (by decide +kernel)⟩

/-- A text is put again after it has been invalidated. -/
def staleCalls : List CacheCall :=
  [.put tableQuery (oneRow "1"), .invalidate (CStr.lit "t"), .put tableQuery (oneRow "2")]

/-- An invalidated text that is put again is not served. -/
theorem invalidated_query_stays_unserved :
    ∃ run, staleCalls.foldlM step (start 1000 0) = some run ∧
      (run.cache.get run.now tableQuery).1 = none ∧
      lastPut run.now tableQuery run.history = some (oneRow "2") ∧
      ¬ StepsFit step Serves (start 1000 0) (staleCalls ++ [.get tableQuery]) := by
  have ⟨run, hrun, hget, hput⟩ : ∃ run, staleCalls.foldlM step (start 1000 0) = some run ∧
      (run.cache.get run.now tableQuery).1 = none ∧
      lastPut run.now tableQuery run.history = some (oneRow "2") :=
    ⟨_, rfl, by decide +kernel, by decide +kernel⟩
  refine ⟨run, hrun, hget, hput, fun hserves => ?_⟩
  have hlast : (run.cache.get run.now tableQuery).1 = lastPut run.now tableQuery run.history :=
    hserves.last hrun
  rw [hget, hput] at hlast
  cases hlast

end CacheRun

end Executor
end InventixDB
