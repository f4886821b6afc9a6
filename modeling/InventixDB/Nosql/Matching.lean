import InventixDB.Nosql.FieldUpdates

/-!
# Matching — which documents a write may touch

A write with a query is to leave alone whatever does not have the query's fields.  As the fields
other than `_id` are not looked at, it does so just when the documents that it takes have them
anyway.
-/

namespace InventixDB
namespace Nosql

open Lib
open Lib.JsonText
open Lib.OpenAddressing
open Storage

variable {n : Nat} [NeZero n]

/-! ## What a write may change -/

/-- The document has the fields of the query, with their values. -/
def Matches (query : StringObject) (val : Value) : Prop :=
  ∀ name value, query.newest name = some value →
    ∃ members, ObjectText (CStr.ofBytes val.data).val members ∧
      lastValue members name.val = some (quoted value.val)

/-- A document of the collection that matches the query. -/
def Asked (db collection : CStr) (query : StringObject) (entry : CStr × Value) : Prop :=
  isDocument db collection entry.1 entry.2 = true ∧ Matches query entry.2

/-- Every entry that is changed or removed is a document that matches the query. -/
def OnlyAsked (db collection : CStr) (query : StringObject) (store after : KVStore n) : Prop :=
  ∀ i entry, store.entries i = some entry → after.entries i ≠ some entry →
    Asked db collection query entry

/-! ## What is selected -/

/-- Where the query has an `_id`, what is stored for it, and else the first document. -/
def selected (store : KVStore n) (db collection query : CStr) : Option Value :=
  match jsonGetString query (CStr.lit "_id") with
  | some id => (kvGet store (makeDocKey db collection id)).filter fun val => val.type = .json
  | none => ((toList store.entries).find? fun e => isDocument db collection e.1 e.2).map Prod.snd

variable {store : KVStore n} {db collection : CStr} {seeds : Nat → IdSeed} {now : UInt64}

omit [NeZero n] in
/-- A document that is found first stays first. -/
theorem head_foldl_findDocs (entries : List (CStr × Value)) {fctx : FindDocsCtx} {doc : Document}
    (hfirst : fctx.result.head? = some doc) :
    (entries.foldl (fun fctx e => findDocsCallback seeds now e.1 e.2 fctx) fctx).result.head? =
      some doc := by
  induction entries generalizing fctx with
  | nil => exact hfirst
  | cons e entries ih =>
      refine ih ?_
      simp only [findDocsCallback]
      split_ifs
      · exact hfirst
      · exact hfirst
      · rw [List.head?_append, hfirst, Option.some_or]
      · exact hfirst

omit [NeZero n] in
theorem head_findDocs (entries : List (CStr × Value)) {fctx : FindDocsCtx}
    (hresult : fctx.result = []) (hcount : fctx.count = 0) (hlimit : fctx.limit = 0)
    (hskip : fctx.skip = 0) :
    (entries.foldl (fun fctx e => findDocsCallback seeds now e.1 e.2 fctx) fctx).result.head? =
      (entries.find? fun e => isDocument fctx.db fctx.collection e.1 e.2).map fun e =>
        documentAt e.2 (seeds 0) now := by
  induction entries with
  | nil => rw [List.foldl_nil, hresult]; rfl
  | cons e entries ih =>
      rw [List.foldl_cons]
      by_cases hdoc : isDocument fctx.db fctx.collection e.1 e.2 = true
      · have hfind : (e :: entries).find? (fun e => isDocument fctx.db fctx.collection e.1 e.2) =
            some e := List.find?_cons_of_pos hdoc
        rw [hfind]
        refine head_foldl_findDocs entries ?_
        rw [findDocsCallback, if_pos hdoc, if_neg (by omega), if_neg (by omega), hresult, hcount]
        rfl
      · have hfind : (e :: entries).find? (fun e => isDocument fctx.db fctx.collection e.1 e.2) =
            entries.find? fun e => isDocument fctx.db fctx.collection e.1 e.2 :=
          List.find?_cons_of_neg hdoc
        rw [hfind, findDocsCallback, if_neg hdoc]
        exact ih

theorem nosqlFindOne_eq (store : KVStore n) (db collection query : CStr) (seeds : Nat → IdSeed)
    (now : UInt64) :
    nosqlFindOne store db collection query seeds now =
      (selected store db collection query).map fun val => documentAt val (seeds 0) now := by
  unfold nosqlFindOne selected
  cases jsonGetString query (CStr.lit "_id") with
  | none =>
      rw [nosqlFind, kvIterate_eq_foldl, head_findDocs _ rfl rfl rfl rfl, Option.map_map]
      rfl
  | some id =>
      dsimp only
      cases kvGet store (makeDocKey db collection id) with
      | none => rfl
      | some val =>
          by_cases htype : val.type = .json
          · simp [htype]
          · simp [htype]

/-! ## One document -/

/-- The key that a document is written back to, or deleted under. -/
def ownKey (db collection : CStr) (val : Value) (seed : IdSeed) : CStr :=
  makeDocKey db collection (documentId (CStr.ofBytes val.data) seed)

def mergedValue (val : Value) (update : CStr) : Value where
  data := (CStr.snprintf 4096 (mergedText (CStr.ofBytes val.data) update)).val ++ [0]
  type := .json

/-- What is overwritten matches the query, or has the merged text already. -/
def UpdatesAsked (store : KVStore n) (db collection : CStr) (query : StringObject) (update : CStr)
    (seed : IdSeed) : Prop :=
  ∀ val ∈ selected store db collection query.json,
    ∀ w ∈ kvGet store (ownKey db collection val seed),
    w = mergedValue val update ∨ Asked db collection query (ownKey db collection val seed, w)

/-- What is deleted matches the query. -/
def DeletesAsked (store : KVStore n) (db collection : CStr) (query : StringObject) (seed : IdSeed) :
    Prop :=
  ∀ val ∈ selected store db collection query.json,
    ∀ w ∈ kvGet store (ownKey db collection val seed),
    Asked db collection query (ownKey db collection val seed, w)

variable {query : StringObject}

omit [NeZero n] in
theorem onlyAsked_refl (store : KVStore n) : OnlyAsked db collection query store store :=
  fun _ _ hentry hchanged => absurd hentry hchanged

/-- The entry that a key is found at is the one that is got for it. -/
theorem forall_hit_iff {key : CStr} {P : Value → Prop} :
    (∀ i w, store.entries i = some (key, w) → probe CStr.slot store.entries key = .hit i → P w) ↔
      ∀ w ∈ kvGet store key, P w := by
  constructor
  · intro hfound w hw
    obtain ⟨i, hprobe, hi⟩ := lookup_eq_some_iff_hit.mp hw
    exact hfound i w hi hprobe
  · intro hget i w hi hprobe
    exact hget w (lookup_eq_some_iff_hit.mpr ⟨i, hprobe, hi⟩)

theorem onlyAsked_putText_iff {key text : CStr} :
    OnlyAsked db collection query store (putText store key text) ↔
      ∀ w ∈ kvGet store key, w = { data := text.val ++ [0], type := .json } ∨
        Asked db collection query (key, w) := by
  rw [OnlyAsked, putText, entries_kvPut, insert_changes_iff fun _ _ hentry => hentry]
  exact forall_hit_iff

theorem onlyAsked_kvDelete_iff {key : CStr} :
    OnlyAsked db collection query store (kvDelete store key) ↔
      ∀ w ∈ kvGet store key, Asked db collection query (key, w) := by
  rw [OnlyAsked, entries_kvDelete, erase_changes_iff]
  exact forall_hit_iff

theorem nosqlUpdateOne_store (store : KVStore n) (db collection query update : CStr)
    (seeds : Nat → IdSeed) (now : UInt64) :
    (nosqlUpdateOne store db collection query update seeds now).1 =
      match selected store db collection query with
      | none => store
      | some val => putText store (ownKey db collection val (seeds 0))
          (CStr.snprintf 4096 (mergedText (CStr.ofBytes val.data) update)) := by
  rw [nosqlUpdateOne, nosqlFindOne_eq]
  cases selected store db collection query with
  | none => rfl
  | some val => rfl

theorem nosqlDeleteOne_store (store : KVStore n) (db collection query : CStr)
    (seeds : Nat → IdSeed) (now : UInt64) :
    (nosqlDeleteOne store db collection query seeds now).1 =
      match selected store db collection query with
      | none => store
      | some val => kvDelete store (ownKey db collection val (seeds 0)) := by
  rw [nosqlDeleteOne, nosqlFindOne_eq]
  cases selected store db collection query with
  | none => rfl
  | some val => rfl

theorem onlyAsked_updateOne_iff {update : CStr} :
    OnlyAsked db collection query store
        (nosqlUpdateOne store db collection query.json update seeds now).1 ↔
      UpdatesAsked store db collection query update (seeds 0) := by
  rw [nosqlUpdateOne_store, UpdatesAsked]
  cases selected store db collection query.json with
  | none => exact iff_of_true (onlyAsked_refl store) fun val hval => nomatch hval
  | some val =>
      refine onlyAsked_putText_iff.trans ⟨fun h val' hval' => ?_, fun h => h val rfl⟩
      cases hval'
      exact h

theorem onlyAsked_deleteOne_iff :
    OnlyAsked db collection query store
        (nosqlDeleteOne store db collection query.json seeds now).1 ↔
      DeletesAsked store db collection query (seeds 0) := by
  rw [nosqlDeleteOne_store, DeletesAsked]
  cases selected store db collection query.json with
  | none => exact iff_of_true (onlyAsked_refl store) fun val hval => nomatch hval
  | some val =>
      refine onlyAsked_kvDelete_iff.trans ⟨fun h val' hval' => ?_, fun h => h val rfl⟩
      cases hval'
      exact h

/-! ## Upserts -/

/-- An entry that the key of the new document is found at has its text already, or matches. -/
def InsertsAsked (store : KVStore n) (db collection : CStr) (query : StringObject) (json : CStr)
    (seed : IdSeed) (now : UInt64) : Prop :=
  ∀ i w, store.entries i = some (makeDocKey db collection (documentId json seed), w) →
    probe CStr.slot (ensureCollection store db collection now).entries
        (makeDocKey db collection (documentId json seed)) = .hit i →
      w =
          { data := (nosqlInsertOne store db collection json seed now).1.jsonData.val ++ [0]
            type := .json } ∨
        Asked db collection query (makeDocKey db collection (documentId json seed), w)

/-- A collection is only added. -/
theorem entries_ensureCollection {i : Fin n} {entry : CStr × Value}
    (hentry : store.entries i = some entry) :
    (ensureCollection store db collection now).entries i = some entry := by
  unfold ensureCollection nosqlCreateCollection
  split
  · exact hentry
  · rename_i hnone
    rw [Option.isSome_iff_ne_none, not_not] at hnone
    dsimp only
    rw [hnone, if_neg (by simp), putText, entries_kvPut]
    by_contra hchanged
    refine insert_changes_iff (R := fun _ => False) (fun _ _ h => h) |>.mpr ?_ i entry hentry
      hchanged
    intro j w hj hprobe
    have hfound := lookup_eq_some_iff_hit.mpr ⟨j, hprobe, hj⟩
    exact absurd (hnone.symm.trans hfound) (by simp)

theorem onlyAsked_insertOne_iff {json : CStr} {seed : IdSeed} :
    OnlyAsked db collection query store (nosqlInsertOne store db collection json seed now).2 ↔
      InsertsAsked store db collection query json seed now := by
  rw [OnlyAsked, nosqlInsertOne, putText, entries_kvPut]
  exact insert_changes_iff fun _ _ hentry => entries_ensureCollection hentry

/-! ## Many documents -/

/-- Entries under other keys stay. -/
def OnlyUnder (pre : CStr) (store after : KVStore n) : Prop :=
  ∀ i entry, store.entries i = some entry → CStr.startsWith pre entry.1 = false →
    after.entries i = some entry

theorem startsWith_makeDocKey (db collection id : CStr) :
    CStr.startsWith (docPrefix db collection) (makeDocKey db collection id) = true := by
  have hval : ∀ (a : CStr), (CStr.snprintf 256 a).val = a.val.take 255 := by
    intro a
    exact CStr.ofBytes_of_notMem fun hmem => a.property (List.mem_of_mem_take hmem)
  rw [CStr.startsWith, List.isPrefixOf_iff_prefix, docPrefix, makeDocKey, hval, hval]
  exact (List.prefix_append _ _).take 255

omit [NeZero n] in
theorem onlyUnder_refl (pre : CStr) (store : KVStore n) : OnlyUnder pre store store :=
  fun _ _ hentry _ => hentry

/-- The document's own key is one of the collection. -/
theorem ne_ownKey {entry : CStr × Value} {val : Value} {seed : IdSeed}
    (hother : CStr.startsWith (docPrefix db collection) entry.1 = false) :
    entry.1 ≠ ownKey db collection val seed := by
  intro hkey
  rw [hkey, ownKey, startsWith_makeDocKey] at hother
  cases hother

theorem onlyUnder_updateOne (store : KVStore n) (db collection query update : CStr)
    (seeds : Nat → IdSeed) (now : UInt64) :
    OnlyUnder (docPrefix db collection) store
      (nosqlUpdateOne store db collection query update seeds now).1 := by
  rw [nosqlUpdateOne_store]
  cases selected store db collection query with
  | none => exact onlyUnder_refl _ store
  | some val =>
      intro i entry hentry hother
      dsimp only
      rw [putText, entries_kvPut]
      exact insert_keeps hentry (ne_ownKey hother)

theorem onlyUnder_deleteOne (store : KVStore n) (db collection query : CStr)
    (seeds : Nat → IdSeed) (now : UInt64) :
    OnlyUnder (docPrefix db collection) store
      (nosqlDeleteOne store db collection query seeds now).1 := by
  rw [nosqlDeleteOne_store]
  cases selected store db collection query with
  | none => exact onlyUnder_refl _ store
  | some val =>
      intro i entry hentry hother
      dsimp only
      rw [entries_kvDelete]
      exact erase_keeps hentry (ne_ownKey hother)

omit [NeZero n] in
theorem onlyUnder_forEachId {pre : CStr} {call : KVStore n → CStr → IdSeed → KVStore n × Nat}
    (hcall : ∀ store query seed, OnlyUnder pre store (call store query seed).1)
    (docs : List Document) (seeds : Nat → IdSeed) (r : KVStore n × Nat) :
    OnlyUnder pre r.1 (forEachId call seeds docs r).1 := by
  induction docs generalizing seeds r with
  | nil => exact onlyUnder_refl pre r.1
  | cons doc docs ih =>
      intro i entry hentry hother
      exact ih _ _ i entry (hcall _ _ _ i entry hentry hother) hother

theorem onlyUnder_updateMany (store : KVStore n) (db collection query update : CStr)
    (seeds : Nat → Nat → IdSeed) (now : UInt64) :
    OnlyUnder (docPrefix db collection) store
      (nosqlUpdateMany store db collection query update seeds now).1 := by
  have hcall : ∀ (store : KVStore n) (id : CStr) (seed : IdSeed),
      OnlyUnder (docPrefix db collection) store
        (nosqlUpdateOne store db collection id update (fun _ => seed) now).1 :=
    fun store id seed => onlyUnder_updateOne store db collection id update _ now
  exact onlyUnder_forEachId hcall _ _ (store, 0)

theorem onlyUnder_deleteMany (store : KVStore n) (db collection query : CStr)
    (seeds : Nat → Nat → IdSeed) (now : UInt64) :
    OnlyUnder (docPrefix db collection) store
      (nosqlDeleteMany store db collection query seeds now).1 := by
  have hcall : ∀ (store : KVStore n) (id : CStr) (seed : IdSeed),
      OnlyUnder (docPrefix db collection) store
        (nosqlDeleteOne store db collection id (fun _ => seed) now).1 :=
    fun store id seed => onlyUnder_deleteOne store db collection id _ now
  exact onlyUnder_forEachId hcall _ _ (store, 0)

/-- All that is stored under the keys of the collection is documents that match. -/
def AllAsked (store : KVStore n) (db collection : CStr) (query : StringObject) : Prop :=
  ∀ i entry, store.entries i = some entry →
    CStr.startsWith (docPrefix db collection) entry.1 = true → Asked db collection query entry

omit [NeZero n] in
theorem onlyAsked_of_onlyUnder {after : KVStore n} (hall : AllAsked store db collection query)
    (hunder : OnlyUnder (docPrefix db collection) store after) :
    OnlyAsked db collection query store after := by
  intro i entry hentry hchanged
  refine hall i entry hentry ?_
  by_contra hother
  exact hchanged (hunder i entry hentry (Bool.eq_false_iff.mpr hother))

/-! ## Calls -/

/-- The call of a write, with the seeds of the ids that it may have to make. -/
inductive DocumentCall
  | updateOne (query : StringObject) (update : CStr) (seeds : Nat → IdSeed)
  | updateMany (query : StringObject) (update : CStr) (seeds : Nat → Nat → IdSeed)
  | deleteOne (query : StringObject) (seeds : Nat → IdSeed)
  | deleteMany (query : StringObject) (seeds : Nat → Nat → IdSeed)
  | upsert (query : StringObject) (json : CStr) (seeds : Nat → Nat → IdSeed)
  /-- The `UPSERT` statement, whose query is `{}`. -/
  | statement (json : CStr) (seeds : Nat → Nat → IdSeed)

/-- `{}` -/
def emptyObject : StringObject where
  json := CStr.lit "\x7b\x7d"
  members := []
  object := by
    have hblank : Blank [] := by rintro c ⟨⟩
    exact ⟨[], [], [], hblank, .empty hblank, hblank, by decide⟩
  strings := by simp

/-- No document of the collection matches the query. -/
def NoneAsked (store : KVStore n) (db collection : CStr) (query : StringObject) : Prop :=
  ∀ i entry, store.entries i = some entry → ¬ Asked db collection query entry

/-- An upsert touches only documents that match, and inserts just when none does. -/
def UpsertsAsked (store after : KVStore n) (db collection : CStr) (query : StringObject)
    (seeds : Nat → Nat → IdSeed) (now : UInt64) : Prop :=
  OnlyAsked db collection query store after ∧
    (nosqlFindOne store db collection query.json (seeds 0) now = none ↔
      NoneAsked store db collection query)

/-- What an upsert takes matches: the document that is selected, and there is one that matches then,
or none is selected and none matches, nor is there one in the place of the new document. -/
def UpsertTakes (store : KVStore n) (db collection : CStr) (query : StringObject) (json : CStr)
    (seed : IdSeed) (now : UInt64) : Prop :=
  match selected store db collection query.json with
  | some _ =>
      UpdatesAsked store db collection query json seed ∧ ¬ NoneAsked store db collection query
  | none =>
      InsertsAsked store db collection query json seed now ∧ NoneAsked store db collection query

theorem upsertsAsked_iff {json : CStr} {seeds : Nat → Nat → IdSeed} :
    UpsertsAsked store (nosqlUpsert store db collection query.json json seeds now).1 db collection
        query seeds now ↔
      UpsertTakes store db collection query json (seeds 1 0) now := by
  have hfind := nosqlFindOne_eq store db collection query.json (seeds 0) now
  unfold UpsertsAsked UpsertTakes nosqlUpsert
  cases hselected : selected store db collection query.json with
  | none =>
      rw [hselected, Option.map_none] at hfind
      rw [hfind]
      dsimp only
      rw [onlyAsked_insertOne_iff]
      exact and_congr_right fun _ => iff_of_eq (by simp)
  | some val =>
      rw [hselected, Option.map_some] at hfind
      rw [hfind]
      dsimp only
      rw [onlyAsked_updateOne_iff]
      exact and_congr_right fun _ => iff_of_eq (by simp)

namespace DocumentCall

variable (store : KVStore n) (db collection : CStr) (now : UInt64)

/-- What the call is to do. -/
def Harmless : DocumentCall → Prop
  | .updateOne query update seeds =>
      OnlyAsked db collection query store
        (nosqlUpdateOne store db collection query.json update seeds now).1
  | .updateMany query update seeds =>
      OnlyAsked db collection query store
        (nosqlUpdateMany store db collection query.json update seeds now).1
  | .deleteOne query seeds =>
      OnlyAsked db collection query store
        (nosqlDeleteOne store db collection query.json seeds now).1
  | .deleteMany query seeds =>
      OnlyAsked db collection query store
        (nosqlDeleteMany store db collection query.json seeds now).1
  | .upsert query json seeds =>
      UpsertsAsked store (nosqlUpsert store db collection query.json json seeds now).1 db collection
        query seeds now
  | .statement json seeds =>
      UpsertsAsked store (executeNosqlUpsert store db collection json seeds now).1 db collection
        emptyObject seeds now

/-- What the call takes matches the query: the document that is selected for its `_id`, or the first
one without, and all documents of the collection where the call is for many. -/
def TakesAsked : DocumentCall → Prop
  | .updateOne query update seeds => UpdatesAsked store db collection query update (seeds 0)
  | .updateMany query _ _ => AllAsked store db collection query
  | .deleteOne query seeds => DeletesAsked store db collection query (seeds 0)
  | .deleteMany query _ => AllAsked store db collection query
  | .upsert query json seeds => UpsertTakes store db collection query json (seeds 1 0) now
  | .statement json seeds => UpsertTakes store db collection emptyObject json (seeds 1 0) now

def ForMany : DocumentCall → Bool
  | .updateMany _ _ _ => true
  | .deleteMany _ _ => true
  | _ => false

/-- A call does what it is to do if all it takes matches; a call for one document only then. -/
theorem harmless_of_takesAsked (call : DocumentCall) :
    (call.TakesAsked store db collection now → call.Harmless store db collection now) ∧
      (call.ForMany = false → call.Harmless store db collection now →
        call.TakesAsked store db collection now) := by
  cases call with
  | updateOne query update seeds =>
      exact ⟨onlyAsked_updateOne_iff.mpr, fun _ => onlyAsked_updateOne_iff.mp⟩
  | updateMany query update seeds =>
      refine ⟨fun hall => onlyAsked_of_onlyUnder hall ?_, fun hmany => by cases hmany⟩
      exact onlyUnder_updateMany store db collection query.json update seeds now
  | deleteOne query seeds =>
      exact ⟨onlyAsked_deleteOne_iff.mpr, fun _ => onlyAsked_deleteOne_iff.mp⟩
  | deleteMany query seeds =>
      refine ⟨fun hall => onlyAsked_of_onlyUnder hall ?_, fun hmany => by cases hmany⟩
      exact onlyUnder_deleteMany store db collection query.json seeds now
  | upsert query json seeds => exact ⟨upsertsAsked_iff.mpr, fun _ => upsertsAsked_iff.mp⟩
  | statement json seeds => exact ⟨upsertsAsked_iff.mpr, fun _ => upsertsAsked_iff.mp⟩

theorem selected_fieldStore {query : StringObject}
    (hquery : jsonGetString query.json (CStr.lit "_id") = some (CStr.lit "1")) :
    selected fieldStore (CStr.lit "db") (CStr.lit "c") query.json =
      some { data := fieldDocument.val ++ [0], type := .json } := by
  rw [selected, hquery]
  dsimp only
  rw [← fieldKey, kvGet_fieldStore]
  rfl

theorem ownKey_fieldDocument (seed : IdSeed) :
    ownKey (CStr.lit "db") (CStr.lit "c") { data := fieldDocument.val ++ [0], type := .json } seed =
      fieldKey := by
  rw [ownKey, ofBytes_terminated, documentId, jsonGetString_fieldDocument]
  rfl

/-- What is stored has the fields of its input. -/
theorem exists_objectText_fieldDocument : ∃ stored, ObjectText fieldDocument.val stored ∧
    ∀ name value, lastValue fieldInput.members name = some value →
      lastValue stored name = some value := by
  have hfits : Fits fieldInput.json fieldInput.members firstSeed 1700000000 := by
    refine ⟨List.cons_ne_nil _ _, ?_, by decide +kernel⟩
    rintro ⟨m, hm, hobject⟩
    cases hm
    exact absurd hobject (by decide)
  have hdoc : (nosqlInsertOne (defaultStore : KVStore 1024) (CStr.lit "db") (CStr.lit "c")
      fieldInput.json firstSeed 1700000000).1.jsonData = fieldDocument := rfl
  obtain ⟨stored, hstored, hvalues, -⟩ := faithful_of_fits fieldInput.object hfits hdoc
  exact ⟨stored, hdoc ▸ hstored, hvalues⟩

theorem harmless_ownId :
    (DocumentCall.updateOne fieldQuery newField.update.json fun _ => firstSeed).Harmless fieldStore
      (CStr.lit "db") (CStr.lit "c") 1700000001 := by
  refine (harmless_of_takesAsked fieldStore (CStr.lit "db") (CStr.lit "c") 1700000001 _).1 ?_
  intro val hval w hw
  rw [selected_fieldStore (by decide)] at hval
  cases hval
  rw [ownKey_fieldDocument, kvGet_fieldStore] at hw
  cases hw
  refine .inr ⟨?_, fun name value hnewest => ?_⟩
  · rw [ownKey_fieldDocument, isDocument, fieldKey, startsWith_makeDocKey]
    rfl
  · obtain ⟨f, hf, hname, rfl⟩ := newest_plainObject (by decide) hnewest
    cases List.mem_singleton.mp hf
    obtain ⟨stored, hstored, hvalues⟩ := exists_objectText_fieldDocument
    rw [ofBytes_terminated, hname]
    exact ⟨stored, hstored, hvalues _ _ (by decide)⟩

theorem mem_commaSeparated {ts : List (List UInt8)} {t : List UInt8} (ht : t ∈ ts) {c : UInt8}
    (hc : c ∈ t) : c ∈ commaSeparated ts := by
  induction ts with
  | nil => cases ht
  | cons t' ts ih =>
      cases ts with
      | nil =>
          cases List.mem_singleton.mp ht
          exact hc
      | cons t'' ts =>
          rw [commaSeparated, List.mem_append, List.mem_cons]
          rcases List.mem_cons.mp ht with rfl | ht
          · exact .inl hc
          · exact .inr (.inr (ih ht))

/-- A value stands in the text of its object. -/
theorem mem_of_lastValue {text : List UInt8} {members : List Member} {name value : List UInt8}
    (hobject : ObjectText text members) (hvalue : lastValue members name = some value) {c : UInt8}
    (hc : c ∈ value) : c ∈ text := by
  obtain ⟨field, hfield, rfl⟩ := Option.map_eq_some_iff.mp hvalue
  obtain ⟨m, hm, rfl⟩ := List.mem_map.mp (List.mem_reverse.mp (List.mem_of_find?_eq_some hfield))
  obtain ⟨before, body, after, -, hbody, -, rfl⟩ := hobject
  have hbodymem : c ∈ body := by
    cases hbody with
    | empty hw => cases hm
    | members hne hframed hvalues =>
        refine mem_commaSeparated (List.mem_map_of_mem hm) ?_
        simp [Member.text, hc]
  simp [hbodymem]

/-- `{"_id":"1","a":"z"}` -/
def otherValue : StringObject :=
  plainObject [((CStr.lit "_id").val, [49]), ([97], [122])] (by decide)

/-- The document with this id is deleted, whatever its other fields are. -/
theorem delete_ignores_fields :
    ¬ (DocumentCall.deleteOne otherValue fun _ => firstSeed).Harmless fieldStore (CStr.lit "db")
      (CStr.lit "c") 1700000001 := by
  intro hharmless
  have hdeletes := onlyAsked_deleteOne_iff.mp hharmless _ (selected_fieldStore (by decide))
  rw [ownKey_fieldDocument] at hdeletes
  obtain ⟨-, hmatches⟩ := hdeletes _ kvGet_fieldStore
  have hnewest : otherValue.newest (CStr.lit "a") = some (CStr.lit "z") := by decide +kernel
  obtain ⟨members, hobject, hvalue⟩ := hmatches _ _ hnewest
  rw [ofBytes_terminated] at hobject
  have hmem : 122 ∈ fieldDocument.val := mem_of_lastValue hobject hvalue (by decide)
  revert hmem
  decide +kernel

end DocumentCall

end Nosql
end InventixDB
