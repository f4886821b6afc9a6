import InventixDB.Lib.JsonText
import InventixDB.Lib.ProbedMap
import InventixDB.Storage.MapRefinement
import Mathlib.Data.List.DropRight

/-!
# Documents — what `nosql_insert_one` makes of a JSON text

The document stored is a new head, with the id, the version and two times, and behind it the text of
the input without its outer braces.  The braces are taken off by trimming: every closing brace at
the end goes, those of a last member's object with them, and of an empty object nothing is left
behind the comma.  The whole is printed into 4096 bytes.
-/

namespace InventixDB
namespace Nosql

open Lib
open Lib.JsonText
open Lib.OpenAddressing
open Storage

/-! ## Reading the input -/

/-- The text up to the closing quote, past any escaped byte. -/
def untilQuote : List UInt8 → List UInt8
  | [] => []
  | c :: t =>
      if c = 34 then []
      else
        match t with
        | [] => [c]
        | c' :: t' => if c = 92 then c :: c' :: untilQuote t' else c :: untilQuote (c' :: t')

/-- What may stand between a name and its value. -/
def isSeparator (c : UInt8) : Bool :=
  c == 32 || c == 58

def jsonGetString (json key : CStr) : Option CStr :=
  let search := CStr.snprintf 128 (CStr.ofBytes (quoted key.val))
  match CStr.strstr json search with
  | none => none
  | some found =>
      match (found.drop search.length).dropWhile isSeparator with
      | 34 :: rest => some (CStr.ofBytes (untilQuote rest))
      | _ => none

/-- White space, or a closing brace. -/
def isTrimmed (c : UInt8) : Bool :=
  CStr.isSpace c || c == 125

def jsonUnwrap (json : CStr) : CStr :=
  let json := json.val.dropWhile CStr.isSpace
  let json := if json.head? = some 123 then json.drop 1 else json
  CStr.ofBytes (json.rdropWhile isTrimmed)

/-! ## Documents -/

/-- The time, the random number and the counter that make an id. -/
structure IdSeed where
  timestamp : UInt64
  random : UInt32
  counter : UInt64

def hexDigit (n : Nat) : UInt8 :=
  if n < 10 then UInt8.ofNat (48 + n) else UInt8.ofNat (87 + n)

/-- `%0<w>x` of a number below `16 ^ w`. -/
def hexPadded : Nat → Nat → List UInt8
  | 0, _ => []
  | w + 1, n => hexPadded w (n / 16) ++ [hexDigit (n % 16)]

def nosqlGenerateId (seed : IdSeed) : CStr :=
  CStr.snprintf 32 (CStr.ofBytes
    (hexPadded 8 (seed.timestamp &&& 0xFFFFFFFF).toNat ++ hexPadded 8 seed.random.toNat ++
      hexPadded 4 (seed.counter &&& 0xFFFF).toNat))

structure Document where
  id : CStr
  jsonData : CStr
  version : UInt64
  createdAt : UInt64
  updatedAt : UInt64

/-- The id of the input, or a new one. -/
def documentId (json : CStr) (seed : IdSeed) : CStr :=
  (jsonGetString json (CStr.lit "_id")).getD (nosqlGenerateId seed)

def nosqlDocCreate (json : CStr) (seed : IdSeed) (now : UInt64) : Document where
  id := documentId json seed
  jsonData := json
  version := 1
  createdAt := now
  updatedAt := now

def makeCollectionKey (db collection : CStr) : CStr :=
  CStr.snprintf 256 (CStr.lit "DB:" ++ db ++ CStr.lit ":NOSQL_COL:" ++ collection)

def makeDocKey (db collection docId : CStr) : CStr :=
  CStr.snprintf 256
    (CStr.lit "DB:" ++ db ++ CStr.lit ":DOC:" ++ collection ++ CStr.lit ":" ++ docId)

/-- `%llu` -/
def ofUnsigned (n : UInt64) : CStr :=
  CStr.ofInt n.toNat

section Store

variable {n : Nat} [NeZero n]

/-- A string with its NUL, under a key. -/
def putText (store : KVStore n) (key text : CStr) : KVStore n :=
  kvPut store key { data := text.val ++ [0], type := .json }

def nosqlCreateCollection (store : KVStore n) (db name : CStr) (now : UInt64) : KVStore n :=
  let key := makeCollectionKey db name
  if (kvGet store key).isSome then store
  else
    putText store key (CStr.snprintf 256
      (CStr.lit "\x7b\"name\":\"" ++ name ++ CStr.lit "\",\"created\":" ++ ofUnsigned now ++
        CStr.lit "\x7d"))

/-- The text of the document, before it is cut to the buffer. -/
def documentText (doc : Document) (json : CStr) : CStr :=
  CStr.lit "\x7b\"_id\":\"" ++ doc.id ++ CStr.lit "\",\"_version\":" ++ ofUnsigned doc.version ++
    CStr.lit ",\"_created\":" ++ ofUnsigned doc.createdAt ++ CStr.lit ",\"_updated\":" ++
    ofUnsigned doc.updatedAt ++ CStr.lit "," ++ jsonUnwrap json ++ CStr.lit "\x7d"

/-- A collection that does not exist is made. -/
def ensureCollection (store : KVStore n) (db collection : CStr) (now : UInt64) : KVStore n :=
  if (kvGet store (makeCollectionKey db collection)).isSome then store
  else nosqlCreateCollection store db collection now

def nosqlInsertOne (store : KVStore n) (db collection json : CStr) (seed : IdSeed) (now : UInt64) :
    Document × KVStore n :=
  let doc := nosqlDocCreate json seed now
  let store := ensureCollection store db collection now
  let doc := { doc with jsonData := CStr.snprintf 4096 (documentText doc json) }
  (doc, putText store (makeDocKey db collection doc.id) doc.jsonData)

/-- What is under the key of the document, unless the table is full. -/
theorem kvGet_nosqlInsertOne {store : KVStore n} {db collection json : CStr} {seed : IdSeed}
    {now : UInt64}
    (hroom : probe CStr.slot (ensureCollection store db collection now).entries
      (makeDocKey db collection (documentId json seed)) ≠ .full) :
    kvGet (nosqlInsertOne store db collection json seed now).2
        (makeDocKey db collection (documentId json seed)) =
      some
        { data := (nosqlInsertOne store db collection json seed now).1.jsonData.val ++ [0]
          type := .json } := by
  rw [kvGet, nosqlInsertOne, putText, entries_kvPut]
  exact lookup_insert_self hroom

end Store

/-! ## Ids -/

theorem isPlain_hexDigit {n : Nat} (hn : n < 16) : isPlain (hexDigit n) = true := by
  revert n
  decide

theorem isPlain_of_mem_hexPadded {w n : Nat} {c : UInt8} (hc : c ∈ hexPadded w n) :
    isPlain c = true := by
  induction w generalizing n with
  | zero => cases hc
  | succ w ih =>
      rcases List.mem_append.mp hc with hc | hc
      · exact ih hc
      · rw [List.mem_singleton.mp hc]
        exact isPlain_hexDigit (Nat.mod_lt n (by decide))

theorem stringBody_of_isPlain {t : List UInt8} (ht : ∀ c ∈ t, isPlain c = true) :
    StringBody t := by
  induction t with
  | nil => exact .nil
  | cons c t ih =>
      obtain ⟨hc, ht⟩ := List.forall_mem_cons.mp ht
      exact .plain hc (ih ht)

/-- A new id needs no escapes. -/
theorem stringBody_nosqlGenerateId (seed : IdSeed) : StringBody (nosqlGenerateId seed).val := by
  refine stringBody_of_isPlain fun c hc => ?_
  have hsub : (nosqlGenerateId seed).val.Sublist
      (hexPadded 8 (seed.timestamp &&& 0xFFFFFFFF).toNat ++ hexPadded 8 seed.random.toNat ++
        hexPadded 4 (seed.counter &&& 0xFFFF).toNat) :=
    (List.takeWhile_sublist _).trans ((List.take_sublist _ _).trans (List.takeWhile_sublist _))
  have hmem := hsub.subset hc
  rw [List.mem_append, List.mem_append] at hmem
  rcases hmem with (hmem | hmem) | hmem
  · exact isPlain_of_mem_hexPadded hmem
  · exact isPlain_of_mem_hexPadded hmem
  · exact isPlain_of_mem_hexPadded hmem

/-! ## What a key search finds -/

/-- From inside a string the automaton comes out only behind a well-formed rest of it. -/
theorem stringBody_untilQuote {t : List UInt8} {d d' : Nat} {comma : Bool} :
    (Scan.run ⟨.string, d⟩ t = some ⟨.plain comma, d'⟩ → StringBody (untilQuote t)) ∧
      ∀ k, Scan.run ⟨.hex k, d⟩ t = some ⟨.plain comma, d'⟩ →
        ∃ hs rest, untilQuote t = hs ++ rest ∧ hs.length = k + 1 ∧
          (∀ x ∈ hs, isHex x = true) ∧ StringBody rest := by
  induction t using untilQuote.induct with
  | case1 =>
      refine ⟨fun hrun => ?_, fun k hrun => ?_⟩
      · cases hrun
      · cases hrun
  | case2 t =>
      have huntil : untilQuote (34 :: t) = [] := by cases t <;> rfl
      rw [huntil]
      refine ⟨fun hrun => .nil, fun k hrun => ?_⟩
      exact absurd (run_hex_cons hrun).1 (by decide)
  | case3 c hquote =>
      refine ⟨fun hrun => ?_, fun k hrun => ?_⟩
      · rcases run_string_cons hrun with ⟨rfl, -⟩ | ⟨-, hrest⟩ | ⟨-, -, -, hrest⟩
        · exact absurd rfl hquote
        · cases hrest
        · cases hrest
      · obtain ⟨-, hrest⟩ := run_hex_cons hrun
        cases k <;> cases hrest
  | case4 c' t hquote ih =>
      rw [untilQuote, if_neg hquote]
      refine ⟨fun hrun => ?_, fun k hrun => ?_⟩
      · rcases run_string_cons hrun with ⟨heq, -⟩ | ⟨-, hrest⟩ | ⟨-, hne, -⟩
        · exact absurd heq hquote
        · rcases run_escape_cons hrest with ⟨hescape, hrest⟩ | ⟨rfl, hrest⟩
          · exact .escape hescape (ih.1 hrest)
          · obtain ⟨hs, rest, heq, hlen, hhex, hbody⟩ := ih.2 3 hrest
            match hs, hlen with
            | [w, x, y, z], _ =>
                rw [if_pos rfl, heq]
                exact .unicode hhex hbody
        · exact absurd rfl hne
      · exact absurd (run_hex_cons hrun).1 (by decide)
  | case5 c hquote c' t hback ih =>
      have huntil : untilQuote (c :: c' :: t) = c :: untilQuote (c' :: t) := by
        rw [untilQuote, if_neg hquote, if_neg hback]
      rw [huntil]
      refine ⟨fun hrun => ?_, fun k hrun => ?_⟩
      · rcases run_string_cons hrun with ⟨heq, -⟩ | ⟨heq, -⟩ | ⟨-, -, hplain, hrest⟩
        · exact absurd heq hquote
        · exact absurd heq hback
        · exact .plain hplain (ih.1 hrest)
      · obtain ⟨hhex, hrest⟩ := run_hex_cons hrun
        cases k with
        | zero =>
            exact ⟨[c], _, rfl, rfl, List.forall_mem_singleton.mpr hhex, ih.1 hrest⟩
        | succ k =>
            obtain ⟨hs, rest, heq, hlen, hall, hbody⟩ := ih.2 k hrest
            refine ⟨c :: hs, rest, ?_, ?_, List.forall_mem_cons.mpr ⟨hhex, hall⟩, hbody⟩
            · rw [heq, List.cons_append]
            · rw [List.length_cons, hlen]

/-- A name with its quotes ends outside of strings, wherever it is found. -/
theorem run_search {s s' : Scan} (hrun : s.run [34, 95, 105, 100, 34] = some s') :
    ∃ d, s' = ⟨.plain false, d⟩ := by
  obtain ⟨mode, d⟩ := s
  cases mode with
  | plain comma =>
      cases hrun
      exact ⟨d, rfl⟩
  | string =>
      cases hrun
  | escape =>
      cases hrun
      exact ⟨d, rfl⟩
  | hex k =>
      cases k <;> cases hrun

/-- Blanks and colons stay outside of strings. -/
theorem run_dropWhile {t : List UInt8} {s' : Scan} {comma : Bool} {d : Nat}
    (hrun : Scan.run ⟨.plain comma, d⟩ t = some s') :
    ∃ comma', Scan.run ⟨.plain comma', d⟩ (t.dropWhile isSeparator) = some s' := by
  induction t generalizing comma with
  | nil => exact ⟨comma, hrun⟩
  | cons c t ih =>
      by_cases hskip : isSeparator c = true
      · rw [List.dropWhile_cons_of_pos hskip]
        rw [isSeparator, Bool.or_eq_true, beq_iff_eq, beq_iff_eq] at hskip
        rcases hskip with rfl | rfl
        · exact ih hrun
        · exact ih hrun
      · rw [List.dropWhile_cons_of_neg hskip]
        exact ⟨comma, hrun⟩

/-- What `json_get_string` takes out of an object can stand between quotes. -/
theorem stringBody_jsonGetString {json id : CStr} {members : List Member}
    (hjson : ObjectText json.val members) (hget : jsonGetString json (CStr.lit "_id") = some id) :
    StringBody id.val := by
  have hsearch : CStr.snprintf 128 (CStr.ofBytes (quoted (CStr.lit "_id").val)) =
      CStr.ofBytes [34, 95, 105, 100, 34] := by decide
  have hval : (CStr.ofBytes [34, 95, 105, 100, 34]).val = [34, 95, 105, 100, 34] := rfl
  rw [jsonGetString, hsearch] at hget
  cases hfound : CStr.strstr json (CStr.ofBytes [34, 95, 105, 100, 34]) with
  | none =>
      rw [hfound] at hget
      cases hget
  | some found =>
      rw [hfound] at hget
      dsimp only at hget
      -- The text is cut at the place found, and the automaton is followed through the pieces.
      have hstarts := List.find?_some hfound
      obtain ⟨pre, hpre⟩ := (List.mem_tails _ _).mp (List.mem_of_find?_eq_some hfound)
      obtain ⟨rest, hrest⟩ := List.isPrefixOf_iff_prefix.mp hstarts
      rw [hval] at hrest
      have hrun := hjson.run
      rw [← hpre, run_append] at hrun
      obtain ⟨s1, -, hrun⟩ := Option.bind_eq_some_iff.mp hrun
      rw [← hrest, run_append] at hrun
      obtain ⟨s2, hname, hrun⟩ := Option.bind_eq_some_iff.mp hrun
      obtain ⟨d, rfl⟩ := run_search hname
      have hdrop : found.drop (CStr.ofBytes [34, 95, 105, 100, 34]).length = rest := by
        rw [← hrest]
        rfl
      rw [hdrop] at hget
      obtain ⟨comma, hrun⟩ := run_dropWhile hrun
      generalize rest.dropWhile isSeparator = tail at hget hrun
      cases tail with
      | nil => cases hget
      | cons c tail =>
          by_cases hquote : c = 34
          · subst hquote
            have hbody := stringBody_untilQuote.1 hrun
            cases hget
            rw [CStr.ofBytes_of_notMem hbody.zero_notMem]
            exact hbody
          · simp [hquote] at hget

theorem stringBody_documentId {json : CStr} {members : List Member}
    (hjson : ObjectText json.val members) (seed : IdSeed) :
    StringBody (documentId json seed).val := by
  rw [documentId]
  cases hget : jsonGetString json (CStr.lit "_id") with
  | none => exact stringBody_nosqlGenerateId seed
  | some id => exact stringBody_jsonGetString hjson hget

/-! ## The head of a document -/

theorem digit_ne_zero {r : Nat} (hr : r < 10) (hpos : 0 < r) : UInt8.ofNat (48 + r) ≠ 48 := by
  revert r
  decide

/-- The leading digit of a number is no zero. -/
theorem getLast_digitsRev {fuel n : Nat} (hpos : 0 < n) (hfuel : n < fuel) :
    ∃ init c, CStr.digitsRev fuel n = init ++ [c] ∧ c ≠ 48 := by
  induction fuel generalizing n with
  | zero => exact absurd hfuel (Nat.not_lt_zero n)
  | succ fuel ih =>
      rw [CStr.digitsRev]
      split
      · rename_i hsmall
        have hlt : n < 10 := by omega
        rw [Nat.mod_eq_of_lt hlt]
        exact ⟨[], _, rfl, digit_ne_zero hlt hpos⟩
      · rename_i hlarge
        obtain ⟨init, c, heq, hc⟩ := ih (Nat.pos_of_ne_zero hlarge) (by omega)
        exact ⟨_ :: init, c, by rw [heq, List.cons_append], hc⟩

theorem ofUnsigned_val (n : UInt64) : (ofUnsigned n).val = CStr.decimal n.toNat := by
  rw [ofUnsigned, CStr.val_ofInt, if_neg (by omega), List.nil_append, Int.natAbs_natCast]

theorem numberText_ofUnsigned (n : UInt64) : NumberText (ofUnsigned n).val := by
  rw [ofUnsigned_val]
  have hdigits : Digits (CStr.decimal n.toNat) :=
    ⟨CStr.decimal_ne_nil _, fun c hc => CStr.isDigit_of_mem_decimal hc⟩
  refine ⟨[], CStr.decimal n.toNat, [], [], Or.inl rfl, ⟨hdigits, fun hhead => ?_⟩, Or.inl rfl,
    Or.inl rfl, by simp⟩
  rcases Nat.eq_zero_or_pos n.toNat with hzero | hpos
  · rw [hzero]
    rfl
  · obtain ⟨init, c, heq, hc⟩ := getLast_digitsRev hpos (Nat.lt_succ_self n.toNat)
    rw [CStr.decimal, heq, List.reverse_append] at hhead
    exact absurd (Option.some_inj.mp hhead) hc

def bareMember (name value : List UInt8) : Member where
  before := []
  name := name
  afterName := []
  beforeValue := []
  value := value
  afterValue := []

/-- The members printed in front of those of the input. -/
def headMembers (id : List UInt8) (now : UInt64) : List Member :=
  [bareMember (CStr.lit "_id").val (quoted id), bareMember (CStr.lit "_version").val [49],
    bareMember (CStr.lit "_created").val (ofUnsigned now).val,
    bareMember (CStr.lit "_updated").val (ofUnsigned now).val]

theorem framed_headMembers {id : List UInt8} {now : UInt64} {m : Member}
    (hm : m ∈ headMembers id now) : m.Framed := by
  have hblank : Blank [] := by rintro c ⟨⟩
  have hbare : ∀ name value, StringBody name → (bareMember name value).Framed :=
    fun name value hname => ⟨hblank, hname, hblank, hblank, hblank⟩
  simp only [headMembers, List.mem_cons, List.not_mem_nil, or_false] at hm
  rcases hm with rfl | rfl | rfl | rfl <;>
  · refine hbare _ _ (stringBody_of_isPlain ?_)
    exact List.all_eq_true.mp (by decide)

theorem numberText_one : NumberText [49] :=
  ⟨[], [49], [], [], Or.inl rfl,
    ⟨⟨List.cons_ne_nil _ _, List.forall_mem_singleton.mpr (by decide)⟩, by decide⟩, Or.inl rfl,
    Or.inl rfl, rfl⟩

theorem value_headMembers {id : List UInt8} (hid : StringBody id) {now : UInt64} {m : Member}
    (hm : m ∈ headMembers id now) : Value m.value := by
  simp only [headMembers, List.mem_cons, List.not_mem_nil, or_false] at hm
  rcases hm with rfl | rfl | rfl | rfl
  · exact .string hid
  · exact .number numberText_one
  · exact .number (numberText_ofUnsigned now)
  · exact .number (numberText_ofUnsigned now)

/-- The text printed: an open brace, the head, a comma, what is left of the input, a brace. -/
theorem documentText_val (json : CStr) (seed : IdSeed) (now : UInt64) :
    (documentText (nosqlDocCreate json seed now) json).val =
      123 :: (commaSeparated ((headMembers (documentId json seed).val now).map Member.text) ++
        44 :: ((jsonUnwrap json).val ++ [125])) := by
  have hone : (ofUnsigned 1).val = [49] := rfl
  have hopen : (CStr.lit "\x7b\"_id\":\"").val =
      123 :: (quoted (CStr.lit "_id").val ++ [58, 34]) := by decide
  have hversion : (CStr.lit "\",\"_version\":").val =
      [34, 44] ++ (quoted (CStr.lit "_version").val ++ [58]) := by decide
  have hcreated : (CStr.lit ",\"_created\":").val =
      [44] ++ (quoted (CStr.lit "_created").val ++ [58]) := by decide
  have hupdated : (CStr.lit ",\"_updated\":").val =
      [44] ++ (quoted (CStr.lit "_updated").val ++ [58]) := by decide
  have hcomma : (CStr.lit ",").val = [44] := by decide
  have hclose : (CStr.lit "\x7d").val = [125] := by decide
  simp only [documentText, nosqlDocCreate, CStr.val_append, hone, hopen, hversion, hcreated,
    hupdated, hcomma, hclose, headMembers, List.map_cons, List.map_nil, commaSeparated,
    Member.text, bareMember]
  simp [quoted]

theorem length_documentText (json : CStr) (seed : IdSeed) (now : UInt64) :
    (documentText (nosqlDocCreate json seed now) json).length =
      (documentId json seed).length + 2 * (ofUnsigned now).length + (jsonUnwrap json).length +
        48 := by
  have hone : (ofUnsigned 1).val = [49] := rfl
  have hopen : (CStr.lit "\x7b\"_id\":\"").val.length = 8 := by decide
  have hversion : (CStr.lit "\",\"_version\":").val.length = 13 := by decide
  have hcreated : (CStr.lit ",\"_created\":").val.length = 12 := by decide
  have hupdated : (CStr.lit ",\"_updated\":").val.length = 12 := by decide
  have hcomma : (CStr.lit ",").val.length = 1 := by decide
  have hclose : (CStr.lit "\x7d").val.length = 1 := by decide
  simp only [CStr.length, documentText, nosqlDocCreate, CStr.val_append, List.length_append, hone,
    hopen, hversion, hcreated, hupdated, hcomma, hclose, List.length_singleton]
  omega

/-! ## What is left of the input -/

theorem isTrimmed_of_isBlank {c : UInt8} (hc : isBlank c = true) : isTrimmed c = true := by
  simp only [isBlank, Bool.or_eq_true, beq_iff_eq] at hc
  rcases hc with ((rfl | rfl) | rfl) | rfl <;> decide

theorem isSpace_of_isBlank {c : UInt8} (hc : isBlank c = true) : CStr.isSpace c = true := by
  simp only [isBlank, Bool.or_eq_true, beq_iff_eq] at hc
  rcases hc with ((rfl | rfl) | rfl) | rfl <;> decide

/-- A tail that is trimmed whole. -/
theorem rdropWhile_append {a b : List UInt8} (hb : ∀ c ∈ b, isTrimmed c = true) :
    (a ++ b).rdropWhile isTrimmed = a.rdropWhile isTrimmed := by
  rw [List.rdropWhile, List.reverse_append, List.dropWhile_append_of_pos, List.rdropWhile]
  intro c hc
  exact hb c (List.mem_reverse.mp hc)

/-- The input without its braces, trimmed at the end. -/
theorem jsonUnwrap_val {json : CStr} {before body after : List UInt8} (hbefore : Blank before)
    (hafter : Blank after) (hjson : json.val = before ++ 123 :: (body ++ 125 :: after)) :
    (jsonUnwrap json).val = body.rdropWhile isTrimmed := by
  have hfront : json.val.dropWhile CStr.isSpace = 123 :: (body ++ 125 :: after) := by
    rw [hjson, List.dropWhile_append_of_pos fun c hc => isSpace_of_isBlank (hbefore c hc)]
    rfl
  have htail : (body ++ 125 :: after).rdropWhile isTrimmed = body.rdropWhile isTrimmed := by
    refine rdropWhile_append (List.forall_mem_cons.mpr ⟨rfl, fun c hc => ?_⟩)
    exact isTrimmed_of_isBlank (hafter c hc)
  have hzero : 0 ∉ body.rdropWhile isTrimmed := by
    intro hmem
    refine json.property ?_
    rw [hjson]
    have hbody := (List.rdropWhile_prefix isTrimmed body).subset hmem
    simp [hbody]
  rw [jsonUnwrap, hfront, List.head?_cons, if_pos rfl, List.drop_one, List.tail_cons, htail,
    CStr.ofBytes_of_notMem hzero]

/-- A member without the white space behind it. -/
def trimMember (m : Member) : Member :=
  { m with afterValue := [] }

/-- Members whose last one is followed by nothing. -/
def trimLast (members : List Member) : List Member :=
  members.dropLast ++ members.getLast?.toList.map trimMember

/-- The last member's value is an object. -/
def EndsWithObject (members : List Member) : Prop :=
  ∃ m ∈ members.getLast?, m.value.head? = some 123

theorem fields_trimLast (members : List Member) : fields (trimLast members) = fields members := by
  rcases List.eq_nil_or_concat members with rfl | ⟨init, m, rfl⟩
  · rfl
  · simp [trimLast, fields, trimMember]

section Trimmed

variable {init : List Member} {m : Member}

/-- The body of an object, up to the value of its last member. -/
theorem members_concat (init : List Member) (m : Member) :
    commaSeparated ((init ++ [m]).map Member.text) =
      commaSeparated ((init ++ [trimMember m]).map Member.text) ++ m.afterValue := by
  rw [List.map_append, List.map_append, List.map_singleton, List.map_singleton,
    commaSeparated_concat, commaSeparated_concat]
  simp [Member.text, trimMember]

/-- The value of the last member is what the trimmed body ends with. -/
theorem exists_append_value (init : List Member) (m : Member) :
    ∃ front, commaSeparated ((init ++ [trimMember m]).map Member.text) = front ++ m.value := by
  refine ⟨(init.map Member.text).flatMap (fun t => t ++ [44]) ++
    (m.before ++ (quoted m.name ++ (m.afterName ++ 58 :: m.beforeValue))), ?_⟩
  rw [List.map_append, List.map_singleton, commaSeparated_concat]
  simp [Member.text, trimMember]

/-- A last value that is no object stays. -/
theorem rdropWhile_members (hframed : m.Framed) (hvalue : Value m.value)
    (hno : m.value.head? ≠ some 123) :
    (commaSeparated ((init ++ [m]).map Member.text)).rdropWhile isTrimmed =
      commaSeparated ((init ++ [trimMember m]).map Member.text) := by
  rw [members_concat, rdropWhile_append fun c hc => isTrimmed_of_isBlank (hframed.afterValue c hc)]
  obtain ⟨front, hfront⟩ := exists_append_value init m
  obtain ⟨body, c, hlast, hc⟩ := hvalue.last
  rw [if_neg hno] at hc
  have hkeep : ¬ isTrimmed c = true := by
    rcases hc with hdigit | rfl | rfl | rfl | rfl
    · have hnot := CStr.not_isSpace_of_isDigit hdigit
      rw [isTrimmed, hnot.1, Bool.false_or, beq_iff_eq]
      rintro rfl
      exact absurd hdigit (by decide)
    all_goals decide
  rw [hfront, hlast, ← List.append_assoc]
  exact List.rdropWhile_concat_neg _ _ c hkeep

/-- Of a last value that is an object the brace goes. -/
theorem mem_rtakeWhile_members (hframed : m.Framed) (hvalue : Value m.value)
    (hobject : m.value.head? = some 123) :
    125 ∈ (commaSeparated ((init ++ [m]).map Member.text)).rtakeWhile isTrimmed := by
  obtain ⟨front, hfront⟩ := exists_append_value init m
  obtain ⟨body, c, hlast, hc⟩ := hvalue.last
  rw [if_pos hobject] at hc
  subst hc
  have hall : ∀ c ∈ (125 :: m.afterValue).reverse, isTrimmed c = true := by
    intro c hc
    rcases List.mem_cons.mp (List.mem_reverse.mp hc) with rfl | hc
    · rfl
    · exact isTrimmed_of_isBlank (hframed.afterValue c hc)
  have hsplit : commaSeparated ((init ++ [m]).map Member.text) =
      (front ++ body) ++ 125 :: m.afterValue := by
    rw [members_concat, hfront, hlast]
    simp
  rw [hsplit, List.rtakeWhile, List.reverse_append, List.takeWhile_append_of_pos hall]
  simp

end Trimmed

/-! ## Texts that are no object -/

theorem blank_or_of_isSpace {c : UInt8} (hc : CStr.isSpace c = true) :
    isBlank c = true ∨ c = 11 ∨ c = 12 := by
  rw [CStr.isSpace, Bool.or_eq_true, beq_iff_eq, Bool.and_eq_true, decide_eq_true_eq,
    decide_eq_true_eq, UInt8.le_iff_toNat_le, UInt8.le_iff_toNat_le] at hc
  rcases hc with rfl | ⟨hlow, hhigh⟩
  · exact Or.inl rfl
  · change 9 ≤ c.toNat at hlow
    change c.toNat ≤ 13 at hhigh
    have hcases : c.toNat = 9 ∨ c.toNat = 10 ∨ c.toNat = 11 ∨ c.toNat = 12 ∨ c.toNat = 13 := by
      omega
    have hbyte : ∀ b : UInt8, c.toNat = b.toNat → c = b := fun b h => UInt8.toNat_inj.mp h
    rcases hcases with h | h | h | h | h
    · exact Or.inl (hbyte 9 h ▸ rfl)
    · exact Or.inl (hbyte 10 h ▸ rfl)
    · exact Or.inr (Or.inl (hbyte 11 h))
    · exact Or.inr (Or.inr (hbyte 12 h))
    · exact Or.inl (hbyte 13 h ▸ rfl)

/-- Braces and white space do not close more than is open. -/
theorem run_trimmed {t : List UInt8} (ht : ∀ c ∈ t, isTrimmed c = true) (hbrace : 125 ∈ t)
    (comma : Bool) : Scan.run ⟨.plain comma, 0⟩ t = none := by
  induction t with
  | nil => cases hbrace
  | cons c t ih =>
      obtain ⟨hc, ht⟩ := List.forall_mem_cons.mp ht
      by_cases heq : c = 125
      · subst heq
        rw [run_cons]
        simp [Scan.step]
      · have hrest := (List.mem_cons.mp hbrace).resolve_left (Ne.symm heq)
        rw [isTrimmed, Bool.or_eq_true, beq_iff_eq] at hc
        have hspace := hc.resolve_right heq
        by_cases hblank : isBlank c = true
        · have hone : Scan.run ⟨.plain comma, 0⟩ [c] = some ⟨.plain comma, 0⟩ :=
            run_blank (List.forall_mem_singleton.mpr hblank)
          have happ := @run_append_of_run _ _ _ t hone
          rw [List.singleton_append] at happ
          rw [happ, ih ht hrest]
        · -- The other white space stands in no JSON text.
          rcases (blank_or_of_isSpace hspace).resolve_left hblank with rfl | rfl
          · rw [run_cons]
            rfl
          · rw [run_cons]
            rfl

/-- A text cut off behind its first brace leaves it open. -/
theorem not_objectText_take {w : List UInt8} {s : Scan} {k : Nat} {members : List Member}
    (hrun : Scan.run ⟨.plain false, 0⟩ w = some s) : ¬ ObjectText (123 :: w.take k) members := by
  intro hobject
  have hzero := hobject.run
  have hopen : Scan.step ⟨.plain false, 0⟩ 123 = some ⟨.plain false, 1⟩ := rfl
  rw [← List.take_append_drop k w, run_append] at hrun
  obtain ⟨s', htake, -⟩ := Option.bind_eq_some_iff.mp hrun
  have hshift := run_shift htake 1
  have hdepth : s'.depth + 1 = 0 :=
    congrArg Scan.depth (Option.some_inj.mp (hshift.symm.trans hzero))
  exact Nat.succ_ne_zero _ hdepth

/-- The stored text is an object in which every name of the input has its value, and an id. -/
def Faithful (members : List Member) (doc : Document) : Prop :=
  ∃ stored, ObjectText doc.jsonData.val stored ∧
    (∀ name value, lastValue members name = some value → lastValue stored name = some value) ∧
    (lastValue stored (CStr.lit "_id").val).isSome

/-- The input can be taken over: there is a last member, its value is no object, and the text with
the head fits the buffer. -/
def Fits (json : CStr) (members : List Member) (seed : IdSeed) (now : UInt64) : Prop :=
  members ≠ [] ∧ ¬ EndsWithObject members ∧
    (documentId json seed).length + 2 * (ofUnsigned now).length + (jsonUnwrap json).length + 48 <
      4096

section Insert

variable {json : CStr} {members : List Member} {seed : IdSeed} {now : UInt64}

/-- The automaton comes through the head as it went in, with a comma behind it. -/
theorem run_head (hid : StringBody (documentId json seed).val) (t : List UInt8) :
    Scan.run ⟨.plain false, 0⟩
        (commaSeparated ((headMembers (documentId json seed).val now).map Member.text) ++ 44 :: t) =
      Scan.run ⟨.plain true, 0⟩ t := by
  have hhead := @run_members false 0 (headMembers (documentId json seed).val now)
    (List.cons_ne_nil _ _) (fun m hm => framed_headMembers hm) fun m hm => value_headMembers hid hm
  have hcomma : Scan.step ⟨.plain false, 0⟩ 44 = some ⟨.plain true, 0⟩ := rfl
  rw [run_append_of_run hhead, run_cons_of_step hcomma]

/-- The automaton reads what is left of the input, and what has been trimmed behind it. -/
theorem run_unwrapped {body : List UInt8} (hbody : ObjectBody body members) :
    ∃ s s', Scan.run ⟨.plain true, 0⟩ (body.rdropWhile isTrimmed) = some s ∧
      Scan.run s (body.rtakeWhile isTrimmed) = some s' := by
  have hrun : ∃ s, Scan.run ⟨.plain true, 0⟩ body = some s := by
    cases hbody with
    | empty hw => exact ⟨_, run_blank hw⟩
    | members hne hframed hvalue => exact ⟨_, run_members hne hframed hvalue⟩
  obtain ⟨s', hs'⟩ := hrun
  rw [← @List.rdropWhile_append_rtakeWhile _ isTrimmed body, run_append] at hs'
  obtain ⟨s, hs, hrest⟩ := Option.bind_eq_some_iff.mp hs'
  exact ⟨s, s', hs, hrest⟩

/-- The last brace closes the first one only outside of strings, and not behind a comma. -/
theorem eq_of_run_close {s : Scan}
    (hrun : Scan.run ⟨s.mode, s.depth + 1⟩ [125] = some ⟨.plain false, 0⟩) :
    s = ⟨.plain false, 0⟩ := by
  obtain ⟨mode, d⟩ := s
  cases mode with
  | plain comma =>
      cases comma with
      | true => cases hrun
      | false =>
          have hdepth : d = 0 := congrArg Scan.depth (Option.some_inj.mp hrun)
          rw [hdepth]
  | string => cases hrun
  | escape => cases hrun
  | hex k => cases k <;> cases hrun

/-- What is left of an input whose last value is no object are its members, the last one without
its white space. -/
theorem objectBody_jsonUnwrap (hjson : ObjectText json.val members) (hne : members ≠ [])
    (hlast : ¬ EndsWithObject members) :
    ObjectBody (jsonUnwrap json).val (trimLast members) := by
  obtain ⟨before, body, after, hbefore, hbody, hafter, hval⟩ := hjson
  rw [jsonUnwrap_val hbefore hafter hval]
  cases hbody with
  | empty hw => exact absurd rfl hne
  | members _ hframed hvalue =>
      obtain ⟨init, m, rfl⟩ := (List.eq_nil_or_concat members).resolve_left hne
      rw [List.concat_eq_append] at hframed hvalue hlast ⊢
      rw [List.forall_mem_append, List.forall_mem_singleton] at hframed hvalue
      have hno : m.value.head? ≠ some 123 := fun hhead => hlast ⟨m, by simp, hhead⟩
      have htrim : trimLast (init ++ [m]) = init ++ [trimMember m] := by simp [trimLast]
      have hmember : (trimMember m).Framed := { hframed.2 with afterValue := by rintro c ⟨⟩ }
      rw [rdropWhile_members hframed.2 hvalue.2 hno, htrim]
      exact .members (by simp)
        (List.forall_mem_append.mpr ⟨hframed.1, List.forall_mem_singleton.mpr hmember⟩)
        (List.forall_mem_append.mpr ⟨hvalue.1, List.forall_mem_singleton.mpr hvalue.2⟩)

theorem trimLast_ne_nil (hne : members ≠ []) : trimLast members ≠ [] := by
  intro hnil
  refine hne (List.map_eq_nil_iff.mp ((fields_trimLast members).symm.trans ?_))
  rw [hnil]
  rfl

/-- The members of the input stand behind the head. -/
theorem objectText_documentText (hjson : ObjectText json.val members) (hne : members ≠ [])
    (hlast : ¬ EndsWithObject members) :
    ObjectText (documentText (nosqlDocCreate json seed now) json).val
      (headMembers (documentId json seed).val now ++ trimLast members) := by
  have hid := stringBody_documentId hjson seed
  have hhead : headMembers (documentId json seed).val now ≠ [] := List.cons_ne_nil _ _
  have hbody := (ObjectBody.members hhead (fun m hm => framed_headMembers hm)
    fun m hm => value_headMembers hid hm).append (objectBody_jsonUnwrap hjson hne hlast) hhead
      (trimLast_ne_nil hne)
  have htext := hbody.objectText
  rw [List.append_assoc, List.cons_append] at htext
  rw [documentText_val]
  exact htext

theorem lastValue_congr {ms ms' : List Member} (hfields : fields ms = fields ms')
    (name : List UInt8) : lastValue ms name = lastValue ms' name := by
  rw [lastValue, hfields, lastValue]

theorem faithful_of_fits (hjson : ObjectText json.val members) (hfits : Fits json members seed now)
    {doc : Document}
    (hdoc : doc.jsonData = CStr.snprintf 4096 (documentText (nosqlDocCreate json seed now) json)) :
    Faithful members doc := by
  obtain ⟨hne, hlast, hlen⟩ := hfits
  rw [← length_documentText] at hlen
  rw [CStr.snprintf_of_lt hlen] at hdoc
  refine ⟨headMembers (documentId json seed).val now ++ trimLast members, ?_,
    fun name value hvalue => ?_, ?_⟩
  · rw [hdoc]
    exact objectText_documentText hjson hne hlast
  · rw [lastValue_append, lastValue_congr (fields_trimLast members), hvalue, Option.some_or]
  · rw [lastValue_append, Option.isSome_or, Bool.or_eq_true]
    refine Or.inr ?_
    have hnames : fields (headMembers (documentId json seed).val now) =
        [((CStr.lit "_id").val, quoted (documentId json seed).val),
          ((CStr.lit "_version").val, [49]), ((CStr.lit "_created").val, (ofUnsigned now).val),
          ((CStr.lit "_updated").val, (ofUnsigned now).val)] := rfl
    rw [lastValue, hnames, Option.isSome_map, List.find?_isSome]
    exact ⟨((CStr.lit "_id").val, quoted (documentId json seed).val), by simp, decide_eq_true rfl⟩

/-- A text printed past the buffer, or with its braces wrong, is no object. -/
theorem fits_of_faithful (hjson : ObjectText json.val members) {doc : Document}
    (hdoc : doc.jsonData = CStr.snprintf 4096 (documentText (nosqlDocCreate json seed now) json))
    (hfaithful : Faithful members doc) : Fits json members seed now := by
  obtain ⟨stored, hstored, -⟩ := hfaithful
  rw [hdoc] at hstored
  have hid := stringBody_documentId hjson seed
  obtain ⟨before, body, after, hbefore, hbody, hafter, hval⟩ := hjson
  have htext : (documentText (nosqlDocCreate json seed now) json).val =
      123 :: ((commaSeparated ((headMembers (documentId json seed).val now).map Member.text) ++
        44 :: (jsonUnwrap json).val) ++ [125]) := by
    rw [documentText_val, List.append_assoc, List.cons_append]
  have hunwrap := jsonUnwrap_val hbefore hafter hval
  obtain ⟨s, s', hs, hgone⟩ := run_unwrapped hbody
  rw [← hunwrap] at hs
  have hrun := (@run_head _ _ now hid (jsonUnwrap json).val).trans hs
  generalize commaSeparated ((headMembers (documentId json seed).val now).map Member.text) ++
    44 :: (jsonUnwrap json).val = w at hrun htext
  by_cases hlen : (documentText (nosqlDocCreate json seed now) json).length < 4096
  · rw [CStr.snprintf_of_lt hlen, htext] at hstored
    have hzero := hstored.run
    have hopen : Scan.step ⟨.plain false, 0⟩ 123 = some ⟨.plain false, 0 + 1⟩ := rfl
    rw [run_cons_of_step hopen, run_append_of_run (run_shift hrun 1)] at hzero
    obtain rfl := eq_of_run_close hzero
    rw [length_documentText] at hlen
    refine ⟨?_, ?_, hlen⟩
    · rintro rfl
      cases hbody with
      | empty hw =>
          have hnil : body.rdropWhile isTrimmed = [] :=
            List.rdropWhile_eq_nil_iff.mpr fun c hc => isTrimmed_of_isBlank (hw c hc)
          rw [hunwrap, hnil] at hs
          cases hs
      | members hne _ _ => exact absurd rfl hne
    · rintro ⟨m, hm, hobject⟩
      cases hbody with
      | empty hw => cases hm
      | members _ hframed hvalue =>
          obtain ⟨init, rfl⟩ := List.getLast?_eq_some_iff.mp hm
          have hmem : m ∈ init ++ [m] := List.mem_append_right _ List.mem_cons_self
          have hbrace := @mem_rtakeWhile_members init _ (hframed m hmem) (hvalue m hmem) hobject
          rw [run_trimmed (fun c hc => List.mem_rtakeWhile_imp hc) hbrace] at hgone
          cases hgone
  · -- The cut leaves out the last brace.
    exfalso
    have hcut : (CStr.snprintf 4096 (documentText (nosqlDocCreate json seed now) json)).val =
        123 :: w.take 4094 := by
      have hzero : 0 ∉ (documentText (nosqlDocCreate json seed now) json).val.take 4095 :=
        fun hmem => (documentText (nosqlDocCreate json seed now) json).property
          (List.mem_of_mem_take hmem)
      have hlong : 4094 ≤ w.length := by
        have hsize := congrArg List.length htext
        rw [List.length_cons, List.length_append, List.length_singleton] at hsize
        unfold CStr.length at hlen
        omega
      rw [CStr.snprintf, CStr.ofBytes_of_notMem hzero, htext, List.take_succ_cons,
        List.take_append_of_le_length hlong]
    rw [hcut] at hstored
    exact not_objectText_take hrun hstored

/-- The document is the input with an id just when the input has members, the last of them is no
object, and the text fits its buffer. -/
theorem faithful_iff {n : Nat} [NeZero n] (store : KVStore n) (db collection : CStr)
    (hjson : ObjectText json.val members) :
    Faithful members (nosqlInsertOne store db collection json seed now).1 ↔
      Fits json members seed now :=
  ⟨fits_of_faithful hjson rfl, fun hfits => faithful_of_fits hjson hfits rfl⟩

end Insert

def firstSeed : IdSeed where
  timestamp := 1700000000
  random := 7
  counter := 1

/-- `{"a":1}` -/
def numberInput : CStr :=
  CStr.ofBytes [123, 34, 97, 34, 58, 49, 125]

theorem faithful_numberInput :
    Faithful [bareMember [97] [49]]
      (nosqlInsertOne defaultStore (CStr.lit "db") (CStr.lit "c") numberInput firstSeed
        1700000000).1 := by
  have hblank : Blank [] := by rintro c ⟨⟩
  have hjson : ObjectText numberInput.val [bareMember [97] [49]] := by
    refine ⟨[], _, [], hblank, .members (List.cons_ne_nil _ _) ?_ ?_, hblank, rfl⟩
    · exact List.forall_mem_singleton.mpr
        ⟨hblank, .plain (by decide) .nil, hblank, hblank, hblank⟩
    · exact List.forall_mem_singleton.mpr (.number numberText_one)
  refine (faithful_iff defaultStore (CStr.lit "db") (CStr.lit "c") hjson).mpr ⟨?_, ?_, ?_⟩
  · exact List.cons_ne_nil _ _
  · rintro ⟨m, hm, hobject⟩
    cases hm
    exact absurd hobject (by decide)
  · decide

/-- `{"a":{}}` -/
def nestedInput : CStr :=
  CStr.ofBytes [123, 34, 97, 34, 58, 123, 125, 125]

/-- The nested object loses its brace. -/
theorem nestedInput_damaged :
    ObjectText nestedInput.val [bareMember [97] [123, 125]] ∧
      ¬ Faithful [bareMember [97] [123, 125]]
        (nosqlInsertOne defaultStore (CStr.lit "db") (CStr.lit "c") nestedInput firstSeed
          1700000000).1 := by
  have hblank : Blank [] := by rintro c ⟨⟩
  have hjson : ObjectText nestedInput.val [bareMember [97] [123, 125]] := by
    refine ⟨[], _, [], hblank, .members (List.cons_ne_nil _ _) ?_ ?_, hblank, rfl⟩
    · exact List.forall_mem_singleton.mpr
        ⟨hblank, .plain (by decide) .nil, hblank, hblank, hblank⟩
    · exact List.forall_mem_singleton.mpr (.emptyObject hblank)
  refine ⟨hjson, fun hfaithful => ?_⟩
  obtain ⟨-, hlast, -⟩ := fits_of_faithful hjson rfl hfaithful
  exact hlast ⟨_, rfl, rfl⟩

end Nosql
end InventixDB
