import InventixDB.Lib.ProbedSlots
import InventixDB.Lib.Runs
import InventixDB.Nosql.Writes

/-!
# Updates of fields

An update is written behind the members that a document has, and a field is read where its name
stands first.  So an update takes effect just on names that the document does not have yet.  The
braces at the end of a document all go before the update is written, so that a value that is an
object keeps its brace just where another member stands behind it.
-/

namespace InventixDB
namespace Nosql

open Lib
open Lib.JsonText
open Lib.OpenAddressing
open Storage

/-! ## First places -/

/-- `strstr`: before the place found there is no other. -/
theorem strstr_eq_some {s sub : CStr} {before found : List UInt8} (hs : s.val = before ++ found)
    (hfound : sub.val <+: found)
    (hfirst : ∀ i < before.length, ¬ sub.val <+: (before ++ found).drop i) :
    CStr.strstr s sub = some found := by
  unfold CStr.strstr
  rw [hs]
  clear hs
  induction before with
  | nil =>
      have hhere : sub.val.isPrefixOf found = true := List.isPrefixOf_iff_prefix.mpr hfound
      cases found with
      | nil => simp [hhere]
      | cons c found => simp [hhere]
  | cons c before ih =>
      have hnot : sub.val.isPrefixOf (c :: (before ++ found)) = false := by
        have hzero := hfirst 0 (Nat.zero_lt_succ _)
        rw [← List.isPrefixOf_iff_prefix, Bool.not_eq_true] at hzero
        exact hzero
      rw [List.cons_append, List.tails_cons, List.find?_cons_of_neg (by simp [hnot])]
      exact ih fun i hi => hfirst (i + 1) (Nat.succ_lt_succ hi)

/-! ## Values that are closed -/

/-- No quote in the text ends it too early. -/
def Quotable (value : List UInt8) : Prop :=
  untilQuote (value ++ [34]) = value

instance (value : List UInt8) : Decidable (Quotable value) :=
  inferInstanceAs (Decidable (_ = _))

theorem untilQuote_plain {c : UInt8} (hquote : c ≠ 34) (hback : c ≠ 92) (t : List UInt8) :
    untilQuote (c :: t) = c :: untilQuote t := by
  cases t with
  | nil => simp [untilQuote, hquote]
  | cons c' t => rw [untilQuote, if_neg hquote, if_neg hback]

theorem untilQuote_append {t : List UInt8} {value rest : List UInt8}
    (ht : t = value ++ [34]) (hvalue : untilQuote t = value) :
    untilQuote (value ++ 34 :: rest) = value := by
  induction t using untilQuote.induct generalizing value with
  | case1 => simp at ht
  | case2 t =>
      have hnil : value = [] := by
        rw [← hvalue]
        cases t <;> rfl
      subst hnil
      cases rest <;> rfl
  | case3 c hquote =>
      cases value with
      | nil =>
          rw [List.nil_append, List.cons.injEq] at ht
          exact absurd ht.1 hquote
      | cons v value => simp at ht
  | case4 c' t hquote ih =>
      rw [untilQuote, if_neg hquote, if_pos rfl] at hvalue
      subst hvalue
      simp only [List.cons_append, List.cons.injEq, true_and] at ht
      rw [List.cons_append, List.cons_append, untilQuote, if_neg hquote, if_pos rfl, ih ht rfl]
  | case5 c hquote c' t hback ih =>
      rw [untilQuote_plain hquote hback] at hvalue
      subst hvalue
      rw [List.cons_append, List.cons.injEq] at ht
      rw [List.cons_append, untilQuote_plain hquote hback, ih ht.2 rfl]

theorem Quotable.untilQuote {value : List UInt8} (h : Quotable value) (rest : List UInt8) :
    untilQuote (value ++ 34 :: rest) = value :=
  untilQuote_append rfl h

/-! ## Fields as they are read -/

/-- What is searched for. -/
def searched (name : CStr) : CStr :=
  CStr.snprintf 128 (CStr.ofBytes (quoted name.val))

/-- The first place of the name has the value behind it, up to a closing quote. -/
structure ShowsAt (text : List UInt8) (name value : CStr) (before between rest : List UInt8) :
    Prop where
  text_eq : text = before ++ ((searched name).val ++ (between ++ 34 :: (value.val ++ 34 :: rest)))
  first : ∀ i < before.length, ¬ (searched name).val <+: text.drop i
  separators : ∀ c ∈ between, isSeparator c = true
  quotable : Quotable value.val

def Shows (text : List UInt8) (name value : CStr) : Prop :=
  ∃ before between rest, ShowsAt text name value before between rest

variable {text : List UInt8} {name value : CStr}

theorem searched_eq (name : CStr) : ∃ rest, (searched name).val = 34 :: rest := by
  have hzero : 0 ∉ quoted name.val := by
    rw [quoted, List.mem_cons, List.mem_append, List.mem_singleton]
    rintro (h | h | h)
    · exact absurd h (by decide)
    · exact name.property h
    · exact absurd h (by decide)
  refine ⟨(name.val ++ [34]).take 126, ?_⟩
  have htake : 0 ∉ (quoted name.val).take 127 := fun h => hzero (List.mem_of_mem_take h)
  rw [searched, CStr.snprintf, CStr.ofBytes_of_notMem hzero, CStr.ofBytes_of_notMem htake]
  rfl

/-- A closed value is read back. -/
theorem Shows.jsonGetString {json : CStr} (h : Shows json.val name value) :
    jsonGetString json name = some value := by
  obtain ⟨before, between, rest, htext, hfirst, hseparators, hquotable⟩ := h
  have hfound := strstr_eq_some htext (List.prefix_append _ _) (htext ▸ hfirst)
  rw [searched] at hfound
  simp only [Nosql.jsonGetString, hfound]
  rw [← searched]
  have hdrop : ((searched name).val ++ (between ++ 34 :: (value.val ++ 34 :: rest))).drop
      (searched name).length = between ++ 34 :: (value.val ++ 34 :: rest) := List.drop_left
  have hskip : (between ++ 34 :: (value.val ++ 34 :: rest)).dropWhile isSeparator
      = 34 :: (value.val ++ 34 :: rest) := by
    rw [List.dropWhile_append_of_pos hseparators]
    rfl
  simp only [hdrop, hskip]
  rw [hquotable.untilQuote, CStr.ofBytes_val]

/-- More text behind changes nothing. -/
theorem Shows.append (h : Shows text name value) (more : List UInt8) :
    Shows (text ++ more) name value := by
  obtain ⟨before, between, rest, htext, hfirst, hseparators, hquotable⟩ := h
  refine ⟨before, between, rest ++ more, ?_, fun i hi hleads => ?_, hseparators, hquotable⟩
  · rw [htext]
    simp
  · have hlen : (searched name).val.length ≤ (text.drop i).length := by
      rw [List.length_drop, htext, List.length_append, List.length_append]
      omega
    rw [List.drop_append_of_le_length (by rw [htext, List.length_append]; omega)] at hleads
    exact hfirst i hi (List.prefix_of_prefix_length_le hleads (List.prefix_append _ _) hlen)

/-- Nor does text in front in which the name does not stand. -/
theorem Shows.prepend (h : Shows text name value) {lead : List UInt8}
    (hlead : ∀ i < lead.length, ¬ (searched name).val <+: (lead ++ text).drop i) :
    Shows (lead ++ text) name value := by
  obtain ⟨before, between, rest, htext, hfirst, hseparators, hquotable⟩ := h
  refine ⟨lead ++ before, between, rest, ?_, fun i hi => ?_, hseparators, hquotable⟩
  · rw [htext, List.append_assoc]
  · by_cases hlow : i < lead.length
    · exact hlead i hlow
    · rw [List.length_append] at hi
      rw [List.drop_append, List.drop_eq_nil_of_le (by omega), List.nil_append]
      exact hfirst _ (by omega)

/-- A name starts with a quote. -/
theorem not_prefix_of_notMem {lead text : List UInt8} (hlead : 34 ∉ lead) {i : Nat}
    (hi : i < lead.length) : ¬ (searched name).val <+: (lead ++ text).drop i := by
  obtain ⟨rest, hsearched⟩ := searched_eq name
  rw [hsearched, List.drop_append_of_le_length hi.le, List.drop_eq_getElem_cons hi,
    List.cons_append, List.cons_prefix_cons]
  rintro ⟨hquote, -⟩
  rw [hquote] at hlead
  exact hlead (List.getElem_mem hi)

theorem Shows.of_lead {lead : List UInt8} (hlead : 34 ∉ lead)
    (h : Shows (lead ++ text) name value) : Shows text name value := by
  obtain ⟨before, between, rest, htext, hfirst, hseparators, hquotable⟩ := h
  obtain ⟨more, hsearched⟩ := searched_eq name
  -- The place found is behind the lead, as it has a quote.
  have hle : lead.length ≤ before.length := by
    by_contra hlt
    have hnot : ¬ (searched name).val <+: (lead ++ text).drop before.length :=
      not_prefix_of_notMem hlead (Nat.lt_of_not_le hlt)
    refine hnot ?_
    rw [htext, List.drop_left]
    exact List.prefix_append _ _
  obtain ⟨before', hbefore⟩ : lead <+: before :=
    List.prefix_of_prefix_length_le (List.prefix_append lead text)
      (htext ▸ List.prefix_append _ _) hle
  subst hbefore
  rw [List.append_assoc, List.append_cancel_left_eq] at htext
  refine ⟨before', between, rest, htext, fun i hi => ?_, hseparators, hquotable⟩
  have hthere := hfirst (lead.length + i) (by rw [List.length_append]; omega)
  rw [List.drop_append, List.drop_eq_nil_of_le (by omega), List.nil_append,
    Nat.add_sub_cancel_left] at hthere
  exact hthere

theorem Shows.of_tail {tail : List UInt8} (htail : 34 ∉ tail)
    (h : Shows (text ++ tail) name value) : Shows text name value := by
  obtain ⟨before, between, rest, htext, hfirst, hseparators, hquotable⟩ := h
  have hsplit : text ++ tail =
      (before ++ ((searched name).val ++ (between ++ 34 :: value.val))) ++ 34 :: rest := by
    rw [htext]
    simp
  rcases List.append_eq_append_iff.mp hsplit with ⟨more, hfront, hback⟩ | ⟨more, hfront, hback⟩
  · -- The closing quote would stand in the tail.
    refine absurd ?_ htail
    rw [hback]
    simp
  · cases more with
    | nil =>
        rw [List.nil_append] at hback
        refine absurd ?_ htail
        rw [← hback]
        exact List.mem_cons_self
    | cons c more =>
        rw [List.cons_append, List.cons.injEq] at hback
        obtain ⟨rfl, hrest⟩ := hback
        refine ⟨before, between, more, ?_, fun i hi hleads => ?_, hseparators, hquotable⟩
        · rw [hfront]
          simp
        · refine hfirst i hi ?_
          have hle : i ≤ text.length := by
            rw [hfront]
            simp only [List.length_append]
            omega
          rw [List.drop_append_of_le_length hle]
          exact hleads.trans (List.prefix_append _ _)

/-! ## The merged text -/

theorem notMem_of_isSpace {t : List UInt8} (ht : ∀ c ∈ t, CStr.isSpace c = true) : 34 ∉ t :=
  fun hmem => absurd (ht 34 hmem) (by decide)

/-- What `json_unwrap` takes off has no quotes. -/
theorem jsonUnwrap_eq (json : CStr) : ∃ lead tail,
    34 ∉ lead ∧ 34 ∉ tail ∧ json.val = lead ++ ((jsonUnwrap json).val ++ tail) := by
  have hspaces : 34 ∉ json.val.takeWhile CStr.isSpace :=
    notMem_of_isSpace fun c hc => List.mem_takeWhile_imp hc
  obtain ⟨brace, body, hbrace, hbody, hcut⟩ : ∃ brace body, 34 ∉ brace ∧
      json.val.dropWhile CStr.isSpace = brace ++ body ∧
      (if (json.val.dropWhile CStr.isSpace).head? = some 123
        then (json.val.dropWhile CStr.isSpace).drop 1
        else json.val.dropWhile CStr.isSpace) = body := by
    cases hrest : json.val.dropWhile CStr.isSpace with
    | nil => exact ⟨[], [], by simp, rfl, rfl⟩
    | cons c rest =>
        by_cases hc : c = 123
        · subst hc
          exact ⟨[123], rest, by decide, rfl, rfl⟩
        · exact ⟨[], c :: rest, by simp, rfl, by simp [hc]⟩
  have hall : json.val = json.val.takeWhile CStr.isSpace ++ (brace ++ body) := by
    rw [← hbody, List.takeWhile_append_dropWhile]
  have hzero : 0 ∉ body.rdropWhile isTrimmed := by
    intro hmem
    refine json.property ?_
    rw [hall]
    have hsub := (List.rdropWhile_prefix isTrimmed body).subset hmem
    simp [hsub]
  have hunwrap : (jsonUnwrap json).val = body.rdropWhile isTrimmed := by
    rw [← CStr.ofBytes_of_notMem hzero, ← hcut]
    rfl
  refine ⟨json.val.takeWhile CStr.isSpace ++ brace, body.rtakeWhile isTrimmed, ?_, ?_, ?_⟩
  · rw [List.mem_append]
    exact not_or.mpr ⟨hspaces, hbrace⟩
  · intro hmem
    exact absurd (List.mem_rtakeWhile_imp hmem) (by decide)
  · rw [hunwrap, List.rdropWhile_append_rtakeWhile, List.append_assoc]
    exact hall

theorem mergedText_val (doc update : CStr) :
    (mergedText doc update).val =
      123 :: ((jsonUnwrap doc).val ++ 44 :: ((jsonUnwrap update).val ++ [125])) := by
  have hopen : (CStr.lit "\x7b").val = [123] := by decide
  have hcomma : (CStr.lit ",").val = [44] := by decide
  have hclose : (CStr.lit "\x7d").val = [125] := by decide
  simp only [mergedText, CStr.val_append, hopen, hcomma, hclose]
  simp

/-- The fields of the document are still read. -/
theorem Shows.merged_doc {doc : CStr} (h : Shows doc.val name value) (update : CStr) :
    Shows (mergedText doc update).val name value := by
  obtain ⟨lead, tail, hlead, htail, hdoc⟩ := jsonUnwrap_eq doc
  rw [hdoc] at h
  have hbody := (h.of_lead hlead).of_tail htail
  have hopen : Shows ([123] ++ (jsonUnwrap doc).val) name value :=
    hbody.prepend fun i hi => not_prefix_of_notMem (by decide) hi
  rw [mergedText_val]
  exact hopen.append _

/-- The name does not stand in front of the members of the update. -/
def Absent (doc update name : CStr) : Prop :=
  ∀ i < (jsonUnwrap doc).length + 2, ¬ (searched name).val <+: (mergedText doc update).val.drop i

instance (doc update name : CStr) : Decidable (Absent doc update name) :=
  inferInstanceAs (Decidable (∀ i < _, ¬ _))

/-- A field that is new to the document is read. -/
theorem Shows.merged_update {doc update : CStr} (h : Shows (jsonUnwrap update).val name value)
    (habsent : Absent doc update name) : Shows (mergedText doc update).val name value := by
  have hsplit : (mergedText doc update).val =
      (123 :: ((jsonUnwrap doc).val ++ [44])) ++ ((jsonUnwrap update).val ++ [125]) := by
    rw [mergedText_val]
    simp
  rw [hsplit]
  refine (h.append [125]).prepend fun i hi => ?_
  rw [← hsplit]
  refine habsent i ?_
  simp only [List.length_cons, List.length_append, List.length_nil] at hi
  exact hi

/-! ## Updates with string fields -/

/-- What `json_unwrap` takes off behind the last value holds no more than one closing brace: the
last value is no object. -/
def ClosesOnce (text : CStr) : Prop :=
  (text.val.rtakeWhile isTrimmed).count 125 ≤ 1

instance (text : CStr) : Decidable (ClosesOnce text) :=
  inferInstanceAs (Decidable (_ ≤ _))

theorem ClosesOnce.not_endsWithObject {text : CStr} {members : List Member} (h : ClosesOnce text)
    (htext : ObjectText text.val members) : ¬ EndsWithObject members := by
  rintro ⟨m, hm, hobject⟩
  obtain ⟨before, body, after, -, hbody, hafter, hval⟩ := htext
  cases hbody with
  | empty hw => cases hm
  | members hne hframed hvalue =>
      obtain ⟨init, rfl⟩ := List.getLast?_eq_some_iff.mp hm
      have hlast : m ∈ init ++ [m] := List.mem_append_right _ List.mem_cons_self
      -- The brace of the value and that of the document.
      have hbrace := @mem_rtakeWhile_members init m (hframed m hlast) (hvalue m hlast) hobject
      have htail : ∀ c ∈ (125 :: after).reverse, isTrimmed c = true := by
        intro c hc
        rcases List.mem_cons.mp (List.mem_reverse.mp hc) with rfl | hc
        · rfl
        · exact isTrimmed_of_isBlank (hafter c hc)
      have hinner : 125 ∈ (before ++ 123 :: commaSeparated
          ((init ++ [m]).map Member.text)).reverse.takeWhile isTrimmed := by
        have hfound := List.mem_reverse.mp hbrace
        rw [List.reverse_append, List.reverse_cons, List.append_assoc, List.takeWhile_append]
        split
        · exact List.mem_append_left _ ((List.takeWhile_sublist _).subset hfound)
        · exact hfound
      have hpos := List.count_pos_iff.mpr hinner
      rw [ClosesOnce, hval, ← List.cons_append, ← List.append_assoc, List.rtakeWhile,
        List.reverse_append, List.takeWhile_append_of_pos htail, List.count_reverse,
        List.count_append, List.count_reverse, List.count_cons_self] at h
      omega

/-- The members of the update stand behind those of the document. -/
theorem objectText_mergedText {doc update : CStr} {members members' : List Member}
    (hdoc : ObjectText doc.val members) (hne : members ≠ []) (hlast : ¬ EndsWithObject members)
    (hupdate : ObjectText update.val members') (hne' : members' ≠ [])
    (hlast' : ¬ EndsWithObject members') :
    ObjectText (mergedText doc update).val (trimLast members ++ trimLast members') := by
  have hbody := (objectBody_jsonUnwrap hdoc hne hlast).append
    (objectBody_jsonUnwrap hupdate hne' hlast') (trimLast_ne_nil hne) (trimLast_ne_nil hne')
  have htext := hbody.objectText
  rw [List.append_assoc, List.cons_append] at htext
  rw [mergedText_val]
  exact htext

/-- An object in which a field is found has members. -/
theorem members_ne_nil {doc name value : CStr} {members : List Member}
    (hdoc : ObjectText doc.val members) (hread : jsonGetString doc name = some value) :
    members ≠ [] := by
  rintro rfl
  obtain ⟨before, body, after, hbefore, hbody, hafter, hval⟩ := hdoc
  obtain ⟨more, hsearched⟩ := searched_eq name
  cases hbody with
  | members hne => exact hne rfl
  | empty hw =>
      -- No quote stands in a text without members.
      have hblank : ∀ t : List UInt8, Blank t → 34 ∉ t :=
        fun t ht hmem => absurd (ht 34 hmem) (by decide)
      have hquote : 34 ∉ doc.val := by
        rw [hval]
        simp [hblank _ hbefore, hblank _ hw, hblank _ hafter]
      have hnone : CStr.strstr doc (searched name) = none := by
        rw [CStr.strstr, List.find?_eq_none]
        intro t ht hprefix
        have hmem : 34 ∈ (searched name).val := hsearched ▸ List.mem_cons_self
        have hfound := (List.isPrefixOf_iff_prefix.mp hprefix).subset hmem
        exact hquote (((List.mem_tails _ _).mp ht).subset hfound)
      rw [searched] at hnone
      simp [jsonGetString, hnone] at hread

/-- An object whose values are strings. -/
structure StringObject where
  json : CStr
  members : List Member
  object : ObjectText json.val members
  strings : ∀ m ∈ members, ∃ body, StringBody body ∧ m.value = quoted body

theorem StringObject.not_endsWithObject (update : StringObject) :
    ¬ EndsWithObject update.members := by
  rintro ⟨m, hm, hobject⟩
  obtain ⟨body, -, hvalue⟩ := update.strings m (List.mem_of_mem_getLast? hm)
  rw [hvalue] at hobject
  exact absurd hobject (by simp [quoted])

/-- The value of the last member of this name. -/
def StringObject.newest (update : StringObject) (name : CStr) : Option CStr :=
  (lastValue update.members name.val).map fun value => CStr.ofBytes (value.drop 1).dropLast

/-- `{"<name>":"<value>",...}` -/
def objectBytes (fields : List (List UInt8 × List UInt8)) : List UInt8 :=
  123 :: (commaSeparated (fields.map fun f => (bareMember f.1 (quoted f.2)).text) ++ [125])

/-- Fields that need no escapes. -/
def PlainFields (fields : List (List UInt8 × List UInt8)) : Prop :=
  fields ≠ [] ∧ (∀ f ∈ fields, (∀ c ∈ f.1, isPlain c = true) ∧ ∀ c ∈ f.2, isPlain c = true) ∧
    0 ∉ objectBytes fields

instance (fields : List (List UInt8 × List UInt8)) : Decidable (PlainFields fields) :=
  letI (t : List UInt8) : Decidable (∀ c ∈ t, isPlain c = true) := List.decidableBAll _ t
  inferInstanceAs (Decidable (_ ∧ _))

def plainObject (fields : List (List UInt8 × List UInt8)) (hplain : PlainFields fields) :
    StringObject where
  json := CStr.ofBytes (objectBytes fields)
  members := fields.map fun f => bareMember f.1 (quoted f.2)
  object := by
    obtain ⟨hne, hplain, hzero⟩ := hplain
    have hblank : Blank [] := by rintro c ⟨⟩
    rw [CStr.ofBytes_of_notMem hzero]
    refine ⟨[], _, [], hblank, .members (by simpa using hne) ?_ ?_, hblank, ?_⟩
    · refine List.forall_mem_map.mpr fun f hf => ?_
      exact ⟨hblank, stringBody_of_isPlain (hplain f hf).1, hblank, hblank, hblank⟩
    · exact List.forall_mem_map.mpr fun f hf => .string (stringBody_of_isPlain (hplain f hf).2)
    · rw [List.map_map]
      rfl
  strings := List.forall_mem_map.mpr fun f hf =>
    ⟨f.2, stringBody_of_isPlain (hplain.2.1 f hf).2, rfl⟩

theorem newest_plainObject {fields : List (List UInt8 × List UInt8)} (hplain : PlainFields fields)
    {name value : CStr} (h : (plainObject fields hplain).newest name = some value) :
    ∃ f ∈ fields, name.val = f.1 ∧ value = CStr.ofBytes f.2 := by
  obtain ⟨found, hfound, rfl⟩ := Option.map_eq_some_iff.mp h
  obtain ⟨field, hfield, rfl⟩ := Option.map_eq_some_iff.mp hfound
  have hname := List.find?_some hfield
  have hmem := List.mem_reverse.mp (List.mem_of_find?_eq_some hfield)
  obtain ⟨m, hm, rfl⟩ := List.mem_map.mp hmem
  obtain ⟨f, hf, rfl⟩ := List.mem_map.mp hm
  refine ⟨f, hf, (of_decide_eq_true hname).symm, ?_⟩
  simp [bareMember, quoted]

structure UpdateCall where
  update : StringObject
  seed : IdSeed
  now : UInt64

section Run

variable {n : Nat} [NeZero n]

/-- The text of the document under a key. -/
def textAt (store : KVStore n) (key : CStr) : Option CStr :=
  ((kvGet store key).filter fun val => val.type = .json).map fun val => CStr.ofBytes val.data

theorem ofBytes_terminated (text : CStr) : CStr.ofBytes (text.val ++ [0]) = text := by
  have hbuffer := CStr.ofBuffer?_terminated text
  rw [CStr.ofBuffer?, if_pos (by simp)] at hbuffer
  exact Option.some_inj.mp hbuffer

/-- A document that is there is replaced. -/
theorem textAt_putText {store : KVStore n} {key doc : CStr} (hdoc : textAt store key = some doc)
    (text : CStr) : textAt (putText store key text) key = some text := by
  obtain ⟨val, hval, -⟩ := Option.map_eq_some_iff.mp hdoc
  obtain ⟨i, hhit, -⟩ := lookup_eq_some_iff_hit.mp (Option.filter_eq_some_iff.mp hval).1
  have hput : kvGet (putText store key text) key =
      some { data := text.val ++ [0], type := .json } := by
    rw [kvGet, putText, entries_kvPut]
    refine lookup_insert_self ?_
    simp [hhit]
  rw [textAt, hput]
  exact congrArg some (ofBytes_terminated text)

/-- A store, the fields that a reader of the document is to see, and the members that the updates
have written. -/
structure UpdateRun (n : Nat) where
  store : KVStore n
  expected : CStr → CStr → Prop
  written : List Member

/-- The fields of the update are the newest ones. -/
def overridden (update : StringObject) (expected : CStr → CStr → Prop) (name value : CStr) : Prop :=
  match update.newest name with
  | some newest => value = newest
  | none => expected name value

variable (db collection query : CStr)

/-- `nosql_update_one` -/
def updateStep (s : UpdateRun n) (call : UpdateCall) : Option (UpdateRun n) :=
  let r := nosqlUpdateOne s.store db collection query call.update.json (fun _ => call.seed) call.now
  some
    { store := r.1
      expected := if r.2 = 1 then overridden call.update s.expected else s.expected
      written := if r.2 = 1 then s.written ++ call.update.members else s.written }

/-- The run starts with the fields that the document shows. -/
def updateStart (store : KVStore n) (doc : CStr) : UpdateRun n where
  store := store
  expected := Shows doc.val
  written := []

/-- Each field is read with its newest value, and the text of an object is an object: what an update
names has the newest value, every other field the value that the document gave it. -/
def TakesEffect (key doc : CStr) (s : UpdateRun n) : Prop :=
  ∃ text, textAt s.store key = some text ∧
    (∀ name value, s.expected name value → jsonGetString text name = some value) ∧
      ∀ members, ObjectText doc.val members → ∃ stored, ObjectText text.val stored ∧
        ∀ name, lastValue stored name = (lastValue s.written name).or (lastValue members name)

/-- What the run keeps. -/
def InOrder (key doc : CStr) (s : UpdateRun n) : Prop :=
  ∃ text, textAt s.store key = some text ∧
    (∀ name value, s.expected name value → Shows text.val name value) ∧
      ∀ members, ObjectText doc.val members → ∃ stored, ObjectText text.val stored ∧
        fields stored = fields (members ++ s.written)

/-- The merged text fits its buffer and is stored under the id of the document; the last value of an
object is no object, and the update of one has members; and the fields of the update are new, or
are there already with these values. -/
def UpdateFits (key : CStr) (s : UpdateRun n) (call : UpdateCall) : Prop :=
  ∀ text, textAt s.store key = some text →
    (∃ own, jsonGetString text (CStr.lit "_id") = some own ∧ makeDocKey db collection own = key) ∧
      (mergedText text call.update.json).length < 4096 ∧
        ((∃ members, ObjectText text.val members) →
          ClosesOnce text ∧ call.update.members ≠ []) ∧
          ∀ name value, call.update.newest name = some value → Shows text.val name value ∨
            (Shows (jsonUnwrap call.update.json).val name value ∧
              Absent text call.update.json name)

variable {db collection query} {key doc : CStr} {s after : UpdateRun n} {call : UpdateCall}

omit [NeZero n] in
theorem overridden_of_newest {update : StringObject} {expected : CStr → CStr → Prop}
    {name value : CStr} (h : update.newest name = some value) :
    overridden update expected name value := by
  rw [overridden, h]

omit [NeZero n] in
theorem overridden_cases {update : StringObject} {expected : CStr → CStr → Prop} {name value : CStr}
    (h : overridden update expected name value) :
    update.newest name = some value ∨ expected name value := by
  unfold overridden at h
  split at h
  · rename_i newest hnewest
    subst h
    exact .inl hnewest
  · exact .inr h

theorem InOrder.takesEffect (h : InOrder key doc s) : TakesEffect key doc s := by
  obtain ⟨text, htext, hshows, hobject⟩ := h
  refine ⟨text, htext, fun name value hexpected => (hshows name value hexpected).jsonGetString,
    fun members hmembers => ?_⟩
  obtain ⟨stored, hstored, hfields⟩ := hobject members hmembers
  refine ⟨stored, hstored, fun name => ?_⟩
  rw [lastValue_congr hfields, lastValue_append]

/-- `nosql_update_one` by the id of a document that is stored under its own id. -/
theorem nosqlUpdateOne_eq {id text own : CStr} {store : KVStore n}
    (hquery : jsonGetString query (CStr.lit "_id") = some id)
    (htext : textAt store (makeDocKey db collection id) = some text)
    (hown : jsonGetString text (CStr.lit "_id") = some own) (update : CStr) (seeds : Nat → IdSeed)
    (now : UInt64) :
    nosqlUpdateOne store db collection query update seeds now =
      (putText store (makeDocKey db collection own) (CStr.snprintf 4096 (mergedText text update)),
        1) := by
  obtain ⟨val, hval, rfl⟩ := Option.map_eq_some_iff.mp htext
  obtain ⟨hget, htype⟩ := Option.filter_eq_some_iff.mp hval
  have hfound : nosqlFindOne store db collection query seeds now =
      some (documentAt val (seeds 0) now) := by
    rw [nosqlFindOne, hquery]
    dsimp only
    rw [hget]
    exact if_pos (of_decide_eq_true htype)
  have hid : documentId (CStr.ofBytes val.data) (seeds 0) = own := by
    rw [documentId, hown]
    rfl
  rw [nosqlUpdateOne, hfound]
  dsimp only [documentAt, nosqlDocCreate]
  rw [hid]

theorem updateStep_eq {id text own : CStr}
    (hquery : jsonGetString query (CStr.lit "_id") = some id)
    (htext : textAt s.store (makeDocKey db collection id) = some text)
    (hown : jsonGetString text (CStr.lit "_id") = some own) (call : UpdateCall) :
    updateStep db collection query s call = some
      { store := putText s.store (makeDocKey db collection own)
          (CStr.snprintf 4096 (mergedText text call.update.json))
        expected := overridden call.update s.expected
        written := s.written ++ call.update.members } := by
  rw [updateStep, nosqlUpdateOne_eq hquery htext hown]
  rfl

theorem updateStep_inOrder {id : CStr} (hquery : jsonGetString query (CStr.lit "_id") = some id)
    (h : InOrder (makeDocKey db collection id) doc s)
    (hfits : UpdateFits db collection (makeDocKey db collection id) s call)
    (hstep : updateStep db collection query s call = some after) :
    InOrder (makeDocKey db collection id) doc after := by
  obtain ⟨text, htext, hshows, hobject⟩ := h
  obtain ⟨⟨own, hown, hkey⟩, hlength, hcloses, hfields⟩ := hfits text htext
  rw [updateStep_eq hquery htext hown, hkey, CStr.snprintf_of_lt hlength] at hstep
  cases hstep
  refine ⟨mergedText text call.update.json, textAt_putText htext _,
    fun name value hexpected => ?_, fun members hmembers => ?_⟩
  · -- a field of the update, or one that the document is to show already
    rcases overridden_cases hexpected with hnewest | hkept
    · rcases hfields name value hnewest with hthere | ⟨hshown, habsent⟩
      · exact hthere.merged_doc _
      · exact hshown.merged_update habsent
    · exact (hshows name value hkept).merged_doc _
  · -- the members of the update stand behind those there were
    obtain ⟨stored, hstored, hsame⟩ := hobject members hmembers
    obtain ⟨honce, hne⟩ := hcloses ⟨stored, hstored⟩
    refine ⟨_, objectText_mergedText hstored (members_ne_nil hstored hown)
      (honce.not_endsWithObject hstored) call.update.object hne call.update.not_endsWithObject, ?_⟩
    have happend : ∀ ms ms' : List Member, fields (ms ++ ms') = fields ms ++ fields ms' :=
      fun ms ms' => List.map_append
    simp only [happend, fields_trimLast, hsame, List.append_assoc]

/-- Updates whose fields are new to the document take effect, in every run. -/
theorem updates_take_effect {store : KVStore n} {id : CStr} {calls : List UpdateCall}
    (hquery : jsonGetString query (CStr.lit "_id") = some id)
    (hdoc : textAt store (makeDocKey db collection id) = some doc)
    (hfits : StepsFit (updateStep db collection query)
      (UpdateFits db collection (makeDocKey db collection id)) (updateStart store doc) calls) :
    Stays (updateStep db collection query) (TakesEffect (makeDocKey db collection id) doc)
      (updateStart store doc) calls := by
  have hordered : Stays (updateStep db collection query)
      (InOrder (makeDocKey db collection id) doc) (updateStart store doc) calls :=
    stays_of_stepsFit (fun s call after h hfits hstep => updateStep_inOrder hquery h hfits hstep)
      ⟨doc, hdoc, fun name value hshown => hshown,
        fun members hmembers => ⟨members, hmembers, by rw [updateStart, List.append_nil]⟩⟩ hfits
  exact hordered.mono fun s h => h.takesEffect

end Run

/-! ## A document with one field -/

/-- `{"_id":"1","a":"x"}` -/
def fieldInput : StringObject :=
  plainObject [((CStr.lit "_id").val, [49]), ([97], [120])] (by decide)

/-- The document that is stored for it. -/
def fieldDocument : CStr :=
  CStr.snprintf 4096
    (documentText (nosqlDocCreate fieldInput.json firstSeed 1700000000) fieldInput.json)

def fieldStore : KVStore 1024 :=
  (nosqlInsertOne defaultStore (CStr.lit "db") (CStr.lit "c") fieldInput.json firstSeed
    1700000000).2

def fieldKey : CStr :=
  makeDocKey (CStr.lit "db") (CStr.lit "c") (CStr.lit "1")

/-- At most one entry more. -/
theorem length_ensureCollection_le {n : Nat} [NeZero n] (store : KVStore n) (db collection : CStr)
    (now : UInt64) :
    (toList (ensureCollection store db collection now).entries).length ≤
      1 + (toList store.entries).length := by
  unfold ensureCollection nosqlCreateCollection
  split
  · exact Nat.le_add_left _ _
  · dsimp only
    split
    · exact Nat.le_add_left _ _
    · rw [putText, entries_kvPut]
      exact length_toList_insert_le _ _ _ _

theorem kvGet_fieldStore :
    kvGet fieldStore fieldKey = some { data := fieldDocument.val ++ [0], type := .json } := by
  have hid : documentId fieldInput.json firstSeed = CStr.lit "1" := by decide
  have hroom : probe CStr.slot
      (ensureCollection (defaultStore : KVStore 1024) (CStr.lit "db") (CStr.lit "c")
        1700000000).entries
      (makeDocKey (CStr.lit "db") (CStr.lit "c") (documentId fieldInput.json firstSeed)) ≠
        .full := by
    refine probe_ne_full_of_length_lt ?_
    have hempty : toList (defaultStore : KVStore 1024).entries = [] := by decide +kernel
    have hle := length_ensureCollection_le (defaultStore : KVStore 1024) (CStr.lit "db")
      (CStr.lit "c") 1700000000
    rw [hempty] at hle
    exact hle.trans_lt (by decide)
  have hget := kvGet_nosqlInsertOne hroom
  rw [hid] at hget
  exact hget

theorem textAt_fieldStore : textAt fieldStore fieldKey = some fieldDocument := by
  rw [textAt, kvGet_fieldStore]
  exact congrArg some (ofBytes_terminated fieldDocument)

theorem jsonGetString_fieldDocument :
    jsonGetString fieldDocument (CStr.lit "_id") = some (CStr.lit "1") := by
  decide +kernel

/-- `{"_id":"1"}` -/
def fieldQuery : StringObject :=
  plainObject [((CStr.lit "_id").val, [49])] (by decide)

/-- `{"b":"y"}` -/
def newField : UpdateCall where
  update := plainObject [([98], [121])] (by decide)
  seed := firstSeed
  now := 1700000001

/-- `{"a":"y"}` -/
def oldField : UpdateCall where
  update := plainObject [([97], [121])] (by decide)
  seed := firstSeed
  now := 1700000001

theorem new_field_takes_effect :
    Stays (updateStep (CStr.lit "db") (CStr.lit "c") fieldQuery.json)
      (TakesEffect fieldKey fieldDocument) (updateStart fieldStore fieldDocument) [newField] := by
  have hquery : jsonGetString fieldQuery.json (CStr.lit "_id") = some (CStr.lit "1") := by decide
  refine updates_take_effect hquery textAt_fieldStore ⟨fun text htext => ?_, fun _ _ => trivial⟩
  dsimp only [updateStart] at htext
  rw [← fieldKey, textAt_fieldStore] at htext
  cases htext
  have hlength : (mergedText fieldDocument newField.update.json).length < 4096 := by decide +kernel
  refine ⟨⟨CStr.lit "1", jsonGetString_fieldDocument, rfl⟩, hlength,
    fun _ => ⟨by decide +kernel, List.cons_ne_nil _ _⟩, fun name value hnewest => .inr ?_⟩
  obtain ⟨f, hf, hname, rfl⟩ := newest_plainObject (by decide) hnewest
  cases List.mem_singleton.mp hf
  obtain rfl : name = CStr.lit "b" := Subtype.ext (hname.trans (by decide))
  have hseparators : ∀ c ∈ [(58 : UInt8)], isSeparator c = true :=
    List.forall_mem_singleton.mpr (by decide)
  exact ⟨⟨[], [58], [], by decide, by simp, hseparators, by decide⟩, by decide +kernel⟩

/-- The old value stays in front of the new one. -/
theorem old_field_is_kept :
    jsonGetString fieldQuery.json (CStr.lit "_id") = some (CStr.lit "1") ∧
    textAt fieldStore fieldKey = some fieldDocument ∧
    ¬ Stays (updateStep (CStr.lit "db") (CStr.lit "c") fieldQuery.json)
      (TakesEffect fieldKey fieldDocument) (updateStart fieldStore fieldDocument) [oldField] := by
  have hquery : jsonGetString fieldQuery.json (CStr.lit "_id") = some (CStr.lit "1") := by decide
  refine ⟨hquery, textAt_fieldStore, fun hstays => ?_⟩
  have hstart : textAt (updateStart fieldStore fieldDocument).store fieldKey =
      some fieldDocument := by
    dsimp only [updateStart]
    exact textAt_fieldStore
  obtain ⟨text, htext, hread, -⟩ :=
    hstays.2 _ (updateStep_eq hquery hstart jsonGetString_fieldDocument _)
  dsimp only at htext hread
  rw [← fieldKey, textAt_putText hstart] at htext
  cases htext
  have hnewest : oldField.update.newest (CStr.lit "a") = some (CStr.lit "y") := by decide +kernel
  have hnew := hread (CStr.lit "a") (CStr.lit "y") (overridden_of_newest hnewest)
  revert hnew
  decide +kernel

end Nosql
end InventixDB
