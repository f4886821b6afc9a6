import InventixDB.Sql.Literals

/-!
# Escaping — what the lexer makes of an escaped string

A quote is doubled, as other SQL dialects have it; the lexer ends the literal at the first of the
two.  It knows no escape for a NUL or a carriage return either.
-/

namespace InventixDB
namespace Server

open Storage
open Sql

/-- The cases of the loop of `stmt_escape_string`. -/
def stmtEscapeByte (b : UInt8) : List UInt8 :=
  if b = 39 then [39, 39]
  else if b = 92 then [92, 92]
  else if b = 0 then [92, 48]
  else if b = 10 then [92, 110]
  else if b = 13 then [92, 114]
  else [b]

/-- `stmt_escape_string` -/
def stmtEscapeString (str : List UInt8) : CStr :=
  CStr.ofBytes (str.flatMap stmtEscapeByte)

theorem stmtEscapeString_val (str : List UInt8) :
    (stmtEscapeString str).val = str.flatMap stmtEscapeByte := by
  have hbyte : ∀ b, 0 ∉ stmtEscapeByte b := by
    intro b
    unfold stmtEscapeByte
    split_ifs with hquote hslash hzero <;> simp
    exact fun heq => hzero heq.symm
  refine CStr.ofBytes_of_notMem fun hzero => ?_
  obtain ⟨b, _, hb⟩ := List.mem_flatMap.mp hzero
  exact hbyte b hb

/-! ## Without a quote -/

/-- The byte the lexer reads for an escaped one. -/
def readBack (b : UInt8) : UInt8 :=
  if b = 0 then 48 else if b = 13 then 114 else b

theorem written_stmtEscapeByte {b : UInt8} (hb : b ≠ 39) :
    Written 39 [readBack b] (stmtEscapeByte b) := by
  unfold stmtEscapeByte
  rw [if_neg hb]
  split_ifs with hslash hzero hline hreturn
  · rw [hslash]
    exact .escaped (e := 92) (by decide) .nil
  · rw [hzero]
    exact .escaped (e := 48) (by decide) .nil
  · rw [hline]
    exact .escaped (e := 110) (by decide) .nil
  · rw [hreturn]
    exact .escaped (e := 114) (by decide) .nil
  · rw [readBack, if_neg hzero, if_neg hreturn]
    exact .plain hb hslash .nil

theorem written_stmtEscape {str : List UInt8} (hquote : 39 ∉ str) :
    Written 39 (str.map readBack) (str.flatMap stmtEscapeByte) := by
  refine Written.flatMap fun b hb => written_stmtEscapeByte ?_
  rintro rfl
  exact hquote hb

theorem zero_notMem_readBack (str : List UInt8) : 0 ∉ str.map readBack := by
  have hbyte : ∀ b, readBack b ≠ 0 := by
    intro b
    unfold readBack
    split_ifs with hzero <;> simp [hzero]
  intro hzero
  obtain ⟨b, _, hb⟩ := List.mem_map.mp hzero
  exact hbyte b hb

/-- The lexer returns the string when no byte reads back as another one. -/
theorem readBack_iff (str : List UInt8) :
    CStr.ofBytes (str.map readBack) = CStr.ofBytes str ↔ 0 ∉ str ∧ 13 ∉ str := by
  rw [Subtype.ext_iff, CStr.ofBytes_of_notMem (zero_notMem_readBack str)]
  constructor
  · intro heq
    -- a NUL would end the string on the right and not the one on the left
    have hzero : 0 ∉ str := by
      intro hzero
      have hlen : (CStr.ofBytes str).val.length = str.length := by
        rw [← heq, List.length_map]
      have hall := (List.takeWhile_prefix (fun b : UInt8 => decide (b ≠ 0))).eq_of_length hlen
      have hmem : (0 : UInt8) ∈ (CStr.ofBytes str).val := by
        change 0 ∈ str.takeWhile _
        rwa [hall]
      exact (CStr.ofBytes str).property hmem
    rw [CStr.ofBytes_of_notMem hzero] at heq
    refine ⟨hzero, fun hreturn => ?_⟩
    have hfix : readBack 13 = 13 :=
      List.map_inj_left.mp (heq.trans (List.map_id str).symm) 13 hreturn
    exact absurd hfix (by decide)
  · rintro ⟨hzero, hreturn⟩
    rw [CStr.ofBytes_of_notMem hzero]
    refine (List.map_congr_left fun b hb => ?_).trans (List.map_id str)
    have hb0 : b ≠ 0 := fun heq => hzero (heq ▸ hb)
    have hb13 : b ≠ 13 := fun heq => hreturn (heq ▸ hb)
    rw [readBack, if_neg hb0, if_neg hb13, id]

/-! ## With one -/

/-- A doubled quote ends one literal and opens another. -/
theorem lex_stmtEscape_quote {pre : List UInt8} (hpre : 39 ∉ pre) (post : List UInt8)
    (line : Nat) :
    2 ≤ (lex line (39 :: ((pre ++ 39 :: post).flatMap stmtEscapeByte ++ [39]))).1.length := by
  have htwice : (pre ++ 39 :: post).flatMap stmtEscapeByte ++ [39] =
      pre.flatMap stmtEscapeByte ++ 39 :: 39 :: (post.flatMap stmtEscapeByte ++ [39]) := by
    rw [List.flatMap_append, List.flatMap_cons]
    simp [stmtEscapeByte]
  rw [htwice, lex_written (by decide) (written_stmtEscape hpre), lex, nextToken,
    byteClass_quote (by decide)]
  simp

/-- An escaped string is read back as one token with the string in it exactly when it holds no
quote, no NUL and no carriage return. -/
theorem stmtEscapeString_readBack_iff (str : List UInt8) :
    (tokenize (quoted 39 (stmtEscapeString str).val)).map (fun t => (t.type, t.value)) =
        [(.string, some (CStr.ofBytes str)), (.eof, none)] ↔
      39 ∉ str ∧ 0 ∉ str ∧ 13 ∉ str := by
  have hval := (stmtEscapeString str).property
  rw [stmtEscapeString_val] at hval ⊢
  by_cases hquote : 39 ∈ str
  · refine iff_of_false (fun heq => ?_) fun h => h.1 hquote
    obtain ⟨pre, post, rfl, hpre⟩ := List.eq_append_cons_of_mem hquote
    have hlen := congrArg List.length heq
    have htwo := lex_stmtEscape_quote hpre post 1
    rw [tokenize, quoted_val (by decide) hval] at hlen
    simp only [List.length_map, List.length_append, List.length_cons, List.length_nil] at hlen
    omega
  · rw [tokenize_written (by decide) (written_stmtEscape hquote) hval]
    simp [readBack_iff, hquote]

theorem stmtEscapeString_apostrophe :
    ¬ (tokenize (quoted 39 (stmtEscapeString (CStr.lit "it's").val).val)).map
        (fun t => (t.type, t.value)) =
      [(.string, some (CStr.lit "it's")), (.eof, none)] := by
  decide +kernel

end Server
end InventixDB
