import InventixDB.Server.Queries
import InventixDB.Sql.Crashes

/-!
# Robustness — which queries the server answers

A query reaches the parser as it is, as what EXECUTE makes of a prepared statement, or as the text
behind PREPARE or EXPLAIN.  On the way the server reads the texts of tokens that may have none.
-/

namespace InventixDB
namespace Server

open Storage
open Sql

variable {env : ServerEnv} {conn : ClientConnection} {store : SessionStatementStore}
  {query : CStr}

/-! ## What goes wrong -/

/-- The parser does not answer the text. -/
def ParseBreaks (query : CStr) : Prop :=
  StatementBreaks (tokenize query) ∨ AggregateStuck (tokenize query)

/-- No AS stands behind the name, or nothing with a text behind the AS, before a token without a
text; or the statement that is prepared does not parse. -/
def PrepareBreaks (store : SessionStatementStore) (query : CStr) : Prop :=
  let tokens := tokenize query
  4 ≤ tokens.length ∧
    match (tokensAfterAs (tokens.drop 2)).bind fun rest => rest.head?.bind Token.value with
    | none => True
    | some start =>
        ∃ template name, strstr query.val start.val = some template ∧
          tokens[1]?.bind Token.value = some name ∧
          (stmtPrepare store name (CStr.ofBytes template)).isSome ∧
          ParseBreaks (parseQuery (CStr.ofBytes template))

/-- The token behind DEALLOCATE has no text. -/
def DeallocateBreaks (query : CStr) : Prop :=
  ∃ t, (tokenize query)[1]? = some t ∧ t.value = none

/-- A token that EXPLAIN looks behind has no text, or what is behind it does not parse. -/
def ExplainedBreaks (query : CStr) (queryStart : Nat) : Prop :=
  queryStart < (tokenize query).length ∧
    ∀ behind ∈ textBehind ((tokenize query).take queryStart) (some query.val),
      ∃ text, behind = some text ∧ text ≠ [] ∧ ParseBreaks (CStr.ofBytes text)

def ExplainBreaks (query : CStr) : Prop :=
  ∃ t, (tokenize query)[1]? = some t ∧
    ∀ v ∈ t.value, ExplainedBreaks query (if isCommand ["ANALYZE"] v then 2 else 1)

/-- What `execute_client_query` does with the query itself goes wrong. -/
def CommandBreaks (env : ServerEnv) (store : SessionStatementStore) (query : CStr) : Prop :=
  match commandWord (tokenize query) with
  | none => ParseBreaks query
  | some cmdType =>
      if isCommand ["PREPARE", "TAYYAR"] cmdType then PrepareBreaks store query
      else if isCommand ["EXECUTE", "CHALAO"] cmdType then
        executedText env store query (tokenize query) = none
      else if isCommand ["DEALLOCATE", "HATAO_TAYYAR"] cmdType then DeallocateBreaks query
      else if isCommand ["EXPLAIN", "SAMJHAO"] cmdType then ExplainBreaks query
      else False

/-- The query executes a prepared statement, whose text is handled in its place. -/
def HandsOn (env : ServerEnv) (store : SessionStatementStore) (query text : CStr) : Prop :=
  ∃ cmdType, commandWord (tokenize query) = some cmdType ∧
    isCommand ["PREPARE", "TAYYAR"] cmdType = false ∧
    isCommand ["EXECUTE", "CHALAO"] cmdType = true ∧
    executedText env store query (tokenize query) = some (some text)

/-! ## The commands -/

theorem endingOfParse_iff : endingOfParse query = .returned ↔ ¬ ParseBreaks query := by
  rw [ParseBreaks, not_or, ← parse_answers_iff]
  unfold endingOfParse
  cases parse (tokenize query) <;> simp [Result.Answers]

theorem prepareCommand_iff :
    (prepareCommand store query (tokenize query)).ending = .returned ↔
      ¬ PrepareBreaks store query := by
  unfold prepareCommand PrepareBreaks
  by_cases hshort : (tokenize query).length < 4
  · rw [if_pos hshort]
    exact iff_of_true rfl fun h => Nat.not_le_of_lt hshort h.1
  · rw [if_neg hshort]
    dsimp only
    cases (tokensAfterAs ((tokenize query).drop 2)).bind fun rest =>
        rest.head?.bind Token.value with
    | none => exact iff_of_false nofun fun h => h ⟨Nat.le_of_not_lt hshort, trivial⟩
    | some start =>
        dsimp only
        split
        · next template name htemplate hname =>
            split
            · next hnone =>
                refine iff_of_true rfl ?_
                rintro ⟨_, template', name', htemplate', hname', hsome, _⟩
                rw [htemplate] at htemplate'
                rw [hname] at hname'
                cases htemplate'
                cases hname'
                rw [hnone] at hsome
                cases hsome
            · next store' hprepare =>
                dsimp only
                rw [endingOfParse_iff, not_iff_not]
                constructor
                · intro hbreaks
                  exact ⟨Nat.le_of_not_lt hshort, template, name, htemplate, hname,
                    by rw [hprepare]; rfl, hbreaks⟩
                · rintro ⟨_, template', name', htemplate', _, _, hbreaks⟩
                  rw [htemplate] at htemplate'
                  cases htemplate'
                  exact hbreaks
        · next hno =>
            refine iff_of_true rfl ?_
            rintro ⟨_, template, name, htemplate, hname, _⟩
            exact hno template name htemplate hname

theorem deallocateCommand_iff :
    (deallocateCommand store (tokenize query)).ending = .returned ↔ ¬ DeallocateBreaks query := by
  unfold deallocateCommand DeallocateBreaks
  cases (tokenize query)[1]? with
  | none => simp
  | some t => cases hv : t.value <;> simp [hv]

theorem explained_iff {queryStart : Nat} :
    (if (tokenize query).length ≤ queryStart then Ending.returned
      else
        match textBehind ((tokenize query).take queryStart) (some query.val) with
        | none => .undefined
        | some none => .returned
        | some (some []) => .returned
        | some (some text) => endingOfParse (CStr.ofBytes text)) = .returned ↔
      ¬ ExplainedBreaks query queryStart := by
  unfold ExplainedBreaks
  by_cases hshort : (tokenize query).length ≤ queryStart
  · rw [if_pos hshort]
    exact iff_of_true rfl fun h => Nat.not_lt_of_le hshort h.1
  · rw [if_neg hshort]
    have hlong := Nat.lt_of_not_le hshort
    match textBehind ((tokenize query).take queryStart) (some query.val) with
    | none => exact iff_of_false nofun fun h => h ⟨hlong, nofun⟩
    | some none =>
        refine iff_of_true rfl fun h => ?_
        obtain ⟨text, htext, _⟩ := h.2 none rfl
        cases htext
    | some (some []) =>
        refine iff_of_true rfl fun h => ?_
        obtain ⟨text, htext, hne, _⟩ := h.2 (some []) rfl
        cases htext
        exact hne rfl
    | some (some (b :: bs)) =>
        rw [endingOfParse_iff, not_iff_not]
        constructor
        · intro hbreaks
          refine ⟨hlong, fun behind hbehind => ?_⟩
          cases hbehind
          exact ⟨b :: bs, rfl, nofun, hbreaks⟩
        · rintro ⟨_, hbehind⟩
          obtain ⟨text, htext, _, hbreaks⟩ := hbehind (some (b :: bs)) rfl
          cases htext
          exact hbreaks

theorem explainCommand_iff :
    (explainCommand store query (tokenize query)).ending = .returned ↔ ¬ ExplainBreaks query := by
  unfold explainCommand ExplainBreaks
  cases htoken : (tokenize query)[1]? with
  | none => exact iff_of_true rfl nofun
  | some t =>
      dsimp only
      cases hv : t.value with
      | none =>
          refine iff_of_false nofun fun h => h ⟨t, rfl, fun v hsome => ?_⟩
          rw [hv] at hsome
          cases hsome
      | some v =>
          refine explained_iff.trans (not_congr ⟨fun hbreaks => ⟨t, rfl, fun v' hv' => ?_⟩, ?_⟩)
          · rw [hv] at hv'
            cases hv'
            exact hbreaks
          · rintro ⟨_, ht, hbreaks⟩
            cases ht
            exact hbreaks v hv

/-! ## Queries -/

/-- A text in the first token is no statement, and the parser says so. -/
theorem not_parseBreaks_of_word {cmdType : CStr}
    (hword : commandWord (tokenize query) = some cmdType) : ¬ ParseBreaks query := by
  rw [ParseBreaks, not_or, ← parse_answers_iff]
  have hfits := tokenize_textFits query
  unfold commandWord at hword
  cases htokens : tokenize query with
  | nil =>
      rw [htokens] at hword
      cases hword
  | cons t rest =>
      rw [htokens] at hword hfits
      rw [parse_of_text (hfits t List.mem_cons_self) hword]
      trivial

theorem runStatement_iff {before : List Event} :
    (runStatement env conn query before).ending = .returned ↔ ¬ ParseBreaks query := by
  rw [ParseBreaks, not_or, ← parse_answers_iff]
  unfold runStatement
  cases parse (tokenize query) <;> simp [Result.Answers]

/-- Where nothing is handed on, the query itself decides. -/
theorem returned_iff (hauth : conn.authenticated = true) (hquota : conn.quota ≠ some .exceeded)
    (hno : ∀ text, ¬ HandsOn env conn.stmtStore query text) (depth : Nat) :
    (executeClientQuery env (depth + 1) conn query).ending = .returned ↔
      ¬ CommandBreaks env conn.stmtStore query := by
  rw [executeClientQuery, CommandBreaks]
  simp only [hauth, Bool.not_true, Bool.false_eq_true, if_false, hquota]
  cases hword : commandWord (tokenize query) with
  | none => exact runStatement_iff
  | some cmdType =>
      dsimp only
      by_cases hprepare : isCommand ["PREPARE", "TAYYAR"] cmdType = true
      · rw [if_pos hprepare, if_pos hprepare]
        exact prepareCommand_iff
      rw [if_neg hprepare, if_neg hprepare]
      by_cases hexecute : isCommand ["EXECUTE", "CHALAO"] cmdType = true
      · rw [if_pos hexecute, if_pos hexecute]
        match htext : executedText env conn.stmtStore query (tokenize query) with
        | none => exact iff_of_false nofun fun h => h rfl
        | some none => exact iff_of_true rfl nofun
        | some (some text) =>
            exact absurd ⟨cmdType, hword, Bool.eq_false_iff.mpr hprepare, hexecute, htext⟩
              (hno text)
      rw [if_neg hexecute, if_neg hexecute]
      by_cases hdeallocate : isCommand ["DEALLOCATE", "HATAO_TAYYAR"] cmdType = true
      · rw [if_pos hdeallocate, if_pos hdeallocate]
        exact deallocateCommand_iff
      rw [if_neg hdeallocate, if_neg hdeallocate]
      by_cases hexplain : isCommand ["EXPLAIN", "SAMJHAO"] cmdType = true
      · rw [if_pos hexplain, if_pos hexplain]
        exact explainCommand_iff
      rw [if_neg hexplain, if_neg hexplain]
      refine iff_of_true ?_ id
      split
      · exact runStatement_iff.mpr (not_parseBreaks_of_word hword)
      · rfl

theorem handed_on {text : CStr} (hauth : conn.authenticated = true)
    (hquota : conn.quota ≠ some .exceeded) (hon : HandsOn env conn.stmtStore query text)
    (depth : Nat) :
    executeClientQuery env (depth + 1) conn query = executeClientQuery env depth conn text := by
  obtain ⟨cmdType, hword, hprepare, hexecute, htext⟩ := hon
  rw [executeClientQuery]
  simp only [hauth, Bool.not_true, Bool.false_eq_true, if_false, hquota, hword, hprepare,
    hexecute, if_true, htext]

/-- A text that the query stands for, and that the server handles without a prepared statement,
without going wrong. -/
def Answerable (env : ServerEnv) (store : SessionStatementStore) (query : CStr) : Prop :=
  ∃ text, StandsFor env store query text ∧ (∀ next, ¬ HandsOn env store text next) ∧
    ¬ CommandBreaks env store text

/-- The server answers a query if and only if the executions of prepared statements it starts with
come to an end, at a text that neither the commands nor the parser fail on. -/
theorem server_answers_iff (env : ServerEnv) (conn : ClientConnection) (query : CStr) :
    (∃ depth, (executeClientQuery env depth conn query).ending = .returned) ↔
      (conn.authenticated = true → conn.quota ≠ some .exceeded →
        Answerable env conn.stmtStore query) := by
  constructor
  · rintro ⟨depth, hreturned⟩ hauth hquota
    induction depth generalizing query with
    | zero => cases hreturned
    | succ depth ih =>
        by_cases hon : ∃ text, HandsOn env conn.stmtStore query text
        · obtain ⟨text, hon⟩ := hon
          rw [handed_on hauth hquota hon] at hreturned
          obtain ⟨final, hstands, hfinal⟩ := ih text hreturned
          obtain ⟨cmdType, hword, hprepare, hexecute, htext⟩ := hon
          exact ⟨final, .execute hword hprepare hexecute htext hstands, hfinal⟩
        · have hno := not_exists.mp hon
          exact ⟨query, .itself query, hno, (returned_iff hauth hquota hno depth).mp hreturned⟩
  · intro hanswerable
    by_cases hauth : conn.authenticated = true
    · by_cases hquota : conn.quota = some .exceeded
      · exact ⟨1, by simp [executeClientQuery, hauth, hquota]⟩
      · obtain ⟨text, hstands, hno, hfine⟩ := hanswerable hauth hquota
        clear hanswerable
        induction hstands with
        | itself query => exact ⟨1, (returned_iff hauth hquota hno 0).mpr hfine⟩
        | execute hword hprepare hexecute htext _ ih =>
            obtain ⟨depth, hreturned⟩ := ih hno hfine
            refine ⟨depth + 1, ?_⟩
            rwa [handed_on hauth hquota ⟨_, hword, hprepare, hexecute, htext⟩]
    · exact ⟨1, by simp [executeClientQuery, hauth]⟩

/-- `SELECT * FROM t WHERE a b;`, a condition without an operator. -/
def noOperator : CStr :=
  CStr.lit "SELECT * FROM t WHERE a b;"

/-- The condition ends the server. -/
theorem noOperator_exits :
    (executeClientQuery plainEnv 1 guestConnection noOperator).ending = .exited ∧
      ¬ ∃ depth, (executeClientQuery plainEnv depth guestConnection noOperator).ending =
        .returned := by
  have hexited : ∀ depth, (executeClientQuery plainEnv (depth + 1) guestConnection
      noOperator).ending = .exited := by
    intro depth
    have hword : commandWord (tokenize noOperator) = none := by decide +kernel
    have hrun : (runStatement plainEnv guestConnection noOperator []).ending = .exited := by
      decide +kernel
    have hauth : guestConnection.authenticated = true := rfl
    have hquota : guestConnection.quota ≠ some .exceeded := nofun
    rw [executeClientQuery]
    simp only [hauth, Bool.not_true, Bool.false_eq_true, if_false, hquota, hword]
    exact hrun
  refine ⟨hexited 0, ?_⟩
  rintro ⟨depth, hreturned⟩
  cases depth with
  | zero => cases hreturned
  | succ depth =>
      rw [hexited depth] at hreturned
      cases hreturned

end Server
end InventixDB
