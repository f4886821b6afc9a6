import InventixDB.Sql.Conditions

/-!
# Printing — conditions and the tokens they are written with

A printed condition is read back as the same tree, up to the token behind it.  AND binds its
operands before OR does, both associate to the left, and parentheses leave no trace in the tree.
-/

namespace InventixDB
namespace Sql

open Storage
open Lib.Phrase
open InventixDB.Sql.Parser

variable {α β : Type} {ts : TokenStream}

/-! ## Printed forms -/

namespace Grammar

/-- A token of the type that shows the text. -/
def Shows (type : LexerTokenType) (v : CStr) (t : Token) : Prop :=
  t.type = type ∧ t.value = some v

/-- `item, item, ...` -/
inductive Items (S : α → List Token → Prop) : List α → List Token → Prop
  | last {a : α} {us : List Token} (hitem : S a us) : Items S [a] us
  | more {a : α} {as : List α} {us vs : List Token} {t : Token} (hitem : S a us)
      (hcomma : t.type = .comma) (hrest : Items S as vs) : Items S (a :: as) (us ++ t :: vs)

/-- `left op right op right ...`, where `left` is such a chain itself. -/
inductive Chain (type : LexerTokenType) (op : CStr) (S : Expr → List Token → Prop) :
    Expr → List Token → Prop
  | one {e : Expr} {us : List Token} (hoperand : S e us) : Chain type op S e us
  | more {left right : Expr} {us vs : List Token} {t : Token} (hleft : Chain type op S left us)
      (hop : t.type = type) (hright : S right vs) :
      Chain type op S (.binary left op right) (us ++ t :: vs)

/-- `column`, `FUNC(column)` or `COUNT(*)` -/
inductive PrintsColumn : Sql.SelectColumn → List Token → Prop
  | plain {v : CStr} {t : Token} (ht : Shows .identifier v t) :
      PrintsColumn { value := v, funcType := .none } [t]
  | call {v : CStr} {f l c r : Token} (hf : columnFunc f.type ≠ .none) (hl : l.type = .lparen)
      (hc : Shows .identifier v c) (hr : r.type = .rparen) :
      PrintsColumn { value := v, funcType := columnFunc f.type } [f, l, c, r]
  | countAll {f l c r : Token} (hf : f.type = .kwCount) (hl : l.type = .lparen)
      (hc : c.type = .star) (hr : r.type = .rparen) :
      PrintsColumn { value := CStr.lit "*", funcType := .count } [f, l, c, r]

inductive PrintsColumns : List Sql.SelectColumn → List Token → Prop
  | all {t : Token} (ht : t.type = .star) :
      PrintsColumns [{ value := CStr.lit "*", funcType := .none }] [t]
  | list {columns : List Sql.SelectColumn} {us : List Token}
      (hitems : Items PrintsColumn columns us) : PrintsColumns columns us

inductive PrintsGroupBy : Option CStr → List Token → Prop
  | none : PrintsGroupBy none []
  | some {v : CStr} {g b c : Token} (hg : g.type = .kwGroup) (hb : b.type = .kwBy)
      (hc : Shows .identifier v c) : PrintsGroupBy (some v) [g, b, c]

/-- A column to order by; `true` stands for DESC. -/
inductive PrintsOrderColumn : CStr × Bool → List Token → Prop
  | plain {v : CStr} {c : Token} (hc : Shows .identifier v c) : PrintsOrderColumn (v, false) [c]
  | asc {v : CStr} {c d : Token} (hc : Shows .identifier v c) (hd : d.type = .kwAsc) :
      PrintsOrderColumn (v, false) [c, d]
  | desc {v : CStr} {c d : Token} (hc : Shows .identifier v c) (hd : d.type = .kwDesc) :
      PrintsOrderColumn (v, true) [c, d]

inductive PrintsOrderBy : List (CStr × Bool) → List Token → Prop
  | none : PrintsOrderBy [] []
  | some {columns : List (CStr × Bool)} {us : List Token} {o b : Token} (ho : o.type = .kwOrder)
      (hb : b.type = .kwBy) (hitems : Items PrintsOrderColumn columns us) :
      PrintsOrderBy columns (o :: b :: us)

/-- The limit and the offset; -1 is no limit. -/
inductive PrintsLimit : Int × Int → List Token → Prop
  | none : PrintsLimit (-1, 0) []
  | limit {v : CStr} {l n : Token} (hl : l.type = .kwLimit) (hn : Shows .intLiteral v n) :
      PrintsLimit (CStr.atoi v, 0) [l, n]
  | offset {v w : CStr} {l n o m : Token} (hl : l.type = .kwLimit) (hn : Shows .intLiteral v n)
      (ho : o.type = .kwOffset) (hm : Shows .intLiteral w m) :
      PrintsLimit (CStr.atoi v, CStr.atoi w) [l, n, o, m]

/-- `JAHAN condition`, where `S` prints the condition. -/
inductive PrintsFilter (S : Expr → List Token → Prop) : Option Expr → List Token → Prop
  | none : PrintsFilter S none []
  | some {e : Expr} {us : List Token} {t : Token} (ht : t.type = .kwJahan) (he : S e us) :
      PrintsFilter S (some e) (t :: us)

/-- A query up to its condition, without KARO or with it. -/
inductive PrintsHead : List Sql.SelectColumn → CStr → List Token → Prop
  | read {columns : List Sql.SelectColumn} {tableName : CStr} {us : List Token} {s f n : Token}
      {karo : List Token} (hs : s.type = .kwSelect) (hkaro : ∀ k ∈ karo, k.type = .kwKaro)
      (hone : karo.length ≤ 1) (hcolumns : PrintsColumns columns us) (hf : f.type = .kwFrom)
      (hn : Shows .identifier tableName n) :
      PrintsHead columns tableName (s :: (karo ++ (us ++ [f, n])))

/-- A query whose condition `S` prints. -/
inductive PrintsSelect (S : Expr → List Token → Prop) :
    SelectClauses × Option Expr → List Token → Prop
  | read {clauses : SelectClauses} {whereClause : Option Expr}
      {head filter groupBy orderBy limit : List Token}
      (hhead : PrintsHead clauses.columns clauses.tableName head)
      (hfilter : PrintsFilter S whereClause filter)
      (hgroup : PrintsGroupBy clauses.groupBy groupBy)
      (horder : PrintsOrderBy clauses.orderColumns orderBy)
      (hlimit : PrintsLimit (clauses.limit, clauses.offset) limit) :
      PrintsSelect S (clauses, whereClause) (head ++ (filter ++ (groupBy ++ (orderBy ++ limit))))

/-- `column op value`, `column op (query)`, or a condition in parentheses. -/
inductive PrintsComparison : Expr → List Token → Prop
  | literal {column op v : CStr} {c o l : Token} (hc : Shows .identifier column c)
      (ho : o.type ∈ operators ∧ o.value = some op) (hl : l.type ∈ literals ∧ l.value = some v) :
      PrintsComparison (.binary (.identifier column) op (.literal v)) [c, o, l]
  | subquery {column op : CStr} {clauses : SelectClauses} {whereClause : Option Expr}
      {c o l r : Token} {us : List Token} (hc : Shows .identifier column c)
      (ho : o.type ∈ operators ∧ o.value = some op) (hl : l.type = .lparen)
      (hquery : PrintsSelect
        (Chain .kwOr (CStr.lit "OR") (Chain .kwAnd (CStr.lit "AND") PrintsComparison))
        (clauses, whereClause) us) (hr : r.type = .rparen) :
      PrintsComparison (.binary (.identifier column) op (.subquery clauses whereClause))
        (c :: o :: l :: (us ++ [r]))
  | parens {e : Expr} {l r : Token} {us : List Token} (hl : l.type = .lparen)
      (hcondition :
        Chain .kwOr (CStr.lit "OR") (Chain .kwAnd (CStr.lit "AND") PrintsComparison) e us)
      (hr : r.type = .rparen) : PrintsComparison e (l :: (us ++ [r]))

/-- The tokens a condition is printed with. -/
def PrintsCondition : Expr → List Token → Prop :=
  Chain .kwOr (CStr.lit "OR") (Chain .kwAnd (CStr.lit "AND") PrintsComparison)

end Grammar

open Grammar

/-! ## Parsers that read back -/

/-- Where the tokens stand, the parser returns the value and goes on behind them, unless one of
the `stops` follows; or its rounds run out. -/
def ReadsBack (ts : TokenStream) (p : Parser α) (a : α) (us : List Token)
    (stops : List LexerTokenType) : Prop :=
  ∀ ctx rest, Standing ts ctx → ctx.rest = us ++ rest → ¬ Starts (OfType stops) rest →
    p ctx = .running ∨ ∃ after, p ctx = .ok a after ∧ after.rest = rest ∧ Standing ts after

section ReadsBack

variable {p : Parser α} {f : α → Parser β} {a : α} {b : β} {us vs : List Token} {t : Token}
  {stops stops' : List LexerTokenType}

theorem not_starts_mono {rest : List Token} (hsub : stops ⊆ stops')
    (hnot : ¬ Starts (OfType stops') rest) : ¬ Starts (OfType stops) rest := by
  rintro ⟨t, ht, htype⟩
  exact hnot ⟨t, ht, hsub htype⟩

theorem not_starts_append {rest : List Token} (hhead : ∀ t ∈ us.head?, t.type ∉ stops)
    (hrest : ¬ Starts (OfType stops) rest) : ¬ Starts (OfType stops) (us ++ rest) := by
  cases us with
  | nil => exact hrest
  | cons t us =>
      rw [List.cons_append, starts_cons]
      exact hhead t rfl

theorem readsBack_pure (a : α) : ReadsBack ts (pure a) a [] stops :=
  fun ctx _ hctx hrest _ => .inr ⟨ctx, rfl, hrest, hctx⟩

theorem ReadsBack.mono (hp : ReadsBack ts p a us stops) (hsub : stops ⊆ stops') :
    ReadsBack ts p a us stops' :=
  fun ctx rest hctx hrest hnot => hp ctx rest hctx hrest (not_starts_mono hsub hnot)

/-- The second parser reads what stands behind the first; it must not start with a stop. -/
theorem ReadsBack.bind (hp : ReadsBack ts p a us stops')
    (hf : ReadsBack ts (f a) b vs stops)
    (hbehind : ∀ rest, ¬ Starts (OfType stops) rest → ¬ Starts (OfType stops') (vs ++ rest)) :
    ReadsBack ts (p >>= f) b (us ++ vs) stops := by
  intro ctx rest hctx hrest hnot
  rw [List.append_assoc] at hrest
  rcases hp ctx (vs ++ rest) hctx hrest (hbehind rest hnot) with hrun | ⟨mid, hok, hmid, hstand⟩
  · exact .inl (bind_of_running hrun)
  · rw [bind_of_ok hok]
    exact hf mid rest hstand hmid hnot

/-- Behind a parser that does not look ahead anything can stand. -/
theorem ReadsBack.then (hp : ReadsBack ts p a us []) (hf : ReadsBack ts (f a) b vs stops) :
    ReadsBack ts (p >>= f) b (us ++ vs) stops :=
  hp.bind hf fun _ _ ⟨_, _, htype⟩ => List.not_mem_nil htype

theorem ReadsBack.map {g : α → β} (hp : ReadsBack ts p a us stops) :
    ReadsBack ts (p >>= fun a => pure (g a)) (g a) us stops := by
  have hbind := hp.bind (f := fun a => pure (g a)) (readsBack_pure (g a)) fun _ hnot => hnot
  rwa [List.append_nil] at hbind

theorem readsBack_consume {type : LexerTokenType} (htype : type ≠ .eof) (ht : t.type = type) :
    ReadsBack ts (consume type) t [t] stops := by
  intro ctx rest hctx hrest _
  have heq := consume_eq type hrest
  rw [if_pos ht] at heq
  exact .inr ⟨ctx.next, heq, rest_next hrest, hctx.next hrest (ht ▸ htype)⟩

theorem readsBack_consumeText {type : LexerTokenType} {v : CStr} (htype : type ≠ .eof)
    (ht : Shows type v t) : ReadsBack ts (consumeText type) v [t] stops := by
  have htext : text t = pure v := by
    unfold text
    rw [ht.2]
  exact (readsBack_consume htype ht.1).then (htext ▸ readsBack_pure v)

theorem readsBack_tryMatch {type : LexerTokenType} (htype : type ≠ .eof) (ht : t.type = type) :
    ReadsBack ts (tryMatch type) true [t] stops := by
  intro ctx rest hctx hrest _
  have heq := tryMatch_eq type hrest
  rw [if_pos ht] at heq
  exact .inr ⟨ctx.next, heq, rest_next hrest, hctx.next hrest (ht ▸ htype)⟩

theorem readsBack_advance (ht : t.type ≠ .eof) : ReadsBack ts advance () [t] stops :=
  fun ctx _ hctx hrest _ =>
    .inr ⟨ctx.next, advance_of_rest hrest, rest_next hrest, hctx.next hrest ht⟩

theorem readsBack_noMatch (type : LexerTokenType) :
    ReadsBack ts (tryMatch type) false [] [type] := by
  intro ctx rest hctx hrest hnot
  obtain ⟨t, rest', hcons⟩ := hctx.exists_rest
  have heq := tryMatch_eq type hcons
  rw [List.nil_append, hcons] at hrest
  subst hrest
  rw [starts_cons, ofType_iff, List.mem_singleton] at hnot
  rw [if_neg hnot] at heq
  exact .inr ⟨ctx, heq, hcons, hctx⟩

/-- A parser that asks for the type of the token it is at, where there is a printed one. -/
theorem ReadsBack.of_currentType {g : LexerTokenType → Parser α}
    (hg : ReadsBack ts (g t.type) a (t :: us) stops) :
    ReadsBack ts (currentType >>= g) a (t :: us) stops := by
  intro ctx rest hctx hrest hnot
  rw [bind_of_ok (currentType_of_rest hrest)]
  exact hg ctx rest hctx hrest hnot

end ReadsBack

/-! ## Lists and chains -/

section Lists

variable {stops : List LexerTokenType} {us : List Token}

theorem readsBack_commaList {item : Parser α} {S : α → List Token → Prop} {items : List α}
    (hitem : ∀ a us, S a us → ReadsBack ts item a us stops) (hcomma : .comma ∉ stops)
    (hitems : Items S items us) : ReadsBack ts (commaList item) items us (.comma :: stops) := by
  have hrounds : ∀ fuel before, ReadsBack ts (iterate (itemsRound item) fuel before)
      (before ++ items) us (.comma :: stops) := by
    intro fuel
    induction fuel generalizing items us with
    | zero => exact fun _ _ _ _ _ _ => .inl rfl
    | succ fuel ih =>
        intro before
        rw [itemsRounds_eq]
        cases hitems with
        | @last a us ha =>
            have hstop : ReadsBack ts (do
                if ← tryMatch .comma then iterate (itemsRound item) fuel (before ++ [a])
                else return before ++ [a]) (before ++ [a]) [] (.comma :: stops) :=
              (readsBack_noMatch .comma).bind (readsBack_pure _) fun _ => not_starts_mono (by simp)
            rw [← List.append_nil us]
            exact (hitem a us ha).bind hstop fun _ => not_starts_mono (List.subset_cons_self _ _)
        | @more a rest us vs t ha ht hrest =>
            have hgo : ReadsBack ts (do
                if ← tryMatch .comma then iterate (itemsRound item) fuel (before ++ [a])
                else return before ++ [a]) (before ++ a :: rest) (t :: vs) (.comma :: stops) := by
              have hrounds := ih hrest (before ++ [a])
              rw [List.append_assoc, List.singleton_append] at hrounds
              exact (readsBack_tryMatch (by decide) ht).then hrounds
            refine (hitem a us ha).bind hgo fun behind _ => ?_
            rw [List.cons_append, starts_cons, ofType_iff, ht]
            exact hcomma
  exact fun ctx rest hctx hrest hnot => hrounds ctx.rounds [] ctx rest hctx hrest hnot

/-- What stands behind the first operand of a chain. -/
inductive ChainFrom (type : LexerTokenType) (op : CStr) (S : Expr → List Token → Prop) :
    Expr → Expr → List Token → Prop
  | stop {e : Expr} : ChainFrom type op S e e []
  | more {left right e : Expr} {us vs : List Token} {t : Token} (hop : t.type = type)
      (hright : S right us) (hrest : ChainFrom type op S (.binary left op right) e vs) :
      ChainFrom type op S left e (t :: (us ++ vs))

variable {type : LexerTokenType} {op : CStr} {S : Expr → List Token → Prop} {e : Expr}

theorem ChainFrom.snoc {first left right : Expr} {vs : List Token} {t : Token}
    (hchain : ChainFrom type op S first left us) (hop : t.type = type) (hright : S right vs) :
    ChainFrom type op S first (.binary left op right) (us ++ t :: vs) := by
  induction hchain with
  | stop =>
      rw [List.nil_append, ← List.append_nil vs]
      exact .more hop hright .stop
  | more hop' hright' _ ih =>
      rw [List.cons_append, List.append_assoc]
      exact .more hop' hright' ih

/-- The loop reads a chain from its first operand on. -/
theorem chain_from (hchain : Chain type op S e us) :
    ∃ first vs ws, S first vs ∧ ChainFrom type op S first e ws ∧ us = vs ++ ws := by
  induction hchain with
  | one hoperand => exact ⟨_, _, [], hoperand, .stop, (List.append_nil _).symm⟩
  | more _ hop hright ih =>
      obtain ⟨first, vs, ws, hfirst, hfrom, rfl⟩ := ih
      exact ⟨first, vs, _, hfirst, hfrom.snoc hop hright, List.append_assoc _ _ _⟩

theorem readsBack_logical (htype : type ≠ .eof) {operand : Parser Expr}
    (hoperand : ∀ e us, S e us → ReadsBack ts operand e us stops) (hnot : type ∉ stops)
    (hchain : Chain type op S e us) :
    ReadsBack ts (parseLogical type op operand) e us (type :: stops) := by
  have hrounds : ∀ fuel {left vs}, ChainFrom type op S left e vs →
      ReadsBack ts (iterate (operatorRound type op operand) fuel left) e vs (type :: stops) := by
    intro fuel
    induction fuel with
    | zero => exact fun _ _ _ _ _ _ => .inl rfl
    | succ fuel ih =>
        intro left vs hfrom ctx rest hctx hrest hstops
        obtain ⟨t', rest', hcons⟩ := hctx.exists_rest
        rw [operatorRounds_eq, bind_of_ok (currentType_of_rest hcons)]
        cases hfrom with
        | stop =>
            have hne : t'.type ≠ type := by
              rintro rfl
              rw [List.nil_append, hcons] at hrest
              subst hrest
              exact hstops (starts_cons.mpr List.mem_cons_self)
            rw [if_neg hne]
            exact .inr ⟨ctx, rfl, hrest, hctx⟩
        | @more _ right _ us vs t hop hright hfrom =>
            have hhead := (List.cons.inj (hcons.symm.trans hrest)).1
            have hround : ReadsBack ts (do
                let _ ← consume type
                let right ← operand
                iterate (operatorRound type op operand) fuel (.binary left op right)) e
                (t :: (us ++ vs)) (type :: stops) := by
              refine (readsBack_consume htype hop).then
                ((hoperand right us hright).bind (ih hfrom) fun behind hbehind => ?_)
              refine not_starts_append (fun t' ht' => ?_)
                (not_starts_mono (List.subset_cons_self _ _) hbehind)
              cases hfrom with
              | stop => cases ht'
              | more hop' _ _ =>
                  cases ht'
                  exact hop' ▸ hnot
            rw [hhead, if_pos hop]
            exact hround ctx rest hctx hrest hstops
  obtain ⟨first, vs, ws, hfirst, hfrom, rfl⟩ := chain_from hchain
  have hloop : ReadsBack ts (loop (operatorRound type op operand) first) e ws (type :: stops) :=
    fun ctx => hrounds ctx.rounds hfrom ctx
  refine (hoperand first vs hfirst).bind hloop fun behind hbehind => ?_
  refine not_starts_append (fun t ht => ?_) (not_starts_mono (List.subset_cons_self _ _) hbehind)
  cases hfrom with
  | stop => cases ht
  | more hop _ _ =>
      cases ht
      exact hop ▸ hnot

end Lists

/-! ## Queries -/

section Select

variable {us : List Token}

theorem readsBack_selectColumn {column : Sql.SelectColumn} (hcolumn : PrintsColumn column us) :
    ReadsBack ts parseSelectColumn column us [] := by
  rw [parseSelectColumn_eq]
  cases hcolumn with
  | @plain v t ht =>
      refine .of_currentType ?_
      have hnone : columnFunc t.type = .none := by
        rw [ht.1]
        rfl
      rw [if_neg (not_not_intro hnone)]
      exact .of_currentType (readsBack_consumeText (by decide) ht).map
  | @call v f l c r hf hl hc hr =>
      refine .of_currentType ?_
      have hne : f.type ≠ .eof := by
        intro heof
        rw [heof] at hf
        exact hf rfl
      rw [if_pos hf]
      refine (readsBack_advance hne).then ((readsBack_consume (by decide) hl).then ?_)
      refine .of_currentType ?_
      rw [if_neg (by simp [hc.1])]
      exact (readsBack_consumeText (by decide) hc).then
        ((readsBack_consume (by decide) hr).then (readsBack_pure _))
  | @countAll f l c r hf hl hc hr =>
      have hcount : columnFunc f.type = .count := columnFunc_eq_count.mpr hf
      refine .of_currentType ?_
      rw [hcount, if_pos (by decide)]
      refine (readsBack_advance (hf ▸ by decide)).then ((readsBack_consume (by decide) hl).then ?_)
      refine .of_currentType ?_
      rw [if_pos ⟨rfl, hc⟩]
      exact (readsBack_consume (by decide) hc).then
        ((readsBack_pure _).then ((readsBack_consume (by decide) hr).then (readsBack_pure _)))

theorem readsBack_orderColumn {column : CStr × Bool} (hcolumn : PrintsOrderColumn column us) :
    ReadsBack ts parseOrderColumn column us [.kwDesc, .kwAsc] := by
  cases hcolumn with
  | @plain v c hc =>
      have hplain : ReadsBack ts (do
          skip .kwAsc
          return (v, false)) (v, false) [] [.kwDesc, .kwAsc] :=
        ((readsBack_noMatch .kwAsc).map.bind (readsBack_pure _) fun _ => not_starts_mono (by simp))
      exact (readsBack_consumeText (by decide) hc).then
        ((readsBack_noMatch .kwDesc).bind hplain fun _ => not_starts_mono (by simp))
  | @asc v c d hc hd =>
      have hasc : ReadsBack ts (do
          skip .kwAsc
          return (v, false)) (v, false) [d] [.kwDesc, .kwAsc] :=
        (readsBack_tryMatch (by decide) hd).map.then (readsBack_pure _)
      refine (readsBack_consumeText (by decide) hc).then
        ((readsBack_noMatch .kwDesc).bind hasc fun _ _ => ?_)
      rw [List.singleton_append, starts_cons, ofType_iff, hd]
      decide
  | desc hc hd =>
      exact (readsBack_consumeText (by decide) hc).then
        ((readsBack_tryMatch (by decide) hd).then (readsBack_pure _))

theorem readsBack_groupBy {groupBy : Option CStr} (hgroup : PrintsGroupBy groupBy us) :
    ReadsBack ts parseGroupBy groupBy us [.kwGroup] := by
  cases hgroup with
  | none => exact (readsBack_noMatch .kwGroup).bind (readsBack_pure _) fun _ => id
  | some hg hb hc =>
      exact (readsBack_tryMatch (by decide) hg).then
        ((readsBack_consume (by decide) hb).then (readsBack_consumeText (by decide) hc).map)

theorem readsBack_orderBy {columns : List (CStr × Bool)} (horder : PrintsOrderBy columns us) :
    ReadsBack ts parseOrderBy columns us [.kwOrder, .comma, .kwDesc, .kwAsc] := by
  cases horder with
  | none =>
      exact (readsBack_noMatch .kwOrder).bind (readsBack_pure _) fun _ => not_starts_mono (by simp)
  | some ho hb hitems =>
      have hlist : ReadsBack ts (commaList parseOrderColumn) _ _ [.comma, .kwDesc, .kwAsc] :=
        readsBack_commaList (fun _ _ => readsBack_orderColumn) (by decide) hitems
      exact (readsBack_tryMatch (by decide) ho).then
        ((readsBack_consume (by decide) hb).then (hlist.mono (List.subset_cons_self _ _)))

theorem readsBack_limit {limits : Int × Int} (hlimit : PrintsLimit limits us) :
    ReadsBack ts parseLimit limits us [.kwLimit, .kwOffset] := by
  cases hlimit with
  | none =>
      exact (readsBack_noMatch .kwLimit).bind (readsBack_pure _) fun _ => not_starts_mono (by simp)
  | limit hl hn =>
      have hoffset : ReadsBack ts parseOffset 0 [] [.kwLimit, .kwOffset] :=
        (readsBack_noMatch .kwOffset).bind (readsBack_pure _) fun _ => not_starts_mono (by simp)
      exact (readsBack_tryMatch (by decide) hl).then
        ((readsBack_consumeText (by decide) hn).then hoffset.map)
  | offset hl hn ho hm =>
      have hoffset : ReadsBack ts parseOffset _ _ [.kwLimit, .kwOffset] :=
        (readsBack_tryMatch (by decide) ho).then (readsBack_consumeText (by decide) hm).map
      exact (readsBack_tryMatch (by decide) hl).then
        ((readsBack_consumeText (by decide) hn).then hoffset.map)

theorem readsBack_filter {S : Expr → List Token → Prop} {expression : Parser Expr}
    {stops : List LexerTokenType} {whereClause : Option Expr}
    (he : ∀ e us, S e us → ReadsBack ts expression e us stops)
    (hfilter : PrintsFilter S whereClause us) :
    ReadsBack ts (parseFilter expression) whereClause us (.kwJahan :: stops) := by
  cases hfilter with
  | none =>
      exact (readsBack_noMatch .kwJahan).bind (readsBack_pure _) fun _ => not_starts_mono (by simp)
  | some ht hcondition =>
      exact (readsBack_tryMatch (by decide) ht).then
        ((he _ _ hcondition).mono (List.subset_cons_self _ _)).map

theorem printsColumn_head {column : Sql.SelectColumn} (hcolumn : PrintsColumn column us) :
    ∃ t vs, us = t :: vs ∧ t.type ∉ [.star, .kwKaro] := by
  cases hcolumn with
  | plain ht =>
      refine ⟨_, _, rfl, ?_⟩
      rw [ht.1]
      decide
  | @call v f l c r hf _ _ _ =>
      refine ⟨f, _, rfl, fun hmem => ?_⟩
      simp only [List.mem_cons, List.not_mem_nil, or_false] at hmem
      rcases hmem with heq | heq <;> (rw [heq] at hf; exact hf rfl)
  | countAll hf _ _ _ =>
      refine ⟨_, _, rfl, ?_⟩
      rw [hf]
      decide

theorem items_head {S : α → List Token → Prop} {P : Token → Prop} {items : List α}
    (hS : ∀ {a us}, S a us → ∃ t vs, us = t :: vs ∧ P t) (hitems : Items S items us) :
    ∃ t vs, us = t :: vs ∧ P t := by
  cases hitems with
  | last ha => exact hS ha
  | more ha _ _ =>
      obtain ⟨t, vs, rfl, ht⟩ := hS ha
      exact ⟨t, _, rfl, ht⟩

theorem readsBack_selectColumns {columns : List Sql.SelectColumn}
    (hcolumns : PrintsColumns columns us) :
    ReadsBack ts parseSelectColumns columns us [.comma] := by
  cases hcolumns with
  | all ht =>
      refine .of_currentType ?_
      rw [if_pos ht]
      exact (readsBack_consume (by decide) ht).then (readsBack_pure _)
  | list hitems =>
      obtain ⟨t, vs, rfl, ht⟩ := items_head printsColumn_head hitems
      refine .of_currentType ?_
      rw [if_neg fun heq : t.type = .star => ht (by simp [heq])]
      exact readsBack_commaList (fun _ _ => readsBack_selectColumn) List.not_mem_nil hitems

theorem printsColumns_head {columns : List Sql.SelectColumn} (hcolumns : PrintsColumns columns us) :
    ∃ t vs, us = t :: vs ∧ t.type ≠ .kwKaro := by
  cases hcolumns with
  | all ht =>
      refine ⟨_, _, rfl, ?_⟩
      rw [ht]
      decide
  | list hitems =>
      obtain ⟨t, vs, rfl, ht⟩ := items_head printsColumn_head hitems
      exact ⟨t, vs, rfl, fun heq => ht (by simp [heq])⟩

theorem printsGroupBy_head {groupBy : Option CStr} (hgroup : PrintsGroupBy groupBy us) :
    ∀ t ∈ us.head?, t.type = .kwGroup := by
  cases hgroup <;> simp_all

theorem printsOrderBy_head {columns : List (CStr × Bool)} (horder : PrintsOrderBy columns us) :
    ∀ t ∈ us.head?, t.type = .kwOrder := by
  cases horder <;> simp_all

theorem printsLimit_head {limits : Int × Int} (hlimit : PrintsLimit limits us) :
    ∀ t ∈ us.head?, t.type = .kwLimit := by
  cases hlimit <;> simp_all

/-- What would go on with a query. -/
def queryWords : List LexerTokenType :=
  [.kwJahan, .kwOr, .kwAnd, .kwGroup, .kwOrder, .comma, .kwDesc, .kwAsc, .kwLimit, .kwOffset]

theorem readsBack_selectBody {S : Expr → List Token → Prop} {expression : Parser Expr}
    {clauses : SelectClauses} {whereClause : Option Expr}
    (he : ∀ e us, S e us → ReadsBack ts expression e us [.kwOr, .kwAnd])
    (hselect : PrintsSelect S (clauses, whereClause) us) :
    ReadsBack ts (parseSelectBody expression)
      { clauses := clauses, whereClause := whereClause } us queryWords := by
  cases hselect with
  | @read _ _ head filter groupBy orderBy limit hhead hfilter hgroup horder hlimit =>
      have hgroupHead := printsGroupBy_head hgroup
      have horderHead := printsOrderBy_head horder
      have hlimitHead := printsLimit_head hlimit
      cases hhead with
      | @read us s f n karo hs hkaro hone hcolumns hf hn =>
          obtain ⟨c, columns, rfl, hc⟩ := printsColumns_head hcolumns
          have hskip : ReadsBack ts (skip .kwKaro) () karo [.kwKaro] := by
            cases karo with
            | nil => exact (readsBack_noMatch .kwKaro).map
            | cons k karo =>
                cases karo with
                | nil => exact (readsBack_tryMatch (by decide) (hkaro k (by simp))).map
                | cons => simp at hone
          rw [parseSelectBody_eq]
          simp only [List.cons_append, List.append_assoc, List.nil_append]
          refine (readsBack_consume (by decide) hs).then (hskip.bind ?_ fun _ _ => ?_)
          · refine (readsBack_selectColumns hcolumns).bind ?_ fun _ _ => ?_
            · refine (readsBack_consume (by decide) hf).then
                ((readsBack_consumeText (by decide) hn).then ?_)
              refine (readsBack_filter he hfilter).bind ((readsBack_groupBy hgroup).bind
                ((readsBack_orderBy horder).bind
                  ((readsBack_limit hlimit).mono (by decide)).map ?_) ?_) ?_
              · exact fun _ hnot => not_starts_append (fun t ht => hlimitHead t ht ▸ by decide)
                  (not_starts_mono (by decide) hnot)
              · exact fun _ hnot => by
                  rw [List.append_assoc]
                  refine not_starts_append (fun t ht => horderHead t ht ▸ by decide) ?_
                  exact not_starts_append (fun t ht => hlimitHead t ht ▸ by decide)
                    (not_starts_mono (by decide) hnot)
              · exact fun _ hnot => by
                  rw [List.append_assoc, List.append_assoc]
                  refine not_starts_append (fun t ht => hgroupHead t ht ▸ by decide) ?_
                  refine not_starts_append (fun t ht => horderHead t ht ▸ by decide) ?_
                  exact not_starts_append (fun t ht => hlimitHead t ht ▸ by decide)
                    (not_starts_mono (by decide) hnot)
            · rw [List.cons_append, starts_cons, ofType_iff, hf]
              decide
          · rw [List.cons_append, starts_cons, ofType_iff, List.mem_singleton]
            exact hc

end Select

/-! ## Conditions -/

section Condition

variable {us : List Token} {e : Expr}

theorem printsHead_head {columns : List Sql.SelectColumn} {tableName : CStr}
    (hhead : PrintsHead columns tableName us) : ∃ t vs, us = t :: vs ∧ t.type = .kwSelect := by
  cases hhead with
  | read hs _ _ _ _ _ => exact ⟨_, _, rfl, hs⟩

theorem printsSelect_head {S : Expr → List Token → Prop} {query : SelectClauses × Option Expr}
    (hselect : PrintsSelect S query us) : ∃ t vs, us = t :: vs ∧ t.type = .kwSelect := by
  cases hselect with
  | read hhead _ _ _ _ =>
      obtain ⟨t, vs, rfl, ht⟩ := printsHead_head hhead
      exact ⟨t, _, rfl, ht⟩

theorem readsBack_operator {op : CStr} {t : Token}
    (ht : t.type ∈ operators ∧ t.value = some op) : ReadsBack ts parseOperator op [t] [] := by
  have hne : t.type ≠ .eof := fun heof => absurd (heof ▸ ht.1) (by decide)
  rw [parseOperator_eq]
  refine .of_currentType ?_
  rw [if_pos ht.1]
  exact readsBack_consumeText hne ⟨rfl, ht.2⟩

theorem readsBack_literal {expression : Parser Expr} {v : CStr} {t : Token}
    (ht : t.type ∈ literals ∧ t.value = some v) :
    ReadsBack ts (parseOperand expression) (.literal v) [t] [] := by
  intro ctx rest hctx hrest hnot
  have hlparen : t.type ≠ .lparen := fun heq => absurd (heq ▸ ht.1) (by decide)
  have hne : t.type ≠ .eof := fun heof => absurd (heof ▸ ht.1) (by decide)
  rw [parseOperand_of_ne hrest hlparen, if_pos ht.1]
  exact (readsBack_consumeText hne ⟨rfl, ht.2⟩).map ctx rest hctx hrest hnot

theorem readsBack_subquery {S : Expr → List Token → Prop} {expression : Parser Expr}
    {clauses : SelectClauses} {whereClause : Option Expr} {l r : Token}
    (he : ∀ e us, S e us → ReadsBack ts expression e us [.kwOr, .kwAnd]) (hl : l.type = .lparen)
    (hselect : PrintsSelect S (clauses, whereClause) us) (hr : r.type = .rparen) :
    ReadsBack ts (parseOperand expression) (.subquery clauses whereClause)
      (l :: (us ++ [r])) [] := by
  have hquery : ReadsBack ts (parseSubquery expression) (.subquery clauses whereClause)
      (us ++ [r]) [] := by
    refine (readsBack_selectBody he hselect).bind
      ((readsBack_consume (by decide) hr).then (readsBack_pure _)) fun _ _ => ?_
    rw [List.cons_append, starts_cons, ofType_iff, hr]
    decide
  intro ctx rest hctx hrest hnot
  obtain ⟨t, vs, rfl, ht⟩ := printsSelect_head hselect
  rw [parseOperand_of_lparen hctx hrest hl, if_pos (by simp [ht])]
  exact hquery ctx.next rest (hctx.next hrest (by simp [hl])) (rest_next hrest) hnot

theorem readsBack_comparison (fuel : Nat) (hcomparison : PrintsComparison e us) :
    ReadsBack ts (parseComparison fuel) e us [] := by
  induction fuel generalizing e us with
  | zero => exact fun _ _ _ _ _ => .inl rfl
  | succ fuel ih =>
      have hconjunction : ∀ e us, Chain .kwAnd (CStr.lit "AND") PrintsComparison e us →
          ReadsBack ts (parseLogicalAnd (parseComparison fuel)) e us [.kwAnd] :=
        fun _ _ => readsBack_logical (by decide) (fun _ _ => ih) List.not_mem_nil
      have hcondition : ∀ e us, PrintsCondition e us →
          ReadsBack ts (parseLogicalOr (parseComparison fuel)) e us [.kwOr, .kwAnd] :=
        fun _ _ => readsBack_logical (by decide) hconjunction (by decide)
      -- a column is no parenthesis
      have hcolumn : ∀ {column : CStr} {c : Token} {vs behind : List Token},
          Shows .identifier column c → ¬ Starts (OfType [.lparen]) (c :: vs ++ behind) := by
        intro column c vs behind hc
        rw [List.cons_append, starts_cons, ofType_iff, hc.1]
        decide
      cases hcomparison with
      | literal hc ho hl =>
          exact (readsBack_noMatch .lparen).bind ((readsBack_consumeText (by decide) hc).then
            ((readsBack_operator ho).then (readsBack_literal hl).map)) fun _ _ => hcolumn hc
      | subquery hc ho hl hquery hr =>
          exact (readsBack_noMatch .lparen).bind ((readsBack_consumeText (by decide) hc).then
            ((readsBack_operator ho).then (readsBack_subquery hcondition hl hquery hr).map))
            fun _ _ => hcolumn hc
      | parens hl hinner hr =>
          refine (readsBack_tryMatch (by decide) hl).then ((hcondition _ _ hinner).bind
            ((readsBack_consume (by decide) hr).then (readsBack_pure _)) fun _ _ => ?_)
          rw [List.cons_append, starts_cons, ofType_iff, hr]
          decide

theorem readsBack_expression (hcondition : PrintsCondition e us) :
    ReadsBack ts parseExpression e us [.kwOr, .kwAnd] := by
  intro ctx
  have hconjunction : ∀ e us, Chain .kwAnd (CStr.lit "AND") PrintsComparison e us →
      ReadsBack ts (parseLogicalAnd (parseComparison ctx.rounds)) e us [.kwAnd] :=
    fun _ _ => readsBack_logical (by decide) (fun _ _ => readsBack_comparison ctx.rounds)
      List.not_mem_nil
  exact readsBack_logical (by decide) hconjunction (by decide) hcondition ctx

/-- A printed condition is read back as the same tree, up to any token that does not go on with
it. -/
theorem parseExpression_printed {ctx : ParserContext} {next : Token} {behind : List Token}
    (hprinted : PrintsCondition e us) (hctx : Standing ts ctx)
    (hrest : ctx.rest = us ++ next :: behind) (hand : next.type ≠ .kwAnd)
    (hor : next.type ≠ .kwOr) :
    ∃ after, parseExpression ctx = .ok e after ∧ after.rest = next :: behind := by
  have hstops : ¬ Starts (OfType [.kwOr, .kwAnd]) (next :: behind) := by
    simp [hand, hor]
  rcases readsBack_expression hprinted ctx _ hctx hrest hstops with hrun | ⟨after, hok, hafter, _⟩
  · -- the rounds of a parser do not run out
    have hroom := Nat.lt_add_left ctx.current (Nat.lt_succ_self ts.tokens.length)
    have hends : Ends false ts (ts.tokens.length + 1) parseExpression := inferInstance
    have hgood := hends.good ctx hctx.toReads hroom
    rw [hrun] at hgood
    cases hgood
  · exact ⟨after, hok, hafter⟩

def precedenceQuery : CStr :=
  CStr.lit "a = 1 OR b = 2 AND c = 3;"

theorem parseExpression_printed_precedence :
    ∃ after, parseExpression { tokens := tokenize precedenceQuery, current := 0 } =
        .ok (.binary
          (.binary (.identifier (CStr.lit "a")) (CStr.lit "=") (.literal (CStr.lit "1")))
          (CStr.lit "OR")
          (.binary
            (.binary (.identifier (CStr.lit "b")) (CStr.lit "=") (.literal (CStr.lit "2")))
            (CStr.lit "AND")
            (.binary (.identifier (CStr.lit "c")) (CStr.lit "=")
              (.literal (CStr.lit "3"))))) after ∧
      after.rest = (tokenize precedenceQuery).drop 11 := by
  have htokens : tokenize precedenceQuery =
      [⟨.identifier, some (CStr.lit "a"), 1⟩, ⟨.equals, some (CStr.lit "="), 1⟩,
        ⟨.intLiteral, some (CStr.lit "1"), 1⟩, ⟨.kwOr, none, 1⟩,
        ⟨.identifier, some (CStr.lit "b"), 1⟩, ⟨.equals, some (CStr.lit "="), 1⟩,
        ⟨.intLiteral, some (CStr.lit "2"), 1⟩, ⟨.kwAnd, none, 1⟩,
        ⟨.identifier, some (CStr.lit "c"), 1⟩, ⟨.equals, some (CStr.lit "="), 1⟩,
        ⟨.intLiteral, some (CStr.lit "3"), 1⟩, ⟨.semicolon, some (CStr.lit ";"), 1⟩,
        ⟨.eof, none, 1⟩] := by
    decide +kernel
  have hcomparison : ∀ column v, PrintsComparison
      (.binary (.identifier column) (CStr.lit "=") (.literal v))
      [⟨.identifier, some column, 1⟩, ⟨.equals, some (CStr.lit "="), 1⟩,
        ⟨.intLiteral, some v, 1⟩] :=
    fun column v => .literal ⟨rfl, rfl⟩ ⟨List.mem_cons_self, rfl⟩ ⟨List.mem_cons_self, rfl⟩
  have hctx : Standing (tokenStream precedenceQuery)
      { tokens := tokenize precedenceQuery, current := 0 } :=
    ⟨⟨⟨rfl, Nat.zero_le _⟩, Nat.lt_succ_self _⟩, by rw [htokens]; exact List.cons_ne_nil _ _⟩
  have hprinted : PrintsCondition _ _ :=
    .more (t := ⟨.kwOr, none, 1⟩) (.one (.one (hcomparison (CStr.lit "a") (CStr.lit "1")))) rfl
      (.more (t := ⟨.kwAnd, none, 1⟩) (.one (hcomparison (CStr.lit "b") (CStr.lit "2"))) rfl
        (hcomparison (CStr.lit "c") (CStr.lit "3")))
  rw [htokens] at hctx ⊢
  exact parseExpression_printed hprinted hctx rfl (by decide) (by decide)

end Condition

end Sql
end InventixDB
