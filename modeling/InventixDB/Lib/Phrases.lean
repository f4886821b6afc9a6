import Mathlib.Logic.Basic
import Mathlib.Tactic.Tauto

/-!
# Phrases — what a parser without backtracking reads

A phrase relates the tokens before it to those behind it.  An optional part is read wherever it
starts, and a list goes on as long as there is a separator, so that a phrase has one end at most.
Where such a parser breaks off is a set of token lists.
-/

namespace InventixDB
namespace Lib

abbrev Phrase (τ : Type*) := List τ → List τ → Prop

/-- The token lists on which a parser breaks off. -/
abbrev Breaks (τ : Type*) := List τ → Prop

namespace Phrase

variable {τ : Type*} {p : τ → Prop} {R R' S : Phrase τ} {Rs Ss : List (Phrase τ)}
  {B B' : Breaks τ} {t : τ} {before mid behind rest : List τ}

/-- The next token is such a one. -/
def Starts (p : τ → Prop) (before : List τ) : Prop :=
  ∃ t ∈ before.head?, p t

/-- One such token. -/
inductive One (p : τ → Prop) : Phrase τ
  | read {t : τ} {behind : List τ} (htoken : p t) : One p (t :: behind) behind

/-- The phrases one after the other. -/
def seq : List (Phrase τ) → Phrase τ
  | [], before, behind => before = behind
  | R :: Rs, before, behind => ∃ mid, R before mid ∧ seq Rs mid behind

/-- Such a token and `R` behind it, or `S` where there is no such token. -/
inductive Either (p : τ → Prop) (R S : Phrase τ) : Phrase τ
  | read {t : τ} {rest behind : List τ} (htoken : p t) (hrest : R rest behind) :
      Either p R S (t :: rest) behind
  | other {before behind : List τ} (hnot : ¬ Starts p before) (hrest : S before behind) :
      Either p R S before behind

/-- Such a token and `R` behind it, or nothing. -/
abbrev Optional (p : τ → Prop) (R : Phrase τ) : Phrase τ :=
  Either p R (seq [])

/-- `R sep R sep R` -/
inductive Separated (p : τ → Prop) (R : Phrase τ) : Phrase τ
  | last {before behind : List τ} (hitem : R before behind) (hnot : ¬ Starts p behind) :
      Separated p R before behind
  | more {before rest behind : List τ} {t : τ} (hitem : R before (t :: rest)) (htoken : p t)
      (hrest : Separated p R rest behind) : Separated p R before behind

/-- The parser of `R sep R sep R` breaks off in one of its items. -/
inductive SeparatedBreaks (p : τ → Prop) (R : Phrase τ) (B : Breaks τ) : Breaks τ
  | first {before : List τ} (hbreaks : B before) : SeparatedBreaks p R B before
  | later {before rest : List τ} {t : τ} (hitem : R before (t :: rest)) (htoken : p t)
      (hrest : SeparatedBreaks p R B rest) : SeparatedBreaks p R B before

/-- The parser breaks off behind some phrases. -/
inductive Behind (Rs : List (Phrase τ)) (B : Breaks τ) : Breaks τ
  | intro {before mid : List τ} (hread : seq Rs before mid) (hbreaks : B mid) : Behind Rs B before

/-! ## One token -/

@[simp]
theorem starts_cons : Starts p (t :: rest) ↔ p t := by
  simp [Starts]

@[simp]
theorem not_starts_nil : ¬ Starts p [] := by
  simp [Starts]

@[simp]
theorem one_cons : One p (t :: rest) behind ↔ p t ∧ rest = behind := by
  constructor
  · intro hread
    cases hread with
    | read htoken => exact ⟨htoken, rfl⟩
  · rintro ⟨htoken, rfl⟩
    exact .read htoken

/-- A token that is there is read by the part that it starts. -/
@[simp]
theorem either_cons :
    Either p R S (t :: rest) behind ↔ (p t ∧ R rest behind) ∨ (¬ p t ∧ S (t :: rest) behind) := by
  constructor
  · intro hread
    cases hread with
    | read htoken hrest => exact .inl ⟨htoken, hrest⟩
    | other hnot hrest => exact .inr ⟨fun htoken => hnot (starts_cons.mpr htoken), hrest⟩
  · rintro (⟨htoken, hrest⟩ | ⟨hnot, hrest⟩)
    · exact .read htoken hrest
    · exact .other (fun hstarts => hnot (starts_cons.mp hstarts)) hrest

@[simp]
theorem either_nil : Either p R S [] behind ↔ S [] behind := by
  constructor
  · intro hread
    cases hread with
    | other _ hrest => exact hrest
  · exact fun hrest => .other not_starts_nil hrest

/-- Two tokens that start the same part. -/
theorem either_either {q : τ → Prop} :
    Either p R (Either q R S) before behind ↔ Either (fun t => p t ∨ q t) R S before behind := by
  cases before with
  | nil => simp
  | cons t rest =>
      simp only [either_cons]
      tauto

/-! ## One phrase after the other -/

@[simp]
theorem seq_nil : seq [] before behind ↔ before = behind :=
  Iff.rfl

theorem seq_cons : seq (R :: Rs) before behind ↔ ∃ mid, R before mid ∧ seq Rs mid behind :=
  Iff.rfl

@[simp]
theorem seq_one_cons : seq (One p :: Rs) (t :: rest) behind ↔ p t ∧ seq Rs rest behind := by
  simp [seq_cons, and_assoc]

theorem seq_singleton : seq [R] before behind ↔ R before behind := by
  simp [seq_cons]

theorem seq_append :
    seq (Rs ++ Ss) before behind ↔ ∃ mid, seq Rs before mid ∧ seq Ss mid behind := by
  induction Rs generalizing before with
  | nil => simp
  | cons R Rs ih =>
      simp only [List.cons_append, seq_cons, ih]
      constructor
      · rintro ⟨mid, hR, mid', hRs, hSs⟩
        exact ⟨mid', ⟨mid, hR, hRs⟩, hSs⟩
      · rintro ⟨mid', ⟨mid, hR, hRs⟩, hSs⟩
        exact ⟨mid, hR, mid', hRs, hSs⟩

@[simp]
theorem behind_nil : Behind [] B before ↔ B before := by
  constructor
  · rintro ⟨rfl, hbreaks⟩
    exact hbreaks
  · exact fun hbreaks => ⟨rfl, hbreaks⟩

theorem behind_cons :
    Behind (R :: Rs) B before ↔ ∃ mid, R before mid ∧ Behind Rs B mid := by
  constructor
  · rintro ⟨⟨mid, hR, hRs⟩, hbreaks⟩
    exact ⟨mid, hR, hRs, hbreaks⟩
  · rintro ⟨mid, hR, hRs, hbreaks⟩
    exact ⟨⟨mid, hR, hRs⟩, hbreaks⟩

@[simp]
theorem behind_one_cons : Behind (One p :: Rs) B (t :: rest) ↔ p t ∧ Behind Rs B rest := by
  simp [behind_cons, and_assoc]

@[simp]
theorem not_behind_one_nil : ¬ Behind (One p :: Rs) B [] := by
  rintro hbreaks
  obtain ⟨mid, hread, _⟩ := behind_cons.mp hbreaks
  cases hread

@[simp]
theorem behind_either_cons :
    Behind (Either p R S :: Rs) B (t :: rest) ↔
      (p t ∧ Behind (R :: Rs) B rest) ∨ (¬ p t ∧ Behind (S :: Rs) B (t :: rest)) := by
  simp only [behind_cons, either_cons, or_and_right, exists_or, and_assoc, exists_and_left]

@[simp]
theorem behind_seq_nil : Behind (seq [] :: Rs) B before ↔ Behind Rs B before := by
  simp [behind_cons]

theorem behind_append : Behind (Rs ++ Ss) B before ↔ Behind Rs (Behind Ss B) before := by
  induction Rs generalizing before with
  | nil => rw [List.nil_append, behind_nil]
  | cons R Rs ih => simp only [List.cons_append, behind_cons, ih]

theorem behind_or :
    Behind Rs (fun mid => B mid ∨ B' mid) before ↔ Behind Rs B before ∨ Behind Rs B' before := by
  constructor
  · rintro ⟨hread, hbreaks | hbreaks⟩
    · exact .inl ⟨hread, hbreaks⟩
    · exact .inr ⟨hread, hbreaks⟩
  · rintro (⟨hread, hbreaks⟩ | ⟨hread, hbreaks⟩)
    · exact ⟨hread, .inl hbreaks⟩
    · exact ⟨hread, .inr hbreaks⟩

/-! ## Lists -/

/-- A list starts with an item. -/
theorem separated_iff :
    Separated p R before behind ↔
      ∃ mid, R before mid ∧ Optional p (Separated p R) mid behind := by
  constructor
  · intro hread
    cases hread with
    | last hitem hnot => exact ⟨_, hitem, .other hnot rfl⟩
    | more hitem htoken hrest => exact ⟨_, hitem, .read htoken hrest⟩
  · rintro ⟨mid, hitem, hrest⟩
    cases hrest with
    | read htoken hrest => exact .more hitem htoken hrest
    | other hnot hend =>
        cases hend
        exact .last hitem hnot

/-- And breaks off in it or behind it. -/
theorem separatedBreaks_iff :
    SeparatedBreaks p R B before ↔
      B before ∨ ∃ mid, R before mid ∧ Behind [One p] (SeparatedBreaks p R B) mid := by
  constructor
  · intro hbreaks
    cases hbreaks with
    | first hbreaks => exact .inl hbreaks
    | later hitem htoken hrest =>
        exact .inr ⟨_, hitem, .intro (seq_singleton.mpr (.read htoken)) hrest⟩
  · rintro (hbreaks | ⟨mid, hitem, hread, hrest⟩)
    · exact .first hbreaks
    · cases seq_singleton.mp hread with
      | read htoken => exact .later hitem htoken hrest

end Phrase

end Lib
end InventixDB
