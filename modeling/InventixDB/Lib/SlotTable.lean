import Mathlib.Data.List.Basic
import Mathlib.Data.Option.Basic

/-!
# SlotTable — a table of slots searched from the front

Entries sit in a fixed list of slots, some of them free.  An entry is found by its key in the
first slot that holds it, put into the first free slot, and changed or cleared in place.
-/

namespace InventixDB
namespace Lib
namespace SlotTable

variable {α κ : Type*} [DecidableEq κ] (key : α → κ)

/-! ## Operations -/

/-- The first entry under key `k`. -/
def find (k : κ) : List (Option α) → Option α
  | [] => none
  | none :: slots => find k slots
  | some a :: slots => if key a = k then some a else find k slots

/-- Change the first entry under key `k`, or clear its slot. -/
def update (k : κ) (f : α → Option α) : List (Option α) → List (Option α)
  | [] => []
  | none :: slots => none :: update k f slots
  | some a :: slots => if key a = k then f a :: slots else some a :: update k f slots

omit [DecidableEq κ] in
/-- Put `a` into the first free slot; without one nothing changes. -/
def insert (a : α) : List (Option α) → List (Option α)
  | [] => []
  | none :: slots => some a :: slots
  | some b :: slots => some b :: insert a slots

/-- No two slots hold entries with one key. -/
def Distinct (slots : List (Option α)) : Prop :=
  slots.Pairwise fun o o' => ∀ a ∈ o, ∀ b ∈ o', key a ≠ key b

variable {key} {slots : List (Option α)} {a b : α} {k : κ} {f : α → Option α}

/-! ## What the slots hold -/

theorem mem_of_find (hfind : find key k slots = some a) : some a ∈ slots ∧ key a = k := by
  induction slots with
  | nil => cases hfind
  | cons o slots ih =>
      cases o with
      | none =>
          obtain ⟨hmem, hkey⟩ := ih hfind
          exact ⟨List.mem_cons_of_mem _ hmem, hkey⟩
      | some c =>
          rw [find] at hfind
          by_cases hc : key c = k
          · rw [if_pos hc] at hfind
            cases hfind
            exact ⟨List.mem_cons_self, hc⟩
          · rw [if_neg hc] at hfind
            obtain ⟨hmem, hkey⟩ := ih hfind
            exact ⟨List.mem_cons_of_mem _ hmem, hkey⟩

omit [DecidableEq κ] in
@[simp]
theorem distinct_nil : Distinct key ([] : List (Option α)) := List.Pairwise.nil

omit [DecidableEq κ] in
@[simp]
theorem distinct_cons_none : Distinct key (none :: slots) ↔ Distinct key slots := by
  simp [Distinct]

omit [DecidableEq κ] in
@[simp]
theorem distinct_cons_some : Distinct key (some a :: slots) ↔
    (∀ b, some b ∈ slots → key a ≠ key b) ∧ Distinct key slots := by
  simp only [Distinct, List.pairwise_cons, Option.mem_some_iff, forall_eq']
  refine and_congr_left fun _ => ?_
  constructor
  · intro h b hb
    exact h (some b) hb b rfl
  · rintro h o ho b rfl
    exact h b ho

theorem find_eq_none_iff : find key k slots = none ↔ ∀ a, some a ∈ slots → key a ≠ k := by
  induction slots with
  | nil => simp [find]
  | cons o slots ih =>
      cases o with
      | none => simp [find, ih]
      | some c =>
          rw [find]
          by_cases hc : key c = k
          · simp [hc]
          · simp [hc, ih]

theorem mem_update (hd : Distinct key slots) :
    some b ∈ update key k f slots ↔
      (some b ∈ slots ∧ key b ≠ k) ∨ ∃ a, some a ∈ slots ∧ key a = k ∧ f a = some b := by
  induction slots with
  | nil => simp [update]
  | cons o slots ih =>
      cases o with
      | none =>
          rw [distinct_cons_none] at hd
          simp [update, ih hd]
      | some c =>
          obtain ⟨hhead, htail⟩ := distinct_cons_some.mp hd
          rw [update]
          by_cases hc : key c = k
          · rw [if_pos hc]
            have hrest : ∀ a, some a ∈ slots → key a ≠ k := by
              intro a ha
              rw [← hc]
              exact (hhead a ha).symm
            constructor
            · intro hmem
              rcases List.mem_cons.mp hmem with heq | hmem
              · exact Or.inr ⟨c, List.mem_cons_self, hc, heq.symm⟩
              · exact Or.inl ⟨List.mem_cons_of_mem _ hmem, hrest b hmem⟩
            · rintro (⟨hmem, hne⟩ | ⟨a, hmem, hkey, hf⟩)
              · rcases List.mem_cons.mp hmem with heq | hmem
                · cases heq
                  exact absurd hc hne
                · exact List.mem_cons_of_mem _ hmem
              · rcases List.mem_cons.mp hmem with heq | hmem
                · cases heq
                  rw [hf]
                  exact List.mem_cons_self
                · exact absurd hkey (hrest a hmem)
          · rw [if_neg hc]
            simp only [List.mem_cons, ih htail, Option.some.injEq]
            constructor
            · rintro (rfl | ⟨hmem, hne⟩ | ⟨a, hmem, hkey, hf⟩)
              · exact Or.inl ⟨Or.inl rfl, hc⟩
              · exact Or.inl ⟨Or.inr hmem, hne⟩
              · exact Or.inr ⟨a, Or.inr hmem, hkey, hf⟩
            · rintro (⟨rfl | hmem, hne⟩ | ⟨a, rfl | hmem, hkey, hf⟩)
              · exact Or.inl rfl
              · exact Or.inr (Or.inl ⟨hmem, hne⟩)
              · exact absurd hkey hc
              · exact Or.inr (Or.inr ⟨a, hmem, hkey, hf⟩)

omit [DecidableEq κ] in
theorem mem_insert : some b ∈ insert a slots ↔ some b ∈ slots ∨ (b = a ∧ none ∈ slots) := by
  induction slots with
  | nil => simp [insert]
  | cons o slots ih =>
      cases o with
      | none =>
          rw [insert]
          simp [or_comm]
      | some c =>
          rw [insert]
          simp [ih, or_assoc]

/-! ## Tables that stay as they are -/

omit [DecidableEq κ] in
theorem insert_full (hfull : none ∉ slots) : insert a slots = slots := by
  induction slots with
  | nil => rfl
  | cons o slots ih =>
      cases o with
      | none => exact absurd List.mem_cons_self hfull
      | some c => rw [insert, ih fun h => hfull (List.mem_cons_of_mem _ h)]

theorem update_fixed (hf : ∀ a, some a ∈ slots → f a = some a) : update key k f slots = slots := by
  induction slots with
  | nil => rfl
  | cons o slots ih =>
      have hrest := ih fun a h => hf a (List.mem_cons_of_mem _ h)
      cases o with
      | none => rw [update, hrest]
      | some c =>
          rw [update, hf c List.mem_cons_self, hrest]
          split <;> rfl

/-! ## Distinct keys -/

/-- An entry is found under its own key. -/
theorem Distinct.find_of_mem (hd : Distinct key slots) (hmem : some a ∈ slots) :
    find key (key a) slots = some a := by
  induction slots with
  | nil => cases hmem
  | cons o slots ih =>
      cases o with
      | none => exact ih (distinct_cons_none.mp hd) (List.mem_of_ne_of_mem (by simp) hmem)
      | some c =>
          obtain ⟨hhead, htail⟩ := distinct_cons_some.mp hd
          rw [find]
          rcases List.mem_cons.mp hmem with heq | hmem
          · cases heq
            exact if_pos rfl
          · rw [if_neg (hhead a hmem)]
            exact ih htail hmem

theorem Distinct.update (hd : Distinct key slots) (hf : ∀ a, ∀ b ∈ f a, key b = key a) :
    Distinct key (update key k f slots) := by
  induction slots with
  | nil => exact hd
  | cons o slots ih =>
      cases o with
      | none =>
          rw [distinct_cons_none] at hd
          exact distinct_cons_none.mpr (ih hd)
      | some c =>
          obtain ⟨hhead, htail⟩ := distinct_cons_some.mp hd
          rw [SlotTable.update]
          by_cases hc : key c = k
          · rw [if_pos hc]
            cases hfc : f c with
            | none => exact distinct_cons_none.mpr htail
            | some a =>
                refine distinct_cons_some.mpr ⟨?_, htail⟩
                rw [hf c a hfc]
                exact hhead
          · rw [if_neg hc]
            refine distinct_cons_some.mpr ⟨?_, ih htail⟩
            intro b hb
            rcases (mem_update htail).mp hb with ⟨hmem, _⟩ | ⟨a, hmem, _, hfa⟩
            · exact hhead b hmem
            · rw [hf a b hfa]
              exact hhead a hmem

omit [DecidableEq κ] in
theorem Distinct.insert (hd : Distinct key slots) (hfresh : ∀ b, some b ∈ slots → key b ≠ key a) :
    Distinct key (insert a slots) := by
  induction slots with
  | nil => exact hd
  | cons o slots ih =>
      cases o with
      | none =>
          refine distinct_cons_some.mpr ⟨?_, distinct_cons_none.mp hd⟩
          intro b hb
          exact (hfresh b (List.mem_cons_of_mem _ hb)).symm
      | some c =>
          obtain ⟨hhead, htail⟩ := distinct_cons_some.mp hd
          have hrest : ∀ b, some b ∈ slots → key b ≠ key a :=
            fun b hb => hfresh b (List.mem_cons_of_mem _ hb)
          refine distinct_cons_some.mpr ⟨?_, ih htail hrest⟩
          intro b hb
          rcases mem_insert.mp hb with hmem | ⟨rfl, _⟩
          · exact hhead b hmem
          · exact hfresh c List.mem_cons_self

end SlotTable
end Lib
end InventixDB
