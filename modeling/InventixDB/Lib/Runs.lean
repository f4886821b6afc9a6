import Mathlib.Data.List.Basic

/-!
# Runs — sequences of steps that may have no result

A step without a result ends the run: it is undefined, or its loop goes on forever.
-/

namespace InventixDB
namespace Lib

variable {σ α : Type*} {step : σ → α → Option σ} {P : σ → Prop} {fits : σ → α → Prop}

/-! ## Runs over a list of actions -/

/-- Every state of the run has `P`. -/
def Stays (step : σ → α → Option σ) (P : σ → Prop) : σ → List α → Prop
  | s, [] => P s
  | s, a :: actions => P s ∧ ∀ after ∈ step s a, Stays step P after actions

/-- Every step of the run fits the state it is made in. -/
def StepsFit (step : σ → α → Option σ) (fits : σ → α → Prop) : σ → List α → Prop
  | _, [] => True
  | s, a :: actions => fits s a ∧ ∀ after ∈ step s a, StepsFit step fits after actions

instance decidableStepsFit [∀ s a, Decidable (fits s a)] :
    (s : σ) → (actions : List α) → Decidable (StepsFit step fits s actions)
  | _, [] => isTrue trivial
  | s, a :: actions =>
      have := fun after => decidableStepsFit after actions
      inferInstanceAs (Decidable (fits s a ∧ ∀ after ∈ step s a, StepsFit step fits after actions))

theorem stepsFit_of_forall (hfits : ∀ s a, fits s a) {actions : List α} {s : σ} :
    StepsFit step fits s actions := by
  induction actions generalizing s with
  | nil => trivial
  | cons a actions ih => exact ⟨hfits s a, fun _ _ => ih⟩

theorem stays_of_stepsFit
    (hstep : ∀ s a after, P s → fits s a → step s a = some after → P after)
    {actions : List α} {s : σ} (hstart : P s) (hfits : StepsFit step fits s actions) :
    Stays step P s actions := by
  induction actions generalizing s with
  | nil => exact hstart
  | cons a actions ih =>
      exact ⟨hstart, fun after hafter =>
        ih (hstep s a after hstart hfits.1 hafter) (hfits.2 after hafter)⟩

/-- The last step of a run fits the state the steps before it lead to. -/
theorem StepsFit.last {actions : List α} {a : α} {s after : σ}
    (hfits : StepsFit step fits s (actions ++ [a])) (hrun : actions.foldlM step s = some after) :
    fits after a := by
  induction actions generalizing s with
  | nil =>
      cases hrun
      exact hfits.1
  | cons b actions ih =>
      rw [List.foldlM_cons] at hrun
      obtain ⟨next, hnext, hrest⟩ := Option.bind_eq_some_iff.mp hrun
      exact ih (hfits.2 next hnext) hrest

/-- What follows of a step from its condition and an invariant follows of every step of the run. -/
theorem StepsFit.imp {fits' : σ → α → Prop}
    (hstep : ∀ s a after, P s → fits s a → step s a = some after → P after)
    (himp : ∀ s a, P s → fits s a → fits' s a) {actions : List α} {s : σ} (hstart : P s)
    (hfits : StepsFit step fits s actions) : StepsFit step fits' s actions := by
  induction actions generalizing s with
  | nil => trivial
  | cons a actions ih =>
      exact ⟨himp s a hstart hfits.1, fun after hafter =>
        ih (hstep s a after hstart hfits.1 hafter) (hfits.2 after hafter)⟩

/-- What holds of the actions of a run holds of each of its steps. -/
theorem StepsFit.and_forall {Q : α → Prop} {actions : List α} {s : σ}
    (hfits : StepsFit step fits s actions) (hall : ∀ a ∈ actions, Q a) :
    StepsFit step (fun s a => fits s a ∧ Q a) s actions := by
  induction actions generalizing s with
  | nil => trivial
  | cons a actions ih =>
      refine ⟨⟨hfits.1, hall a List.mem_cons_self⟩, fun after hafter => ?_⟩
      exact ih (hfits.2 after hafter) fun b hb => hall b (List.mem_cons_of_mem a hb)

theorem Stays.mono {Q : σ → Prop} {actions : List α} {s : σ} (hstays : Stays step P s actions)
    (himp : ∀ s, P s → Q s) : Stays step Q s actions := by
  induction actions generalizing s with
  | nil => exact himp s hstays
  | cons a actions ih =>
      exact ⟨himp s hstays.1, fun after hafter => ih (hstays.2 after hafter)⟩

/-- The state a run ends in is one of its states. -/
theorem Stays.foldlM {actions : List α} {s after : σ} (hstays : Stays step P s actions)
    (hrun : actions.foldlM step s = some after) : P after := by
  induction actions generalizing s with
  | nil =>
      cases hrun
      exact hstays
  | cons a actions ih =>
      rw [List.foldlM_cons] at hrun
      obtain ⟨next, hnext, hrest⟩ := Option.bind_eq_some_iff.mp hrun
      exact ih (hstays.2 next hnext) hrest

theorem foldlM_of_stepsFit
    (hstep : ∀ s a after, P s → fits s a → step s a = some after → P after)
    {actions : List α} {s after : σ} (hstart : P s) (hfits : StepsFit step fits s actions)
    (hrun : actions.foldlM step s = some after) : P after :=
  (stays_of_stepsFit hstep hstart hfits).foldlM hrun

theorem stays_of_invariant (hstep : ∀ s a after, P s → step s a = some after → P after)
    {actions : List α} {s : σ} (hstart : P s) : Stays step P s actions := by
  have hfits : StepsFit step (fun _ _ => True) s actions := stepsFit_of_forall fun _ _ => trivial
  exact stays_of_stepsFit (fun s a after h _ => hstep s a after h) hstart hfits

theorem foldlM_of_invariant (hstep : ∀ s a after, P s → step s a = some after → P after)
    {actions : List α} {s after : σ} (hstart : P s)
    (hrun : actions.foldlM step s = some after) : P after :=
  (stays_of_invariant hstep hstart).foldlM hrun

/-- Where a step keeps `P` just when it fits, a run keeps `P` just when all its steps fit. -/
theorem stays_iff_stepsFit {I : σ → Prop}
    (hinv : ∀ s a after, I s → step s a = some after → I after)
    (hiff : ∀ s a after, I s → P s → step s a = some after → (P after ↔ fits s a))
    {actions : List α} {s after : σ} (hstart : I s) (hrun : actions.foldlM step s = some after) :
    Stays step P s actions ↔ P s ∧ StepsFit step fits s actions := by
  induction actions generalizing s with
  | nil => exact (and_iff_left trivial).symm
  | cons a actions ih =>
      rw [List.foldlM_cons] at hrun
      obtain ⟨next, hnext, hrest⟩ := Option.bind_eq_some_iff.mp hrun
      have hrec := ih (hinv s a next hstart hnext) hrest
      rw [Stays, StepsFit]
      refine and_congr_right fun hs => ?_
      have hstep := hiff s a next hstart hs hnext
      constructor
      · intro hstays
        obtain ⟨hkept, hfits⟩ := hrec.mp (hstays next hnext)
        refine ⟨hstep.mp hkept, fun after hafter => ?_⟩
        cases Option.some_inj.mp (hnext.symm.trans hafter)
        exact hfits
      · rintro ⟨hfits, hrests⟩ after hafter
        cases Option.some_inj.mp (hnext.symm.trans hafter)
        exact hrec.mpr ⟨hstep.mpr hfits, hrests next hnext⟩

/-! ## Loops -/

variable {more : σ → Bool} {body : σ → Option σ} {bodyFits : σ → Prop}

/-- `while (more) body`; a loop that goes on after `fuel` rounds has no result. -/
def whileLoop (more : σ → Bool) (body : σ → Option σ) : Nat → σ → Option σ
  | 0, s => if more s then none else some s
  | fuel + 1, s => if more s then (body s).bind (whileLoop more body fuel) else some s

/-- Every round of the loop fits the state it is made in. -/
def RoundsFit (more : σ → Bool) (body : σ → Option σ) (bodyFits : σ → Prop) : Nat → σ → Prop
  | 0, _ => True
  | fuel + 1, s =>
      more s → bodyFits s ∧ ∀ after ∈ body s, RoundsFit more body bodyFits fuel after

instance decidableRoundsFit [∀ s, Decidable (bodyFits s)] :
    (fuel : Nat) → (s : σ) → Decidable (RoundsFit more body bodyFits fuel s)
  | 0, _ => isTrue trivial
  | fuel + 1, s =>
      have := fun after => decidableRoundsFit fuel after
      inferInstanceAs (Decidable (more s →
        bodyFits s ∧ ∀ after ∈ body s, RoundsFit more body bodyFits fuel after))

theorem whileLoop_of_roundsFit
    (hround : ∀ s after, P s → more s → bodyFits s → body s = some after → P after)
    {fuel : Nat} {s after : σ} (hstart : P s) (hfits : RoundsFit more body bodyFits fuel s)
    (hloop : whileLoop more body fuel s = some after) : P after := by
  induction fuel generalizing s with
  | zero =>
      unfold whileLoop at hloop
      split at hloop
      · cases hloop
      · cases hloop
        exact hstart
  | succ fuel ih =>
      unfold whileLoop at hloop
      split at hloop
      · rename_i hmore
        obtain ⟨next, hnext, hrest⟩ := Option.bind_eq_some_iff.mp hloop
        obtain ⟨hbody, hrounds⟩ := hfits hmore
        exact ih (hround s next hstart hmore hbody hnext) (hrounds next hnext) hrest
      · cases hloop
        exact hstart

/-- An invariant of the loop's body holds behind the loop. -/
theorem whileLoop_of_invariant
    (hround : ∀ s after, P s → more s → body s = some after → P after)
    {fuel : Nat} {s after : σ} (hstart : P s) (hloop : whileLoop more body fuel s = some after) :
    P after ∧ more after = false := by
  induction fuel generalizing s with
  | zero =>
      unfold whileLoop at hloop
      split at hloop
      · cases hloop
      · rename_i hdone
        cases hloop
        exact ⟨hstart, Bool.eq_false_iff.mpr hdone⟩
  | succ fuel ih =>
      unfold whileLoop at hloop
      split at hloop
      · rename_i hmore
        obtain ⟨next, hnext, hrest⟩ := Option.bind_eq_some_iff.mp hloop
        exact ih (hround s next hstart hmore hnext) hrest
      · rename_i hdone
        cases hloop
        exact ⟨hstart, Bool.eq_false_iff.mpr hdone⟩

/-- A loop whose rounds make `m` smaller ends. -/
theorem whileLoop_isSome {m : σ → Nat} (hdone : ∀ s, P s → m s = 0 → more s = false)
    (hround : ∀ s, P s → more s → ∃ after, body s = some after ∧ P after ∧ m after < m s)
    {fuel : Nat} {s : σ} (hstart : P s) (hfuel : m s ≤ fuel) :
    (whileLoop more body fuel s).isSome := by
  induction fuel generalizing s with
  | zero =>
      unfold whileLoop
      rw [if_neg (by simp [hdone s hstart (Nat.le_zero.mp hfuel)])]
      rfl
  | succ fuel ih =>
      unfold whileLoop
      split
      · rename_i hmore
        obtain ⟨after, hbody, hafter, hsmaller⟩ := hround s hstart hmore
        rw [hbody, Option.bind_some]
        exact ih hafter (by omega)
      · rfl

end Lib
end InventixDB
