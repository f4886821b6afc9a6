import InventixDB.Storage.CStr

/-!
# Savepoints of a transaction — marks into the write set and the read set

A savepoint of `mvcc.c` keeps two counts, not the entries they count.  `TransactionCopies` keeps the
entries themselves; the marks do the same.
-/

namespace InventixDB
namespace Mvcc

open Storage

structure WriteSetEntry where
  tableName : CStr
  rowId : UInt64
  oldVersion : UInt64
  newVersion : UInt64
  deriving DecidableEq

structure ReadSetEntry where
  tableName : CStr
  rowId : UInt64
  deriving DecidableEq

structure SavepointMarks where
  name : CStr
  writeSetMark : Nat
  readSetMark : Nat
  deriving DecidableEq

/-- What a transaction has tracked.  Only SERIALIZABLE has a read set. -/
structure TrackedSets where
  hasReadSet : Bool
  writeSet : List WriteSetEntry
  readSet : List ReadSetEntry
  savepoints : List SavepointMarks
  deriving DecidableEq

/-- The array is allocated once and never grows. -/
def savepointCapacity : Nat := 8

/-! ## The functions -/

namespace TrackedSets

def trackWrite (t : TrackedSets) (entry : WriteSetEntry) : Int × TrackedSets :=
  (0, { t with writeSet := t.writeSet ++ [entry] })

def trackRead (t : TrackedSets) (entry : ReadSetEntry) : Int × TrackedSets :=
  if t.hasReadSet then (0, { t with readSet := t.readSet ++ [entry] }) else (-1, t)

/-- The ninth savepoint is written behind the array. -/
def createSavepoint (t : TrackedSets) (name : CStr) : Option (Int × TrackedSets) :=
  if t.savepoints.length < savepointCapacity then
    some (0, { t with
      savepoints := t.savepoints ++
        [{ name := name, writeSetMark := t.writeSet.length, readSetMark := t.readSet.length }] })
  else none

/-- The loop over the savepoints runs from the last one down. -/
def rollbackToSavepoint (t : TrackedSets) (name : CStr) : Int × TrackedSets :=
  match t.savepoints.reverse.dropWhile fun sp => sp.name ≠ name with
  | [] => (-1, t)
  | sp :: before =>
      (0, { t with
        writeSet := t.writeSet.take sp.writeSetMark
        readSet := t.readSet.take sp.readSetMark
        savepoints := (sp :: before).reverse })

/-- This loop runs from the first one up. -/
def releaseSavepoint (t : TrackedSets) (name : CStr) : Int × TrackedSets :=
  if t.savepoints.any fun sp => sp.name = name then
    (0, { t with savepoints := t.savepoints.eraseP fun sp => sp.name = name })
  else (-1, t)

end TrackedSets

inductive TrackCall
  | write (entry : WriteSetEntry)
  | read (entry : ReadSetEntry)
  | create (name : CStr)
  | rollbackTo (name : CStr)
  | release (name : CStr)
  deriving DecidableEq

def TrackedSets.step (t : TrackedSets) : TrackCall → Option (Int × TrackedSets)
  | .write entry => some (t.trackWrite entry)
  | .read entry => some (t.trackRead entry)
  | .create name => t.createSavepoint name
  | .rollbackTo name => some (t.rollbackToSavepoint name)
  | .release name => some (t.releaseSavepoint name)

/-! ## Savepoints with entries -/

structure SavepointCopy where
  name : CStr
  writeSet : List WriteSetEntry
  readSet : List ReadSetEntry

structure TransactionCopies where
  hasReadSet : Bool
  writeSet : List WriteSetEntry
  readSet : List ReadSetEntry
  savepoints : List SavepointCopy

/-- Going back to a savepoint puts back what it has copied. -/
def TransactionCopies.step (t : TransactionCopies) :
    TrackCall → Option (Int × TransactionCopies)
  | .write entry => some (0, { t with writeSet := t.writeSet ++ [entry] })
  | .read entry =>
      some (if t.hasReadSet then (0, { t with readSet := t.readSet ++ [entry] }) else (-1, t))
  | .create name =>
      if t.savepoints.length < savepointCapacity then
        some (0, { t with savepoints := t.savepoints ++ [⟨name, t.writeSet, t.readSet⟩] })
      else none
  | .rollbackTo name =>
      some (match t.savepoints.reverse.dropWhile fun sp => sp.name ≠ name with
        | [] => (-1, t)
        | sp :: before =>
            (0, ⟨t.hasReadSet, sp.writeSet, sp.readSet, (sp :: before).reverse⟩))
  | .release name =>
      some (if t.savepoints.any fun sp => sp.name = name then
          (0, { t with savepoints := t.savepoints.eraseP fun sp => sp.name = name })
        else (-1, t))

/-- What the marks of a savepoint stand for. -/
def TrackedSets.copyOf (t : TrackedSets) (sp : SavepointMarks) : SavepointCopy :=
  ⟨sp.name, t.writeSet.take sp.writeSetMark, t.readSet.take sp.readSetMark⟩

def TrackedSets.copies (t : TrackedSets) : TransactionCopies :=
  ⟨t.hasReadSet, t.writeSet, t.readSet, t.savepoints.map t.copyOf⟩

/-- No mark lies behind a later one, nor behind the end of its set. -/
structure MarksFit (t : TrackedSets) : Prop where
  ordered : t.savepoints.Pairwise fun sp later =>
    sp.writeSetMark ≤ later.writeSetMark ∧ sp.readSetMark ≤ later.readSetMark
  inside : ∀ sp ∈ t.savepoints,
    sp.writeSetMark ≤ t.writeSet.length ∧ sp.readSetMark ≤ t.readSet.length

section Simulation

variable {t : TrackedSets}

/-- Entries that are added lie behind every mark. -/
theorem copies_append (h : MarksFit t) (ws : List WriteSetEntry) (rs : List ReadSetEntry) :
    let grown := { t with writeSet := t.writeSet ++ ws, readSet := t.readSet ++ rs }
    MarksFit grown ∧ grown.savepoints.map grown.copyOf = t.savepoints.map t.copyOf := by
  refine ⟨⟨h.ordered, fun sp hsp => ?_⟩, List.map_congr_left fun sp hsp => ?_⟩
  · obtain ⟨hw, hr⟩ := h.inside sp hsp
    simp only [List.length_append]
    omega
  · obtain ⟨hw, hr⟩ := h.inside sp hsp
    rw [TrackedSets.copyOf, TrackedSets.copyOf, List.take_append_of_le_length hw,
      List.take_append_of_le_length hr]

/-- The savepoints up to `sp` have their marks inside what `sp` counts. -/
theorem copies_take (h : MarksFit t) {sp : SavepointMarks} {before : List SavepointMarks}
    (hkept : sp :: before <:+ t.savepoints.reverse) :
    let cut := { t with
      writeSet := t.writeSet.take sp.writeSetMark
      readSet := t.readSet.take sp.readSetMark
      savepoints := (sp :: before).reverse }
    MarksFit cut ∧ cut.savepoints.map cut.copyOf = (sp :: before).reverse.map t.copyOf := by
  have hordered := (List.pairwise_reverse.mpr h.ordered).sublist hkept.sublist
  have hle : ∀ q ∈ (sp :: before).reverse,
      q.writeSetMark ≤ sp.writeSetMark ∧ q.readSetMark ≤ sp.readSetMark := by
    intro q hq
    rcases List.mem_cons.mp (List.mem_reverse.mp hq) with rfl | hq
    · exact ⟨Nat.le_refl _, Nat.le_refl _⟩
    · exact List.rel_of_pairwise_cons hordered hq
  have hlive : ∀ q ∈ (sp :: before).reverse, q ∈ t.savepoints :=
    fun q hq => List.mem_reverse.mp (hkept.mem (List.mem_reverse.mp hq))
  refine ⟨⟨List.pairwise_reverse.mpr hordered, fun q hq => ?_⟩,
    List.map_congr_left fun q hq => ?_⟩
  · have hmarks := hle q hq
    have hlen := h.inside q (hlive q hq)
    simp only [List.length_take]
    omega
  · rw [TrackedSets.copyOf, TrackedSets.copyOf, List.take_take, List.take_take,
      Nat.min_eq_left (hle q hq).1, Nat.min_eq_left (hle q hq).2]

/-- The marks fit behind the step, and it is the step on the copies. -/
def Agrees (step : Option (Int × TrackedSets)) (copies : Option (Int × TransactionCopies)) : Prop :=
  (∀ p ∈ step, MarksFit p.2) ∧ step.map (Prod.map id TrackedSets.copies) = copies

theorem agrees_some {c : TransactionCopies} (r : Int) (h : MarksFit t) (hsame : t.copies = c) :
    Agrees (some (r, t)) (some (r, c)) := by
  subst hsame
  refine ⟨?_, rfl⟩
  rintro _ ⟨⟩
  exact h

theorem copies_step (h : MarksFit t) (call : TrackCall) :
    Agrees (t.step call) (t.copies.step call) := by
  cases call with
  | write entry =>
      obtain ⟨hfit, hsame⟩ := copies_append h [entry] []
      rw [List.append_nil] at hfit hsame
      exact agrees_some 0 hfit (congrArg (TransactionCopies.mk _ _ _) hsame)
  | read entry =>
      obtain ⟨hfit, hsame⟩ := copies_append h [] [entry]
      rw [List.append_nil] at hfit hsame
      have hflag : t.copies.hasReadSet = t.hasReadSet := rfl
      rw [TrackedSets.step, TrackedSets.trackRead, TransactionCopies.step, hflag]
      by_cases hread : t.hasReadSet = true
      · rw [if_pos hread, if_pos hread]
        exact agrees_some 0 hfit (congrArg (TransactionCopies.mk _ _ _) hsame)
      · rw [if_neg hread, if_neg hread]
        exact agrees_some (-1) h rfl
  | create name =>
      have hlen : t.copies.savepoints.length = t.savepoints.length := List.length_map _
      rw [TrackedSets.step, TrackedSets.createSavepoint, TransactionCopies.step, hlen]
      by_cases hroom : t.savepoints.length < savepointCapacity
      · rw [if_pos hroom, if_pos hroom]
        -- the new marks are the lengths, which no earlier mark exceeds
        refine agrees_some 0 ⟨?_, fun sp hsp => ?_⟩ ?_
        · refine List.pairwise_append.mpr ⟨h.ordered, List.pairwise_singleton _ _, ?_⟩
          intro sp hsp later hlater
          rw [List.mem_singleton.mp hlater]
          exact h.inside sp hsp
        · rcases List.mem_append.mp hsp with hsp | hsp
          · exact h.inside sp hsp
          · rw [List.mem_singleton.mp hsp]
            exact ⟨Nat.le_refl _, Nat.le_refl _⟩
        · simp [TrackedSets.copies, TrackedSets.copyOf]
      · rw [if_neg hroom, if_neg hroom]
        exact ⟨fun p hp => absurd hp (by simp), rfl⟩
  | rollbackTo name =>
      -- both look for the newest savepoint of the name
      have hfound : (t.copies.savepoints.reverse.dropWhile fun sp => sp.name ≠ name) =
          (t.savepoints.reverse.dropWhile fun sp => sp.name ≠ name).map t.copyOf := by
        rw [TrackedSets.copies, ← List.map_reverse, List.dropWhile_map]
        rfl
      rw [TrackedSets.step, TrackedSets.rollbackToSavepoint, TransactionCopies.step, hfound]
      cases hkept : t.savepoints.reverse.dropWhile fun sp => sp.name ≠ name with
      | nil => exact agrees_some (-1) h rfl
      | cons sp before =>
          obtain ⟨hfit, hsame⟩ := copies_take h (hkept ▸ List.dropWhile_suffix _)
          refine agrees_some 0 hfit ?_
          rw [← List.map_cons, ← List.map_reverse]
          exact congrArg (TransactionCopies.mk _ _ _) hsame
  | release name =>
      have hany : (t.copies.savepoints.any fun sp => sp.name = name) =
          t.savepoints.any fun sp => sp.name = name := by
        rw [TrackedSets.copies, List.any_map]
        rfl
      rw [TrackedSets.step, TrackedSets.releaseSavepoint, TransactionCopies.step, hany]
      by_cases hlive : (t.savepoints.any fun sp => sp.name = name) = true
      · have herase : (t.copies.savepoints.eraseP fun sp => sp.name = name) =
            (t.savepoints.eraseP fun sp => sp.name = name).map t.copyOf := by
          rw [TrackedSets.copies, List.eraseP_map]
          rfl
        rw [if_pos hlive, if_pos hlive, herase]
        -- marks stay in order when one of them goes
        exact agrees_some 0 ⟨h.ordered.sublist List.eraseP_sublist,
          fun sp hsp => h.inside sp (List.mem_of_mem_eraseP hsp)⟩ rfl
      · rw [if_neg hlive, if_neg hlive]
        exact agrees_some (-1) h rfl

end Simulation

/-! ## Whole transactions -/

/-- The results of the calls and what they leave. -/
def runCalls {σ : Type} (step : σ → TrackCall → Option (Int × σ)) :
    σ → List TrackCall → Option (List Int × σ)
  | t, [] => some ([], t)
  | t, call :: calls =>
      (step t call).bind fun (r, t) => (runCalls step t calls).map (Prod.map (r :: ·) id)

/-- A transaction that has tracked nothing. -/
def TrackedSets.start (hasReadSet : Bool) : TrackedSets where
  hasReadSet := hasReadSet
  writeSet := []
  readSet := []
  savepoints := []

theorem copies_run {t : TrackedSets} (h : MarksFit t) (calls : List TrackCall) :
    (runCalls TrackedSets.step t calls).map (Prod.map id TrackedSets.copies) =
      runCalls TransactionCopies.step t.copies calls := by
  induction calls generalizing t with
  | nil => rfl
  | cons call calls ih =>
      obtain ⟨hfit, hsame⟩ := copies_step h call
      rw [runCalls, runCalls, ← hsame]
      cases hstep : t.step call with
      | none => rfl
      | some p =>
          have hlater := ih (hfit _ hstep)
          simp only [Option.map_some, Option.bind_some, Prod.map]
          rw [id, ← hlater, Option.map_map, Option.map_map]
          rfl

/-- Whatever a transaction tracks, creates, rolls back to and releases, in any order and under any
names, it gets the results and the sets that copies of both sets would give it, as long as no ninth
savepoint is alive. -/
theorem marks_refine_copies (hasReadSet : Bool) (calls : List TrackCall) :
    (runCalls TrackedSets.step (.start hasReadSet) calls).map (Prod.map id TrackedSets.copies) =
      runCalls TransactionCopies.step (TrackedSets.start hasReadSet).copies calls :=
  copies_run ⟨List.Pairwise.nil, fun _ h => absurd h List.not_mem_nil⟩ calls

end Mvcc
end InventixDB
