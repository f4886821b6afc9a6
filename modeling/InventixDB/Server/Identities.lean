import InventixDB.Lib.Runs
import InventixDB.Server.Persistence

/-!
# Identities — user ids and names over creations and deletions

A new user gets the number of users plus one as its id, and its name is cut to the field; both are
free again or taken already in ways the search for the whole name does not see.
-/

namespace InventixDB
namespace Server

open Storage
open Lib

/-! ## Creations and deletions -/

/-- `salt` and `hash` are what hashing the password gives. -/
inductive IdentityCall
  | create (username password role salt hash : CStr)
  | delete (username : CStr)

namespace SecurityContext

variable (ctx : SecurityContext)

/-- A call that is refused changes nothing. -/
def identify : IdentityCall → SecurityContext
  | .create username password role salt hash =>
      (ctx.createUser username password role salt hash).getD ctx
  | .delete username => (ctx.deleteUser username).getD ctx

/-- No two users share an id or a name. -/
structure Distinct : Prop where
  ids : (ctx.users.map User.userId).Nodup
  names : (ctx.users.map User.username).Nodup

/-- A creation that succeeds makes the search for its name return the new user. -/
def Finds : IdentityCall → Prop
  | .create username password role salt hash =>
      ∀ after ∈ ctx.createUser username password role salt hash,
        ∃ user, after.users = ctx.users ++ [user] ∧ after.findUser username = some user
  | .delete _ => True

/-- A user is only made of a name that is free, a password that passes, and with room left. -/
def AdmitsUser (username password : CStr) : Prop :=
  ctx.findUser username = none ∧ ctx.validatePassword password = true ∧ ctx.users.length < maxUsers

/-- A user that is made has a name that fits the field, and the number that becomes its id is
free. -/
def Fits : IdentityCall → Prop
  | .create username password _ _ _ =>
      ctx.AdmitsUser username password →
        username.length < 64 ∧ ∀ user ∈ ctx.users, user.userId ≠ ctx.users.length + 1
  | .delete _ => True

/-- The users are told apart in every state of the run, and each new one is found. -/
def StaysIdentified : SecurityContext → List IdentityCall → Prop
  | ctx, [] => ctx.Distinct
  | ctx, call :: calls => ctx.Distinct ∧ ctx.Finds call ∧ (ctx.identify call).StaysIdentified calls

/-- Every call fits the state it is made in. -/
def CallsFit : SecurityContext → List IdentityCall → Prop
  | _, [] => True
  | ctx, call :: calls => ctx.Fits call ∧ (ctx.identify call).CallsFit calls

/-! ## One call -/

variable {ctx} {after : SecurityContext} {username password role salt hash : CStr}

theorem createUser_appends
    (hcreate : ctx.createUser username password role salt hash = some after) :
    ctx.findUser username = none ∧
      ∃ user : User, user.username = CStr.snprintf 64 username ∧
        user.userId = ctx.users.length + 1 ∧ after.users = ctx.users ++ [user] := by
  unfold createUser at hcreate
  split at hcreate
  · cases hcreate
  · next hfind =>
      split at hcreate
      · cases hcreate
      · split at hcreate
        · cases hcreate
        · cases hcreate
          exact ⟨by simpa using hfind, _, rfl, rfl, rfl⟩

theorem isSome_createUser_iff :
    (ctx.createUser username password role salt hash).isSome ↔
      ctx.AdmitsUser username password := by
  unfold createUser AdmitsUser
  cases ctx.findUser username with
  | some user => simp
  | none =>
      cases ctx.validatePassword password with
      | false => simp
      | true =>
          by_cases hfull : maxUsers ≤ ctx.users.length
          · simp [hfull, Nat.not_lt.mpr hfull]
          · simp [hfull, Nat.lt_of_not_le hfull]

theorem username_ne_of_findUser (hfind : ctx.findUser username = none) :
    ∀ user ∈ ctx.users, user.username ≠ username := by
  intro user huser heq
  have hnot := List.find?_eq_none.mp hfind user huser
  simp [heq] at hnot

/-- A deletion leaves users that are told apart. -/
theorem Distinct.delete (h : ctx.Distinct) (username : CStr) :
    (ctx.identify (.delete username)).Distinct := by
  cases hdelete : ctx.deleteUser username with
  | none =>
      rw [SecurityContext.identify, hdelete]
      exact h
  | some after =>
      rw [SecurityContext.identify, hdelete, Option.getD_some, deleteUser_eq_some hdelete]
      have hsub := List.eraseIdx_sublist ctx.users
        (ctx.users.findIdx fun u => u.username = username)
      exact ⟨h.ids.sublist (hsub.map _), h.names.sublist (hsub.map _)⟩

/-- The new user is told apart and found exactly if the creation fits. -/
theorem distinct_create_iff (h : ctx.Distinct)
    (hcreate : ctx.createUser username password role salt hash = some after) :
    (ctx.Finds (.create username password role salt hash) ∧ after.Distinct) ↔
      username.length < 64 ∧ ∀ user ∈ ctx.users, user.userId ≠ ctx.users.length + 1 := by
  obtain ⟨hnone, user, hname, hid, husers⟩ := createUser_appends hcreate
  have hothers := username_ne_of_findUser hnone
  -- the search passes over the old users
  have hfind : after.findUser username =
      if user.username = username then some user else none := by
    rw [findUser, husers, List.find?_append]
    change (ctx.findUser username).or _ = _
    rw [hnone, Option.none_or, List.find?_singleton]
    simp
  have hids : (after.users.map User.userId).Nodup ↔
      ∀ found ∈ ctx.users, found.userId ≠ ctx.users.length + 1 := by
    rw [husers, List.map_append, List.map_singleton, List.nodup_append, hid]
    simp only [h.ids, List.nodup_singleton, true_and, List.mem_map, List.mem_singleton,
      forall_exists_index, and_imp, forall_apply_eq_imp_iff₂, forall_eq]
  constructor
  · rintro ⟨hfinds, hafter⟩
    refine ⟨?_, hids.mp hafter.ids⟩
    obtain ⟨found, _, hfound⟩ := hfinds after hcreate
    rw [hfind] at hfound
    split at hfound
    · next hsame =>
        rw [← hsame, hname]
        exact CStr.length_snprintf_lt (by decide) username
    · cases hfound
  · rintro ⟨hlength, hfree⟩
    have hsame : user.username = username := by
      rw [hname, CStr.snprintf_of_lt hlength]
    refine ⟨fun after' hafter' => ?_, hids.mpr hfree, ?_⟩
    · cases hcreate.symm.trans hafter'
      exact ⟨user, husers, by rw [hfind, if_pos hsame]⟩
    · rw [husers, List.map_append, List.map_singleton, List.nodup_append, hsame]
      simp only [h.names, List.nodup_singleton, true_and, List.mem_map, List.mem_singleton,
        forall_exists_index, and_imp, forall_apply_eq_imp_iff₂, forall_eq]
      exact hothers

/-- A call keeps the users told apart exactly if it fits. -/
theorem distinct_identify_iff (h : ctx.Distinct) (call : IdentityCall) :
    (ctx.Finds call ∧ (ctx.identify call).Distinct) ↔ ctx.Fits call := by
  cases call with
  | create username password role salt hash =>
      have hadmits := @isSome_createUser_iff ctx username password role salt hash
      cases hcreate : ctx.createUser username password role salt hash with
      | none =>
          rw [hcreate] at hadmits
          rw [SecurityContext.identify, Finds, Fits, hcreate, ← hadmits]
          exact iff_of_true ⟨nofun, h⟩ nofun
      | some after =>
          rw [hcreate] at hadmits
          have hiff := distinct_create_iff h hcreate
          rw [SecurityContext.identify, hcreate, Option.getD_some, hiff, Fits, ← hadmits]
          exact ⟨fun hfits _ => hfits, fun hfits => hfits rfl⟩
  | delete username => exact iff_of_true ⟨trivial, h.delete username⟩ trivial

/-! ## Runs -/

theorem staysIdentified_iff (h : ctx.Distinct) (calls : List IdentityCall) :
    ctx.StaysIdentified calls ↔ ctx.CallsFit calls := by
  induction calls generalizing ctx with
  | nil => exact iff_of_true h trivial
  | cons call calls ih =>
      have hcall := distinct_identify_iff h call
      rw [StaysIdentified, CallsFit, ← hcall]
      constructor
      · rintro ⟨_, hfinds, hrest⟩
        have hafter : (ctx.identify call).Distinct := by
          cases calls with
          | nil => exact hrest
          | cons => exact hrest.1
        exact ⟨⟨hfinds, hafter⟩, (ih hafter).mp hrest⟩
      · rintro ⟨⟨hfinds, hafter⟩, hrest⟩
        exact ⟨h, hfinds, (ih hafter).mpr hrest⟩

end SecurityContext

/-- From no users on, the users are told apart and found exactly as long as the calls fit. -/
theorem identified_iff_callsFit (ctx : SecurityContext) (calls : List IdentityCall) :
    SecurityContext.StaysIdentified { ctx with users := [] } calls ↔
      SecurityContext.CallsFit { ctx with users := [] } calls := by
  have hstart : SecurityContext.Distinct { ctx with users := [] } :=
    ⟨List.nodup_nil, List.nodup_nil⟩
  exact SecurityContext.staysIdentified_iff hstart calls

/-- Two users, the first of them deleted, and a third with the id of the second. -/
def reusedId : List IdentityCall :=
  [.create (CStr.lit "asha") (CStr.lit "Secret123") (CStr.lit "guest") (CStr.lit "") (CStr.lit ""),
    .create (CStr.lit "ravi") (CStr.lit "Secret123") (CStr.lit "guest") (CStr.lit "") (CStr.lit ""),
    .delete (CStr.lit "asha"),
    .create (CStr.lit "mira") (CStr.lit "Secret123") (CStr.lit "guest") (CStr.lit "") (CStr.lit "")]

theorem reusedId_shared : ¬ ∀ calls : List IdentityCall,
    SecurityContext.default.StaysIdentified calls := by
  intro h
  have hids : ((((((SecurityContext.default.identify reusedId[0]).identify reusedId[1]).identify
      reusedId[2]).identify reusedId[3]).users.map User.userId)) = [2, 2] := by
    decide +kernel
  have hnodup := (h reusedId).2.2.2.2.2.2.2.2.ids
  exact absurd (hids ▸ hnodup) (by decide)

end Server
end InventixDB
