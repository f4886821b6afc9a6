import Mathlib.Algebra.GroupWithZero.Nat
import Mathlib.Algebra.Order.Monoid.Defs
import Mathlib.Data.Nat.Basic
import Mathlib.Order.Basic

/-!
# Backoff — the delay before a retry

The delay is computed in 32 bits and capped last, so that the cap sees what is left of a delay that
did not fit.
-/

namespace InventixDB
namespace Network

/-- The fields of `TimeoutConfig` that the delay depends on. -/
structure TimeoutConfig where
  retryBackoffMs : UInt32
  retryMaxBackoffMs : UInt32
  exponentialBackoff : Bool

/-- `1 << n` in an `int` of 32 bits. -/
def shiftOne (n : Nat) : Option UInt32 :=
  if n < 31 then some (1 <<< UInt32.ofNat n) else none

/-- `n + 1` in an `int` of 32 bits. -/
def addOne (n : Nat) : Option UInt32 :=
  if n + 1 < 2 ^ 31 then some (UInt32.ofNat (n + 1)) else none

/-- `timeout_calculate_backoff` of an attempt that is not negative; `rand` is what `rand()` gives,
and `none` is undefined. -/
def timeoutCalculateBackoff (config : TimeoutConfig) (retryAttempt rand : Nat) : Option UInt32 :=
  let base := config.retryBackoffMs
  let maxBackoff := config.retryMaxBackoffMs
  let factor := if config.exponentialBackoff then shiftOne retryAttempt else addOne retryAttempt
  factor.map fun factor =>
    let backoff := base * factor
    let jitter := backoff * UInt32.ofNat (rand % 20) / 100
    let backoff := backoff + jitter
    if backoff > maxBackoff then maxBackoff else backoff

/-! ## The formula -/

/-- What the base is multiplied with. -/
def growth (config : TimeoutConfig) (attempt : Nat) : Nat :=
  if config.exponentialBackoff then 2 ^ attempt else attempt + 1

/-- The delay without jitter. -/
def plainDelay (config : TimeoutConfig) (attempt : Nat) : Nat :=
  config.retryBackoffMs.toNat * growth config attempt

/-- `delay` with a jitter of `draw` in the hundred. -/
def withJitter (delay draw : Nat) : Nat :=
  delay + delay * draw / 100

theorem growth_pos (config : TimeoutConfig) (attempt : Nat) : 0 < growth config attempt := by
  unfold growth
  split
  · exact Nat.two_pow_pos attempt
  · exact Nat.succ_pos attempt

theorem growth_mono (config : TimeoutConfig) {earlier attempt : Nat} (hle : earlier ≤ attempt) :
    growth config earlier ≤ growth config attempt := by
  unfold growth
  split
  · exact Nat.pow_le_pow_right (by decide) hle
  · exact Nat.succ_le_succ hle

theorem plainDelay_mono (config : TimeoutConfig) {earlier attempt : Nat} (hle : earlier ≤ attempt) :
    plainDelay config earlier ≤ plainDelay config attempt :=
  Nat.mul_le_mul_left _ (growth_mono config hle)

theorem base_le_plainDelay (config : TimeoutConfig) (attempt : Nat) :
    config.retryBackoffMs.toNat ≤ plainDelay config attempt :=
  Nat.le_mul_of_pos_right _ (growth_pos config attempt)

theorem withJitter_mono {delay delay' : Nat} (hle : delay ≤ delay') (draw : Nat) :
    withJitter delay draw ≤ withJitter delay' draw :=
  Nat.add_le_add hle (Nat.div_le_div_right (Nat.mul_le_mul_right draw hle))

/-! ## The same in 32 bits -/

/-- What 32 bits keep of `withJitter`: delay, product and sum each wrap. -/
def wrappedJitter (delay draw : Nat) : Nat :=
  (delay % 2 ^ 32 + delay % 2 ^ 32 * draw % 2 ^ 32 / 100) % 2 ^ 32

/-- Product and sum stay below 2^32. -/
def NoWrap (delay draw : Nat) : Prop :=
  delay * draw < 2 ^ 32 ∧ withJitter delay draw < 2 ^ 32

theorem wrappedJitter_le (delay draw : Nat) : wrappedJitter delay draw ≤ withJitter delay draw := by
  have hproduct : delay % 2 ^ 32 * draw % 2 ^ 32 ≤ delay * draw :=
    (Nat.mod_le _ _).trans (Nat.mul_le_mul_right draw (Nat.mod_le _ _))
  calc wrappedJitter delay draw
      ≤ delay % 2 ^ 32 + delay % 2 ^ 32 * draw % 2 ^ 32 / 100 := Nat.mod_le _ _
    _ ≤ withJitter delay draw :=
        Nat.add_le_add (Nat.mod_le _ _) (Nat.div_le_div_right hproduct)

/-- A wrap loses 2^32 of the delay or of the sum, or at least 2^32 / 100 of the jitter. -/
theorem wrappedJitter_eq_iff (delay draw : Nat) :
    wrappedJitter delay draw = withJitter delay draw ↔ NoWrap delay draw := by
  have hkept : delay % 2 ^ 32 * draw ≤ delay * draw := Nat.mul_le_mul_right draw (Nat.mod_le _ _)
  constructor
  · intro heq
    unfold wrappedJitter withJitter at heq
    have hdelay : delay % 2 ^ 32 = delay := by omega
    rw [hdelay] at heq
    unfold NoWrap withJitter
    omega
  · rintro ⟨hproduct, hsum⟩
    unfold withJitter at hsum
    have hdelay : delay % 2 ^ 32 = delay := Nat.mod_eq_of_lt (by omega)
    rw [wrappedJitter, hdelay, Nat.mod_eq_of_lt hproduct, Nat.mod_eq_of_lt hsum]
    rfl

/-! ## The result -/

theorem shiftOne_spec {n : Nat} (hlt : n < 31) :
    ∃ factor, shiftOne n = some factor ∧ factor.toNat = 2 ^ n := by
  have hpow : 2 ^ n < 2 ^ 32 := Nat.pow_lt_pow_right (by decide) (by omega)
  refine ⟨_, if_pos hlt, ?_⟩
  rw [UInt32.toNat_shiftLeft, UInt32.toNat_ofNat', Nat.mod_eq_of_lt (show n < 2 ^ 32 by omega),
    Nat.mod_eq_of_lt (show n < 32 by omega), Nat.shiftLeft_eq]
  change 1 * 2 ^ n % 2 ^ 32 = 2 ^ n
  rw [Nat.one_mul, Nat.mod_eq_of_lt hpow]

theorem addOne_spec {n : Nat} (hlt : n + 1 < 2 ^ 31) :
    ∃ factor, addOne n = some factor ∧ factor.toNat = n + 1 :=
  ⟨_, if_pos hlt, UInt32.toNat_ofNat_of_lt' (by change n + 1 < 2 ^ 32; omega)⟩

/-- The attempts whose factor an `int` holds. -/
def InRange (config : TimeoutConfig) (attempt : Nat) : Prop :=
  if config.exponentialBackoff then attempt < 31 else attempt + 1 < 2 ^ 31

theorem InRange.of_le {config : TimeoutConfig} {earlier attempt : Nat}
    (hrange : InRange config attempt) (hle : earlier ≤ attempt) : InRange config earlier := by
  unfold InRange at hrange ⊢
  split at hrange
  · rename_i hexponential
    rw [if_pos hexponential]
    exact hle.trans_lt hrange
  · rename_i hlinear
    rw [if_neg hlinear]
    exact (Nat.succ_le_succ hle).trans_lt hrange

/-- The delay wrapped and then capped. -/
theorem timeoutCalculateBackoff_spec {config : TimeoutConfig} {attempt : Nat}
    (hrange : InRange config attempt) (rand : Nat) :
    ∃ delay, timeoutCalculateBackoff config attempt rand = some delay ∧
      delay.toNat = min config.retryMaxBackoffMs.toNat
        (wrappedJitter (plainDelay config attempt) (rand % 20)) := by
  have hfactor : ∃ factor,
      (if config.exponentialBackoff then shiftOne attempt else addOne attempt) = some factor ∧
        factor.toNat = growth config attempt := by
    unfold InRange at hrange
    unfold growth
    cases hkind : config.exponentialBackoff with
    | true =>
        rw [hkind, if_pos rfl] at hrange
        exact shiftOne_spec hrange
    | false =>
        rw [hkind, if_neg Bool.false_ne_true] at hrange
        exact addOne_spec hrange
  obtain ⟨factor, hfactor, hgrowth⟩ := hfactor
  have hsum : (config.retryBackoffMs * factor + config.retryBackoffMs * factor *
      UInt32.ofNat (rand % 20) / 100).toNat =
        wrappedJitter (plainDelay config attempt) (rand % 20) := by
    have hdraw : (UInt32.ofNat (rand % 20)).toNat = rand % 20 :=
      UInt32.toNat_ofNat_of_lt' (by change rand % 20 < 2 ^ 32; omega)
    have hproduct :
        (config.retryBackoffMs * factor).toNat = plainDelay config attempt % 2 ^ 32 := by
      rw [UInt32.toNat_mul, hgrowth]
      rfl
    rw [UInt32.toNat_add, UInt32.toNat_div, UInt32.toNat_mul _ (UInt32.ofNat _), hproduct, hdraw]
    rfl
  refine ⟨_, by rw [timeoutCalculateBackoff, hfactor, Option.map_some], ?_⟩
  simp only [gt_iff_lt, UInt32.lt_iff_toNat_lt]
  rw [← hsum]
  split
  · rename_i hover
    exact (min_eq_left (Nat.le_of_lt hover)).symm
  · rename_i hunder
    exact (min_eq_right (Nat.le_of_not_lt hunder)).symm

theorem timeoutCalculateBackoff_eq_none {config : TimeoutConfig} {attempt : Nat}
    (hrange : ¬ InRange config attempt) (rand : Nat) :
    timeoutCalculateBackoff config attempt rand = none := by
  unfold InRange at hrange
  unfold timeoutCalculateBackoff
  split at hrange
  · rename_i hexponential
    rw [if_pos hexponential, shiftOne, if_neg hrange]
    rfl
  · rename_i hlinear
    rw [if_neg hlinear, addOne, if_neg hrange]
    rfl

/-- The delay of an attempt is the formula's, it is no less than the smaller of base and maximum,
and no earlier attempt with the same draw has a longer one. -/
def MeetsFormula (config : TimeoutConfig) (attempt rand : Nat) : Prop :=
  ∃ delay, timeoutCalculateBackoff config attempt rand = some delay ∧
    delay.toNat = min config.retryMaxBackoffMs.toNat
      (withJitter (plainDelay config attempt) (rand % 20)) ∧
    min config.retryBackoffMs.toNat config.retryMaxBackoffMs.toNat ≤ delay.toNat ∧
    ∀ earlier ≤ attempt, ∃ before,
      timeoutCalculateBackoff config earlier rand = some before ∧ before ≤ delay

/-- A wrapped delay goes unnoticed where the cap is no longer than what the wrap leaves. -/
def Fits (config : TimeoutConfig) (attempt draw : Nat) : Prop :=
  InRange config attempt ∧
    (NoWrap (plainDelay config attempt) draw ∨
      config.retryMaxBackoffMs.toNat ≤ wrappedJitter (plainDelay config attempt) draw)

theorem min_wrappedJitter_eq_iff (limit delay draw : Nat) :
    min limit (wrappedJitter delay draw) = min limit (withJitter delay draw) ↔
      NoWrap delay draw ∨ limit ≤ wrappedJitter delay draw := by
  rw [← wrappedJitter_eq_iff]
  have hle := wrappedJitter_le delay draw
  omega

theorem meetsFormula_iff (config : TimeoutConfig) (attempt rand : Nat) :
    MeetsFormula config attempt rand ↔ Fits config attempt (rand % 20) := by
  constructor
  · rintro ⟨delay, hdelay, hformula, -⟩
    have hrange : InRange config attempt := by
      by_contra hrange
      rw [timeoutCalculateBackoff_eq_none hrange] at hdelay
      cases hdelay
    obtain ⟨_, hcomputed, hwrapped⟩ := timeoutCalculateBackoff_spec hrange rand
    obtain rfl := Option.some_inj.mp (hdelay.symm.trans hcomputed)
    exact ⟨hrange, (min_wrappedJitter_eq_iff _ _ _).mp (hwrapped.symm.trans hformula)⟩
  · rintro ⟨hrange, hfits⟩
    obtain ⟨delay, hdelay, hwrapped⟩ := timeoutCalculateBackoff_spec hrange rand
    have hformula := hwrapped.trans ((min_wrappedJitter_eq_iff _ _ _).mpr hfits)
    refine ⟨delay, hdelay, hformula, ?_, fun earlier hle => ?_⟩
    · have hbase : config.retryBackoffMs.toNat ≤
          withJitter (plainDelay config attempt) (rand % 20) :=
        (base_le_plainDelay config attempt).trans (Nat.le_add_right _ _)
      rw [hformula]
      omega
    · obtain ⟨before, hbefore, hearlier⟩ := timeoutCalculateBackoff_spec (hrange.of_le hle) rand
      refine ⟨before, hbefore, UInt32.le_iff_toNat_le.mpr ?_⟩
      rw [hearlier, hformula]
      -- an earlier delay may have wrapped, but that only made it shorter
      exact min_le_min_left _
        ((wrappedJitter_le _ _).trans (withJitter_mono (plainDelay_mono config hle) _))

/-- The default configuration at attempt 30, where `100 * 2^30` wraps to 0. -/
theorem not_meetsFormula_defaults :
    ¬ ∀ (config : TimeoutConfig) (attempt rand : Nat),
      attempt < 2 ^ 31 → MeetsFormula config attempt rand := by
  intro hall
  obtain ⟨delay, hdelay, hformula, -⟩ := hall ⟨100, 5000, true⟩ 30 0 (by decide)
  have hzero : timeoutCalculateBackoff ⟨100, 5000, true⟩ 30 0 = some 0 := by decide
  obtain rfl := Option.some_inj.mp (hzero.symm.trans hdelay)
  exact absurd hformula (by decide)

end Network
end InventixDB
