import Webfang.Http.HttpClient
import Webfang.Lib.Checked64

/-!
# The delay before a retry

`compute_backoff_delay` in `application/http_client/retry.rs`, and the attempts it is called for by
`retry_with_backoff` and by `send_with_timeout_retry`.  Its multiplications are plain ones: where
one overflows, a build with overflow checks panics and a release build wraps.
-/

namespace Webfang.Http.Backoff

open Checked64

/-- The exponential part of `compute_backoff_delay`. -/
def exponentialDelay (checked : Bool) (attempt : UInt32) (baseMs maxMs : UInt64) :
    Option UInt64 := do
  let exponent := attempt.toNat - 1
  let factor ← pow checked 2 exponent
  let delay ← mul checked baseMs factor
  return min delay maxMs

/-- `compute_backoff_delay`, in a build with overflow checks or in one without. -/
def computeBackoffDelay (checked : Bool) (attempt : UInt32) (retryAfterSecs : Option UInt64)
    (baseMs maxMs : UInt64) : Option UInt64 :=
  match retryAfterSecs with
  | some secs =>
      if 0 < secs then mul checked secs 1000
      else exponentialDelay checked attempt baseMs maxMs
  | none => exponentialDelay checked attempt baseMs maxMs

/-- The counter `attempt` of both loops: it starts at 0, and is raised while it is below
`max_retries`. -/
inductive Counted (maxRetries : UInt32) : UInt32 → Prop
  | start : Counted maxRetries 0
  | raise {attempt : UInt32} (counted : Counted maxRetries attempt) (left : attempt < maxRetries) :
      Counted maxRetries (attempt + 1)

/-- A delay is computed for this attempt, just after the counter is raised to it. -/
def Delayed (maxRetries attempt : UInt32) : Prop :=
  ∃ before, Counted maxRetries before ∧ before < maxRetries ∧ attempt = before + 1

/-! ## What is promised -/

/-- The delay is exponential: there is no `Retry-After`, or it is zero. -/
def Exponential (retryAfterSecs : Option UInt64) : Prop :=
  retryAfterSecs = none ∨ retryAfterSecs = some 0

/-- For all attempts that are delayed, no operation overflows, and in either build the exponential
delay is the exact one, grows with the attempt and stays within the cap, while a `Retry-After` is
honoured. -/
structure Sound (maxRetries : UInt32) (retryAfterSecs : Option UInt64) (baseMs maxMs : UInt64) :
    Prop where
  fits : ∀ attempt, Delayed maxRetries attempt →
    computeBackoffDelay true attempt retryAfterSecs baseMs maxMs ≠ none
  exact : Exponential retryAfterSecs → ∀ checked attempt, Delayed maxRetries attempt →
    ∀ delay, computeBackoffDelay checked attempt retryAfterSecs baseMs maxMs = some delay →
      delay.toNat = min (baseMs.toNat * 2 ^ (attempt.toNat - 1)) maxMs.toNat
  monotone : Exponential retryAfterSecs → ∀ checked attempt later, Delayed maxRetries attempt →
    Delayed maxRetries later → attempt ≤ later →
    ∀ delay delay', computeBackoffDelay checked attempt retryAfterSecs baseMs maxMs = some delay →
      computeBackoffDelay checked later retryAfterSecs baseMs maxMs = some delay' → delay ≤ delay'
  capped : Exponential retryAfterSecs → ∀ checked attempt, Delayed maxRetries attempt →
    ∀ delay, computeBackoffDelay checked attempt retryAfterSecs baseMs maxMs = some delay →
      delay ≤ maxMs
  honoured : ∀ secs, retryAfterSecs = some secs → ∀ checked attempt, 0 < secs →
    Delayed maxRetries attempt →
    ∀ delay, computeBackoffDelay checked attempt retryAfterSecs baseMs maxMs = some delay →
      min (secs.toNat * 1000) (2 ^ 64 - 1) ≤ delay.toNat

/-- No delay is computed, or the `Retry-After` fits in milliseconds, or the delay of the last
attempt does before it is capped. -/
def Fits (maxRetries : UInt32) (retryAfterSecs : Option UInt64) (baseMs : UInt64) : Prop :=
  maxRetries = 0 ∨
    (∃ secs, retryAfterSecs = some secs ∧ 0 < secs ∧ secs.toNat * 1000 < 2 ^ 64) ∨
    Exponential retryAfterSecs ∧ maxRetries.toNat ≤ 64 ∧
      baseMs.toNat * 2 ^ (maxRetries.toNat - 1) < 2 ^ 64

/-! ## The attempts -/

theorem toNat_ofNat_of_lt {maxRetries : UInt32} {n : Nat} (left : n < maxRetries.toNat) :
    (UInt32.ofNat n).toNat = n := by
  rw [UInt32.toNat_ofNat', Nat.mod_eq_of_lt (Nat.lt_trans left maxRetries.toNat_lt)]

theorem toNat_raise {maxRetries before : UInt32} (left : before < maxRetries) :
    (before + 1).toNat = before.toNat + 1 := by
  have less := UInt32.lt_iff_toNat_lt.1 left
  have bound := maxRetries.toNat_lt
  rw [UInt32.toNat_add, show (1 : UInt32).toNat = 1 from rfl, Nat.mod_eq_of_lt (by omega)]

/-- The counter takes every value up to `max_retries`. -/
theorem counted_iff {maxRetries attempt : UInt32} :
    Counted maxRetries attempt ↔ attempt ≤ maxRetries := by
  constructor
  · intro counted
    cases counted with
    | start => exact UInt32.le_iff_toNat_le.2 (Nat.zero_le _)
    | raise counted left =>
        rw [UInt32.le_iff_toNat_le, toNat_raise left]
        exact UInt32.lt_iff_toNat_lt.1 left
  · intro le
    generalize value : attempt.toNat = n
    induction n generalizing attempt with
    | zero =>
        rw [UInt32.toNat_inj.1 (value.trans (show (0 : Nat) = (0 : UInt32).toNat from rfl))]
        exact .start
    | succ n ih =>
        rw [UInt32.le_iff_toNat_le] at le
        have before : (UInt32.ofNat n).toNat = n :=
          toNat_ofNat_of_lt (show n < maxRetries.toNat by omega)
        have left : UInt32.ofNat n < maxRetries := by
          rw [UInt32.lt_iff_toNat_lt]
          omega
        have next : attempt = UInt32.ofNat n + 1 := by
          rw [← UInt32.toNat_inj, toNat_raise left]
          omega
        rw [next]
        exact .raise (ih (UInt32.le_of_lt left) before) left

/-- A delay is computed for the attempts from 1 to `max_retries`. -/
theorem delayed_iff {maxRetries attempt : UInt32} :
    Delayed maxRetries attempt ↔ 1 ≤ attempt.toNat ∧ attempt.toNat ≤ maxRetries.toNat := by
  constructor
  · rintro ⟨before, -, left, rfl⟩
    rw [toNat_raise left]
    exact ⟨Nat.succ_pos _, UInt32.lt_iff_toNat_lt.1 left⟩
  · rintro ⟨positive, le⟩
    have before : (UInt32.ofNat (attempt.toNat - 1)).toNat = attempt.toNat - 1 :=
      toNat_ofNat_of_lt (show attempt.toNat - 1 < maxRetries.toNat by omega)
    have left : UInt32.ofNat (attempt.toNat - 1) < maxRetries := by
      rw [UInt32.lt_iff_toNat_lt]
      omega
    refine ⟨_, counted_iff.2 (UInt32.le_of_lt left), left, ?_⟩
    rw [← UInt32.toNat_inj, toNat_raise left]
    omega

/-! ## The delays -/

variable {maxRetries attempt : UInt32} {retryAfterSecs : Option UInt64} {baseMs maxMs : UInt64}

theorem toNat_min (a b : UInt64) : (min a b).toNat = min a.toNat b.toNat := by
  rw [show min a b = if a ≤ b then a else b from rfl]
  split
  case isTrue le => rw [Nat.min_eq_left (UInt64.le_iff_toNat_le.1 le)]
  case isFalse gt =>
    rw [UInt64.le_iff_toNat_le, not_le] at gt
    rw [Nat.min_eq_right (Nat.le_of_lt gt)]

/-- Where the delay fits before it is capped, it is exact in both builds. -/
theorem exponentialDelay_of_lt (small : attempt.toNat ≤ 64)
    (fits : baseMs.toNat * 2 ^ (attempt.toNat - 1) < 2 ^ 64) (positive : 1 ≤ attempt.toNat)
    (checked : Bool) : ∃ delay, exponentialDelay checked attempt baseMs maxMs = some delay ∧
      delay.toNat = min (baseMs.toNat * 2 ^ (attempt.toNat - 1)) maxMs.toNat := by
  have power : 2 ^ (attempt.toNat - 1) < 2 ^ 64 :=
    Nat.pow_lt_pow_right Nat.one_lt_two (by omega)
  obtain ⟨factor, pow_eq, toNat_factor⟩ := outcome_of_lt power checked
  rw [← toNat_factor] at fits
  obtain ⟨delay, mul_eq, toNat_delay⟩ := outcome_of_lt fits checked
  refine ⟨min delay maxMs, ?_, ?_⟩
  · rw [exponentialDelay]
    change (pow checked 2 (attempt.toNat - 1)).bind _ = _
    rw [show pow checked 2 (attempt.toNat - 1) = some factor from pow_eq, Option.bind_some]
    change (mul checked baseMs factor).bind _ = _
    rw [show mul checked baseMs factor = some delay from mul_eq]
    rfl
  · rw [toNat_min, toNat_delay, toNat_factor]

/-- A checked build computes a delay only where both operations fit. -/
theorem exponentialDelay_checked (given : exponentialDelay true attempt baseMs maxMs ≠ none) :
    2 ^ (attempt.toNat - 1) < 2 ^ 64 ∧ baseMs.toNat * 2 ^ (attempt.toNat - 1) < 2 ^ 64 := by
  obtain ⟨capped, given⟩ := Option.ne_none_iff_exists'.1 given
  obtain ⟨factor, pow_eq, given⟩ := Option.bind_eq_some_iff.1 given
  obtain ⟨delay, mul_eq, -⟩ := Option.bind_eq_some_iff.1 given
  obtain ⟨power, toNat_factor⟩ := outcome_true_eq_some pow_eq
  obtain ⟨product, -⟩ := outcome_true_eq_some mul_eq
  rw [toNat_factor] at product
  exact ⟨power, product⟩

theorem computeBackoffDelay_exponential (exponential : Exponential retryAfterSecs)
    (checked : Bool) (attempt : UInt32) :
    computeBackoffDelay checked attempt retryAfterSecs baseMs maxMs =
      exponentialDelay checked attempt baseMs maxMs := by
  rcases exponential with rfl | rfl
  · rfl
  · rw [computeBackoffDelay, if_neg (UInt64.lt_irrefl 0)]

theorem computeBackoffDelay_retryAfter {secs : UInt64} (positive : 0 < secs) (checked : Bool)
    (attempt : UInt32) :
    computeBackoffDelay checked attempt (some secs) baseMs maxMs = mul checked secs 1000 :=
  if_pos positive

/-- A `Retry-After` that is positive, or an exponential delay. -/
theorem positive_or_exponential (retryAfterSecs : Option UInt64) :
    (∃ secs, retryAfterSecs = some secs ∧ 0 < secs) ∨ Exponential retryAfterSecs := by
  cases retryAfterSecs with
  | none => exact .inr (.inl rfl)
  | some secs =>
      rcases eq_or_ne secs 0 with rfl | nonzero
      · exact .inr (.inr rfl)
      · exact .inl ⟨secs, rfl, UInt64.pos_iff_ne_zero.2 nonzero⟩

/-! ## What is kept -/

theorem fits_of_sound (sound : Sound maxRetries retryAfterSecs baseMs maxMs) :
    Fits maxRetries retryAfterSecs baseMs := by
  rcases eq_or_ne maxRetries 0 with none_left | some_left
  · exact .inl none_left
  · have delayed : Delayed maxRetries maxRetries := by
      have nonzero : maxRetries.toNat ≠ 0 := fun zero =>
        some_left (UInt32.toNat_inj.1 zero)
      exact delayed_iff.2 ⟨by omega, Nat.le_refl _⟩
    have given := sound.fits maxRetries delayed
    rcases positive_or_exponential retryAfterSecs with ⟨secs, rfl, positive⟩ | exponential
    · rw [computeBackoffDelay_retryAfter positive] at given
      obtain ⟨delay, mul_eq⟩ := Option.ne_none_iff_exists'.1 given
      exact .inr (.inl ⟨secs, rfl, positive, (outcome_true_eq_some mul_eq).1⟩)
    · rw [computeBackoffDelay_exponential exponential] at given
      obtain ⟨power, product⟩ := exponentialDelay_checked given
      have small := (Nat.pow_lt_pow_iff_right Nat.one_lt_two).1 power
      exact .inr (.inr ⟨exponential, by omega, product⟩)

/-- The exponential delay of each attempt, where that of the last one fits. -/
theorem delay_of_fits (exponential : Exponential retryAfterSecs) (small : maxRetries.toNat ≤ 64)
    (fits : baseMs.toNat * 2 ^ (maxRetries.toNat - 1) < 2 ^ 64)
    (delayed : Delayed maxRetries attempt) (checked : Bool) :
    ∃ delay, computeBackoffDelay checked attempt retryAfterSecs baseMs maxMs = some delay ∧
      delay.toNat = min (baseMs.toNat * 2 ^ (attempt.toNat - 1)) maxMs.toNat := by
  obtain ⟨positive, le⟩ := delayed_iff.1 delayed
  rw [computeBackoffDelay_exponential exponential]
  refine exponentialDelay_of_lt (by omega) (Nat.lt_of_le_of_lt ?_ fits) positive checked
  exact Nat.mul_le_mul_left _ (Nat.pow_le_pow_right Nat.two_pos (by omega))

theorem sound_of_exponential (exponential : Exponential retryAfterSecs)
    (small : maxRetries.toNat ≤ 64)
    (fits : baseMs.toNat * 2 ^ (maxRetries.toNat - 1) < 2 ^ 64) :
    Sound maxRetries retryAfterSecs baseMs maxMs := by
  have exact : ∀ checked attempt, Delayed maxRetries attempt →
      ∀ delay, computeBackoffDelay checked attempt retryAfterSecs baseMs maxMs = some delay →
        delay.toNat = min (baseMs.toNat * 2 ^ (attempt.toNat - 1)) maxMs.toNat := by
    intro checked attempt delayed delay given
    obtain ⟨delay', given', value⟩ := delay_of_fits exponential small fits delayed checked
    rw [given, Option.some.injEq] at given'
    rw [given', value]
  refine ⟨?_, fun _ => exact, ?_, ?_, ?_⟩
  · intro attempt delayed
    obtain ⟨delay, given, -⟩ := delay_of_fits exponential small fits delayed true
    rw [given]
    exact Option.some_ne_none delay
  · intro _ checked attempt later delayed delayed' le delay delay' given given'
    rw [UInt64.le_iff_toNat_le, exact checked attempt delayed delay given,
      exact checked later delayed' delay' given']
    have grows : baseMs.toNat * 2 ^ (attempt.toNat - 1) ≤ baseMs.toNat * 2 ^ (later.toNat - 1) :=
      Nat.mul_le_mul_left _
        (Nat.pow_le_pow_right Nat.two_pos (Nat.sub_le_sub_right (UInt32.le_iff_toNat_le.1 le) 1))
    omega
  · intro _ checked attempt delayed delay given
    rw [UInt64.le_iff_toNat_le, exact checked attempt delayed delay given]
    exact Nat.min_le_right _ _
  · intro secs same checked attempt positive
    rcases exponential with rfl | rfl
    · cases same
    · cases same
      exact absurd positive (UInt64.lt_irrefl 0)

theorem sound_of_retryAfter {secs : UInt64} (positive : 0 < secs)
    (fits : secs.toNat * 1000 < 2 ^ 64) : Sound maxRetries (some secs) baseMs maxMs := by
  have never : ¬ Exponential (some secs) := by
    rintro (none_ | zero)
    · cases none_
    · rw [Option.some.injEq] at zero
      exact absurd positive (zero ▸ UInt64.lt_irrefl 0)
  refine ⟨?_, fun exponential => absurd exponential never,
    fun exponential => absurd exponential never, fun exponential => absurd exponential never, ?_⟩
  · intro attempt _
    obtain ⟨delay, given, -⟩ := outcome_of_lt fits true
    rw [computeBackoffDelay_retryAfter positive]
    exact fun none_ => Option.some_ne_none delay (given.symm.trans none_)
  · intro secs' same checked attempt _ _ delay given
    cases same
    obtain ⟨delay', given', value⟩ := outcome_of_lt fits checked
    rw [computeBackoffDelay_retryAfter positive] at given
    have equal := Option.some.inj (given.symm.trans given')
    rw [equal, value]
    exact Nat.min_le_left _ _

variable (maxRetries retryAfterSecs baseMs maxMs)

/-- The arithmetic is sound just where the `Retry-After` fits in milliseconds, or the delay of the
last attempt fits before it is capped and there are at most 64 attempts. -/
theorem sound_iff_fits :
    Sound maxRetries retryAfterSecs baseMs maxMs ↔ Fits maxRetries retryAfterSecs baseMs := by
  constructor
  · exact fits_of_sound
  · rintro (rfl | ⟨secs, rfl, positive, fits⟩ | ⟨exponential, small, fits⟩)
    · have never : ∀ attempt, ¬ Delayed 0 attempt := fun attempt delayed => by
        obtain ⟨positive, le⟩ := delayed_iff.1 delayed
        have zero : (0 : UInt32).toNat = 0 := rfl
        omega
      exact ⟨fun a delayed => absurd delayed (never a),
        fun _ _ a delayed => absurd delayed (never a),
        fun _ _ a _ delayed => absurd delayed (never a),
        fun _ _ a delayed => absurd delayed (never a),
        fun _ _ _ a _ delayed => absurd delayed (never a)⟩
    · exact sound_of_retryAfter positive fits
    · exact sound_of_exponential exponential small fits

/-- With a base of a second, attempt 56 overflows; a `Retry-After` that a server chooses so makes
a release build wait for 384 ms. -/
theorem overflows :
    ¬ Sound 56 none 1000 30000 ∧ ¬ Sound 1 (some 18446744073709552) 1000 30000 := by
  constructor
  · intro sound
    exact sound.fits 56 (delayed_iff.2 ⟨by decide, by decide⟩) rfl
  · intro sound
    exact absurd (sound.honoured 18446744073709552 rfl false 1 (by decide)
      (delayed_iff.2 ⟨by decide, by decide⟩) 384 rfl) (by decide)

example : computeBackoffDelay false 62 none 1000 30000 = some 0 := rfl

end Webfang.Http.Backoff
