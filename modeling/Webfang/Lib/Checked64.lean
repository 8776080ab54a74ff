import Mathlib.Algebra.Group.Nat.Defs

/-!
# Unsigned 64-bit arithmetic with overflow checks

An operation computes an exact number first.  Where that does not fit, a checked build stops and
an unchecked build keeps the low 64 bits.
-/

namespace Checked64

/-- What is left of the exact number. -/
def outcome (checked : Bool) (exact : Nat) : Option UInt64 :=
  if checked ∧ 2 ^ 64 ≤ exact then none else some (UInt64.ofNat exact)

def add (checked : Bool) (a b : UInt64) : Option UInt64 :=
  outcome checked (a.toNat + b.toNat)

def mul (checked : Bool) (a b : UInt64) : Option UInt64 :=
  outcome checked (a.toNat * b.toNat)

def pow (checked : Bool) (a : UInt64) (n : Nat) : Option UInt64 :=
  outcome checked (a.toNat ^ n)

/-- A shift overflows where it is as wide as the number; bits that are shifted out are lost. -/
def shiftLeft (checked : Bool) (a : UInt64) (n : Nat) : Option UInt64 :=
  if checked ∧ 64 ≤ n then none else some (UInt64.ofNat (a.toNat * 2 ^ (n % 64)))

/-- The operation fits, and gives the exact number in both builds. -/
theorem outcome_of_lt {exact : Nat} (fits : exact < 2 ^ 64) (checked : Bool) :
    ∃ d, outcome checked exact = some d ∧ d.toNat = exact := by
  refine ⟨UInt64.ofNat exact, if_neg fun overflow => ?_, ?_⟩
  · exact absurd overflow.2 (Nat.not_le.2 fits)
  · rw [UInt64.toNat_ofNat', Nat.mod_eq_of_lt fits]

/-- A checked build gives a number just if the exact one fits. -/
theorem outcome_true_eq_some {exact : Nat} {d : UInt64} (given : outcome true exact = some d) :
    exact < 2 ^ 64 ∧ d.toNat = exact := by
  have fits : exact < 2 ^ 64 := by
    refine Nat.lt_of_not_le fun large => ?_
    rw [outcome, if_pos ⟨rfl, large⟩] at given
    cases given
  obtain ⟨d', given', same⟩ := outcome_of_lt fits true
  rw [given, Option.some.injEq] at given'
  exact ⟨fits, given' ▸ same⟩

/-- A shift that loses no bits. -/
theorem shiftLeft_of_lt {a : UInt64} {n : Nat} (narrow : n < 64) (fits : a.toNat * 2 ^ n < 2 ^ 64)
    (checked : Bool) : ∃ d, shiftLeft checked a n = some d ∧ d.toNat = a.toNat * 2 ^ n := by
  refine ⟨UInt64.ofNat (a.toNat * 2 ^ (n % 64)), if_neg fun overflow => ?_, ?_⟩
  · exact absurd overflow.2 (Nat.not_le.2 narrow)
  · rw [Nat.mod_eq_of_lt narrow, UInt64.toNat_ofNat', Nat.mod_eq_of_lt fits]

end Checked64
