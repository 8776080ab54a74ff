import Webfang.Lib.Checked64
import Webfang.Lib.Json

/-!
# Numerals

Digits to a base, the number they denote, and a reader that works in 64 bits and gives up where the
number does not fit.
-/

namespace Numerals

open Checked64

/-- `char::is_digit`. -/
def isDigit (base : Nat) (c : Char) : Bool := (Json.hexDigit c).any (· < base)

/-- The value of a digit. -/
def digitValue (c : Char) : Nat := (Json.hexDigit c).getD 0

/-- The number that digits continue. -/
def numeral (base front : Nat) (digits : List Char) : Nat :=
  digits.foldl (fun n c => n * base + digitValue c) front

/-- `u64::from_str_radix`, from the number in front of the digits on. -/
def fromStrRadix (base : Nat) : UInt64 → List Char → Option UInt64
  | front, [] => some front
  | front, c :: digits => do
      let digit ← Json.hexDigit c
      let shifted ← mul true front (UInt64.ofNat base)
      let next ← add true shifted (UInt64.ofNat digit)
      if digit < base then fromStrRadix base next digits else none

variable {base front : Nat} {digits : List Char}

theorem numeral_cons (base front : Nat) (c : Char) (digits : List Char) :
    numeral base front (c :: digits) = numeral base (front * base + digitValue c) digits := rfl

theorem le_numeral (positive : 1 ≤ base) (front : Nat) (digits : List Char) :
    front ≤ numeral base front digits := by
  induction digits generalizing front with
  | nil => exact Nat.le_refl _
  | cons c digits ih =>
      rw [numeral_cons]
      exact Nat.le_trans (Nat.le_trans (Nat.le_mul_of_pos_right front positive) (Nat.le_add_right _ _))
        (ih _)

theorem isDigit_eq_true {c : Char} (digit : isDigit base c = true) :
    Json.hexDigit c = some (digitValue c) ∧ digitValue c < base := by
  rw [isDigit] at digit
  cases value : Json.hexDigit c with
  | none =>
      rw [value] at digit
      cases digit
  | some n =>
      rw [value, Option.any_some, decide_eq_true_eq] at digit
      rw [digitValue, value, Option.getD_some]
      exact ⟨rfl, digit⟩

/-- The reader gives the number where it fits, and nothing where it does not. -/
theorem fromStrRadix_eq (positive : 1 ≤ base) (small : base ≤ 16) {front : UInt64}
    (valid : ∀ c ∈ digits, isDigit base c = true) (v : UInt64) :
    fromStrRadix base front digits = some v ↔ v.toNat = numeral base front.toNat digits := by
  induction digits generalizing front with
  | nil =>
      rw [fromStrRadix, Option.some.injEq, ← UInt64.toNat_inj]
      exact eq_comm
  | cons c digits ih =>
      obtain ⟨value, below⟩ := isDigit_eq_true (valid c List.mem_cons_self)
      have base_eq : (UInt64.ofNat base).toNat = base := by
        rw [UInt64.toNat_ofNat', Nat.mod_eq_of_lt (by omega)]
      have digit_eq : (UInt64.ofNat (digitValue c)).toNat = digitValue c := by
        rw [UInt64.toNat_ofNat', Nat.mod_eq_of_lt (by omega)]
      have later (front : UInt64) := @ih front fun d member => valid d (List.mem_cons_of_mem c member)
      rw [numeral_cons]
      by_cases fits : front.toNat * base + digitValue c < 2 ^ 64
      · obtain ⟨shifted, mul_eq, toNat_shifted⟩ :=
          outcome_of_lt (Nat.lt_of_le_of_lt (Nat.le_add_right _ _) fits) true
        rw [← toNat_shifted, ← digit_eq] at fits
        obtain ⟨next, add_eq, toNat_next⟩ := outcome_of_lt fits true
        have read : fromStrRadix base front (c :: digits) = fromStrRadix base next digits := by
          rw [fromStrRadix, value, Option.bind_eq_bind, Option.bind_some, mul, base_eq, mul_eq,
            Option.bind_eq_bind, Option.bind_some, add, add_eq, Option.bind_some,
            if_pos below]
        rw [read, later, toNat_next, toNat_shifted, digit_eq]
      · refine iff_of_false (fun read => fits ?_) fun same => fits ?_
        · obtain ⟨digit, digit_is, read⟩ := Option.bind_eq_some_iff.1 read
          obtain ⟨shifted, mul_eq, read⟩ := Option.bind_eq_some_iff.1 read
          obtain ⟨next, add_eq, -⟩ := Option.bind_eq_some_iff.1 read
          rw [value, Option.some.injEq] at digit_is
          obtain ⟨-, toNat_shifted⟩ := outcome_true_eq_some mul_eq
          obtain ⟨small, -⟩ := outcome_true_eq_some add_eq
          rwa [toNat_shifted, base_eq, ← digit_is, digit_eq] at small
        · have bound := v.toNat_lt
          have below := le_numeral positive (front.toNat * base + digitValue c) digits
          omega

end Numerals
