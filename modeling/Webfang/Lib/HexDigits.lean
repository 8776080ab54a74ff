import Mathlib.Data.List.Basic
import Std.Data.String.ToNat

/-!
# Numbers in base sixteen

The digits of a number in lower case, with or without zeros in front, determine it.
-/

namespace HexDigits

/-- The value of a digit in lower case. -/
def digitValue (c : Char) : Nat := if c ≤ '9' then c.toNat - '0'.toNat else c.toNat - 'a'.toNat + 10

/-- The number that digits continue. -/
def value (front : Nat) (digits : List Char) : Nat :=
  digits.foldl (fun n c => n * 16 + digitValue c) front

theorem digitValue_digitChar : ∀ digit : Fin 16, digitValue (Nat.digitChar digit) = digit := by
  decide

theorem value_append (front : Nat) (digits more : List Char) :
    value front (digits ++ more) = value (value front digits) more := List.foldl_append

theorem value_toDigits (n : Nat) : value 0 (Nat.toDigits 16 n) = n := by
  induction n using Nat.strongRecOn with
  | ind n ih =>
      rw [Nat.toDigits_eq_if (by decide)]
      split
      case isTrue small =>
        have last := digitValue_digitChar ⟨n, small⟩
        rw [value, List.foldl_cons, List.foldl_nil, Nat.zero_mul, Nat.zero_add]
        exact last
      case isFalse large =>
        have last := digitValue_digitChar ⟨n % 16, Nat.mod_lt n (by decide)⟩
        rw [value_append, ih (n / 16) (by omega), value, List.foldl_cons, List.foldl_nil, last]
        exact Nat.div_add_mod' n 16

theorem value_zeros (count : Nat) (digits : List Char) :
    value 0 (List.replicate count '0' ++ digits) = value 0 digits := by
  induction count with
  | zero => rfl
  | succ count ih =>
      rw [List.replicate_succ, List.cons_append, value, List.foldl_cons]
      exact ih

/-- Digits with zeros in front determine the number. -/
theorem padded_injective {n m count count' : Nat}
    (same : List.replicate count '0' ++ Nat.toDigits 16 n =
      List.replicate count' '0' ++ Nat.toDigits 16 m) : n = m := by
  have values := congrArg (value 0) same
  rwa [value_zeros, value_zeros, value_toDigits, value_toDigits] at values

theorem exists_digit {n : Nat} {c : Char} (member : c ∈ Nat.toDigits 16 n) :
    ∃ digit : Fin 16, c = Nat.digitChar digit := by
  induction n using Nat.strongRecOn with
  | ind n ih =>
      rw [Nat.toDigits_eq_if (by decide)] at member
      split at member
      case isTrue small => exact ⟨⟨n, small⟩, List.mem_singleton.1 member⟩
      case isFalse large =>
        rcases List.mem_append.1 member with front | last
        · exact ih (n / 16) (by omega) front
        · exact ⟨⟨n % 16, Nat.mod_lt n (by decide)⟩, List.mem_singleton.1 last⟩

/-- A property of all digits can be checked by their values. -/
theorem of_digits {p : Char → Prop} (digits : ∀ digit : Fin 16, p (Nat.digitChar digit)) {n : Nat}
    {c : Char} (member : c ∈ Nat.toDigits 16 n) : p c := by
  obtain ⟨digit, rfl⟩ := exists_digit member
  exact digits digit

end HexDigits
