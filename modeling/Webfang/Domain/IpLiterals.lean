import Mathlib.Data.List.Forall2
import Webfang.Domain.SsrfGuard

/-!
# What an IP literal denotes

A reference grammar of the ways to write an IPv4 address, and that `parse_ip_literal` reads it
exactly: no operation overflows, and no number is cut off.
-/

namespace Webfang.Ssrf

open Checked64 Numerals

/-! ## The grammar -/

/-- One part of an address, and the number it denotes. -/
inductive Part : List Char → Nat → Prop
  | decimal {digits : List Char} (nonempty : digits ≠ [])
      (valid : ∀ c ∈ digits, isDigit 10 c = true)
      (leading : digits.head? = some '0' → digits = ['0']) : Part digits (numeral 10 0 digits)
  | octal {digits : List Char} (nonempty : digits ≠ [])
      (valid : ∀ c ∈ digits, isDigit 8 c = true) : Part ('0' :: digits) (numeral 8 0 digits)
  | hex {x : Char} {digits : List Char} (marker : x = 'x' ∨ x = 'X') (nonempty : digits ≠ [])
      (valid : ∀ c ∈ digits, isDigit 16 c = true) : Part ('0' :: x :: digits) (numeral 16 0 digits)

/-- The number of so many bytes: each leading part fills one, and the last part those left. -/
def addressOf : Nat → List Nat → Nat
  | _, [] => 0
  | _, [last] => last
  | bytes, n :: next :: numbers => n * 256 ^ (bytes - 1) + addressOf (bytes - 1) (next :: numbers)

/-- The leading parts are bytes, and the last fits in the bytes that are left. -/
def InRange (len : Nat) (numbers : List Nat) : Prop :=
  (∀ n ∈ numbers.dropLast, n < 256) ∧ ∀ n, numbers.getLast? = some n → n < 256 ^ (5 - len)

/-- The text is an IPv4 address in one of its spellings, and denotes this number. -/
def Denotes (text : List Char) (address : Nat) : Prop :=
  ∃ parts numbers, List.Forall₂ Part parts numbers ∧ 1 ≤ parts.length ∧ parts.length ≤ 4 ∧
    (text = ['.'].intercalate parts ∨ text = ['.'].intercalate parts ++ ['.']) ∧
    InRange parts.length numbers ∧ address = addressOf 4 numbers

/-! ## Parts -/

theorem isDigit_mono {base base' : Nat} (le : base ≤ base') {c : Char}
    (digit : isDigit base c = true) : isDigit base' c = true := by
  obtain ⟨value, below⟩ := isDigit_eq_true digit
  rw [isDigit, value, Option.any_some, decide_eq_true_eq]
  omega

theorem numeral_zero (base : Nat) (digits : List Char) :
    numeral base 0 ('0' :: digits) = numeral base 0 digits := by
  rw [numeral_cons, Nat.zero_mul]
  rfl

/-- The text of a part in a base. -/
theorem number_iff {radix : Nat} (positive : 1 ≤ radix) (small : radix ≤ 16) {digits : List Char}
    {v : UInt64} :
    (if digits = [] then none else if digits.all (isDigit radix) then fromStrRadix radix 0 digits
      else none) = some v ↔
      digits ≠ [] ∧ (∀ c ∈ digits, isDigit radix c = true) ∧ v.toNat = numeral radix 0 digits := by
  split
  case isTrue empty => exact iff_of_false nofun fun given => given.1 empty
  case isFalse nonempty =>
    split
    case isTrue valid =>
      have valid := List.all_eq_true.1 valid
      rw [fromStrRadix_eq positive small valid]
      exact ⟨fun same => ⟨nonempty, valid, same⟩, fun given => given.2.2⟩
    case isFalse invalid =>
      exact iff_of_false nofun fun given => invalid (List.all_eq_true.2 given.2.1)

theorem parseIpv4Number_hex {x : Char} (marker : x = 'x' ∨ x = 'X') (rest : List Char) (v : UInt64) :
    parseIpv4Number ('0' :: x :: rest) = some v ↔
      rest ≠ [] ∧ (∀ c ∈ rest, isDigit 16 c = true) ∧ v.toNat = numeral 16 0 rest := by
  rw [parseIpv4Number, radixOf, if_pos marker]
  exact number_iff (by decide) (by decide)

theorem parseIpv4Number_octal {c : Char} (other : ¬ (c = 'x' ∨ c = 'X')) (rest : List Char)
    (v : UInt64) :
    parseIpv4Number ('0' :: c :: rest) = some v ↔
      (∀ d ∈ c :: rest, isDigit 8 d = true) ∧ v.toNat = numeral 8 0 (c :: rest) := by
  rw [parseIpv4Number, radixOf, if_neg other]
  refine (number_iff (by decide) (by decide)).trans ?_
  rw [numeral_zero, List.forall_mem_cons]
  exact ⟨fun given => ⟨given.2.1.2, given.2.2⟩,
    fun given => ⟨List.cons_ne_nil _ _, ⟨by decide, given.1⟩, given.2⟩⟩

theorem parseIpv4Number_decimal {part : List Char}
    (leading : part.head? = some '0' → part = ['0']) (v : UInt64) :
    parseIpv4Number part = some v ↔
      part ≠ [] ∧ (∀ c ∈ part, isDigit 10 c = true) ∧ v.toNat = numeral 10 0 part := by
  have radix : radixOf part = (10, part) := by
    unfold radixOf
    split
    · cases leading rfl
    · rfl
  rw [parseIpv4Number, radix]
  exact number_iff (by decide) (by decide)

theorem isDigit_x {x : Char} (marker : x = 'x' ∨ x = 'X') : isDigit 10 x = false := by
  rcases marker with rfl | rfl <;> decide

/-- The number of a part is read where it fits in 64 bits. -/
theorem parseIpv4Number_iff {part : List Char} {v : UInt64} :
    parseIpv4Number part = some v ↔ Part part v.toNat := by
  constructor
  · intro read
    by_cases leading : part.head? = some '0' → part = ['0']
    · obtain ⟨nonempty, valid, value⟩ := (parseIpv4Number_decimal leading v).1 read
      exact value ▸ .decimal nonempty valid leading
    · obtain ⟨head, more⟩ := Classical.not_imp.1 leading
      obtain ⟨c, rest, rfl⟩ : ∃ c rest, part = '0' :: c :: rest := by
        match part with
        | [_] => exact absurd (congrArg (fun d => [d]) (Option.some.inj head)) more
        | _ :: c :: rest => exact ⟨c, rest, congrArg (· :: c :: rest) (Option.some.inj head)⟩
      by_cases marker : c = 'x' ∨ c = 'X'
      · obtain ⟨nonempty, valid, value⟩ := (parseIpv4Number_hex marker rest v).1 read
        exact value ▸ .hex marker nonempty valid
      · obtain ⟨valid, value⟩ := (parseIpv4Number_octal marker rest v).1 read
        exact value ▸ .octal (List.cons_ne_nil c rest) valid
  · intro denoted
    generalize value : v.toNat = n at denoted
    cases denoted with
    | decimal nonempty valid leading =>
        exact (parseIpv4Number_decimal leading v).2 ⟨nonempty, valid, value⟩
    | @octal digits nonempty valid =>
        obtain ⟨c, rest, rfl⟩ := List.exists_cons_of_ne_nil nonempty
        have other : ¬ (c = 'x' ∨ c = 'X') := fun marker => by
          have digit := isDigit_mono (show 8 ≤ 10 by decide) (valid c List.mem_cons_self)
          rw [isDigit_x marker] at digit
          cases digit
        exact (parseIpv4Number_octal other rest v).2 ⟨valid, value⟩
    | hex marker nonempty valid =>
        exact (parseIpv4Number_hex marker _ v).2 ⟨nonempty, valid, value⟩

theorem Part.letters {part : List Char} {n : Nat} (denoted : Part part n) :
    part ≠ [] ∧ '.' ∉ part ∧ ':' ∉ part := by
  have apart {base : Nat} {digits : List Char} (le : base ≤ 16)
      (valid : ∀ c ∈ digits, isDigit base c = true) : '.' ∉ digits ∧ ':' ∉ digits := by
    refine ⟨fun member => ?_, fun member => ?_⟩
    · exact absurd (isDigit_mono le (valid '.' member)) (by decide)
    · exact absurd (isDigit_mono le (valid ':' member)) (by decide)
  cases denoted with
  | decimal nonempty valid leading => exact ⟨nonempty, apart (by decide) valid⟩
  | octal nonempty valid =>
      have clean := apart (by decide) valid
      exact ⟨List.cons_ne_nil _ _, by simp [clean.1], by simp [clean.2]⟩
  | hex marker nonempty valid =>
      have clean := apart (by decide) valid
      rcases marker with rfl | rfl <;>
        exact ⟨List.cons_ne_nil _ _, by simp [clean.1], by simp [clean.2]⟩

/-! ## Ranges and places -/

theorem inRange_singleton {len n : Nat} : InRange len [n] ↔ n < 256 ^ (5 - len) :=
  ⟨fun range => range.2 n rfl,
    fun below => ⟨fun _ member => absurd member List.not_mem_nil, fun _ last => by
      cases last
      exact below⟩⟩

theorem inRange_cons {len n next : Nat} {numbers : List Nat} :
    InRange len (n :: next :: numbers) ↔ n < 256 ∧ InRange len (next :: numbers) := by
  rw [InRange, InRange, List.dropLast_cons_cons, List.forall_mem_cons, List.getLast?_cons_cons,
    and_assoc]

/-- The power of the last ceiling does not overflow. -/
theorem ceiling_eq {len : Nat} (one : 1 ≤ len) (checked : Bool) :
    ∃ ceiling, pow checked 256 (5 - len) = some ceiling ∧ ceiling.toNat = 256 ^ (5 - len) := by
  refine outcome_of_lt (Nat.lt_of_le_of_lt ?_ (show 256 ^ 4 < 2 ^ 64 by decide)) checked
  exact Nat.pow_le_pow_right (by decide) (by omega)

theorem belowCeilings_eq {len : Nat} (one : 1 ≤ len) (checked : Bool) {index : Nat}
    {numbers : List UInt64} (some_left : numbers ≠ []) (places : index + numbers.length = len) :
    ∃ b, belowCeilings checked len index numbers = some b ∧
      (b = true ↔ InRange len (numbers.map UInt64.toNat)) := by
  induction numbers generalizing index with
  | nil => exact absurd rfl some_left
  | cons number numbers ih =>
      cases numbers with
      | nil =>
          have last : index = len - 1 := by
            rw [List.length_singleton] at places
            omega
          obtain ⟨ceiling, power, toNat_ceiling⟩ := ceiling_eq one checked
          rw [belowCeilings, if_pos last, power, Option.bind_eq_bind, Option.bind_some,
            List.map_singleton, inRange_singleton, ← toNat_ceiling]
          by_cases above : ceiling ≤ number
          · exact ⟨false, if_pos above, iff_of_false Bool.false_ne_true
              (Nat.not_lt.2 (UInt64.le_iff_toNat_le.1 above))⟩
          · exact ⟨true, if_neg above, iff_of_true rfl
              (Nat.lt_of_not_le fun le => above (UInt64.le_iff_toNat_le.2 le))⟩
      | cons next numbers =>
          have inner : index ≠ len - 1 := by
            rw [List.length_cons, List.length_cons] at places
            omega
          rw [belowCeilings, if_neg inner, Option.bind_eq_bind, Option.bind_some, List.map_cons,
            List.map_cons, inRange_cons, ← List.map_cons]
          by_cases above : 256 ≤ number
          · have large : 256 ≤ number.toNat := UInt64.le_iff_toNat_le.1 above
            exact ⟨false, if_pos above, iff_of_false Bool.false_ne_true fun range => by omega⟩
          · have small : number.toNat < 256 :=
              Nat.lt_of_not_le fun le => above (UInt64.le_iff_toNat_le.2 le)
            have behind : index + 1 + (next :: numbers).length = len := by
              rw [List.length_cons] at places
              omega
            obtain ⟨b, later, iff⟩ := ih (List.cons_ne_nil _ _) behind
            exact ⟨b, (if_neg above).trans later, iff.trans (and_iff_right small).symm⟩

/-- The leading parts in their places, from a place on. -/
def leadingValue : Nat → List Nat → Nat
  | _, [] => 0
  | index, n :: numbers => n * 2 ^ (8 * (3 - index)) + leadingValue (index + 1) numbers

/-- No part is shifted out, and no sum overflows. -/
theorem placed_eq (checked : Bool) {index : Nat} {numbers : List UInt64} {value : UInt64}
    (bytes : ∀ n ∈ numbers, n.toNat < 256)
    (room : value.toNat + numbers.length * 2 ^ 32 < 2 ^ 64) :
    ∃ d, placed checked index numbers value = some d ∧
      d.toNat = value.toNat + leadingValue index (numbers.map UInt64.toNat) := by
  induction numbers generalizing index value with
  | nil => exact ⟨value, rfl, rfl⟩
  | cons number numbers ih =>
      have small := bytes number List.mem_cons_self
      have weight : 2 ^ (8 * (3 - index)) ≤ 2 ^ 24 :=
        Nat.pow_le_pow_right (by decide) (by omega)
      have product : number.toNat * 2 ^ (8 * (3 - index)) < 2 ^ 32 :=
        Nat.lt_of_le_of_lt (Nat.mul_le_mul (Nat.le_of_lt_succ small) weight) (by decide)
      obtain ⟨shifted, shift_eq, toNat_shifted⟩ :=
        shiftLeft_of_lt (a := number) (n := 8 * (3 - index)) (by omega) (by omega) checked
      rw [List.length_cons] at room
      obtain ⟨sum, add_eq, toNat_sum⟩ : ∃ d, add checked value shifted = some d ∧
          d.toNat = value.toNat + shifted.toNat := outcome_of_lt (by omega) checked
      have bytes' : ∀ n ∈ numbers, n.toNat < 256 := fun n member =>
        bytes n (List.mem_cons_of_mem _ member)
      have room' : sum.toNat + numbers.length * 2 ^ 32 < 2 ^ 64 := by omega
      obtain ⟨d, later, toNat_d⟩ := @ih (index + 1) sum bytes' room'
      refine ⟨d, ?_, ?_⟩
      · rw [placed, shift_eq, Option.bind_eq_bind, Option.bind_some, add_eq, Option.bind_some, later]
      · rw [toNat_d, toNat_sum, toNat_shifted, List.map_cons, leadingValue, Nat.add_assoc]

/-- The parts in their places make up the address. -/
theorem addressOf_eq {index : Nat} {numbers : List Nat} (some_left : numbers ≠ [])
    (short : index + numbers.length ≤ 4) :
    addressOf (4 - index) numbers =
      numbers.getLastD 0 + leadingValue index numbers.dropLast := by
  induction numbers generalizing index with
  | nil => exact absurd rfl some_left
  | cons n numbers ih =>
      cases numbers with
      | nil => rfl
      | cons next numbers =>
          rw [List.length_cons] at short
          have later := @ih (index + 1) (List.cons_ne_nil _ _) (by omega)
          have place : 256 ^ (4 - index - 1) = 2 ^ (8 * (3 - index)) := by
            rw [show 256 = 2 ^ 8 from rfl, ← Nat.pow_mul, show 4 - index - 1 = 3 - index by omega]
          rw [addressOf, place, show 4 - index - 1 = 4 - (index + 1) by omega, later,
            List.dropLast_cons_cons, leadingValue,
            show (n :: next :: numbers).getLastD 0 = (next :: numbers).getLastD 0 from rfl]
          omega

theorem addressOf_lt {bytes len : Nat} {numbers : List Nat} (some_left : numbers ≠ [])
    (range : InRange len numbers) (places : bytes + 1 - numbers.length = 5 - len)
    (short : numbers.length ≤ bytes) : addressOf bytes numbers < 256 ^ bytes := by
  induction numbers generalizing bytes with
  | nil => exact absurd rfl some_left
  | cons n numbers ih =>
      cases numbers with
      | nil =>
          have last := inRange_singleton.1 range
          rwa [← places, List.length_singleton, Nat.add_sub_cancel] at last
      | cons next numbers =>
          obtain ⟨byte, range⟩ := inRange_cons.1 range
          rw [List.length_cons] at places short
          have later := @ih (bytes - 1) (List.cons_ne_nil _ _) range (by omega) (by omega)
          obtain ⟨less, rfl⟩ : ∃ less, bytes = less + 1 := ⟨bytes - 1, by omega⟩
          rw [addressOf, Nat.add_sub_cancel] at *
          rw [Nat.pow_succ]
          have product : n * 256 ^ less ≤ 255 * 256 ^ less :=
            Nat.mul_le_mul_right _ (Nat.le_of_lt_succ byte)
          omega

theorem toNat_ofU32 (v : UInt32) : (Ipv4Addr.ofU32 v).toNat = v.toNat := by
  have bound := v.toNat_lt
  simp only [Ipv4Addr.toNat, Ipv4Addr.ofU32, UInt32.toNat_toUInt8, UInt32.toNat_shiftRight,
    Nat.shiftRight_eq_div_pow, show (24 : UInt32).toNat % 32 = 24 from rfl,
    show (16 : UInt32).toNat % 32 = 16 from rfl, show (8 : UInt32).toNat % 32 = 8 from rfl]
  omega

/-! ## The older spellings -/

theorem mapM_some_iff {parts : List (List Char)} {numbers : List UInt64} :
    parts.mapM parseIpv4Number = some numbers ↔
      List.Forall₂ Part parts (numbers.map UInt64.toNat) := by
  induction parts generalizing numbers with
  | nil =>
      rw [List.mapM_nil, List.forall₂_nil_left_iff, List.map_eq_nil_iff]
      exact ⟨fun same => (Option.some.inj same).symm, fun empty => empty ▸ rfl⟩
  | cons part parts ih =>
      rw [List.mapM_cons]
      constructor
      · intro read
        obtain ⟨number, first, read⟩ := Option.bind_eq_some_iff.1 read
        obtain ⟨later, rest, same⟩ := Option.bind_eq_some_iff.1 read
        cases same
        exact .cons (parseIpv4Number_iff.1 first) (ih.1 rest)
      · intro denoted
        cases numbers with
        | nil => cases denoted
        | cons number numbers =>
            rw [List.map_cons, List.forall₂_cons] at denoted
            rw [parseIpv4Number_iff.2 denoted.1, ih.2 denoted.2]
            rfl

theorem splitOn_parts {parts : List (List Char)} (some_left : parts ≠ [])
    (letters : ∀ part ∈ parts, part ≠ [] ∧ '.' ∉ part) :
    (['.'].intercalate parts).splitOn '.' = parts :=
  List.splitOn_intercalate '.' (fun part member => (letters part member).2) some_left

/-- A text of parts, with or without a dot at its end. -/
theorem parts_of_text {parts : List (List Char)} {text : List Char} (some_left : parts ≠ [])
    (letters : ∀ part ∈ parts, part ≠ [] ∧ '.' ∉ part)
    (spelled : text = ['.'].intercalate parts ∨ text = ['.'].intercalate parts ++ ['.']) :
    withoutDot text = ['.'].intercalate parts := by
  rcases spelled with rfl | rfl
  · refine if_neg fun closed => ?_
    obtain ⟨front, same⟩ := List.getLast?_eq_some_iff.1 closed
    have split := splitOn_parts some_left letters
    rw [same, List.splitOn_append_cons_self, List.splitOn_nil] at split
    have empty : [] ∈ parts := split ▸ List.mem_append_right _ List.mem_cons_self
    exact (letters [] empty).1 rfl
  · rw [withoutDot, List.getLast?_concat, if_pos rfl, List.dropLast_concat]

/-- The parts of a text, and the text of the parts. -/
theorem text_of_parts (text : List Char) :
    text = ['.'].intercalate ((withoutDot text).splitOn '.') ∨
      text = ['.'].intercalate ((withoutDot text).splitOn '.') ++ ['.'] := by
  rw [List.intercalate_splitOn, withoutDot]
  split
  case isTrue closed =>
    obtain ⟨front, same⟩ := List.getLast?_eq_some_iff.1 closed
    rw [same, List.dropLast_concat]
    exact .inr rfl
  case isFalse => exact .inl rfl

/-- The numbers of a text that has passed the ceilings. -/
theorem value_eq (checked : Bool) {numbers : List UInt64} (some_left : numbers ≠ [])
    (four : numbers.length ≤ 4) (range : InRange numbers.length (numbers.map UInt64.toNat)) :
    ∃ value, placed checked 0 numbers.dropLast (numbers.getLastD 0) = some value ∧
      (Ipv4Addr.ofU32 value.toUInt32).toNat = addressOf 4 (numbers.map UInt64.toNat) := by
  have mapped : numbers.map UInt64.toNat ≠ [] := fun empty => some_left (List.map_eq_nil_iff.1 empty)
  have four' : (numbers.map UInt64.toNat).length ≤ 4 := by rwa [List.length_map]
  have total : addressOf 4 (numbers.map UInt64.toNat) = _ :=
    @addressOf_eq 0 _ mapped (by rwa [Nat.zero_add])
  have bound : addressOf 4 (numbers.map UInt64.toNat) < 2 ^ 32 :=
    addressOf_lt mapped range (by rw [List.length_map]) four'
  have last : (numbers.map UInt64.toNat).getLastD 0 = (numbers.getLastD 0).toNat := by
    obtain ⟨front, number, rfl⟩ : ∃ front number, numbers = front ++ [number] := by
      rcases List.eq_nil_or_concat numbers with rfl | ⟨front, number, same⟩
      · exact absurd rfl some_left
      · exact ⟨front, number, same.trans List.concat_eq_append⟩
    simp
  rw [last, ← List.map_dropLast] at total
  have bytes : ∀ n ∈ numbers.dropLast, n.toNat < 256 := fun n member => range.1 _ (by
    rw [← List.map_dropLast]
    exact List.mem_map_of_mem member)
  have room : (numbers.getLastD 0).toNat + numbers.dropLast.length * 2 ^ 32 < 2 ^ 64 := by
    rw [List.length_dropLast]
    omega
  obtain ⟨value, placed_eq, toNat_value⟩ := @placed_eq checked 0 _ _ bytes room
  refine ⟨value, placed_eq, ?_⟩
  rw [toNat_ofU32, UInt64.toNat_toUInt32, toNat_value, ← total, Nat.mod_eq_of_lt bound]

/-- A part denotes one number. -/
theorem Part.value {part : List Char} {n : Nat} (denoted : Part part n) :
    n = numeral (radixOf part).1 0 (radixOf part).2 := by
  cases denoted with
  | decimal nonempty valid leading =>
      have radix : radixOf part = (10, part) := by
        unfold radixOf
        split
        · cases leading rfl
        · rfl
      rw [radix]
  | @octal digits nonempty valid =>
      obtain ⟨c, rest, rfl⟩ := List.exists_cons_of_ne_nil nonempty
      have other : ¬ (c = 'x' ∨ c = 'X') := fun marker => by
        have digit := isDigit_mono (show 8 ≤ 10 by decide) (valid c List.mem_cons_self)
        rw [isDigit_x marker] at digit
        cases digit
      rw [radixOf, if_neg other, numeral_zero]
  | hex marker nonempty valid => rw [radixOf, if_pos marker]

theorem parts_unique {parts : List (List Char)} {numbers numbers' : List Nat}
    (first : List.Forall₂ Part parts numbers) (second : List.Forall₂ Part parts numbers') :
    numbers = numbers' :=
  List.right_unique_forall₂' (fun _ _ _ one other => one.value.trans other.value.symm) first second

/-- What a text denotes is read off its parts. -/
theorem denotes_iff {text : List Char} {n : Nat} :
    Denotes text n ↔ (∀ part ∈ (withoutDot text).splitOn '.', part ≠ []) ∧
      ((withoutDot text).splitOn '.').length ≤ 4 ∧
        ∃ numbers, List.Forall₂ Part ((withoutDot text).splitOn '.') numbers ∧
          InRange ((withoutDot text).splitOn '.').length numbers ∧ n = addressOf 4 numbers := by
  constructor
  · rintro ⟨parts, numbers, denoted, one, four, spelled, range, value⟩
    have some_left : parts ≠ [] := List.ne_nil_of_length_pos one
    have letters : ∀ part ∈ parts, part ≠ [] ∧ '.' ∉ part :=
      ((List.forall₂_and_left parts numbers).1 (denoted.imp fun _ _ part =>
        ⟨⟨part.letters.1, part.letters.2.1⟩, part⟩)).1
    have whole : withoutDot text = ['.'].intercalate parts := parts_of_text some_left letters spelled
    rw [whole, splitOn_parts some_left letters]
    exact ⟨fun part member => (letters part member).1, four, numbers, denoted, range, value⟩
  · rintro ⟨-, four, numbers, denoted, range, value⟩
    refine ⟨_, numbers, denoted, ?_, four, text_of_parts text, range, value⟩
    exact List.length_pos_of_ne_nil (List.splitOn_ne_nil _ _)

theorem toNat_injective {ip ip' : Ipv4Addr} (same : ip.toNat = ip'.toNat) : ip = ip' := by
  obtain ⟨a, b, c, d⟩ := ip
  obtain ⟨a', b', c', d'⟩ := ip'
  have bounds := And.intro b.toNat_lt (And.intro c.toNat_lt d.toNat_lt)
  have bounds' := And.intro b'.toNat_lt (And.intro c'.toNat_lt d'.toNat_lt)
  rw [Ipv4Addr.toNat, Ipv4Addr.toNat] at same
  rw [Ipv4Addr.mk.injEq, ← UInt8.toNat_inj, ← UInt8.toNat_inj, ← UInt8.toNat_inj, ← UInt8.toNat_inj]
  dsimp only at same
  omega

/-- Numbers in range fit in 64 bits. -/
theorem exists_words {len : Nat} {numbers : List Nat} (range : InRange len numbers) :
    ∃ words : List UInt64, numbers = words.map UInt64.toNat := by
  have small : ∀ n ∈ numbers, n < 2 ^ 64 := by
    intro n member
    have nonempty := List.ne_nil_of_mem member
    rw [← List.dropLast_append_getLast nonempty] at member
    rcases List.mem_append.1 member with leading | last
    · exact Nat.lt_trans (range.1 n leading) (by decide)
    · rw [List.mem_singleton] at last
      have below := range.2 n (by rw [last, List.getLast?_eq_getLast_of_ne_nil])
      refine Nat.lt_of_lt_of_le below (Nat.le_trans (Nat.pow_le_pow_right (by decide) ?_)
        (show 256 ^ 5 ≤ 2 ^ 64 by decide))
      omega
  clear range
  induction numbers with
  | nil => exact ⟨[], rfl⟩
  | cons n numbers ih =>
      obtain ⟨words, rfl⟩ := ih fun m member => small m (List.mem_cons_of_mem n member)
      refine ⟨UInt64.ofNat n :: words, ?_⟩
      rw [List.map_cons, UInt64.toNat_ofNat', Nat.mod_eq_of_lt (small n List.mem_cons_self)]

/-- The older spellings are read exactly, and no operation overflows. -/
theorem parseIpv4AllForms_eq (checked : Bool) (text : List Char) :
    ∃ r, parseIpv4AllForms checked text = some r ∧
      ∀ ip, r = some ip ↔ Denotes text ip.toNat := by
  by_cases shape : withoutDot text = [] ∨ 4 < ((withoutDot text).splitOn '.').length ∨
      ((withoutDot text).splitOn '.').any (· = []) = true
  · refine ⟨none, if_pos shape, fun ip => iff_of_false nofun fun denoted => ?_⟩
    obtain ⟨nonempty, four, -⟩ := denotes_iff.1 denoted
    rcases shape with empty | many | hollow
    · rw [empty, List.splitOn_nil] at nonempty
      exact nonempty [] List.mem_cons_self rfl
    · omega
    · obtain ⟨part, member, empty⟩ := List.any_eq_true.1 hollow
      exact nonempty part member (of_decide_eq_true empty)
  · have four : ((withoutDot text).splitOn '.').length ≤ 4 := by
      by_contra many
      exact shape (.inr (.inl (Nat.not_le.1 many)))
    have nonempty : ∀ part ∈ (withoutDot text).splitOn '.', part ≠ [] := fun part member empty =>
      shape (.inr (.inr (List.any_eq_true.2 ⟨part, member, decide_eq_true empty⟩)))
    rw [parseIpv4AllForms, if_neg shape]
    generalize split : (withoutDot text).splitOn '.' = parts at *
    have some_left : parts ≠ [] := split ▸ List.splitOn_ne_nil _ _
    cases read : parts.mapM parseIpv4Number with
    | none =>
        refine ⟨none, rfl, fun ip => iff_of_false nofun fun denoted => ?_⟩
        obtain ⟨-, -, numbers, parts_eq, range, -⟩ := denotes_iff.1 denoted
        obtain ⟨words, rfl⟩ := exists_words range
        rw [split] at parts_eq
        rw [mapM_some_iff.2 parts_eq] at read
        cases read
    | some words =>
        have parts_eq := mapM_some_iff.1 read
        have lengths : words.length = parts.length := by
          rw [parts_eq.length_eq, List.length_map]
        have some_words : words ≠ [] := fun empty => some_left (by
          rw [empty, List.length_nil] at lengths
          exact List.eq_nil_of_length_eq_zero lengths.symm)
        have one : 1 ≤ words.length := List.length_pos_of_ne_nil some_words
        obtain ⟨b, ceilings, in_range⟩ :=
          belowCeilings_eq one checked some_words (Nat.zero_add words.length)
        have reads (ip : Ipv4Addr) : Denotes text ip.toNat ↔
            InRange words.length (words.map UInt64.toNat) ∧
              ip.toNat = addressOf 4 (words.map UInt64.toNat) := by
          rw [denotes_iff, split, lengths]
          constructor
          · rintro ⟨-, -, numbers, parts_eq', range, value⟩
            rw [parts_unique parts_eq' parts_eq] at range value
            exact ⟨range, value⟩
          · rintro ⟨range, value⟩
            exact ⟨nonempty, four, _, parts_eq, range, value⟩
        cases b with
        | false =>
            refine ⟨none, ?_, fun ip => iff_of_false nofun fun denoted => ?_⟩
            · dsimp only
              rw [ceilings]
              rfl
            · cases in_range.2 ((reads ip).1 denoted).1
        | true =>
            have range := in_range.1 rfl
            obtain ⟨value, put, address⟩ := value_eq checked some_words (lengths ▸ four) range
            refine ⟨some (Ipv4Addr.ofU32 value.toUInt32), ?_, fun ip => ?_⟩
            · dsimp only
              rw [ceilings, Option.bind_eq_bind, Option.bind_some, if_pos rfl, put]
              rfl
            · rw [reads, and_iff_right range, ← address, Option.some.injEq]
              exact ⟨fun same => same ▸ rfl, fun same => (toNat_injective same).symm⟩

/-! ## The strict spelling -/

theorem readGivenChar_eq_some {target : Char} {s rest : List Char} :
    readGivenChar target s = some rest ↔ s = target :: rest := by
  cases s with
  | nil => exact iff_of_false nofun nofun
  | cons c s =>
      rw [readGivenChar]
      split
      case isTrue same =>
        rw [same, Option.some.injEq, List.cons.injEq]
        exact (and_iff_right rfl).symm
      case isFalse other =>
        exact iff_of_false nofun fun same => other (List.cons.inj same).1

theorem readNumber_spec {radix maxDigits n : Nat} {allowZeroPrefix : Bool} {s rest : List Char}
    (read : readNumber radix maxDigits allowZeroPrefix s = some (n, rest)) :
    ∃ digits, s = digits ++ rest ∧ digits ≠ [] ∧ (∀ c ∈ digits, isDigit radix c = true) ∧
      n = numeral radix 0 digits ∧
        (allowZeroPrefix = false → digits.head? = some '0' → digits.length ≤ 1) := by
  rw [readNumber] at read
  split at read
  case isTrue => cases read
  case isFalse allowed =>
    cases read
    rw [not_or, not_or] at allowed
    refine ⟨s.takeWhile (isDigit radix), List.takeWhile_append_dropWhile.symm, allowed.1,
      fun c member => List.mem_takeWhile_imp member, rfl, fun strict zero => ?_⟩
    exact Nat.le_of_not_lt fun more => allowed.2.2 ⟨strict, zero, more⟩

theorem readOctet_spec {s rest : List Char} {v : UInt8} (read : readOctet s = some (v, rest)) :
    ∃ part, s = part ++ rest ∧ Part part v.toNat := by
  obtain ⟨⟨n, rest'⟩, number, read⟩ := Option.bind_eq_some_iff.1 read
  dsimp only at read
  split at read
  case isTrue small =>
    cases read
    obtain ⟨digits, same, nonempty, valid, value, strict⟩ := readNumber_spec number
    have byte : (UInt8.ofNat n).toNat = n := by rw [UInt8.toNat_ofNat', Nat.mod_eq_of_lt small]
    rw [byte, value]
    refine ⟨digits, same, .decimal nonempty valid fun zero => ?_⟩
    obtain ⟨c, tail, rfl⟩ := List.exists_cons_of_ne_nil nonempty
    have short := strict rfl zero
    rw [List.length_cons] at short
    rw [List.eq_nil_of_length_eq_zero (by omega : tail.length = 0)]
    rw [List.head?_cons, Option.some.injEq] at zero
    rw [zero]
  case isFalse => cases read

theorem readSeparator_succ {α : Type} {sep : Char} {index : Nat}
    {inner : List Char → Option (α × List Char)} {s rest : List Char} {a : α}
    (read : readSeparator sep (index + 1) inner s = some (a, rest)) :
    ∃ s', s = sep :: s' ∧ inner s' = some (a, rest) := by
  rw [readSeparator, if_pos (Nat.succ_pos index)] at read
  obtain ⟨s', given, read⟩ := Option.bind_eq_some_iff.1 read
  exact ⟨s', readGivenChar_eq_some.1 given, read⟩

/-- Four parts with dots between them. -/
theorem readIpv4Addr_spec {s rest : List Char} {ip : Ipv4Addr}
    (read : readIpv4Addr s = some (ip, rest)) :
    ∃ p q r t, s = p ++ '.' :: (q ++ '.' :: (r ++ '.' :: (t ++ rest))) ∧ Part p ip.a.toNat ∧
      Part q ip.b.toNat ∧ Part r ip.c.toNat ∧ Part t ip.d.toNat := by
  obtain ⟨⟨a, s₁⟩, first, read⟩ := Option.bind_eq_some_iff.1 read
  obtain ⟨⟨b, s₂⟩, second, read⟩ := Option.bind_eq_some_iff.1 read
  obtain ⟨⟨c, s₃⟩, third, read⟩ := Option.bind_eq_some_iff.1 read
  obtain ⟨⟨d, s₄⟩, fourth, read⟩ := Option.bind_eq_some_iff.1 read
  cases read
  obtain ⟨p, rfl, partA⟩ := readOctet_spec first
  obtain ⟨_, rfl, second⟩ := readSeparator_succ second
  obtain ⟨q, rfl, partB⟩ := readOctet_spec second
  obtain ⟨_, rfl, third⟩ := readSeparator_succ third
  obtain ⟨r, rfl, partC⟩ := readOctet_spec third
  obtain ⟨_, rfl, fourth⟩ := readSeparator_succ fourth
  obtain ⟨t, rfl, partD⟩ := readOctet_spec fourth
  exact ⟨p, q, r, t, rfl, partA, partB, partC, partD⟩

/-- An address in the strict spelling denotes its number, and has no colon. -/
theorem denotes_of_readIpv4Addr {s : List Char} {ip : Ipv4Addr}
    (read : readIpv4Addr s = some (ip, [])) : Denotes s ip.toNat ∧ ':' ∉ s := by
  obtain ⟨p, q, r, t, rfl, partA, partB, partC, partD⟩ := readIpv4Addr_spec read
  constructor
  · refine ⟨[p, q, r, t], [ip.a.toNat, ip.b.toNat, ip.c.toNat, ip.d.toNat],
      .cons partA (.cons partB (.cons partC (.cons partD .nil))), Nat.succ_pos 3, Nat.le_refl 4,
      .inl ?_, ?_, ?_⟩
    · simp [List.intercalate, List.intersperse]
    · exact inRange_cons.2 ⟨ip.a.toNat_lt, inRange_cons.2 ⟨ip.b.toNat_lt,
        inRange_cons.2 ⟨ip.c.toNat_lt, inRange_singleton.2 ip.d.toNat_lt⟩⟩⟩
    · rw [addressOf, addressOf, addressOf, addressOf, Ipv4Addr.toNat]
      omega
  · simp [partA.letters.2.2, partB.letters.2.2, partC.letters.2.2, partD.letters.2.2]

/-! ## Strict IPv6 -/

theorem readGivenChar_of_not_mem {target : Char} {s : List Char} (absent : target ∉ s) :
    readGivenChar target s = none := by
  cases given : readGivenChar target s with
  | none => rfl
  | some rest =>
      rw [readGivenChar_eq_some.1 given] at absent
      exact absurd List.mem_cons_self absent

theorem readSeparator_of_not_mem {α : Type} {sep : Char} {index : Nat}
    {inner : List Char → Option (α × List Char)} {s : List Char} (absent : sep ∉ s) :
    readSeparator sep (index + 1) inner s = none := by
  rw [readSeparator, if_pos (Nat.succ_pos index), readGivenChar_of_not_mem absent, Option.bind_none]

/-- An IPv4 address is not allowed in front of what is left out. -/
theorem readIpv6Addr_of_ipv4 {s rest : List Char} {ip : Ipv4Addr}
    (read : readIpv4Addr s = some (ip, rest)) : readIpv6Addr s = none := by
  have groups : readGroups 8 0 s =
      ([fromBeBytes ip.a ip.b, fromBeBytes ip.c ip.d], true, rest) := by
    rw [readGroups, if_pos (by decide), readSeparator, if_neg (by decide), read]
  rw [readIpv6Addr, groups]
  rfl

theorem readIpv6Addr_of_no_colon {s : List Char} (absent : ':' ∉ s) : readIpv6Addr s = none := by
  cases embedded : readIpv4Addr s with
  | some read => exact readIpv6Addr_of_ipv4 embedded
  | none =>
      cases group : readGroup s with
      | none =>
          have groups : readGroups 8 0 s = ([], false, s) := by
            rw [readGroups, if_pos (by decide), readSeparator, if_neg (by decide), embedded]
            dsimp only
            rw [readSeparator, if_neg (by decide), group]
          rw [readIpv6Addr, groups]
          dsimp only
          rw [if_neg (by decide), if_neg (by decide), readGivenChar_of_not_mem absent]
          rfl
      | some read =>
          obtain ⟨first, rest⟩ := read
          have absent' : ':' ∉ rest := by
            obtain ⟨⟨n, rest'⟩, number, same⟩ := Option.map_eq_some_iff.1 group
            cases same
            obtain ⟨digits, rfl, -⟩ := readNumber_spec number
            exact fun member => absent (List.mem_append_right _ member)
          have later : readGroups 7 1 rest = ([], false, rest) := by
            rw [readGroups, if_pos (by decide), readSeparator_of_not_mem absent']
            dsimp only
            rw [readSeparator_of_not_mem absent']
          have groups : readGroups 8 0 s = ([first], false, rest) := by
            rw [readGroups, if_pos (by decide), readSeparator, if_neg (by decide), embedded]
            dsimp only
            rw [readSeparator, if_neg (by decide), group]
            dsimp only
            rw [later]
          rw [readIpv6Addr, groups]
          dsimp only
          rw [if_neg (show ¬ [first].length = 8 by simp), if_neg (by decide),
            readGivenChar_of_not_mem absent']
          rfl

/-! ## Literals -/

theorem parseWith_eq_some {α : Type} {inner : List Char → Option (α × List Char)} {s : List Char}
    {a : α} : parseWith inner s = some a ↔ inner s = some (a, []) := by
  rw [parseWith]
  split
  case h_1 ip read =>
    rw [read, Option.some.injEq, Option.some.injEq, Prod.mk.injEq, and_iff_left rfl]
  case h_2 other => exact iff_of_false nofun fun read => other a read

theorem parseWith_readIpAddr_of_no_colon {s : List Char} (absent : ':' ∉ s) :
    parseWith readIpAddr s = (parseWith readIpv4Addr s).map .v4 := by
  have read : readIpAddr s = (readIpv4Addr s).map fun read => (IpAddr.v4 read.1, read.2) := by
    rw [readIpAddr, readIpv6Addr_of_no_colon absent, Option.map_none, Option.or_none]
  rw [parseWith, read]
  cases given : readIpv4Addr s with
  | none =>
      rw [parseWith, given]
      rfl
  | some pair =>
      obtain ⟨ip, rest⟩ := pair
      cases rest <;> rw [parseWith, given] <;> rfl

theorem parseWith_readIpAddr_of_colon {s : List Char} (colon : ':' ∈ s) :
    parseWith readIpAddr s = (parseWith readIpv6Addr s).map .v6 := by
  cases given : readIpv4Addr s with
  | none =>
      have read : readIpAddr s = (readIpv6Addr s).map fun read => (IpAddr.v6 read.1, read.2) := by
        rw [readIpAddr, given, Option.map_none, Option.none_or]
      rw [parseWith, read]
      cases given' : readIpv6Addr s with
      | none =>
          rw [parseWith, given']
          rfl
      | some pair =>
          obtain ⟨ip, rest⟩ := pair
          cases rest <;> rw [parseWith, given'] <;> rfl
  | some pair =>
      obtain ⟨ip, rest⟩ := pair
      cases rest with
      | nil => exact absurd colon (denotes_of_readIpv4Addr given).2
      | cons c rest =>
          rw [parseWith, parseWith, readIpAddr, given, readIpv6Addr_of_ipv4 given]
          rfl

theorem colon_mem_unbracketed {host : List Char} : ':' ∈ unbracketed host ↔ ':' ∈ host := by
  unfold unbracketed
  split
  · split
    case isTrue closed =>
      obtain ⟨front, same⟩ := List.getLast?_eq_some_iff.1 closed
      rw [same, List.dropLast_concat]
      simp
    case isFalse => exact Iff.rfl
  · exact Iff.rfl

/-- Reading a literal does not overflow. -/
theorem parseIpLiteral_total (checked : Bool) (host : List Char) :
    ∃ r, parseIpLiteral checked host = some r := by
  rw [parseIpLiteral]
  split
  · exact ⟨_, rfl⟩
  · split
    · exact ⟨_, rfl⟩
    · obtain ⟨older, read, -⟩ := parseIpv4AllForms_eq checked (unbracketed host)
      exact ⟨_, by rw [read]; rfl⟩

/-- A literal is read exactly: without a colon it is an IPv4 address just where the grammar has one,
with the number that the grammar gives it, and with a colon it is what strict parsing gives.  No
operation overflows. -/
theorem parseIpLiteral_exact (checked : Bool) (host : List Char) :
    (':' ∉ host → ∃ r, parseIpLiteral checked host = some r ∧
      ∀ ip, r = some ip ↔ ∃ v4, ip = .v4 v4 ∧ Denotes (unbracketed host) v4.toNat) ∧
    (':' ∈ host → parseIpLiteral checked host =
      some ((parseWith readIpv6Addr (unbracketed host)).map .v6)) := by
  constructor
  · intro absent
    rw [← colon_mem_unbracketed] at absent
    obtain ⟨older, read, exact⟩ := parseIpv4AllForms_eq checked (unbracketed host)
    rw [parseIpLiteral, parseWith_readIpAddr_of_no_colon absent]
    cases strict : parseWith readIpv4Addr (unbracketed host) with
    | some v4 =>
        refine ⟨some (.v4 v4), rfl, fun ip => ?_⟩
        have denoted := (denotes_of_readIpv4Addr (parseWith_eq_some.1 strict)).1
        rw [Option.some.injEq]
        constructor
        · rintro rfl
          exact ⟨v4, rfl, denoted⟩
        · rintro ⟨v4', rfl, denoted'⟩
          rw [← exact] at denoted denoted'
          rw [Option.some.inj (denoted.symm.trans denoted')]
    | none =>
        refine ⟨older.map .v4, ?_, fun ip => ?_⟩
        · rw [Option.map_none]
          dsimp only
          rw [if_neg absent, read, Option.map_some]
        · rw [Option.map_eq_some_iff]
          constructor
          · rintro ⟨v4, given, rfl⟩
            exact ⟨v4, rfl, (exact v4).1 given⟩
          · rintro ⟨v4, rfl, denoted⟩
            exact ⟨v4, (exact v4).2 denoted, rfl⟩
  · intro colon
    rw [← colon_mem_unbracketed] at colon
    rw [parseIpLiteral, parseWith_readIpAddr_of_colon colon]
    cases parseWith readIpv6Addr (unbracketed host) with
    | some v6 => rfl
    | none => exact if_pos colon

end Webfang.Ssrf
