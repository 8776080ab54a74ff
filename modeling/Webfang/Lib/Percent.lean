import Webfang.Lib.Json
import Webfang.Lib.Utf8

/-!
# Percent-encoded text

The bytes of a text in UTF-8 stand for themselves where they are plain, and are written with a
percent sign and two digits elsewhere.
-/

namespace Percent

/-- A digit, in upper case. -/
def digit (n : Nat) : Char := (Nat.digitChar n).toUpper

/-- The percent sign and the two digits of a byte. -/
def escape (n : Nat) : List Char := ['%', digit (n / 16), digit (n % 16)]

/-- A text whose plain characters stand for themselves. -/
def encode (plain : Char → Bool) (text : List Char) : List Char :=
  text.flatMap fun c =>
    if plain c then [c] else (String.utf8EncodeChar c).flatMap fun b => escape b.toNat

/-- The bytes of an encoded text; a percent sign without its digits stands for itself. -/
def decode : List Char → List UInt8
  | [] => []
  | [c] => String.utf8EncodeChar c
  | [c, d] => String.utf8EncodeChar c ++ String.utf8EncodeChar d
  | c :: high :: low :: text =>
      match if c = '%' then Json.hexDigit high else none, Json.hexDigit low with
      | some h, some l => UInt8.ofNat (h * 16 + l) :: decode text
      | _, _ => String.utf8EncodeChar c ++ decode (high :: low :: text)

/-! ## The digits -/

theorem hexDigit_digit : ∀ n < 16, Json.hexDigit (digit n) = some n := by decide

theorem decode_escape (b : UInt8) (text : List Char) :
    decode (escape b.toNat ++ text) = b :: decode text := by
  have high : b.toNat / 16 < 16 := by
    have := b.toNat_lt
    omega
  have low : b.toNat % 16 < 16 := Nat.mod_lt _ (by decide)
  have whole : b.toNat / 16 * 16 + b.toNat % 16 = b.toNat := by omega
  rw [escape, List.cons_append, List.cons_append, List.cons_append, List.nil_append, decode,
    if_pos rfl, hexDigit_digit _ high, hexDigit_digit _ low]
  dsimp only
  rw [whole, UInt8.ofNat_toNat]

theorem decode_plain {c : Char} (other : c ≠ '%') (text : List Char) :
    decode (c :: text) = String.utf8EncodeChar c ++ decode text := by
  match text with
  | [] => rw [decode, decode, List.append_nil]
  | [d] => rw [decode, decode]
  | high :: low :: text => rw [decode, if_neg other]

theorem decode_escapes (bytes : List UInt8) (text : List Char) :
    decode ((bytes.flatMap fun b => escape b.toNat) ++ text) = bytes ++ decode text := by
  induction bytes with
  | nil => rfl
  | cons b bytes ih => rw [List.flatMap_cons, List.append_assoc, decode_escape, ih, List.cons_append]

/-! ## Texts -/

variable {plain : Char → Bool}

/-- An encoded text gives back the bytes of the text. -/
theorem decode_encode (sign : plain '%' = false) (text : List Char) :
    decode (encode plain text) = Utf8.encode text := by
  induction text with
  | nil => rfl
  | cons c text ih =>
      rw [encode, List.flatMap_cons, ← encode, Utf8.encode, List.flatMap_cons, ← Utf8.encode]
      cases here : plain c with
      | true =>
          have other : c ≠ '%' := by
            rintro rfl
            rw [sign] at here
            cases here
          rw [if_pos rfl, List.singleton_append, decode_plain other, ih]
      | false => rw [if_neg Bool.false_ne_true, decode_escapes, ih]

theorem digit_mem : ∀ n < 16, digit n ∈ "0123456789ABCDEF".toList := by decide

/-- An encoded text has plain characters, percent signs and digits alone. -/
theorem mem_encode {text : List Char} {c : Char} (member : c ∈ encode plain text) :
    plain c = true ∨ c = '%' ∨ c ∈ "0123456789ABCDEF".toList := by
  obtain ⟨d, -, inside⟩ := List.mem_flatMap.mp member
  split at inside
  case isTrue here =>
    rw [List.mem_singleton.mp inside]
    exact .inl here
  case isFalse =>
    obtain ⟨b, -, escaped⟩ := List.mem_flatMap.mp inside
    have bound := b.toNat_lt
    rcases List.mem_cons.mp escaped with rfl | digits
    · exact .inr (.inl rfl)
    · rcases List.mem_cons.mp digits with rfl | last
      · exact .inr (.inr (digit_mem _ (by omega)))
      · rw [List.mem_singleton.mp last]
        exact .inr (.inr (digit_mem _ (Nat.mod_lt _ (by decide))))

end Percent
