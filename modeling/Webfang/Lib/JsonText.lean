import Webfang.Lib.Json

/-!
# Writing JSON

The compact form of strings and of objects of strings.  A control character is escaped, so a text
that is written stands on one line; and what is written is read back.
-/

namespace Json

def hexChar (n : Nat) : Char := if n < 10 then Char.ofNat (n + 48) else Char.ofNat (n + 87)

/-- The letter of a one-letter escape. -/
def escapeLetter (c : Char) : Option Char :=
  [('"', '"'), ('\\', '\\'), ('\x08', 'b'), ('\x0c', 'f'), ('\n', 'n'), ('\r', 'r'),
    ('\t', 't')].lookup c

def escapeChar (c : Char) : List Char :=
  match escapeLetter c with
  | some letter => ['\\', letter]
  | none =>
      if c.toNat < 0x20 then ['\\', 'u', '0', '0', hexChar (c.toNat / 16), hexChar (c.toNat % 16)]
      else [c]

def escape (text : List Char) : List Char := text.flatMap escapeChar

/-- A string between its quotes. -/
def quote (text : List Char) : List Char := '"' :: escape text ++ ['"']

def memberText (member : List Char × List Char) : List Char :=
  quote member.1 ++ ':' :: quote member.2

/-- Members, with commas between them. -/
def membersText : List (List Char × List Char) → List Char
  | [] => []
  | [member] => memberText member
  | member :: next :: rest => memberText member ++ ',' :: membersText (next :: rest)

/-- An object of strings. -/
def object (members : List (List Char × List Char)) : List Char :=
  '{' :: membersText members ++ ['}']

/-! ## Reading back a string -/

/-- What a letter escapes is read back from it. -/
theorem shortEscape_of_letter {c letter : Char} (found : escapeLetter c = some letter) :
    shortEscape letter = some c ∧ letter ≠ 'u' ∧ letter ≠ '\n' := by
  have each : ∀ pair ∈ [('"', '"'), ('\\', '\\'), ('\x08', 'b'), ('\x0c', 'f'), ('\n', 'n'),
      ('\r', 'r'), ('\t', 't')],
      shortEscape pair.2 = some pair.1 ∧ pair.2 ≠ 'u' ∧ pair.2 ≠ '\n' := by
    decide
  obtain ⟨before, behind, split, -⟩ := List.lookup_eq_some_iff.mp found
  exact each (c, letter) (split ▸ List.mem_append_right _ List.mem_cons_self)

/-- A character without a letter is none of the special ones. -/
theorem plain_of_none {c : Char} (found : escapeLetter c = none) :
    c ≠ '"' ∧ c ≠ '\\' ∧ c ≠ '\n' := by
  refine ⟨?_, ?_, ?_⟩ <;> rintro rfl <;> exact absurd found (by decide)

theorem hexUnit_hexChar :
    ∀ n < 32, hexUnit '0' '0' (hexChar (n / 16)) (hexChar (n % 16)) = some n := by
  decide

theorem hexChar_plain : ∀ n < 16, hexChar n ≠ '"' ∧ hexChar n ≠ '\\' ∧ hexChar n ≠ '\n' ∧
    ¬ (hexChar n).toNat < 0x20 := by
  decide

theorem rawString_escapeChar (c : Char) (rest : List Char) :
    rawString (escapeChar c ++ rest) =
      (rawString rest).map fun (raw, left) => (escapeChar c ++ raw, left) := by
  rw [escapeChar]
  cases found : escapeLetter c with
  | some letter => exact rawString_escape letter rest
  | none =>
      obtain ⟨quote, escape, -⟩ := plain_of_none found
      dsimp only
      split
      case isTrue control =>
        obtain ⟨highQuote, highEscape, -, high⟩ := hexChar_plain (c.toNat / 16) (by omega)
        obtain ⟨lowQuote, lowEscape, -, low⟩ := hexChar_plain (c.toNat % 16) (by omega)
        rw [List.cons_append, List.cons_append, rawString_escape, List.cons_append,
          rawString_plain (by decide) (by decide) (by decide), List.cons_append,
          rawString_plain (by decide) (by decide) (by decide), List.cons_append,
          rawString_plain highQuote highEscape high, List.cons_append,
          rawString_plain lowQuote lowEscape low, List.nil_append]
        cases rawString rest <;> rfl
      case isFalse plain => exact rawString_plain quote escape plain rest

theorem rawString_escape_text (text rest : List Char) :
    rawString (escape text ++ '"' :: rest) = some (escape text, rest) := by
  induction text with
  | nil => exact rawString_quote rest
  | cons c text ih =>
      rw [escape, List.flatMap_cons, List.append_assoc, rawString_escapeChar, ← escape, ih]
      rfl

/-- The piece that an escaped character is. -/
def pieceOf (c : Char) : Piece :=
  if escapeLetter c = none ∧ c.toNat < 0x20 then .unit c.toNat else .char c

theorem pieces_escapeChar (c : Char) (rest : List Char) :
    pieces (escapeChar c ++ rest) = (pieces rest).map (pieceOf c :: ·) := by
  rw [escapeChar, pieceOf]
  cases found : escapeLetter c with
  | some letter =>
      obtain ⟨back, other, -⟩ := shortEscape_of_letter found
      have short : ¬ (some letter = none ∧ c.toNat < 0x20) := fun both => by cases both.1
      rw [if_neg short]
      dsimp only [List.cons_append, List.nil_append]
      rw [pieces.eq_def]
      dsimp only
      rw [if_pos rfl, if_neg other, back]
      rfl
  | none =>
      obtain ⟨-, escape, -⟩ := plain_of_none found
      dsimp only
      by_cases control : c.toNat < 0x20
      · rw [if_pos control, if_pos ⟨rfl, control⟩]
        dsimp only [List.cons_append, List.nil_append]
        rw [pieces.eq_def]
        dsimp only
        rw [if_pos rfl, if_pos rfl, hexUnit_hexChar c.toNat control]
        rfl
      · rw [if_neg control, if_neg fun both => control both.2, List.singleton_append, pieces.eq_def]
        dsimp only
        rw [if_neg escape]

theorem joinPieces_pieceOf (c : Char) (rest : List Piece) :
    joinPieces (pieceOf c :: rest) = (joinPieces rest).map (c :: ·) := by
  rw [pieceOf]
  split
  case isTrue control =>
    rw [joinPieces.eq_def]
    dsimp only
    rw [if_neg (by omega), if_neg (by omega), Char.ofNat_toNat]
  case isFalse => rfl

theorem unescape_escape (text : List Char) : unescape (escape text) = some text := by
  have cut : ∃ ps, pieces (escape text) = some ps ∧ joinPieces ps = some text := by
    induction text with
    | nil => exact ⟨[], rfl, rfl⟩
    | cons c text ih =>
        obtain ⟨ps, found, join⟩ := ih
        refine ⟨pieceOf c :: ps, ?_, ?_⟩
        · rw [escape, List.flatMap_cons, ← escape, pieces_escapeChar, found]
          rfl
        · rw [joinPieces_pieceOf, join]
          rfl
  obtain ⟨ps, found, join⟩ := cut
  rw [unescape, found]
  exact join

/-- A string that is written is read back. -/
theorem string_escape (text rest : List Char) :
    string (escape text ++ '"' :: rest) = some (text, rest) := by
  rw [string, rawString_escape_text]
  simp [unescape_escape]

/-! ## Reading back an object -/

theorem symbol_cons {c : Char} (shown : isSpace c = false) (rest : List Char) :
    symbol c (c :: rest) = some rest := by
  rw [symbol, skipSpace, List.dropWhile_cons_of_neg (by simp [shown])]
  dsimp only
  rw [if_pos rfl]

theorem quote_append (text rest : List Char) :
    quote text ++ rest = '"' :: (escape text ++ '"' :: rest) := by
  rw [quote, List.append_assoc]
  rfl

theorem value_quote (fuel : Nat) (text rest : List Char) :
    value (fuel + 1) (quote text ++ rest) = some (.string text, rest) := by
  rw [quote_append, value, skipSpace, List.dropWhile_cons_of_neg (by decide)]
  dsimp only
  rw [if_pos rfl, string_escape]
  rfl

/-- A member is read off the front of what follows it. -/
theorem members_memberText {fuel : Nat} (member : List Char × List Char) (rest : List Char) :
    members (fuel + 2) (memberText member ++ rest) =
      (listTail '}' (members (fuel + 1)) rest).map fun (more, left) =>
        ((member.1, .string member.2) :: more, left) := by
  have key : string (escape member.1 ++ '"' :: ':' :: (quote member.2 ++ rest)) =
      some (member.1, ':' :: (quote member.2 ++ rest)) := string_escape _ _
  rw [members, memberText, quote]
  simp only [List.append_assoc, List.cons_append, List.nil_append]
  rw [symbol_cons (by decide)]
  dsimp only [Option.bind_eq_bind, Option.bind_some]
  rw [key]
  dsimp only [Option.bind_some]
  rw [symbol_cons (by decide)]
  dsimp only [Option.bind_some]
  rw [value_quote, Option.bind_some]
  cases tail : listTail '}' (members (fuel + 1)) rest with
  | none => rfl
  | some more => rfl

theorem members_membersText (rest : List Char) (ms : List (List Char × List Char))
    (member : List Char × List Char) {fuel : Nat} (enough : ms.length + 2 ≤ fuel) :
    members fuel (membersText (member :: ms) ++ '}' :: rest) =
      some ((member :: ms).map fun m => (m.1, .string m.2), rest) := by
  induction ms generalizing member fuel with
  | nil =>
      obtain ⟨fuel, rfl⟩ := Nat.exists_eq_add_of_le' enough
      rw [membersText]
      exact members_memberText member ('}' :: rest)
  | cons next ms ih =>
      rw [List.length_cons] at enough
      obtain ⟨fuel, rfl⟩ := Nat.exists_eq_add_of_le' (show 2 ≤ fuel by omega)
      have more : listTail '}' (members (fuel + 1))
          (',' :: (membersText (next :: ms) ++ '}' :: rest)) =
            members (fuel + 1) (membersText (next :: ms) ++ '}' :: rest) := rfl
      rw [membersText, List.append_assoc, List.cons_append, members_memberText, more,
        ih next (by omega)]
      rfl

theorem length_le_membersText (ms : List (List Char × List Char)) :
    ms.length ≤ (membersText ms).length := by
  induction ms with
  | nil => exact Nat.zero_le _
  | cons member ms ih =>
      cases ms with
      | nil => simp [membersText, memberText, quote]
      | cons next ms =>
          rw [membersText, List.length_append, List.length_cons]
          have comma : (',' :: membersText (next :: ms)).length =
              (membersText (next :: ms)).length + 1 := rfl
          omega

theorem membersText_cons (member : List Char × List Char) (ms : List (List Char × List Char)) :
    ∃ text, membersText (member :: ms) = '"' :: text := by
  cases ms with
  | nil => exact ⟨_, rfl⟩
  | cons next ms => exact ⟨_, rfl⟩

/-- An object that is written is read back. -/
theorem parse_object (ms : List (List Char × List Char)) :
    parse (object ms) = some (.object (ms.map fun m => (m.1, .string m.2))) := by
  cases ms with
  | nil => rfl
  | cons member ms =>
      have fewer := length_le_membersText (member :: ms)
      rw [List.length_cons] at fewer
      have fuel : fuelFor (object (member :: ms)) =
          2 * (membersText (member :: ms)).length + 5 + 1 := by
        rw [fuelFor, object, List.length_append, List.length_cons, List.length_singleton]
        omega
      have items : listOf '}' (members (2 * (membersText (member :: ms)).length + 5))
          (membersText (member :: ms) ++ ['}']) =
            some ((member :: ms).map fun m => (m.1, .string m.2), []) := by
        obtain ⟨text, first⟩ := membersText_cons member ms
        have unclosed : symbol '}' (membersText (member :: ms) ++ ['}']) = none := by
          rw [first, List.cons_append, symbol, skipSpace, List.dropWhile_cons_of_neg (by decide)]
          rfl
        rw [listOf, unclosed]
        exact members_membersText [] ms member (by omega)
      rw [parse, fuel, object, List.cons_append, value, skipSpace,
        List.dropWhile_cons_of_neg (by decide)]
      dsimp only
      rw [if_neg (by decide), if_neg (by decide), if_pos rfl, items]
      rfl

/-! ## One line -/

theorem newline_not_mem_escape (text : List Char) : '\n' ∉ escape text := by
  intro member
  obtain ⟨c, -, inside⟩ := List.mem_flatMap.mp member
  rw [escapeChar] at inside
  cases found : escapeLetter c with
  | some letter =>
      obtain ⟨-, -, other⟩ := shortEscape_of_letter found
      rw [found] at inside
      simp [other.symm] at inside
  | none =>
      obtain ⟨-, -, other⟩ := plain_of_none found
      rw [found] at inside
      dsimp only at inside
      split at inside
      case isTrue control =>
        obtain ⟨-, -, high, -⟩ := hexChar_plain (c.toNat / 16) (by omega)
        obtain ⟨-, -, low, -⟩ := hexChar_plain (c.toNat % 16) (by omega)
        simp [high.symm, low.symm] at inside
      case isFalse => exact other (List.mem_singleton.mp inside).symm

theorem newline_not_mem_object (ms : List (List Char × List Char)) : '\n' ∉ object ms := by
  have quoted (text : List Char) : '\n' ∉ quote text := by
    simp [quote, newline_not_mem_escape]
  have inside : '\n' ∉ membersText ms := by
    induction ms with
    | nil => exact List.not_mem_nil
    | cons member ms ih =>
        cases ms with
        | nil => simp [membersText, memberText, quoted]
        | cons next ms =>
            rw [membersText]
            simp [memberText, quoted, ih]
  simp [object, inside]

end Json
