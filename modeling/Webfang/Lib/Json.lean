import Mathlib.Data.List.TakeWhile
import Mathlib.Tactic.SplitIfs

/-!
# Reading JSON

A reader for JSON texts.  `value fuel` reads one value off the front of a text and returns what
is left.  One fact carries every use of it (`read_extends`): what was read off a text is read
off it with more fuel and with more text behind it, as long as that text does not continue a
number.  Numbers are kept as the text they are written in.
-/

namespace Json

inductive Value
  | null
  | bool (b : Bool)
  | number (lexeme : List Char)
  | string (text : List Char)
  | array (elements : List Value)
  | object (members : List (List Char × Value))

/-! ## Tokens -/

def isSpace (c : Char) : Bool := c == ' ' || c == '\t' || c == '\n' || c == '\r'

def skipSpace (text : List Char) : List Char := text.dropWhile isSpace

/-- A character that can occur in a number. -/
def isNumberChar (c : Char) : Bool :=
  c.isDigit || c == '-' || c == '+' || c == '.' || c == 'e' || c == 'E'

/-- The digits, and an exponent when there is one. -/
def exponentOk : List Char → Bool
  | [] => true
  | e :: rest =>
      (e == 'e' || e == 'E') &&
        match rest with
        | [] => false
        | sign :: digits =>
            if sign = '+' ∨ sign = '-' then !digits.isEmpty && digits.all Char.isDigit
            else (sign :: digits).all Char.isDigit

/-- What may follow the integer part of a number. -/
def fractionOk : List Char → Bool
  | [] => true
  | c :: rest =>
      if c = '.' then
        !(rest.takeWhile Char.isDigit).isEmpty && exponentOk (rest.dropWhile Char.isDigit)
      else exponentOk (c :: rest)

/-- The grammar of an unsigned number: no leading zeros, digits around the point. -/
def unsignedOk : List Char → Bool
  | [] => false
  | c :: rest =>
      if c = '0' then fractionOk rest else c.isDigit && fractionOk (rest.dropWhile Char.isDigit)

/-- The grammar of a number. -/
def numberOk : List Char → Bool
  | [] => false
  | c :: rest => if c = '-' then unsignedOk rest else unsignedOk (c :: rest)

/-- The characters of a string up to its closing quote, escapes left as they are. -/
def rawString : List Char → Option (List Char × List Char)
  | [] => none
  | c :: rest =>
      if c = '"' then some ([], rest)
      else if c = '\\' then
        match rest with
        | [] => none
        | e :: rest => (rawString rest).map fun (raw, left) => (c :: e :: raw, left)
      else if c.toNat < 0x20 then none
      else (rawString rest).map fun (raw, left) => (c :: raw, left)

def hexDigit (c : Char) : Option Nat :=
  if '0' ≤ c ∧ c ≤ '9' then some (c.toNat - '0'.toNat)
  else if 'a' ≤ c ∧ c ≤ 'f' then some (c.toNat - 'a'.toNat + 10)
  else if 'A' ≤ c ∧ c ≤ 'F' then some (c.toNat - 'A'.toNat + 10)
  else none

/-- The code unit of a `\u` escape. -/
def hexUnit (a b c d : Char) : Option Nat := do
  return (← hexDigit a) * 4096 + (← hexDigit b) * 256 + (← hexDigit c) * 16 + (← hexDigit d)

/-- The character of a one-letter escape. -/
def shortEscape (c : Char) : Option Char :=
  [('"', '"'), ('\\', '\\'), ('/', '/'), ('b', '\x08'), ('f', '\x0c'), ('n', '\n'),
    ('r', '\r'), ('t', '\t')].lookup c

/-- A character of a string, or one code unit of an escape. -/
inductive Piece
  | char (c : Char)
  | unit (n : Nat)

/-- The pieces a raw string is made of. -/
def pieces : List Char → Option (List Piece)
  | [] => some []
  | c :: rest =>
      if c = '\\' then
        match rest with
        | [] => none
        | e :: rest =>
            if e = 'u' then
              match rest with
              | h₁ :: h₂ :: h₃ :: h₄ :: rest =>
                  (hexUnit h₁ h₂ h₃ h₄).bind fun n => (pieces rest).map (.unit n :: ·)
              | _ => none
            else (shortEscape e).bind fun c => (pieces rest).map (.char c :: ·)
      else (pieces rest).map (.char c :: ·)

/-- The text of the pieces; a surrogate must be one of a pair. -/
def joinPieces : List Piece → Option (List Char)
  | [] => some []
  | .char c :: rest => (joinPieces rest).map (c :: ·)
  | .unit n :: rest =>
      if 0xD800 ≤ n ∧ n < 0xDC00 then
        match rest with
        | .unit low :: rest =>
            if 0xDC00 ≤ low ∧ low < 0xE000 then
              (joinPieces rest).map
                (Char.ofNat (0x10000 + (n - 0xD800) * 0x400 + (low - 0xDC00)) :: ·)
            else none
        | _ => none
      else if 0xDC00 ≤ n ∧ n < 0xE000 then none
      else (joinPieces rest).map (Char.ofNat n :: ·)

/-- Resolve the escapes of a string. -/
def unescape (raw : List Char) : Option (List Char) := (pieces raw).bind joinPieces

/-- A string behind its opening quote. -/
def string (text : List Char) : Option (List Char × List Char) := do
  let (raw, rest) ← rawString text
  return (← unescape raw, rest)

/-- A number at the front of a text. -/
def number (text : List Char) : Option (Value × List Char) :=
  let lexeme := text.takeWhile isNumberChar
  if numberOk lexeme then some (.number lexeme, text.dropWhile isNumberChar) else none

/-! ## Values -/

/-- A symbol at the front of a text, spaces skipped. -/
def symbol (c : Char) (text : List Char) : Option (List Char) :=
  match skipSpace text with
  | [] => none
  | d :: rest => if d = c then some rest else none

/-- A word at the front of a text. -/
def literal (word : List Char) (v : Value) (text : List Char) : Option (Value × List Char) :=
  if word.isPrefixOf text then some (v, text.drop word.length) else none

/-- What follows an item of a list: a comma and more items, or the closing symbol. -/
def listTail {α : Type} (close : Char) (more : List Char → Option (List α × List Char))
    (text : List Char) : Option (List α × List Char) :=
  match skipSpace text with
  | [] => none
  | c :: rest =>
      if c = ',' then more rest else if c = close then some ([], rest) else none

/-- A list behind its opening symbol, closed at once or with items. -/
def listOf {α : Type} (close : Char) (items : List Char → Option (List α × List Char))
    (text : List Char) : Option (List α × List Char) :=
  match symbol close text with
  | some rest => some ([], rest)
  | none => items text

mutual

/-- A value at the front of a text, and what is left. -/
def value : Nat → List Char → Option (Value × List Char)
  | 0, _ => none
  | fuel + 1, text =>
      match skipSpace text with
      | [] => none
      | c :: rest =>
          if c = '"' then (string rest).map fun (s, left) => (.string s, left)
          else if c = '[' then
            (listOf ']' (elements fuel) rest).map fun (vs, left) => (.array vs, left)
          else if c = '{' then
            (listOf '}' (members fuel) rest).map fun (ms, left) => (.object ms, left)
          else if c = 'n' then literal ['u', 'l', 'l'] .null rest
          else if c = 't' then literal ['r', 'u', 'e'] (.bool true) rest
          else if c = 'f' then literal ['a', 'l', 's', 'e'] (.bool false) rest
          else number (c :: rest)

/-- The elements of an array up to its closing bracket. -/
def elements : Nat → List Char → Option (List Value × List Char)
  | 0, _ => none
  | fuel + 1, text => do
      let (v, rest) ← value fuel text
      let (vs, left) ← listTail ']' (elements fuel) rest
      return (v :: vs, left)

/-- The members of an object up to its closing brace. -/
def members : Nat → List Char → Option (List (List Char × Value) × List Char)
  | 0, _ => none
  | fuel + 1, text => do
      let rest ← symbol '"' text
      let (key, rest) ← string rest
      let rest ← symbol ':' rest
      let (v, rest) ← value fuel rest
      let (ms, left) ← listTail '}' (members fuel) rest
      return ((key, v) :: ms, left)

end

/-- Fuel enough for any value of a text. -/
def fuelFor (text : List Char) : Nat := 2 * text.length + 2

/-- The value of a whole text. -/
def parse (text : List Char) : Option Value :=
  match value (fuelFor text) text with
  | some (v, rest) => if (skipSpace rest).isEmpty then some v else none
  | none => none

/-- The natural number a number is written as. -/
def Value.nat? : Value → Option Nat
  | .number lexeme =>
      if lexeme.all Char.isDigit then
        some (Nat.ofDigitChars 10 lexeme 0)
      else none
  | _ => none

/-! ## More text and more fuel -/

/-- A text that does not continue a number. -/
def EndsNumber (more : List Char) : Prop := ∀ c ∈ more.head?, isNumberChar c = false

/-- What `p` reads off a text, `q` reads off it when `more` follows. -/
def Extends {α : Type} (more : List Char) (p q : List Char → Option (α × List Char)) : Prop :=
  ∀ text x rest, p text = some (x, rest) → q (text ++ more) = some (x, rest ++ more)

variable {more : List Char}

theorem skipSpace_append {text rest : List Char} {c : Char} (head : skipSpace text = c :: rest)
    (more : List Char) : skipSpace (text ++ more) = c :: (rest ++ more) := by
  induction text with
  | nil => cases head
  | cons d text ih =>
      unfold skipSpace at head ih ⊢
      rw [List.cons_append]
      by_cases space : isSpace d = true
      · rw [List.dropWhile_cons_of_pos space] at head ⊢
        exact ih head
      · rw [List.dropWhile_cons_of_neg space] at head ⊢
        cases head
        rfl

theorem symbol_append {c : Char} {text rest : List Char} (read : symbol c text = some rest)
    (more : List Char) : symbol c (text ++ more) = some (rest ++ more) := by
  unfold symbol at read ⊢
  cases head : skipSpace text with
  | nil =>
      rw [head] at read
      cases read
  | cons d left =>
      rw [head] at read
      rw [skipSpace_append head]
      dsimp only at read ⊢
      split_ifs at read ⊢
      cases read
      rfl

theorem rawString_quote (rest : List Char) : rawString ('"' :: rest) = some ([], rest) := by
  rw [rawString.eq_def]
  rfl

theorem rawString_escape (e : Char) (rest : List Char) :
    rawString ('\\' :: e :: rest) =
      (rawString rest).map fun (raw, left) => ('\\' :: e :: raw, left) := by
  rw [rawString.eq_def]
  rfl

theorem rawString_plain {c : Char} (quote : c ≠ '"') (escape : c ≠ '\\')
    (plain : ¬ c.toNat < 0x20) (rest : List Char) :
    rawString (c :: rest) = (rawString rest).map fun (raw, left) => (c :: raw, left) := by
  rw [rawString.eq_def]
  dsimp only
  rw [if_neg quote, if_neg escape, if_neg plain]

theorem rawString_extends (more : List Char) : Extends more rawString rawString := by
  intro text
  induction text using rawString.induct with
  | case1 =>
      intro raw rest read
      cases read
  | case2 left =>
      intro raw rest read
      rw [rawString_quote] at read
      cases read
      exact rawString_quote _
  | case3 =>
      intro raw rest read
      rw [rawString.eq_def] at read
      cases read
  | case4 _ e left ih =>
      intro raw rest read
      rw [rawString_escape] at read
      obtain ⟨⟨inner, last⟩, readInner, ⟨⟩⟩ := Option.map_eq_some_iff.mp read
      rw [List.cons_append, List.cons_append, rawString_escape, ih inner _ readInner]
      rfl
  | case5 c left quote escape control =>
      intro raw rest read
      rw [rawString.eq_def] at read
      simp [quote, escape, control] at read
  | case6 c left quote escape plain ih =>
      intro raw rest read
      rw [rawString_plain quote escape plain] at read
      obtain ⟨⟨inner, last⟩, readInner, ⟨⟩⟩ := Option.map_eq_some_iff.mp read
      rw [List.cons_append, rawString_plain quote escape plain, ih inner _ readInner]
      rfl

theorem string_extends (more : List Char) : Extends more string string := by
  intro text x rest read
  obtain ⟨⟨raw, left⟩, readRaw, read⟩ := Option.bind_eq_some_iff.mp read
  obtain ⟨plain, resolved, ⟨⟩⟩ := Option.bind_eq_some_iff.mp read
  unfold string
  rw [rawString_extends more text raw rest readRaw]
  simp [resolved]

theorem literal_extends (word : List Char) (v : Value) (more : List Char) :
    Extends more (literal word v) (literal word v) := by
  intro text x rest read
  unfold literal at read ⊢
  split_ifs at read with initial
  cases read
  obtain ⟨left, rfl⟩ := List.isPrefixOf_iff_prefix.mp initial
  rw [if_pos (List.isPrefixOf_iff_prefix.mpr ⟨left ++ more, by simp⟩)]
  simp

theorem number_extends (ends : EndsNumber more) : Extends more number number := by
  intro text x rest read
  unfold number at read ⊢
  dsimp only at read ⊢
  split_ifs at read with valid
  cases read
  have split : (text ++ more).takeWhile isNumberChar = text.takeWhile isNumberChar ∧
      (text ++ more).dropWhile isNumberChar = text.dropWhile isNumberChar ++ more := by
    clear valid
    induction text with
    | nil =>
        cases more with
        | nil => exact ⟨rfl, rfl⟩
        | cons c more =>
            have other := ends c rfl
            simp [other]
    | cons c text ih =>
        by_cases part : isNumberChar c = true
        · simp [part, ih]
        · simp [part]
  rw [split.1, split.2, if_pos valid]

theorem listTail_extends {α : Type} {close : Char}
    {p q : List Char → Option (List α × List Char)} (items : Extends more p q) :
    Extends more (listTail close p) (listTail close q) := by
  intro text x rest read
  unfold listTail at read ⊢
  cases head : skipSpace text with
  | nil =>
      rw [head] at read
      cases read
  | cons c left =>
      rw [head] at read
      rw [skipSpace_append head]
      dsimp only at read ⊢
      split_ifs at read ⊢
      · exact items left x rest read
      · cases read
        rfl

/-- An empty list stays empty, a list with items is not closed by what follows. -/
theorem listOf_extends {α : Type} {close : Char}
    {p q : List Char → Option (List α × List Char)} (items : Extends more p q)
    (nonempty : ∀ text x, p text = some x → skipSpace text ≠ []) :
    Extends more (listOf close p) (listOf close q) := by
  intro text x rest read
  unfold listOf at read ⊢
  cases closed : symbol close text with
  | some left =>
      rw [closed] at read
      cases read
      rw [symbol_append closed more]
  | none =>
      rw [closed] at read
      have still : symbol close (text ++ more) = none := by
        unfold symbol at closed ⊢
        cases head : skipSpace text with
        | nil => exact absurd head (nonempty text _ read)
        | cons d left =>
            rw [head] at closed
            rw [skipSpace_append head]
            dsimp only at closed ⊢
            split_ifs at closed ⊢
            rfl
      rw [still]
      exact items text x rest read

theorem skipSpace_ne_nil_of_value {fuel : Nat} {text : List Char} {x : Value × List Char}
    (read : value fuel text = some x) : skipSpace text ≠ [] := by
  intro empty
  cases fuel with
  | zero =>
      rw [value] at read
      cases read
  | succ fuel =>
      rw [value, empty] at read
      cases read

theorem skipSpace_ne_nil_of_elements {fuel : Nat} {text : List Char}
    {x : List Value × List Char} (read : elements fuel text = some x) : skipSpace text ≠ [] := by
  cases fuel with
  | zero =>
      rw [elements] at read
      cases read
  | succ fuel =>
      rw [elements] at read
      obtain ⟨first, readFirst, -⟩ := Option.bind_eq_some_iff.mp read
      exact skipSpace_ne_nil_of_value readFirst

theorem skipSpace_ne_nil_of_members {fuel : Nat} {text : List Char}
    {x : List (List Char × Value) × List Char} (read : members fuel text = some x) :
    skipSpace text ≠ [] := by
  intro empty
  cases fuel with
  | zero =>
      rw [members] at read
      cases read
  | succ fuel =>
      rw [members] at read
      obtain ⟨rest, quote, -⟩ := Option.bind_eq_some_iff.mp read
      rw [symbol, empty] at quote
      cases quote

/-- A reader behind a change of what it returns. -/
theorem Extends.map {α β : Type} {p q : List Char → Option (α × List Char)}
    (inner : Extends more p q) (f : α → β) :
    Extends more (fun text => (p text).map fun (x, left) => (f x, left))
      (fun text => (q text).map fun (x, left) => (f x, left)) := by
  intro text y rest read
  obtain ⟨⟨x, left⟩, readInner, ⟨⟩⟩ := Option.map_eq_some_iff.mp read
  simp [inner text x rest readInner]

/-- A value read with some fuel is read with more of it when more text follows, and so are the
items of an array or an object. -/
theorem read_extends (ends : EndsNumber more) {fuel plenty : Nat} (enough : fuel ≤ plenty) :
    Extends more (value fuel) (value plenty) ∧ Extends more (elements fuel) (elements plenty) ∧
      Extends more (members fuel) (members plenty) := by
  induction fuel generalizing plenty with
  | zero =>
      refine ⟨?_, ?_, ?_⟩ <;> intro text x rest read
      · rw [value] at read
        cases read
      · rw [elements] at read
        cases read
      · rw [members] at read
        cases read
  | succ fuel ih =>
      obtain ⟨plenty, rfl⟩ := Nat.exists_eq_succ_of_ne_zero (n := plenty) (by omega)
      obtain ⟨values, arrays, objects⟩ := @ih plenty (by omega)
      refine ⟨?_, ?_, ?_⟩
      · intro text x rest read
        rw [value] at read ⊢
        cases head : skipSpace text with
        | nil =>
            rw [head] at read
            cases read
        | cons c left =>
            rw [head] at read
            rw [skipSpace_append head]
            dsimp only at read ⊢
            split_ifs at read ⊢
            · exact (string_extends more).map Value.string left x rest read
            · exact (listOf_extends arrays fun _ _ => skipSpace_ne_nil_of_elements).map Value.array
                left x rest read
            · exact (listOf_extends objects fun _ _ => skipSpace_ne_nil_of_members).map
                Value.object left x rest read
            · exact literal_extends _ _ more left x rest read
            · exact literal_extends _ _ more left x rest read
            · exact literal_extends _ _ more left x rest read
            · exact number_extends ends (c :: left) x rest read
      · intro text x rest read
        rw [elements] at read
        obtain ⟨⟨v, left⟩, first, read⟩ := Option.bind_eq_some_iff.mp read
        obtain ⟨⟨vs, last⟩, others, ⟨⟩⟩ := Option.bind_eq_some_iff.mp read
        rw [elements, values text v left first]
        simp [listTail_extends arrays left vs rest others]
      · intro text x rest read
        rw [members] at read
        obtain ⟨quoted, quote, read⟩ := Option.bind_eq_some_iff.mp read
        obtain ⟨⟨key, named⟩, name, read⟩ := Option.bind_eq_some_iff.mp read
        obtain ⟨valued, colon, read⟩ := Option.bind_eq_some_iff.mp read
        obtain ⟨⟨v, left⟩, first, read⟩ := Option.bind_eq_some_iff.mp read
        obtain ⟨⟨ms, last⟩, others, ⟨⟩⟩ := Option.bind_eq_some_iff.mp read
        rw [members, symbol_append quote more]
        simp [string_extends more quoted key named name, symbol_append colon more,
          values valued v left first, listTail_extends objects left ms rest others]

/-- The value of a whole text is read off the front of any text it begins, up to spaces. -/
theorem value_of_parse {text : List Char} {v : Value} (read : parse text = some v)
    (ends : EndsNumber more) (fuel : Nat) (enough : fuelFor text ≤ fuel) :
    ∃ rest, value fuel (text ++ more) = some (v, rest) ∧ skipSpace rest = skipSpace more := by
  unfold parse at read
  cases first : value (fuelFor text) text with
  | none =>
      rw [first] at read
      cases read
  | some result =>
      obtain ⟨w, rest⟩ := result
      rw [first] at read
      dsimp only at read
      split_ifs at read with spaces
      cases read
      refine ⟨rest ++ more, (read_extends ends enough).1 text v rest first, ?_⟩
      rw [List.isEmpty_iff] at spaces
      unfold skipSpace at spaces ⊢
      rw [List.dropWhile_append, spaces]
      rfl

/-- A text that reads is still read when spaces follow, and never when anything else does. -/
theorem parse_append {text : List Char} {v : Value} (read : parse text = some v)
    (ends : EndsNumber more) :
    parse (text ++ more) = if (skipSpace more).isEmpty then some v else none := by
  obtain ⟨rest, whole, spaces⟩ := value_of_parse read ends (fuelFor (text ++ more)) (by
    unfold fuelFor
    rw [List.length_append]
    omega)
  unfold parse
  rw [whole]
  dsimp only
  rw [spaces]

/-- What a text that reads begins with does not read, unless only spaces are left out. -/
theorem parse_eq_none_of_append {text : List Char} {v : Value}
    (read : parse (text ++ more) = some v) (ends : EndsNumber more)
    (left : (skipSpace more).isEmpty = false) : parse text = none := by
  cases first : parse text with
  | none => rfl
  | some w =>
      rw [parse_append first ends, left] at read
      cases read

theorem endsNumber_append {front : List Char} (inner : ∀ c ∈ front, isNumberChar c = false)
    (ends : EndsNumber more) : EndsNumber (front ++ more) := by
  cases front with
  | nil => exact ends
  | cons c front =>
      rintro d ⟨⟩
      exact inner c List.mem_cons_self

theorem skipSpace_isEmpty_of_mem {text : List Char} {c : Char} (member : c ∈ text)
    (shown : isSpace c = false) : (skipSpace text).isEmpty = false := by
  rw [← Bool.not_eq_true, List.isEmpty_iff]
  intro spaces
  have space := List.dropWhile_eq_nil_iff.mp spaces c member
  rw [shown] at space
  cases space

/-! ## Putting texts together -/

/-- A character that stands for itself in a string. -/
def IsPlain (c : Char) : Prop := c ≠ '"' ∧ c ≠ '\\' ∧ 0x20 ≤ c.toNat

instance (c : Char) : Decidable (IsPlain c) := inferInstanceAs (Decidable (_ ∧ _ ∧ _))

theorem plain_of_all {text : List Char} (all : text.all (fun c => decide (IsPlain c)) = true) :
    ∀ c ∈ text, IsPlain c :=
  fun c member => of_decide_eq_true (List.all_eq_true.mp all c member)

theorem string_plain {text : List Char} (plain : ∀ c ∈ text, IsPlain c) (rest : List Char) :
    string (text ++ '"' :: rest) = some (text, rest) := by
  have raw : rawString (text ++ '"' :: rest) = some (text, rest) := by
    induction text with
    | nil => exact rawString_quote rest
    | cons c text ih =>
        obtain ⟨⟨quote, escape, printable⟩, later⟩ := List.forall_mem_cons.mp plain
        rw [List.cons_append, rawString_plain quote escape (by omega), ih later]
        rfl
  have whole : pieces text = some (text.map .char) := by
    clear raw
    induction text with
    | nil => rfl
    | cons c text ih =>
        obtain ⟨⟨-, escape, -⟩, later⟩ := List.forall_mem_cons.mp plain
        rw [pieces.eq_def]
        dsimp only
        rw [if_neg escape, ih later]
        rfl
  have joined : joinPieces (text.map .char) = some text := by
    clear raw whole plain
    induction text with
    | nil => rfl
    | cons c text ih =>
        rw [List.map_cons, joinPieces, ih]
        rfl
  simp [string, raw, unescape, whole, joined]

theorem value_space (fuel : Nat) (text : List Char) :
    value fuel (' ' :: text) = value fuel text := by
  cases fuel with
  | zero => rfl
  | succ fuel =>
      rw [value, value]
      rfl

theorem value_string (fuel : Nat) (text : List Char) (plain : ∀ c ∈ text, IsPlain c)
    (rest : List Char) :
    value (fuel + 1) ('"' :: (text ++ '"' :: rest)) = some (.string text, rest) := by
  rw [value, show skipSpace ('"' :: (text ++ '"' :: rest)) = '"' :: (text ++ '"' :: rest) from rfl]
  dsimp only
  rw [if_pos rfl, string_plain plain]
  rfl

theorem value_null (fuel : Nat) (rest : List Char) :
    value (fuel + 1) ('n' :: 'u' :: 'l' :: 'l' :: rest) = some (.null, rest) := by
  rw [value]
  rfl

/-- An array with elements. -/
theorem value_array {fuel : Nat} {text rest : List Char} {vs : List Value}
    (open' : symbol ']' text = none) (read : elements fuel text = some (vs, rest)) :
    value (fuel + 1) ('[' :: text) = some (.array vs, rest) := by
  rw [value, show skipSpace ('[' :: text) = '[' :: text from rfl]
  dsimp only
  rw [if_neg (by decide), if_pos rfl, listOf, open']
  simp [read]

/-- An object with members. -/
theorem value_object {fuel : Nat} {text rest : List Char} {ms : List (List Char × Value)}
    (open' : symbol '}' text = none) (read : members fuel text = some (ms, rest)) :
    value (fuel + 1) ('{' :: text) = some (.object ms, rest) := by
  rw [value, show skipSpace ('{' :: text) = '{' :: text from rfl]
  dsimp only
  rw [if_neg (by decide), if_neg (by decide), if_pos rfl, listOf, open']
  simp [read]

theorem listTail_comma {α : Type} {close : Char}
    {items : List Char → Option (List α × List Char)} {text : List Char} (rest : List Char)
    (head : skipSpace text = ',' :: rest) : listTail close items text = items rest := by
  rw [listTail, head]
  exact if_pos rfl

theorem listTail_close {α : Type} {close : Char}
    {items : List Char → Option (List α × List Char)} {text rest : List Char}
    (head : skipSpace text = close :: rest) (other : close ≠ ',') :
    listTail close items text = some ([], rest) := by
  rw [listTail, head]
  dsimp only
  rw [if_neg other, if_pos rfl]

/-- No value begins with a closing bracket. -/
theorem symbol_close_of_value {fuel : Nat} {text : List Char} {x : Value × List Char}
    (read : value fuel text = some x) : symbol ']' text = none := by
  unfold symbol
  cases head : skipSpace text with
  | nil => rfl
  | cons c rest =>
      refine if_neg ?_
      rintro rfl
      cases fuel with
      | zero =>
          rw [value] at read
          cases read
      | succ fuel =>
          rw [value, head] at read
          cases read

theorem symbol_close_of_elements {fuel : Nat} {text : List Char} {x : List Value × List Char}
    (read : elements fuel text = some x) : symbol ']' text = none := by
  cases fuel with
  | zero =>
      rw [elements] at read
      cases read
  | succ fuel =>
      rw [elements] at read
      obtain ⟨first, readFirst, -⟩ := Option.bind_eq_some_iff.mp read
      exact symbol_close_of_value readFirst

/-- An element and what follows it. -/
theorem elements_succ {fuel : Nat} {text left rest : List Char} {v : Value} {vs : List Value}
    (first : value fuel text = some (v, left))
    (later : listTail ']' (elements fuel) left = some (vs, rest)) :
    elements (fuel + 1) text = some (v :: vs, rest) := by
  rw [elements, first]
  simp [later]

/-- A member with a plain key, written with a space behind its colon. -/
def member (key text : List Char) : List Char := '"' :: (key ++ '"' :: ':' :: ' ' :: text)

theorem members_succ {fuel : Nat} {key text left rest : List Char} {v : Value}
    {ms : List (List Char × Value)} (plain : ∀ c ∈ key, IsPlain c)
    (first : value fuel text = some (v, left))
    (later : listTail '}' (members fuel) left = some (ms, rest)) :
    members (fuel + 1) (member key text) = some ((key, v) :: ms, rest) := by
  have quote : symbol '"' (member key text) = some (key ++ '"' :: ':' :: ' ' :: text) := rfl
  have colon : symbol ':' (':' :: ' ' :: text) = some (' ' :: text) := rfl
  rw [members, quote]
  simp [string_plain plain, colon, value_space, first, later]

theorem members_space (fuel : Nat) (text : List Char) :
    members fuel (' ' :: text) = members fuel text := by
  cases fuel with
  | zero => rfl
  | succ fuel =>
      rw [members, members]
      rfl

/-- A member that another one follows. -/
theorem members_comma (fuel : Nat) (key : List Char) {text left rest : List Char} {v : Value}
    {ms : List (List Char × Value)} (plain : ∀ c ∈ key, IsPlain c)
    (first : value fuel text = some (v, ',' :: ' ' :: left))
    (later : members fuel left = some (ms, rest)) :
    members (fuel + 1) (member key text) = some ((key, v) :: ms, rest) := by
  refine members_succ plain first ?_
  rw [listTail_comma (' ' :: left) rfl, members_space]
  exact later

/-- The last member of an object. -/
theorem members_close (fuel : Nat) (key : List Char) {text rest : List Char} {v : Value}
    (plain : ∀ c ∈ key, IsPlain c) (first : value fuel text = some (v, '}' :: rest)) :
    members (fuel + 1) (member key text) = some ([(key, v)], rest) :=
  members_succ plain first (listTail_close rfl (by decide))

/-! ## Natural numbers -/

/-- How a natural number is written. -/
def ofNat (n : Nat) : List Char := Nat.toDigits 10 n

theorem isDigit_of_mem_ofNat {n : Nat} {c : Char} (member : c ∈ ofNat n) : c.isDigit = true :=
  Nat.isDigit_of_mem_toDigits (by decide) (by decide) member

/-- Only zero is written with a zero in front. -/
theorem head?_ofNat {n : Nat} (positive : 0 < n) : (ofNat n).head? ≠ some '0' := by
  have digit : ∀ m < 10, 0 < m → Nat.digitChar m ≠ '0' := by decide
  unfold ofNat
  induction n using Nat.strongRecOn with
  | ind n ih =>
      rw [Nat.toDigits_eq_if (by decide)]
      split_ifs with small
      · simpa using digit n small positive
      · cases front : Nat.toDigits 10 (n / 10) with
        | nil => exact absurd front Nat.toDigits_ne_nil
        | cons c rest =>
            have shorter := ih (n / 10) (by omega) (by omega)
            rwa [front] at shorter

theorem ofNat_eq_cons (n : Nat) : ∃ c rest, ofNat n = c :: rest ∧ c.isDigit = true ∧
    (∀ d ∈ rest, d.isDigit = true) ∧ (c = '0' → rest = []) := by
  cases written : ofNat n with
  | nil => exact absurd written Nat.toDigits_ne_nil
  | cons c rest =>
      have digits : ∀ d ∈ c :: rest, d.isDigit = true := by
        rw [← written]
        exact fun d => isDigit_of_mem_ofNat
      obtain ⟨first, later⟩ := List.forall_mem_cons.mp digits
      refine ⟨c, rest, rfl, first, later, ?_⟩
      rintro rfl
      cases n with
      | zero => cases written; rfl
      | succ n => exact absurd (by rw [written]; rfl) (head?_ofNat n.succ_pos)

/-- A digit is none of the characters that mean something else. -/
theorem ne_of_isDigit {c d : Char} (digit : c.isDigit = true) (other : d.isDigit = false) :
    c ≠ d := by
  rintro rfl
  rw [digit] at other
  cases other

theorem numberOk_ofNat (n : Nat) : numberOk (ofNat n) = true := by
  obtain ⟨c, rest, written, first, later, zero⟩ := ofNat_eq_cons n
  rw [written, numberOk, if_neg (ne_of_isDigit first rfl), unsignedOk]
  split_ifs with leading
  · rw [zero leading]
    rfl
  · rw [first, List.dropWhile_eq_nil_iff.mpr later]
    rfl

theorem nat?_ofNat (n : Nat) : (Value.number (ofNat n)).nat? = some n := by
  have digits : (ofNat n).all Char.isDigit = true :=
    List.all_eq_true.mpr fun c member => isDigit_of_mem_ofNat member
  rw [Value.nat?, if_pos digits]
  exact congrArg some Nat.ofDigitChars_ten_toDigits

/-- A natural number at the front of a text. -/
theorem value_ofNat (n fuel : Nat) (ends : EndsNumber more) :
    value (fuel + 1) (ofNat n ++ more) = some (.number (ofNat n), more) := by
  have digits : ∀ c ∈ ofNat n, isNumberChar c = true := by
    intro c member
    simp [isNumberChar, isDigit_of_mem_ofNat member]
  have read : number (ofNat n) = some (.number (ofNat n), []) := by
    unfold number
    rw [List.takeWhile_eq_self_iff.mpr digits, List.dropWhile_eq_nil_iff.mpr digits]
    exact if_pos (numberOk_ofNat n)
  have whole := number_extends ends (ofNat n) _ [] read
  obtain ⟨c, rest, written, first, -, -⟩ := ofNat_eq_cons n
  have head : skipSpace (ofNat n ++ more) = ofNat n ++ more := by
    rw [written, List.cons_append, skipSpace]
    refine List.dropWhile_cons_of_neg ?_
    simp only [isSpace, Bool.or_eq_true, beq_iff_eq, not_or]
    exact ⟨⟨⟨ne_of_isDigit first rfl, ne_of_isDigit first rfl⟩, ne_of_isDigit first rfl⟩,
      ne_of_isDigit first rfl⟩
  rw [value, head]
  rw [written, List.cons_append] at whole ⊢
  dsimp only
  rw [if_neg (ne_of_isDigit first rfl), if_neg (ne_of_isDigit first rfl),
    if_neg (ne_of_isDigit first rfl), if_neg (ne_of_isDigit first rfl),
    if_neg (ne_of_isDigit first rfl), if_neg (ne_of_isDigit first rfl), whole]
  rfl

end Json
