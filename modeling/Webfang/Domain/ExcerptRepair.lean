import Webfang.Domain.Record
import Webfang.Lib.Blanks

/-!
# The byline of an excerpt

`domain/excerpt_repair.rs`: an excerpt may hold bylines that have lost their name, `by (about)`.
Each is completed with the author or dropped, and the blanks of the text are collapsed.  A text is
read as the parts between its empty bylines, which are found from the left.
-/

namespace Webfang.Excerpt

open Blanks

/-! ## The repair -/

/-- The word characters of the regex crate, as far as a boundary before `by` depends on them. -/
structure WordClass where
  isWord : Char → Bool
  letters : isWord 'b' = true ∧ isWord 'y' = true
  closing : isWord ')' = false
  blanks : ∀ c, isWhitespace c = true → isWord c = false

/-- `normalize_whitespace`. -/
def normalizeWhitespace (text : List Char) : List Char :=
  let needsCleanup := text.any (fun c => isWhitespace c && c != ' ') ||
    text.tails.any [' ', ' '].isPrefixOf
  if needsCleanup then unwords ' ' (words isWhitespace text) else text

/-- The length of a match of `by\s+\([^)]*\)` at the front of a text. -/
def bylineLength (text : List Char) : Option Nat :=
  let behind := text.drop 2
  let blanks := behind.takeWhile isWhitespace
  let parens := behind.dropWhile isWhitespace
  if ['b', 'y'].isPrefixOf text && !blanks.isEmpty && parens.head? == some '(' &&
      parens.contains ')' then
    some (2 + blanks.length + (parens.takeWhile (· != ')')).length + 1)
  else none

section Repair

variable (classes : WordClass)

/-- The parts of a text between the matches of `EMPTY_BYLINE_FRAGMENT`: how much of a match is still
to be left out, and whether the character before is a word character. -/
def splitBylines : Nat → Bool → List Char → List (List Char)
  | _, _, [] => [[]]
  | skip + 1, _, c :: text => splitBylines skip (classes.isWord c) text
  | 0, afterWord, c :: text =>
      match if afterWord then none else bylineLength (c :: text) with
      | some length => [] :: splitBylines (length - 1) (classes.isWord c) text
      | none => (splitBylines 0 (classes.isWord c) text).modifyHead (c :: ·)

/-- `Regex::is_match`. -/
def isMatch (text : List Char) : Bool := 1 < (splitBylines classes 0 false text).length

/-- `Regex::replace_all`. -/
def replaceAll (fragment text : List Char) : List Char :=
  fragment.intercalate (splitBylines classes 0 false text)

/-- What is written for an empty byline. -/
def fragmentOf : Option (List Char) → List Char
  | some name => "by ".toList ++ name
  | none => []

def repairEmptyByline (excerpt : List Char) (author : Option (List Char)) : List Char :=
  let repaired := replaceAll classes (fragmentOf author) excerpt
  normalizeWhitespace ((repaired.dropWhile isWhitespace).rdropWhile isWhitespace)

/-! ## Bylines -/

/-- Whether a word character stands before what follows a text. -/
def ends (afterWord : Bool) (text : List Char) : Bool :=
  text.foldl (fun _ c => classes.isWord c) afterWord

/-- A text that opens a byline at its front, and what stands behind the parenthesis. -/
def Opens (text inside : List Char) : Prop :=
  ∃ w, text = 'b' :: 'y' :: (w ++ '(' :: inside) ∧ w ≠ [] ∧ ∀ c ∈ w, isWhitespace c = true

/-- A byline is opened in a text. -/
def HasOpener (afterWord : Bool) (text : List Char) : Prop :=
  ∃ p front inside, text = p ++ front ∧ ends classes afterWord p = false ∧ Opens front inside

/-- A byline is opened and closed in a text. -/
def HasByline (afterWord : Bool) (text : List Char) : Prop :=
  ∃ p front inside, text = p ++ front ∧ ends classes afterWord p = false ∧ Opens front inside ∧
    ')' ∈ inside

/-- An empty byline. -/
def IsByline (text : List Char) : Prop := ∃ q, Opens text (q ++ [')']) ∧ ')' ∉ q

/-- The parts of a text and the empty bylines between them. -/
inductive Parts : Bool → List Char → List (List Char) → List (List Char) → Prop
  | last {afterWord : Bool} {text : List Char} :
    ¬ HasByline classes afterWord text → Parts afterWord text [text] []
  | cut {afterWord : Bool} {part byline text : List Char} {parts bylines : List (List Char)} :
    ¬ HasOpener classes afterWord part → ends classes afterWord part = false → IsByline byline →
    Parts false text parts bylines →
    Parts afterWord (part ++ (byline ++ text)) (part :: parts) (byline :: bylines)

end Repair

variable {classes : WordClass} {afterWord : Bool} {text inside byline : List Char}
  {parts bylines : List (List Char)}

theorem opens_append (opens : Opens text inside) (rest : List Char) :
    Opens (text ++ rest) (inside ++ rest) := by
  obtain ⟨w, rfl, nonempty, blanks⟩ := opens
  refine ⟨w, ?_, nonempty, blanks⟩
  simp only [List.cons_append, List.append_assoc]

/-- A byline that is opened at the front and closed begins with an empty one. -/
theorem exists_byline (opens : Opens text inside) (closed : ')' ∈ inside) :
    ∃ byline rest, text = byline ++ rest ∧ IsByline byline := by
  obtain ⟨w, rfl, nonempty, blanks⟩ := opens
  obtain ⟨q, rest, rfl, first⟩ := List.eq_append_cons_of_mem closed
  refine ⟨'b' :: 'y' :: (w ++ '(' :: (q ++ [')'])), rest, ?_, q, ⟨w, rfl, nonempty, blanks⟩, first⟩
  simp only [List.cons_append, List.append_assoc, List.nil_append]

theorem takeWhile_until {c : Char} {q : List Char} (absent : c ∉ q) (rest : List Char) :
    (q ++ c :: rest).takeWhile (· != c) = q := by
  have each : ∀ d ∈ q, (d != c) = true := fun d member =>
    bne_iff_ne.mpr fun same => absent (same ▸ member)
  rw [List.takeWhile_append_of_pos each, List.takeWhile_cons_of_neg (by simp), List.append_nil]

theorem bylineLength_byline (isByline : IsByline byline) (rest : List Char) :
    bylineLength (byline ++ rest) = some byline.length := by
  obtain ⟨q, ⟨w, rfl, nonempty, blanks⟩, absent⟩ := isByline
  have paren : isWhitespace '(' = false := by decide
  have whole : ('b' :: 'y' :: (w ++ '(' :: (q ++ [')'])) ++ rest).drop 2 =
      w ++ '(' :: (q ++ ')' :: rest) := by simp
  have taken : (w ++ '(' :: (q ++ ')' :: rest)).takeWhile isWhitespace = w := by
    rw [List.takeWhile_append_of_pos blanks, List.takeWhile_cons_of_neg (by simp [paren]),
      List.append_nil]
  have dropped : (w ++ '(' :: (q ++ ')' :: rest)).dropWhile isWhitespace =
      ('(' :: q) ++ ')' :: rest := by
    rw [List.dropWhile_append_of_pos blanks, List.dropWhile_cons_of_neg (by simp [paren])]
    rfl
  have inner : (('(' :: q) ++ ')' :: rest).takeWhile (· != ')') = '(' :: q := by
    refine takeWhile_until (fun member => ?_) rest
    exact (List.mem_cons.mp member).elim (by decide) absent
  unfold bylineLength
  rw [whole]
  dsimp only
  rw [taken, dropped, inner]
  simp [nonempty]
  omega

theorem opens_of_bylineLength {n : Nat} (found : bylineLength text = some n) :
    ∃ inside, Opens text inside ∧ ')' ∈ inside := by
  unfold bylineLength at found
  dsimp only at found
  split at found
  case isFalse => cases found
  case isTrue here =>
    rw [Bool.and_eq_true, Bool.and_eq_true, Bool.and_eq_true, List.isPrefixOf_iff_prefix,
      beq_iff_eq, List.contains_iff_mem] at here
    obtain ⟨⟨⟨⟨behind, rfl⟩, some⟩, paren⟩, closed⟩ := here
    obtain ⟨inside, parens⟩ := List.head?_eq_some_iff.mp paren
    have behind_eq : ['b', 'y'].append behind = 'b' :: 'y' :: behind := rfl
    rw [List.drop_append_of_le_length (by decide)] at some parens closed
    rw [parens] at closed
    refine ⟨inside, ⟨behind.takeWhile isWhitespace, ?_, by simpa using some, fun c member => ?_⟩, ?_⟩
    · have whole : behind = behind.takeWhile isWhitespace ++ '(' :: inside := by
        rw [← parens]
        exact List.takeWhile_append_dropWhile.symm
      exact congrArg (fun s => 'b' :: 'y' :: s) whole
    · exact List.mem_takeWhile_imp member
    · exact (List.mem_cons.mp closed).resolve_left (by decide)

theorem byline_of_bylineLength {n : Nat} (found : bylineLength text = some n) :
    ∃ byline rest, text = byline ++ rest ∧ IsByline byline ∧ byline.length = n := by
  obtain ⟨inside, opens, closed⟩ := opens_of_bylineLength found
  obtain ⟨byline, rest, rfl, isByline⟩ := exists_byline opens closed
  rw [bylineLength_byline isByline] at found
  exact ⟨byline, rest, rfl, isByline, Option.some.inj found⟩

/-! ## The parts of a text -/

/-- What is left of a match is passed over. -/
theorem splitBylines_skip (skip : Nat) (text : List Char) :
    splitBylines classes skip afterWord text =
      splitBylines classes 0 (ends classes afterWord (text.take skip)) (text.drop skip) := by
  induction text generalizing skip afterWord with
  | nil => cases skip <;> rfl
  | cons c text ih =>
      cases skip with
      | zero => rfl
      | succ skip => exact ih skip

theorem ends_append (front : List Char) :
    ends classes afterWord (front ++ text) = ends classes (ends classes afterWord front) text :=
  List.foldl_append

theorem ends_byline (isByline : IsByline byline) : ends classes afterWord byline = false := by
  obtain ⟨q, ⟨w, rfl, -⟩, -⟩ := isByline
  have last : 'b' :: 'y' :: (w ++ '(' :: (q ++ [')'])) = ('b' :: 'y' :: (w ++ '(' :: q)) ++ [')'] := by
    simp
  rw [last, ends_append]
  exact classes.closing

/-- Behind an empty byline the text is read anew. -/
theorem splitBylines_byline (isByline : IsByline byline) (rest : List Char) :
    splitBylines classes 0 false (byline ++ rest) = [] :: splitBylines classes 0 false rest := by
  obtain ⟨c, tail, rfl⟩ : ∃ c tail, byline = c :: tail := by
    obtain ⟨q, ⟨w, rfl, -⟩, -⟩ := isByline
    exact ⟨_, _, rfl⟩
  have found := bylineLength_byline isByline rest
  have behind : ends classes false (c :: tail) = false := ends_byline isByline
  rw [List.cons_append, splitBylines, if_neg Bool.false_ne_true, ← List.cons_append, found]
  dsimp only
  rw [List.length_cons, Nat.add_sub_cancel, splitBylines_skip, List.take_left, List.drop_left]
  exact congrArg (fun afterWord => [] :: splitBylines classes 0 afterWord rest) behind

/-- An opener that begins before a letter `b` is whole before it. -/
theorem opens_before {x y : List Char} (opens : Opens (x ++ 'b' :: y) inside) (nonempty : x ≠ []) :
    ∃ inside', Opens x inside' ∧ inside = inside' ++ 'b' :: y := by
  obtain ⟨w, whole, some, blanks⟩ := opens
  have letter : isWhitespace 'b' = false := by decide
  obtain ⟨c, x, rfl⟩ := List.exists_cons_of_ne_nil nonempty
  obtain ⟨rfl, rest⟩ := List.cons.inj whole
  cases x with
  | nil => exact absurd (List.cons.inj rest).1 (by decide)
  | cons d x =>
      obtain ⟨rfl, -⟩ := List.cons.inj rest
      have behindWord : x ++ 'b' :: y = w ++ '(' :: inside := (List.cons.inj rest).2
      rcases List.append_eq_append_iff.mp behindWord with ⟨v, rfl, behind⟩ | ⟨v, rfl, behind⟩
      · -- the letter would be a blank
        cases v with
        | nil => exact absurd (List.cons.inj behind).1 (by decide)
        | cons e v =>
            obtain ⟨rfl, -⟩ := List.cons.inj behind
            have among := blanks 'b' (List.mem_append_right x List.mem_cons_self)
            rw [letter] at among
            cases among
      · cases v with
        | nil => exact absurd (List.cons.inj behind).1 (by decide)
        | cons e v =>
            obtain ⟨rfl, later⟩ := List.cons.inj behind
            exact ⟨v, ⟨w, rfl, some, blanks⟩, later⟩

theorem byline_cons (isByline : IsByline byline) : ∃ tail, byline = 'b' :: tail := by
  obtain ⟨q, ⟨w, rfl, -⟩, -⟩ := isByline
  exact ⟨_, rfl⟩

theorem hasOpener_cons {c : Char} (opener : HasOpener classes (classes.isWord c) text) :
    HasOpener classes afterWord (c :: text) := by
  obtain ⟨p, front, inside, rfl, boundary, opens⟩ := opener
  exact ⟨c :: p, front, inside, rfl, boundary, opens⟩

theorem hasByline_cons {c : Char} (here : HasByline classes (classes.isWord c) text) :
    HasByline classes afterWord (c :: text) := by
  obtain ⟨p, front, inside, rfl, boundary, opens, closed⟩ := here
  exact ⟨c :: p, front, inside, rfl, boundary, opens, closed⟩

/-- A byline begins at the front of a text or behind its first character. -/
theorem hasByline_cons_cases {c : Char} (here : HasByline classes afterWord (c :: text)) :
    (afterWord = false ∧ ∃ n, bylineLength (c :: text) = some n) ∨
      HasByline classes (classes.isWord c) text := by
  obtain ⟨p, front, inside, whole, boundary, opens, closed⟩ := here
  cases p with
  | nil =>
      obtain ⟨byline, rest, same, isByline⟩ := exists_byline opens closed
      rw [List.nil_append] at whole
      exact .inl ⟨boundary, byline.length, by rw [whole, same, bylineLength_byline isByline]⟩
  | cons d p =>
      obtain ⟨rfl, rfl⟩ := List.cons.inj whole
      exact .inr ⟨p, front, inside, rfl, boundary, opens, closed⟩

/-- Where no match begins the character belongs to the part. -/
theorem splitBylines_cons {c : Char}
    (absent : ∀ n, afterWord = false → bylineLength (c :: text) ≠ some n) :
    splitBylines classes 0 afterWord (c :: text) =
      (splitBylines classes 0 (classes.isWord c) text).modifyHead (c :: ·) := by
  have none : (if afterWord then none else bylineLength (c :: text)) = none := by
    cases afterWord with
    | true => rfl
    | false =>
        rw [if_neg Bool.false_ne_true, Option.eq_none_iff_forall_ne_some]
        exact fun n found => absent n rfl found
  rw [splitBylines, none]

theorem splitBylines_part {part : List Char} (unopened : ¬ HasOpener classes afterWord part)
    (boundary : ends classes afterWord part = false) (isByline : IsByline byline) (rest : List Char) :
    splitBylines classes 0 afterWord (part ++ (byline ++ rest)) =
      part :: splitBylines classes 0 false rest := by
  induction part generalizing afterWord with
  | nil =>
      obtain rfl : afterWord = false := boundary
      exact splitBylines_byline isByline rest
  | cons c part ih =>
      rw [List.cons_append, splitBylines_cons, ih (fun later => unopened (hasOpener_cons later)) boundary]
      · rfl
      · intro n start found
        obtain ⟨inside, opens, -⟩ := opens_of_bylineLength found
        obtain ⟨tail, rfl⟩ := byline_cons isByline
        obtain ⟨inside', opens', -⟩ := opens_before (x := c :: part) opens (List.cons_ne_nil c part)
        exact unopened ⟨[], c :: part, inside', rfl, start, opens'⟩

theorem splitBylines_last (whole : ¬ HasByline classes afterWord text) :
    splitBylines classes 0 afterWord text = [text] := by
  induction text generalizing afterWord with
  | nil => rfl
  | cons c text ih =>
      rw [splitBylines_cons, ih fun later => whole (hasByline_cons later)]
      · rfl
      · intro n start found
        obtain ⟨inside, opens, closed⟩ := opens_of_bylineLength found
        exact whole ⟨[], c :: text, inside, rfl, start, opens, closed⟩

theorem splitBylines_eq (cut : Parts classes afterWord text parts bylines) :
    splitBylines classes 0 afterWord text = parts := by
  induction cut with
  | last whole => exact splitBylines_last whole
  | cut unopened boundary isByline _ ih => rw [splitBylines_part unopened boundary isByline, ih]

/-- The first part takes a character in front of which no match begins. -/
theorem parts_cons {c : Char} (absent : ∀ n, afterWord = false → bylineLength (c :: text) ≠ some n)
    (cut : Parts classes (classes.isWord c) text parts bylines) :
    ∃ parts, Parts classes afterWord (c :: text) parts bylines := by
  cases cut with
  | last whole =>
      refine ⟨[c :: text], .last fun here => ?_⟩
      rcases hasByline_cons_cases here with ⟨start, n, found⟩ | later
      · exact absent n start found
      · exact whole later
  | @cut _ part byline rest parts bylines unopened boundary isByline behind =>
      refine ⟨(c :: part) :: parts,
        @Parts.cut classes afterWord (c :: part) byline rest parts bylines ?_ boundary isByline behind⟩
      rintro ⟨p, front, inside, same, start, opens⟩
      cases p with
      | nil =>
          -- the byline behind the part closes what is opened at its front
          have longer := opens_append opens (byline ++ rest)
          rw [List.nil_append] at same
          rw [← same] at longer
          have closes : ')' ∈ byline := by
            obtain ⟨q, ⟨w, rfl, -⟩, -⟩ := isByline
            simp
          obtain ⟨byline', rest', found, isByline'⟩ := exists_byline longer
            (List.mem_append_right inside (List.mem_append_left rest closes))
          refine absent byline'.length start ?_
          rw [← bylineLength_byline isByline' rest', ← found, List.cons_append]
      | cons d p =>
          obtain ⟨rfl, rfl⟩ := List.cons.inj same
          exact unopened ⟨p, front, inside, rfl, start, opens⟩

theorem exists_parts (classes : WordClass) (afterWord : Bool) (text : List Char) :
    ∃ parts bylines, Parts classes afterWord text parts bylines := by
  induction length : text.length using Nat.strong_induction_on generalizing afterWord text with
  | _ n ih =>
      subst length
      cases text with
      | nil =>
          refine ⟨[[]], [], .last ?_⟩
          rintro ⟨p, front, inside, same, -, ⟨w, opened, -⟩, -⟩
          rw [opened] at same
          exact List.append_ne_nil_of_right_ne_nil p (List.cons_ne_nil _ _) same.symm
      | cons c text =>
          by_cases here : afterWord = false ∧ ∃ n, bylineLength (c :: text) = some n
          · obtain ⟨rfl, n, found⟩ := here
            obtain ⟨byline, rest, same, isByline, -⟩ := byline_of_bylineLength found
            rw [same]
            have shorter : rest.length < (c :: text).length := by
              obtain ⟨tail, rfl⟩ := byline_cons isByline
              rw [same, List.length_append, List.length_cons]
              omega
            obtain ⟨parts, bylines, behind⟩ := ih rest.length shorter false rest rfl
            refine ⟨[] :: parts, byline :: bylines,
              @Parts.cut classes false [] byline rest parts bylines ?_ rfl isByline behind⟩
            rintro ⟨p, front, inside, same, -, ⟨w, rfl, -⟩⟩
            exact List.append_ne_nil_of_right_ne_nil p (List.cons_ne_nil _ _) same.symm
          · have shorter : text.length < (c :: text).length := by
              rw [List.length_cons]
              omega
            obtain ⟨parts, bylines, behind⟩ := ih text.length shorter (classes.isWord c) text rfl
            obtain ⟨parts', cut⟩ := parts_cons (fun n start found => here ⟨start, n, found⟩) behind
            exact ⟨parts', bylines, cut⟩

end Webfang.Excerpt
