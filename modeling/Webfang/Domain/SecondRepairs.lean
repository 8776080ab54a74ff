import Webfang.Domain.SettledExcerpts

/-!
# The second repair of an excerpt

Where a name opens a byline once more the second repair changes the text, unless the name is itself
a parenthesis: then each name is written again in its own place.
-/

namespace Webfang.Excerpt

open Blanks

variable {classes : WordClass} {afterWord : Bool} {text text' byline fragment name : List Char}
  {parts bylines : List (List Char)}

/-! ## What a repair leaves as it is -/

theorem replaceAll_of_not_hasByline (none : ¬ HasByline classes false text) (fragment : List Char) :
    replaceAll classes fragment text = text := by
  rw [replaceAll, splitBylines_last none, List.intercalate_singleton]

theorem parts_blanks {w : List Char} (blanks : ∀ c ∈ w, isWhitespace c = true)
    (cut : Parts classes false text parts bylines) :
    ∃ parts', Parts classes false (w ++ text) parts' bylines ∧ ∀ fragment : List Char,
      fragment.intercalate parts' = w ++ fragment.intercalate parts := by
  induction w with
  | nil => exact ⟨parts, cut, fun _ => rfl⟩
  | cons c w ih =>
      obtain ⟨here, later⟩ := List.forall_mem_cons.mp blanks
      obtain ⟨parts', cut', each'⟩ := ih later
      obtain ⟨parts'', cut'', each''⟩ := parts_blank here cut'
      refine ⟨parts'', cut'', fun fragment => ?_⟩
      rw [each'', each']
      rfl

theorem alike_blanks {w s t : List Char} (blanks : ∀ c ∈ w, isWhitespace c = true)
    (alike : Alike isWhitespace s t) : Alike isWhitespace (w ++ (w ++ s)) (w ++ t) := by
  by_cases none : w = []
  · rwa [none]
  · rw [← List.append_assoc]
    exact .blanks (List.append_ne_nil_of_left_ne_nil none w) none
      (List.forall_mem_append.mpr ⟨blanks, blanks⟩) blanks alike

/-- A name that is a parenthesis is found again in each of its places. -/
theorem parts_bracketed (bracketed : Bracketed name)
    (cut : Parts classes afterWord text parts bylines) :
    ∃ parts' bylines',
      Parts classes afterWord ((fragmentOf (some name)).intercalate parts) parts' bylines' ∧
        Alike isWhitespace ((fragmentOf (some name)).intercalate parts')
          ((fragmentOf (some name)).intercalate parts) := by
  obtain ⟨v, q, w, rfl, blanksV, blanksW, absent⟩ := bracketed
  have spaced : ∀ c ∈ ' ' :: v, isWhitespace c = true :=
    List.forall_mem_cons.mpr ⟨by decide, blanksV⟩
  have isByline : IsByline ('b' :: 'y' :: ((' ' :: v) ++ '(' :: (q ++ [')']))) :=
    ⟨q, ⟨' ' :: v, rfl, List.cons_ne_nil ' ' v, spaced⟩, absent⟩
  have named : fragmentOf (some (v ++ '(' :: (q ++ ')' :: w))) =
      'b' :: 'y' :: ((' ' :: v) ++ '(' :: (q ++ [')'])) ++ w := by
    rw [fragmentOf_cons]
    simp
  rw [named]
  generalize 'b' :: 'y' :: ((' ' :: v) ++ '(' :: (q ++ [')'])) = again at isByline ⊢
  induction cut with
  | @last afterWord text whole =>
      rw [List.intercalate_singleton]
      refine ⟨[text], [], .last whole, ?_⟩
      rw [List.intercalate_singleton]
      exact .refl text
  | @cut afterWord part byline text parts bylines unopened boundary _ cut ih =>
      obtain ⟨parts', bylines', cut', alike⟩ := ih
      obtain ⟨parts'', cut'', each⟩ := parts_blanks blanksW cut'
      refine ⟨part :: parts'', again :: bylines', ?_, ?_⟩
      · rw [List.intercalate_cons_of_ne_nil (parts_ne_nil cut), List.append_assoc, List.append_assoc]
        exact .cut unopened boundary isByline cut''
      · rw [List.intercalate_cons_of_ne_nil (parts_ne_nil cut),
          List.intercalate_cons_of_ne_nil (parts_ne_nil cut''), each]
        simp only [List.append_assoc]
        exact (Alike.refl part).append ((Alike.refl again).append (alike_blanks blanksW alike))

theorem words_bracketed (bracketed : Bracketed name)
    (cut : Parts classes false text parts bylines) :
    words isWhitespace (replaceAll classes (fragmentOf (some name))
      ((fragmentOf (some name)).intercalate parts)) =
        words isWhitespace ((fragmentOf (some name)).intercalate parts) := by
  obtain ⟨parts', bylines', cut', alike⟩ := parts_bracketed bracketed cut
  rw [replaceAll_eq cut', alike.words_eq]

/-! ## A name that a repair leaves as it is -/

/-- The characters of a text that are no blanks. -/
def letters (text : List Char) : List Char := text.filter fun c => !isWhitespace c

theorem letters_append (text text' : List Char) :
    letters (text ++ text') = letters text ++ letters text' :=
  List.filter_append text text'

theorem letters_eq (same : words isWhitespace text = words isWhitespace text') :
    letters text = letters text' := by
  have whole := congrArg List.flatten same
  rwa [flatten_words, flatten_words] at whole

theorem count_letters (text : List Char) : (letters text).count ')' = text.count ')' :=
  List.count_filter (by decide)

theorem count_byline (isByline : IsByline byline) : byline.count ')' = 1 := by
  obtain ⟨q, ⟨w, rfl, -, blanks⟩, absent⟩ := isByline
  have apart : ')' ∉ w := fun member => blank_ne_paren (blanks ')' member) rfl
  simp [List.count_eq_zero.mpr apart, List.count_eq_zero.mpr absent]

/-- Each byline gives way to the fragment. -/
theorem count_intercalate (cut : Parts classes afterWord text parts bylines) (fragment : List Char) :
    (fragment.intercalate parts).count ')' + bylines.length =
      text.count ')' + bylines.length * fragment.count ')' := by
  induction cut with
  | last => simp
  | cut _ _ isByline cut ih =>
      rw [List.intercalate_cons_of_ne_nil (parts_ne_nil cut)]
      simp only [List.count_append, List.length_cons, count_byline isByline, Nat.add_mul]
      omega

theorem letters_byline (isByline : IsByline byline) :
    ∃ q, letters byline = 'b' :: 'y' :: '(' :: (q ++ [')']) := by
  obtain ⟨q, ⟨w, rfl, -, blanks⟩, -⟩ := isByline
  refine ⟨letters q, ?_⟩
  have none : letters w = [] := List.filter_eq_nil_iff.mpr fun c member => by simp [blanks c member]
  have whole : 'b' :: 'y' :: (w ++ '(' :: (q ++ [')'])) = ['b', 'y'] ++ (w ++ (['('] ++ (q ++ [')']))) := rfl
  rw [whole, letters_append, letters_append, letters_append, letters_append, none]
  rfl

theorem letters_fragmentOf (name : List Char) :
    letters (fragmentOf (some name)) = 'b' :: 'y' :: letters name :=
  letters_append ['b', 'y', ' '] name

/-- The last of the bylines, and what stands in its place. -/
theorem exists_last (cut : Parts classes afterWord text parts bylines) (some : bylines ≠ [])
    (fragment : List Char) :
    ∃ front byline rear before, IsByline byline ∧ text = front ++ (byline ++ rear) ∧
      fragment.intercalate parts = before ++ (fragment ++ rear) := by
  induction cut with
  | last => exact absurd rfl some
  | @cut _ part byline text parts bylines _ _ isByline cut ih =>
      rw [List.intercalate_cons_of_ne_nil (parts_ne_nil cut)]
      cases cut with
      | last =>
          refine ⟨part, byline, text, part, isByline, rfl, ?_⟩
          rw [List.intercalate_singleton, List.append_assoc]
      | cut =>
          obtain ⟨front, last, rear, before, isLast, whole, named⟩ := ih (List.cons_ne_nil _ _)
          refine ⟨part ++ (byline ++ front), last, rear, part ++ (fragment ++ before), isLast, ?_, ?_⟩
          · rw [whole]
            simp only [List.append_assoc]
          · rw [named]
            simp only [List.append_assoc]

theorem count_fragmentOf (name : List Char) :
    (fragmentOf (some name)).count ')' = (letters name).count ')' := by
  rw [count_letters, fragmentOf_cons]
  simp

/-- A name keeps the number of parentheses only when it has one. -/
theorem count_name (cut : Parts classes afterWord text parts bylines) (someBylines : bylines ≠ [])
    (same : letters ((fragmentOf (some name)).intercalate parts) = letters text) :
    (letters name).count ')' = 1 := by
  have counts := count_intercalate cut (fragmentOf (some name))
  rw [← count_letters, same, count_letters, count_fragmentOf] at counts
  refine Nat.eq_of_mul_eq_mul_left (List.length_pos_iff.mpr someBylines) ?_
  omega

theorem letters_ne_nil (one : (letters name).count ')' = 1) : letters name ≠ [] := by
  intro none
  rw [none] at one
  cases one

/-- The first name begins as the byline in whose place it stands. -/
theorem letters_begin (cut : Parts classes afterWord text parts bylines) (someBylines : bylines ≠ [])
    (same : letters ((fragmentOf (some name)).intercalate parts) = letters text)
    (one : (letters name).count ')' = 1) : ∃ rest, letters name = '(' :: rest := by
  cases cut with
  | last => exact absurd rfl someBylines
  | cut _ _ isByline cut =>
      obtain ⟨q, bylineLetters⟩ := letters_byline isByline
      rw [List.intercalate_cons_of_ne_nil (parts_ne_nil cut), List.append_assoc, letters_append,
        letters_append, letters_append, letters_append, letters_fragmentOf, bylineLetters] at same
      have behind := List.append_cancel_left same
      have parens := (List.cons.inj (List.cons.inj behind).2).2
      rcases List.append_eq_cons_iff.mp parens with ⟨none, -⟩ | ⟨rest, begins, -⟩
      · exact absurd none (letters_ne_nil one)
      · exact ⟨rest, begins⟩

/-- The last name ends as the byline in whose place it stands. -/
theorem letters_end (cut : Parts classes afterWord text parts bylines) (someBylines : bylines ≠ [])
    (same : letters ((fragmentOf (some name)).intercalate parts) = letters text)
    (one : (letters name).count ')' = 1) : ∃ front, letters name = front ++ [')'] := by
  obtain ⟨front, byline, rear, before, isByline, whole, named⟩ :=
    exists_last cut someBylines (fragmentOf (some name))
  obtain ⟨q, bylineLetters⟩ := letters_byline isByline
  obtain ⟨start, c, ends⟩ : ∃ start c, letters name = start ++ [c] :=
    ⟨_, _, (List.dropLast_concat_getLast (letters_ne_nil one)).symm⟩
  rw [named, whole, letters_append, letters_append, letters_append, letters_append,
    ← List.append_assoc, ← List.append_assoc, letters_fragmentOf, bylineLetters, ends] at same
  have before_eq := List.append_cancel_right same
  have lasts : (letters before ++ 'b' :: 'y' :: start) ++ [c] =
      (letters front ++ 'b' :: 'y' :: '(' :: q) ++ [')'] := by
    simpa using before_eq
  obtain rfl := (List.cons.inj (List.append_inj' lasts rfl).2).1
  exact ⟨start, ends⟩

theorem blanks_of_letters {w : List Char} (none : letters w = []) (c : Char) (member : c ∈ w) :
    isWhitespace c = true := by
  simpa using List.filter_eq_nil_iff.mp none c member

theorem bracketed_of_letters (one : (letters name).count ')' = 1)
    (begins : ∃ rest, letters name = '(' :: rest) (ends : ∃ front, letters name = front ++ [')']) :
    Bracketed name := by
  obtain ⟨rest, begins⟩ := begins
  obtain ⟨front, ends⟩ := ends
  rw [begins] at ends
  cases front with
  | nil => exact absurd (List.cons.inj ends).1 (by decide)
  | cons d inner =>
      have closed : rest = inner ++ [')'] := (List.cons.inj ends).2
      rw [closed] at begins
      obtain ⟨v, behind, rfl, blanksV, -, behindLetters⟩ := List.filter_eq_cons_iff.mp begins
      obtain ⟨q, tail, rfl, -, tailLetters⟩ := List.filter_eq_append_iff.mp behindLetters
      obtain ⟨u, w, rfl, blanksU, -, wLetters⟩ := List.filter_eq_cons_iff.mp tailLetters
      refine ⟨v, q ++ u, w, ?_, fun c member => by simpa using blanksV c member,
        blanks_of_letters wLetters, fun member => ?_⟩
      · simp only [List.append_assoc]
      · -- the parenthesis at the end is the only one
        rw [count_letters] at one
        have positive := List.count_pos_iff.mpr member
        simp only [List.count_append, List.count_cons] at one positive
        simp at one
        omega

/-- A second repair keeps the words only of a name that is a parenthesis. -/
theorem bracketed_of_words (cut : Parts classes afterWord text parts bylines)
    (someBylines : bylines ≠ [])
    (same : words isWhitespace ((fragmentOf (some name)).intercalate parts) = words isWhitespace text) :
    Bracketed name := by
  have sameLetters := letters_eq same
  have one := count_name cut someBylines sameLetters
  exact bracketed_of_letters one (letters_begin cut someBylines sameLetters one)
    (letters_end cut someBylines sameLetters one)

/-! ## Repairs that settle -/

theorem not_reopens_singleton : ¬ Reopens classes name [text] := by
  rintro ⟨before, part, after, p, front, inside, some, same, -⟩
  have lengths := congrArg List.length same
  have positive := List.length_pos_iff.mpr some
  simp only [List.length_append, List.length_cons, List.length_nil] at lengths
  omega

/-- The text that is left without the empty bylines holds one just when it rejoins around them. -/
theorem hasByline_flatten_iff (cut : Parts classes false text parts bylines) :
    HasByline classes false parts.flatten ↔ Rejoins classes parts :=
  ⟨rejoins_of_hasByline cut, hasByline_of_rejoins cut⟩

/-- The text with the names in their places holds an empty byline just when a name reopens one. -/
theorem hasByline_named_iff (cut : Parts classes false text parts bylines) :
    HasByline classes false ((fragmentOf (some name)).intercalate parts) ↔
      Reopens classes name parts := by
  cases cut with
  | last whole =>
      rw [List.intercalate_singleton]
      exact iff_of_false whole not_reopens_singleton
  | cut unopened boundary isByline behind =>
      have cut := Parts.cut unopened boundary isByline behind
      exact ⟨reopens_of_hasByline cut (List.cons_ne_nil _ _), hasByline_of_reopens cut⟩

/-- A second repair changes nothing, and without an author no empty byline is left, just when what
stands in the place of the empty bylines makes no new one. -/
theorem settled_iff (classes : WordClass) (excerpt : List Char) (author : Option (List Char)) :
    Settled classes excerpt author ↔ Settles classes excerpt author := by
  obtain ⟨parts, bylines, cut⟩ := exists_parts classes false excerpt
  rw [settled_iff_words, replaceAll_eq cut]
  cases author with
  | none =>
      have dropped : (fragmentOf none).intercalate parts = parts.flatten := intercalate_nil_eq parts
      rw [Settles, splitBylines_eq cut, dropped, ← hasByline_flatten_iff cut]
      constructor
      · rintro ⟨-, noneLeft⟩
        exact noneLeft rfl
      · intro unmatched
        exact ⟨by rw [replaceAll_of_not_hasByline unmatched], fun _ => unmatched⟩
  | some name =>
      rw [Settles, splitBylines_eq cut, ← hasByline_named_iff cut]
      constructor
      · rintro ⟨same, -⟩
        rw [or_iff_not_imp_right, not_not]
        intro reopened
        obtain ⟨parts', bylines', cut'⟩ :=
          exists_parts classes false ((fragmentOf (some name)).intercalate parts)
        rw [replaceAll_eq cut'] at same
        exact bracketed_of_words cut' ((hasByline_iff cut').mp reopened) same
      · rintro (bracketed | unmatched)
        · exact ⟨words_bracketed bracketed cut, fun noName => absurd noName (Option.some_ne_none name)⟩
        · exact ⟨by rw [replaceAll_of_not_hasByline unmatched], fun noName => absurd noName (Option.some_ne_none name)⟩

/-- The word characters among the ASCII ones. -/
def asciiWordChars : List Char :=
  "0123456789ABCDEFGHIJKLMNOPQRSTUVWXYZ_abcdefghijklmnopqrstuvwxyz".toList

def asciiWords : WordClass where
  isWord c := asciiWordChars.contains c
  letters := by decide
  closing := by decide
  blanks c isBlank := by
    have apart : asciiWordChars.all (fun c => !isWhitespace c) = true := by decide +kernel
    refine Bool.eq_false_iff.mpr fun isWord => ?_
    have noBlank := List.all_eq_true.mp apart c (List.contains_iff_mem.mp isWord)
    rw [isBlank] at noBlank
    cases noBlank

/-- What is dropped from between a word and its parenthesis leaves an empty byline. -/
theorem byline_left : ¬ Settled asciiWords "by by (x) (y)".toList none := by
  intro settled
  have left : isMatch asciiWords (repairEmptyByline asciiWords "by by (x) (y)".toList none) = true := by
    decide
  rw [settled.none_left rfl] at left
  cases left

end Webfang.Excerpt
