import Webfang.Domain.RepairedExcerpts

/-!
# When a second repair changes nothing

A repaired excerpt is repaired again before it is written.  That changes nothing just when what is
put in the place of the empty bylines makes no new ones of the text around it, or when the name is
itself a parenthesis.
-/

namespace Webfang.Excerpt

open Blanks

/-! ## What is promised -/

section Promise

variable (classes : WordClass)

/-- A second repair changes nothing, and without an author no empty byline is left. -/
structure Settled (excerpt : List Char) (author : Option (List Char)) : Prop where
  idempotent : repairEmptyByline classes (repairEmptyByline classes excerpt author) author =
    repairEmptyByline classes excerpt author
  none_left : author = none → isMatch classes (repairEmptyByline classes excerpt author) = false

/-- Between a word `by` and a parenthesis that is closed nothing is left but blanks once the empty
bylines are dropped. -/
def Rejoins (parts : List (List Char)) : Prop :=
  ∃ before p w blank v inside after,
    parts = before ++ (p ++ 'b' :: 'y' :: w) :: (blank ++ (v ++ '(' :: inside) :: after) ∧
      ends classes false p = false ∧ (∀ c ∈ w ++ (blank.flatten ++ v), isWhitespace c = true) ∧
        ')' ∈ inside ++ after.flatten

/-- The name in the place of an empty byline, with the text up to the next one, opens a byline that
is closed there, in the text behind it or in the next name. -/
def Reopens (name : List Char) (parts : List (List Char)) : Prop :=
  ∃ before part after p front inside, before ≠ [] ∧ parts = before ++ part :: after ∧
    fragmentOf (some name) ++ part = p ++ front ∧ ends classes false p = false ∧
      Opens front inside ∧ (')' ∈ inside ∨ ')' ∈ after.flatten ∨ after ≠ [] ∧ ')' ∈ name)

/-- A name that is one parenthesis, blanks aside. -/
def Bracketed (name : List Char) : Prop :=
  ∃ v q w, name = v ++ '(' :: (q ++ ')' :: w) ∧ (∀ c ∈ v, isWhitespace c = true) ∧
    (∀ c ∈ w, isWhitespace c = true) ∧ ')' ∉ q

/-- What is put in the place of the empty bylines makes no new one. -/
def Settles (excerpt : List Char) : Option (List Char) → Prop
  | none => ¬ Rejoins classes (splitBylines classes 0 false excerpt)
  | some name =>
      Bracketed name ∨ ¬ Reopens classes name (splitBylines classes 0 false excerpt)

end Promise

variable {classes : WordClass} {afterWord : Bool} {text text' inside byline fragment name : List Char}
  {parts bylines : List (List Char)}

/-! ## Matches -/

theorem ends_false {p : List Char} (boundary : ends classes afterWord p = false) :
    ends classes false p = false := by
  cases p with
  | nil => rfl
  | cons c p => exact boundary

theorem length_parts (cut : Parts classes afterWord text parts bylines) :
    parts.length = bylines.length + 1 := by
  induction cut with
  | last => rfl
  | cut _ _ _ _ ih => rw [List.length_cons, List.length_cons, ih]

theorem hasByline_iff (cut : Parts classes afterWord text parts bylines) :
    HasByline classes afterWord text ↔ bylines ≠ [] := by
  cases cut with
  | last whole => exact iff_of_false whole fun some => some rfl
  | @cut _ part byline text parts bylines _ boundary isByline _ =>
      refine iff_of_true ?_ (List.cons_ne_nil byline bylines)
      obtain ⟨q, opens, -⟩ := isByline
      refine ⟨part, byline ++ text, _, rfl, boundary, opens_append opens text, ?_⟩
      simp

theorem isMatch_iff : isMatch classes text = true ↔ HasByline classes false text := by
  obtain ⟨parts, bylines, cut⟩ := exists_parts classes false text
  rw [hasByline_iff cut, isMatch, splitBylines_eq cut, length_parts cut, decide_eq_true_eq,
    ← List.length_pos_iff]
  omega

theorem hasByline_padded :
    HasByline classes false (' ' :: (text ++ [' '])) ↔ HasByline classes false text := by
  have blank : isWhitespace ' ' = true := by decide
  obtain ⟨parts, bylines, cut⟩ := exists_parts classes false text
  obtain ⟨parts', cut', -⟩ := parts_concat blank cut
  obtain ⟨parts'', cut'', -⟩ := parts_blank blank cut'
  rw [hasByline_iff cut, hasByline_iff cut'']

/-- The words of a text written again hold a byline just when the text does. -/
theorem hasByline_unwords : HasByline classes false (unwords ' ' (words isWhitespace text)) ↔
    HasByline classes false text := by
  have padded : Alike isWhitespace (' ' :: (text ++ [' ']))
      (' ' :: (unwords ' ' (words isWhitespace text) ++ [' '])) := .padded (by decide) text
  rw [← hasByline_padded, ← @hasByline_padded classes text]
  exact ⟨fun here => hasByline_alike here padded.symm, fun here => hasByline_alike here padded⟩

theorem repairEmptyByline_eq (excerpt : List Char) (author : Option (List Char)) :
    repairEmptyByline classes excerpt author =
      unwords ' ' (words isWhitespace (replaceAll classes (fragmentOf author) excerpt)) :=
  normalizeWhitespace_eq _

/-- A second repair changes nothing just when the words of the replaced text stay. -/
theorem settled_iff_words (excerpt : List Char) (author : Option (List Char)) :
    Settled classes excerpt author ↔
      words isWhitespace (replaceAll classes (fragmentOf author)
        (replaceAll classes (fragmentOf author) excerpt)) =
          words isWhitespace (replaceAll classes (fragmentOf author) excerpt) ∧
      (author = none →
        ¬ HasByline classes false (replaceAll classes (fragmentOf author) excerpt)) := by
  have blank : isWhitespace ' ' = true := by decide
  have first : repairEmptyByline classes excerpt author = _ := repairEmptyByline_eq excerpt author
  have second : repairEmptyByline classes (repairEmptyByline classes excerpt author) author = _ :=
    repairEmptyByline_eq (repairEmptyByline classes excerpt author) author
  rw [first, words_replaceAll_unwords] at second
  have matches_iff : isMatch classes (repairEmptyByline classes excerpt author) = true ↔
      HasByline classes false (replaceAll classes (fragmentOf author) excerpt) := by
    rw [isMatch_iff, first, hasByline_unwords]
  constructor
  · intro ⟨idempotent, none_left⟩
    refine ⟨?_, fun absent here => ?_⟩
    · rw [first, second] at idempotent
      rw [← words_unwords_words blank, idempotent, words_unwords_words blank]
    · exact absurd (matches_iff.mpr here) (Bool.eq_false_iff.mp (none_left absent))
  · intro ⟨same, none_left⟩
    refine ⟨?_, fun absent => Bool.eq_false_iff.mpr fun here => ?_⟩
    · rw [first, second, same]
    · exact none_left absent (matches_iff.mp here)

/-! ## The seam of a dropped byline -/

/-- Behind some parts the text is read anew, at a boundary. -/
theorem parts_behind {before rest : List (List Char)}
    (cut : Parts classes false text (before ++ rest) bylines) (some : rest ≠ []) :
    ends classes false before.flatten = false ∧
      ∃ text bylines, Parts classes false text rest bylines := by
  induction before generalizing text bylines with
  | nil => exact ⟨rfl, text, bylines, cut⟩
  | cons part before ih =>
      generalize whole : part :: before ++ rest = parts at cut
      cases cut with
      | last =>
          obtain ⟨-, none⟩ := List.cons.inj whole
          exact absurd (List.append_eq_nil_iff.mp none).2 some
      | @cut _ _ _ _ _ _ _ boundary _ behind =>
          obtain ⟨rfl, rfl⟩ := List.cons.inj whole
          obtain ⟨ended, later⟩ := ih behind
          refine ⟨?_, later⟩
          rw [List.flatten_cons, ends_append, boundary, ended]

/-- A part with a byline behind it ends at a boundary. -/
theorem part_boundary {before after : List (List Char)} {part : List Char} (some : after ≠ [])
    (cut : Parts classes false text (before ++ part :: after) bylines) :
    ends classes false part = false := by
  obtain ⟨-, text, bylines, cut⟩ := parts_behind cut (List.cons_ne_nil part after)
  have whole : part :: after = [part] ++ after := rfl
  rw [whole] at cut
  have ended := (parts_behind cut some).1
  rwa [List.flatten_singleton] at ended

/-- A byline that is opened in two texts together is opened in the first, or its blanks begin
there. -/
theorem opens_split {x y : List Char} (opens : Opens (x ++ y) inside) (some : x ≠ []) :
    (∃ inside', Opens x inside') ∨ x = ['b'] ∨
      ∃ w v, x = 'b' :: 'y' :: w ∧ y = v ++ '(' :: inside ∧ ∀ c ∈ w ++ v, isWhitespace c = true := by
  obtain ⟨u, whole, nonempty, blanks⟩ := opens
  match x, some with
  | [c], _ =>
      obtain ⟨rfl, -⟩ := List.cons.inj whole
      exact .inr (.inl rfl)
  | c :: d :: w, _ =>
      obtain ⟨rfl, behindB⟩ := List.cons.inj whole
      obtain ⟨rfl, -⟩ := List.cons.inj behindB
      have behindY : w ++ y = u ++ '(' :: inside := (List.cons.inj behindB).2
      rcases List.append_eq_append_iff.mp behindY with ⟨v, rfl, behind⟩ | ⟨bs, rfl, behind⟩
      · exact .inr (.inr ⟨w, v, rfl, behind, blanks⟩)
      · cases bs with
        | nil =>
            refine .inr (.inr ⟨u, [], by rw [List.append_nil], behind.symm, ?_⟩)
            rwa [List.append_nil]
        | cons e bs =>
            obtain ⟨rfl, -⟩ := List.cons.inj behind
            exact .inl ⟨bs, u, rfl, nonempty, blanks⟩

/-- The part in which the blanks of a text end and its parenthesis stands. -/
theorem exists_paren {v : List Char} (whole : parts.flatten = v ++ '(' :: inside) :
    ∃ blank v' inside' after, parts = blank ++ (v' ++ '(' :: inside') :: after ∧
      v = blank.flatten ++ v' ∧ inside = inside' ++ after.flatten := by
  rcases List.flatten_eq_append_iff.mp whole with
    ⟨before, behind, rfl, rfl, paren⟩ | ⟨before, v', c, inside', after, rfl, rfl, paren⟩
  · obtain ⟨empty, inside', after, rfl, none, rfl⟩ := List.flatten_eq_cons_iff.mp paren.symm
    refine ⟨before ++ empty, [], inside', after, by rw [List.append_assoc]; rfl, ?_, rfl⟩
    rw [List.flatten_append, List.flatten_eq_nil_iff.mpr none, List.append_nil, List.append_nil]
  · obtain ⟨rfl, rest⟩ := List.cons.inj paren
    exact ⟨before, v', inside', after, rfl, rfl, rest⟩

theorem rejoins_cons (part : List Char) (rejoins : Rejoins classes parts) :
    Rejoins classes (part :: parts) := by
  obtain ⟨before, p, w, blank, v, inside, after, rfl, found⟩ := rejoins
  exact ⟨part :: before, p, w, blank, v, inside, after, rfl, found⟩

theorem rejoins_of_hasByline (cut : Parts classes afterWord text parts bylines)
    (here : HasByline classes afterWord parts.flatten) : Rejoins classes parts := by
  induction cut with
  | last whole =>
      rw [List.flatten_singleton] at here
      exact absurd here whole
  | @cut afterWord part byline text parts bylines unopened boundary _ _ ih =>
      obtain ⟨p, front, inside, whole, start, opens, closed⟩ := here
      rw [List.flatten_cons] at whole
      have later (as : List Char) (same : p = part ++ as) (rest : parts.flatten = as ++ front) :
          Rejoins classes (part :: parts) := by
        rw [same, ends_append, boundary] at start
        exact rejoins_cons part (ih ⟨as, front, inside, rest, start, opens, closed⟩)
      rcases List.append_eq_append_iff.mp whole with ⟨as, same, rest⟩ | ⟨bs, rfl, rfl⟩
      · exact later as same rest
      · by_cases none : bs = []
        · exact later [] (by rw [none, List.append_nil, List.append_nil]) (by rw [none]; rfl)
        · rcases opens_split opens none with ⟨inside', opened⟩ | rfl | ⟨w, v, rfl, rest, blanks⟩
          · exact absurd ⟨p, bs, inside', rfl, start, opened⟩ unopened
          · -- a letter before the boundary
            rw [ends_append] at boundary
            exact absurd (classes.letters.1.symm.trans boundary) (by decide)
          · obtain ⟨blank, v', inside', after, rfl, rfl, rfl⟩ := exists_paren rest
            exact ⟨[], p, w, blank, v', inside', after, rfl, ends_false start, blanks, closed⟩

theorem hasByline_of_rejoins (cut : Parts classes false text parts bylines)
    (rejoins : Rejoins classes parts) : HasByline classes false parts.flatten := by
  obtain ⟨before, p, w, blank, v, inside, after, rfl, start, blanks, closed⟩ := rejoins
  have someAfter : blank ++ (v ++ '(' :: inside) :: after ≠ [] :=
    List.append_ne_nil_of_right_ne_nil _ (List.cons_ne_nil _ _)
  obtain ⟨ended, -⟩ := parts_behind cut (List.cons_ne_nil _ _)
  have boundary := part_boundary someAfter cut
  have some : w ++ (blank.flatten ++ v) ≠ [] := by
    refine List.append_ne_nil_of_left_ne_nil (fun none => ?_) _
    have letter : ends classes false (p ++ ['b', 'y']) = true := by
      rw [ends_append]
      exact classes.letters.2
    rw [none, letter] at boundary
    cases boundary
  refine ⟨before.flatten ++ p, 'b' :: 'y' :: ((w ++ (blank.flatten ++ v)) ++ '(' :: (inside ++ after.flatten)),
    inside ++ after.flatten, ?_, ?_, ⟨_, rfl, some, blanks⟩, closed⟩
  · simp only [List.flatten_append, List.flatten_cons, List.append_assoc, List.cons_append]
  · rw [ends_append, ended, start]

/-! ## The seam of a name -/

theorem intercalate_cons (part : List Char) (parts : List (List Char)) :
    fragment.intercalate (part :: parts) = part ++ parts.flatMap (fragment ++ ·) := by
  induction parts generalizing part with
  | nil => rw [List.intercalate_singleton, List.flatMap_nil, List.append_nil]
  | cons next parts ih =>
      rw [List.intercalate_cons_cons, ih next, List.flatMap_cons, List.append_assoc,
        List.append_assoc]

theorem intercalate_nil_eq (parts : List (List Char)) :
    ([] : List Char).intercalate parts = parts.flatten := by
  cases parts with
  | nil => rfl
  | cons part parts =>
      rw [intercalate_cons, List.flatten_cons]
      exact congrArg (part ++ ·) List.flatMap_id'

theorem fragmentOf_cons (name : List Char) : fragmentOf (some name) = 'b' :: 'y' :: ' ' :: name := rfl

theorem not_hasByline_nil : ¬ HasByline classes afterWord [] := by
  rintro ⟨p, front, inside, whole, -, ⟨w, rfl, -⟩, -⟩
  exact List.append_ne_nil_of_right_ne_nil p (List.cons_ne_nil _ _) whole.symm

theorem mem_fragmentOf : ')' ∈ fragmentOf (some name) ↔ ')' ∈ name := by
  rw [fragmentOf_cons]
  simp

/-- A parenthesis that closes stands in a part or in a name before one. -/
theorem mem_blocks_iff : ')' ∈ parts.flatMap (fragmentOf (some name) ++ ·) ↔
    ')' ∈ parts.flatten ∨ parts ≠ [] ∧ ')' ∈ name := by
  rw [List.mem_flatMap, List.mem_flatten]
  constructor
  · rintro ⟨part, member, inBlock⟩
    rcases List.mem_append.mp inBlock with inFragment | inPart
    · exact .inr ⟨List.ne_nil_of_mem member, mem_fragmentOf.mp inFragment⟩
    · exact .inl ⟨part, member, inPart⟩
  · rintro (⟨part, member, inPart⟩ | ⟨some, inName⟩)
    · exact ⟨part, member, List.mem_append_right _ inPart⟩
    · obtain ⟨part, parts, rfl⟩ := List.exists_cons_of_ne_nil some
      exact ⟨part, List.mem_cons_self, List.mem_append_left _ (mem_fragmentOf.mpr inName)⟩

theorem blocks_cons (name : List Char) (someParts : parts ≠ []) :
    ∃ tail, parts.flatMap (fragmentOf (some name) ++ ·) = 'b' :: tail := by
  obtain ⟨part, parts, rfl⟩ := List.exists_cons_of_ne_nil someParts
  exact ⟨_, List.flatMap_cons⟩

/-- A byline among names and the parts behind them is opened by one name and its part. -/
theorem exists_block (here : HasByline classes afterWord (parts.flatMap (fragmentOf (some name) ++ ·))) :
    ∃ before part after p front inside, parts = before ++ part :: after ∧
      fragmentOf (some name) ++ part = p ++ front ∧ ends classes false p = false ∧
        Opens front inside ∧ (')' ∈ inside ∨ ')' ∈ after.flatten ∨ after ≠ [] ∧ ')' ∈ name) := by
  induction parts generalizing afterWord with
  | nil => exact absurd here not_hasByline_nil
  | cons part parts ih =>
      obtain ⟨p, front, inside, whole, start, opens, closed⟩ := here
      rw [List.flatMap_cons] at whole
      have later (as : List Char) (same : p = (fragmentOf (some name) ++ part) ++ as)
          (rest : parts.flatMap (fragmentOf (some name) ++ ·) = as ++ front) :
          ∃ before next after p front inside, part :: parts = before ++ next :: after ∧
            fragmentOf (some name) ++ next = p ++ front ∧ ends classes false p = false ∧
              Opens front inside ∧
                (')' ∈ inside ∨ ')' ∈ after.flatten ∨ after ≠ [] ∧ ')' ∈ name) := by
        rw [same, ends_append] at start
        obtain ⟨before, next, after, p, front, inside, rfl, found⟩ :=
          ih ⟨as, front, inside, rest, start, opens, closed⟩
        exact ⟨part :: before, next, after, p, front, inside, rfl, found⟩
      rcases List.append_eq_append_iff.mp whole with ⟨as, same, rest⟩ | ⟨bs, same, rfl⟩
      · exact later as same rest
      · by_cases none : bs = []
        · exact later [] (by rw [same, none, List.append_nil, List.append_nil]) (by rw [none]; rfl)
        · by_cases last : parts = []
          · rw [last, List.flatMap_nil, List.append_nil] at opens
            exact ⟨[], part, parts, p, bs, inside, rfl, same, ends_false start, opens, .inl closed⟩
          · obtain ⟨tail, blocks⟩ := blocks_cons name last
            rw [blocks] at opens
            obtain ⟨inside', opened, rfl⟩ := opens_before opens none
            rw [← blocks] at closed
            refine ⟨[], part, parts, p, bs, inside', rfl, same, ends_false start, opened, ?_⟩
            exact (List.mem_append.mp closed).imp id mem_blocks_iff.mp

theorem reopens_of_hasByline (cut : Parts classes false text parts bylines)
    (someBylines : bylines ≠ [])
    (here : HasByline classes false ((fragmentOf (some name)).intercalate parts)) :
    Reopens classes name parts := by
  cases cut with
  | last => exact absurd rfl someBylines
  | @cut _ part byline text parts bylines unopened boundary _ behind =>
      obtain ⟨p, front, inside, whole, start, opens, closed⟩ := here
      rw [intercalate_cons] at whole
      have later (as : List Char) (same : p = part ++ as)
          (rest : parts.flatMap (fragmentOf (some name) ++ ·) = as ++ front) :
          Reopens classes name (part :: parts) := by
        rw [same, ends_append, boundary] at start
        obtain ⟨before, next, after, p, front, inside, rfl, found⟩ :=
          exists_block ⟨as, front, inside, rest, start, opens, closed⟩
        exact ⟨part :: before, next, after, p, front, inside, List.cons_ne_nil part before, rfl, found⟩
      rcases List.append_eq_append_iff.mp whole with ⟨as, same, rest⟩ | ⟨bs, rfl, rfl⟩
      · exact later as same rest
      · by_cases none : bs = []
        · exact later [] (by rw [none, List.append_nil, List.append_nil]) (by rw [none]; rfl)
        · obtain ⟨tail, blocks⟩ := blocks_cons name (parts_ne_nil behind)
          rw [blocks] at opens
          obtain ⟨inside', opened, -⟩ := opens_before opens none
          exact absurd ⟨p, bs, inside', rfl, start, opened⟩ unopened

/-- What closes in a text that opens a byline closes behind the parenthesis. -/
theorem mem_inside (opens : Opens text inside) (closed : ')' ∈ text) : ')' ∈ inside := by
  obtain ⟨w, rfl, -, blanks⟩ := opens
  have apart : ')' ∉ w := fun member => blank_ne_paren (blanks ')' member) rfl
  simpa [apart] using closed

theorem ends_blocks {before : List (List Char)} (ended : ∀ afterWord, ends classes afterWord fragment = false)
    (each : ∀ part ∈ before, ends classes false part = false) :
    ends classes false (before.flatMap (fragment ++ ·)) = false := by
  induction before with
  | nil => rfl
  | cons part before ih =>
      obtain ⟨here, later⟩ := List.forall_mem_cons.mp each
      rw [List.flatMap_cons, ends_append, ends_append, ended, here, ih later]

/-- A name that does not open a byline, but does so with the text behind it, is blank. -/
theorem ends_fragmentOf {part : List Char} (opens : Opens (fragmentOf (some name) ++ part) inside)
    (unnamed : ¬ ∃ x, Opens (fragmentOf (some name)) x) (afterWord : Bool) :
    ends classes afterWord (fragmentOf (some name)) = false := by
  rcases opens_split opens (List.cons_ne_nil _ _) with opened | letter | ⟨w, v, same, -, blanks⟩
  · exact absurd opened unnamed
  · exact absurd (List.cons.inj letter).2 (List.cons_ne_nil _ _)
  · rw [fragmentOf_cons] at same
    obtain ⟨-, behindB⟩ := List.cons.inj same
    obtain ⟨-, rfl⟩ := List.cons.inj behindB
    have spaced : ends classes (classes.isWord 'y') (' ' :: name) = false :=
      ends_blanks (List.cons_ne_nil ' ' name) fun c member => blanks c (List.mem_append_left v member)
    exact spaced

theorem hasByline_of_reopens (cut : Parts classes false text parts bylines)
    (reopens : Reopens classes name parts) :
    HasByline classes false ((fragmentOf (some name)).intercalate parts) := by
  obtain ⟨before, part, after, p, front, inside, someBefore, rfl, whole, start, opens, closed⟩ :=
    reopens
  have each : ∀ q ∈ before, ends classes false q = false := fun q member => by
    obtain ⟨before, between, rfl⟩ := List.append_of_mem member
    rw [List.append_assoc] at cut
    exact part_boundary (List.append_ne_nil_of_right_ne_nil between (List.cons_ne_nil part after)) cut
  obtain ⟨first, before, rfl⟩ := List.exists_cons_of_ne_nil someBefore
  obtain ⟨atFirst, atEach⟩ := List.forall_mem_cons.mp each
  rw [List.cons_append, intercalate_cons]
  by_cases named : ∃ x, Opens (fragmentOf (some name)) x
  · -- the first of the names opens a byline, with the same parenthesis to close it
    obtain ⟨x, named⟩ := named
    obtain ⟨next, rest, blocks⟩ :=
      List.exists_cons_of_ne_nil (List.append_ne_nil_of_right_ne_nil before (List.cons_ne_nil part after))
    have opened : Opens ((before ++ part :: after).flatMap (fragmentOf (some name) ++ ·))
        (x ++ (next ++ rest.flatMap (fragmentOf (some name) ++ ·))) := by
      rw [blocks, List.flatMap_cons, List.append_assoc]
      exact opens_append named _
    refine ⟨first, _, _, rfl, atFirst, opened, mem_inside opened (mem_blocks_iff.mpr ?_)⟩
    rw [List.flatten_append, List.flatten_cons, List.mem_append, List.mem_append]
    rcases closed with inInside | inAfter | ⟨-, inName⟩
    · have inBlock : ')' ∈ fragmentOf (some name) ++ part := by
        obtain ⟨w, rfl, -⟩ := opens
        rw [whole]
        simp [inInside]
      rcases List.mem_append.mp inBlock with inFragment | inPart
      · exact .inr ⟨List.append_ne_nil_of_right_ne_nil _ (List.cons_ne_nil _ _),
          mem_fragmentOf.mp inFragment⟩
      · exact .inl (.inr (.inl inPart))
    · exact .inl (.inr (.inr inAfter))
    · exact .inr ⟨List.append_ne_nil_of_right_ne_nil _ (List.cons_ne_nil _ _), inName⟩
  · have boundary : ends classes (ends classes false
        (first ++ before.flatMap (fragmentOf (some name) ++ ·))) p = false := by
      cases p with
      | cons c p => exact start
      | nil =>
          rw [List.nil_append] at whole
          rw [← whole] at opens
          rw [ends_append, atFirst]
          exact ends_blocks (ends_fragmentOf opens named) atEach
    refine ⟨(first ++ before.flatMap (fragmentOf (some name) ++ ·)) ++ p,
      front ++ after.flatMap (fragmentOf (some name) ++ ·),
      inside ++ after.flatMap (fragmentOf (some name) ++ ·), ?_, ?_, opens_append opens _, ?_⟩
    · rw [List.flatMap_append, List.flatMap_cons, whole]
      simp only [List.append_assoc]
    · rw [ends_append]
      exact boundary
    · exact List.mem_append.mpr (closed.imp id mem_blocks_iff.mpr)

end Webfang.Excerpt
