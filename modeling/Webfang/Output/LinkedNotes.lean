import Webfang.Output.SavedPages
import Webfang.Output.WikiLinks

/-!
# Which links point at notes

A link points at the note of its page when the slug is the name of the file.  The slug has the
words of the last two segments in lower case, the name has the characters of all segments; they
agree just where these are the same words.
-/

namespace Webfang.Output

open Pieces NameTools

/-! ## Words of names and of links -/

/-- The tools as they are documented: a text without escapes is decoded to itself, and kebab case
has words of lower case and digits between dashes, all the words of a text that has no others. -/
structure Documented (names : NameTools) (links : LinkTools) : Prop where
  plain : ∀ text, '%' ∉ text → names.percentDecode text = text
  kebab : ∀ text, (∀ c ∈ text, c.toNat < 0x80) →
    ∀ c ∈ links.toKebabCase text, c = '-' ∨ c.isLower ∨ c.isDigit
  words : ∀ text, (∀ c ∈ text, c = '-' ∨ c.isLower ∨ c.isDigit) →
    links.toKebabCase text = ['-'].intercalate (pieces '-' text)

/-- A dash for each slash. -/
def dashed (c : Char) : Char := if c = '/' then '-' else c

/-- A word of lower-case letters and digits. -/
def IsWord (word : List Char) : Prop := word ≠ [] ∧ ∀ c ∈ word, c.isLower ∨ c.isDigit

instance (word : List Char) : Decidable (IsWord word) :=
  decidable_of_iff (word ≠ [] ∧ word.all fun c => c.isLower || c.isDigit) <| by
    simp only [IsWord, List.all_eq_true, Bool.or_eq_true]

section Words

variable (names : NameTools) (links : LinkTools)

namespace ValidUrl

/-- The decoded path of a page between its outer slashes. -/
def noteBody (url : ValidUrl) : List Char :=
  ((names.percentDecode url.trimmedPath).dropWhile (· = '/')).rdropWhile (· = '/')

/-- The words of a page: those of its decoded path, between slashes and dashes. -/
def noteWords (url : ValidUrl) : List (List Char) :=
  if url.path = ['/'] then ["index".toList] else ((url.noteBody names).map dashed).splitOn '-'

/-- The words that a link has of a page: those of its last two segments in kebab case. -/
def linkWords (url : ValidUrl) : List (List Char) :=
  match (slugSegments url.path).reverse with
  | [] => ["index".toList]
  | [segment] => (segmentSlug links segment).splitOn '-'
  | current :: parent :: _ =>
      (segmentSlug links parent).splitOn '-' ++ (segmentSlug links current).splitOn '-'

/-- The root, or a page that is not closed by a slash, has no reserved name, and has in its last
two segments just the words of its path.  Without escapes these are at most two segments in all,
of words in lower case that single dashes separate. -/
def NamedAlike (url : ValidUrl) : Prop :=
  url.path = ['/'] ∨
    (url.path.getLast? = some '/' → url.noteBody names = []) ∧
      ¬ UrlPath.isReserved ((url.noteBody names).map dashed) ∧
        if '%' ∈ url.path then url.noteWords names = url.linkWords links
        else (pieces '/' url.path).length ≤ 2 ∧ ∀ word ∈ url.noteWords names, IsWord word

instance (url : ValidUrl) : Decidable (url.NamedAlike names links) :=
  inferInstanceAs (Decidable (_ ∨ _))

/-- The name of the note of a page, without its extension. -/
def noteName (url : ValidUrl) : List Char :=
  UrlPath.stem names (OutputPath.fromUrlWithQuery names url).path

end ValidUrl

end Words

section Names

variable {names : NameTools} {links : LinkTools} {url : ValidUrl}

/-! ## The slug -/

theorem splitOn_slug (url : ValidUrl) :
    (slugFromUrl links url.path).splitOn '-' = url.linkWords links := by
  unfold slugFromUrl ValidUrl.linkWords
  generalize (slugSegments url.path).reverse = segments
  match segments with
  | [] =>
      have whole : '-' ∉ "index".toList := by decide
      exact List.splitOn_eq_singleton whole
  | [_] => rfl
  | _ :: _ :: _ => exact List.splitOn_append_cons_self ..

theorem mem_decodeAndNormalize {s : List Char} {c : Char} (member : c ∈ decodeAndNormalize s) :
    c ∈ s ∨ c ∈ " /:-.".toList := by
  have each (table : List (String × String))
      (written : ∀ row ∈ table, row.2.toList.all (" /:-.".toList.contains ·)) (s : List Char)
      (member : c ∈ table.foldl (fun s row => substitute row.1.toList row.2.toList s) s) :
      c ∈ s ∨ c ∈ " /:-.".toList := by
    induction table generalizing s with
    | nil => exact .inl member
    | cons row table ih =>
        obtain ⟨here, later⟩ := List.forall_mem_cons.mp written
        rcases ih later _ member with inside | new
        · exact (mem_substituteFrom inside).symm.imp_right fun there =>
            List.contains_iff_mem.mp (List.all_eq_true.mp here c there)
        · exact .inr new
  exact each replacements (by decide) s member

/-- A segment without escapes and underscores. -/
theorem decodeAndNormalize_eq_self {s : List Char} (percent : '%' ∉ s) (underscore : '_' ∉ s) :
    decodeAndNormalize s = s := by
  have each (table : List (String × String))
      (needed : ∀ row ∈ table, '%' ∈ row.1.toList ∨ '_' ∈ row.1.toList) :
      table.foldl (fun s row => substitute row.1.toList row.2.toList s) s = s := by
    induction table with
    | nil => rfl
    | cons row table ih =>
        obtain ⟨here, later⟩ := List.forall_mem_cons.mp needed
        have same : substitute row.1.toList row.2.toList s = s :=
          here.elim (fun first => substitute_eq_self first percent)
            fun first => substitute_eq_self first underscore
        rw [List.foldl_cons, same]
        exact ih later
  exact each replacements (by decide)

theorem slugSegments_eq (url : ValidUrl) (dot : '.' ∉ url.path) :
    slugSegments url.path = pieces '/' url.path := by
  have query := takeWhile_ne url.path_plain.1
  have fragment := takeWhile_ne url.path_plain.2
  have undotted : '.' ∉ url.path.rdropWhile (· = '/') := fun member =>
    dot ((List.rdropWhile_prefix _ _).subset member)
  have each (table : List String) (dotted : ∀ extension ∈ table, '.' ∈ extension.toList)
      {path : List Char} (dot : '.' ∉ path) :
      table.foldl (fun path extension => trimEnd extension.toList path) path = path := by
    induction table with
    | nil => rfl
    | cons extension table ih =>
        obtain ⟨here, later⟩ := List.forall_mem_cons.mp dotted
        rw [List.foldl_cons, trimEnd_of_not fun suffix => dot (suffix.subset here)]
        exact ih later
  rw [slugSegments, query, fragment, each fileExtensions (by decide) undotted, pieces_rdropWhile]

theorem mem_slugSegments {path segment : List Char} (inside : segment ∈ slugSegments path) {c : Char}
    (member : c ∈ segment) : c ∈ path := by
  have each (table : List String) (path : List Char) :
      table.foldl (fun path extension => trimEnd extension.toList path) path <+: path := by
    induction table generalizing path with
    | nil => exact List.prefix_refl path
    | cons extension table ih => exact (ih _).trans (trimEnd_isPrefix _ _)
  have left := (each fileExtensions _).subset (mem_of_mem_pieces inside member).1
  have before := (List.rdropWhile_prefix _ _).subset left
  exact (List.takeWhile_prefix _).subset ((List.takeWhile_prefix _).subset before)

/-- The letters of the slug of an ASCII path. -/
theorem mem_slug (documented : Documented names links) (ascii : ∀ c ∈ url.path, c.toNat < 0x80)
    {c : Char} (member : c ∈ slugFromUrl links url.path) :
    c = '-' ∨ c.isLower ∨ c.isDigit := by
  have segment {segment : List Char} (inside : segment ∈ slugSegments url.path)
      (member : c ∈ segmentSlug links segment) : c = '-' ∨ c.isLower ∨ c.isDigit := by
    refine documented.kebab _ (fun d there => ?_) c member
    rcases mem_decodeAndNormalize there with old | new
    · exact ascii d (mem_slugSegments inside old)
    · have table : " /:-.".toList.all (·.toNat < 0x80) := by decide
      exact of_decide_eq_true (List.all_eq_true.mp table d new)
  have inside {s : List Char} (there : s ∈ (slugSegments url.path).reverse) :
      s ∈ slugSegments url.path := List.mem_reverse.mp there
  unfold slugFromUrl at member
  generalize (slugSegments url.path).reverse = segments at member inside
  match segments with
  | [] =>
      have table : "index".toList.all Char.isLower := by decide
      exact .inr (.inl (List.all_eq_true.mp table c member))
  | [s] => exact segment (inside (by simp)) member
  | current :: parent :: _ =>
      rcases List.mem_append.mp member with first | later
      · exact segment (inside (by simp)) first
      · rcases List.mem_cons.mp later with dash | last
        · exact .inl dash
        · exact segment (inside (by simp)) last

/-! ## The name of a note -/

theorem noteName_eq (url : ValidUrl) :
    url.noteName names = (url.letters names .markdown).map names.shown := by
  rw [← stem_pageOutput, ValidUrl.noteName, pageOutput, if_neg (by decide)]

theorem letters_eq (plain : url.query = none ∧ url.fragment = none) (inner : url.path ≠ ['/']) :
    url.letters names .markdown =
      nameLetters names (names.percentDecode url.trimmedPath) (url.path.getLast? = some '/') := by
  have unmarked : ¬ url.IsMarked .markdown := fun marked => marked.2 (by rw [plain.1, plain.2]; simp)
  rw [ValidUrl.letters, if_neg unmarked, if_neg inner]

theorem shown_eq_dashed {c : Char} (other : names.shown c ≠ '_') : names.shown c = dashed c := by
  rw [shown] at other ⊢
  rw [dashed]
  split_ifs with slash kept
  · rfl
  · rfl
  · rw [if_neg slash, if_neg kept] at other
    exact absurd rfl other

theorem map_shown_eq_dashed {text : List Char} (free : '_' ∉ text.map names.shown) :
    text.map names.shown = text.map dashed :=
  List.map_congr_left fun _ member => shown_eq_dashed fun same =>
    free (same ▸ List.mem_map_of_mem member)

theorem kept_of_letter {c : Char} (letter : c.isLower ∨ c.isDigit) : names.Kept c := by
  have bounds : c.toNat < 0x80 := by
    rcases letter with lower | digit
    · change (c.val ≥ 97 && c.val ≤ 122) = true at lower
      simp only [Bool.and_eq_true, decide_eq_true_eq, ge_iff_le,
        UInt32.le_iff_toNat_le] at lower
      exact Nat.lt_of_le_of_lt lower.2 (by decide)
    · change (c.val ≥ 48 && c.val ≤ 57) = true at digit
      simp only [Bool.and_eq_true, decide_eq_true_eq, ge_iff_le,
        UInt32.le_iff_toNat_le] at digit
      exact Nat.lt_of_le_of_lt digit.2 (by decide)
  refine kept_of_ascii bounds ?_
  change (c.isUpper || c.isLower || c.isDigit) = true
  rcases letter with lower | digit
  · rw [lower, Bool.or_true, Bool.true_or]
  · rw [digit, Bool.or_true]

/-- A character that is read as a letter of a slug. -/
theorem shown_of_dashed {c : Char} (letter : dashed c = '-' ∨ (dashed c).isLower ∨ (dashed c).isDigit) :
    names.shown c = dashed c := by
  refine shown_eq_dashed fun hidden => ?_
  rw [dashed] at letter
  split_ifs at letter with slash
  · rw [shown, if_pos slash] at hidden
    exact absurd hidden (by decide)
  rw [shown, if_neg slash] at hidden
  split_ifs at hidden with kept
  · rw [hidden] at letter
    exact absurd letter (by decide)
  · refine kept ?_
    rcases letter with dash | letter
    · exact .inr (.inl dash)
    · exact kept_of_letter letter

/-- The name of a page is the slug of its link just when it has no mark and is the decoded path
with dashes. -/
theorem noteName_eq_slug_iff (plain : url.query = none ∧ url.fragment = none)
    (inner : url.path ≠ ['/']) {slug : List Char}
    (formed : ∀ c ∈ slug, c = '-' ∨ c.isLower ∨ c.isDigit) :
    slug = url.noteName names ↔
      (url.path.getLast? = some '/' → url.noteBody names = []) ∧
        ¬ UrlPath.isReserved ((url.noteBody names).map dashed) ∧
          (url.noteBody names).map dashed = slug := by
  have free : '_' ∉ slug := fun member => absurd (formed '_' member) (by decide)
  have nameLetters_eq : nameLetters names (names.percentDecode url.trimmedPath)
      (url.path.getLast? = some '/') =
        let named := if UrlPath.isReserved ((url.noteBody names).map names.shown) then
          url.noteBody names ++ "_safe".toList else url.noteBody names
        if url.path.getLast? = some '/' ∧ named ≠ [] then named ++ ['_'] else named := by
    rw [nameLetters, ValidUrl.noteBody]
    simp only [decide_eq_true_eq]
  rw [noteName_eq, letters_eq plain inner, nameLetters_eq]
  generalize url.noteBody names = body
  constructor
  · intro same
    rw [same] at free
    have hidden (text : List Char) : '_' ∈ (text ++ ['_']).map names.shown := by
      rw [List.map_append]
      exact List.mem_append_right _ (by rw [List.map_singleton, shown_hidden (.inl rfl)]; simp)
    have unreserved : ¬ UrlPath.isReserved (body.map names.shown) := by
      intro reserved
      rw [if_pos reserved] at free
      have safe : '_' ∈ (body ++ "_safe".toList).map names.shown := by
        rw [List.map_append]
        refine List.mem_append_right _ (List.mem_map.mpr ⟨'_', by decide, shown_hidden (.inl rfl)⟩)
      dsimp only at free
      split_ifs at free
      · exact free (hidden _)
      · exact free safe
    rw [if_neg unreserved] at same free
    dsimp only at same free
    have unmarked : ¬ (url.path.getLast? = some '/' ∧ body ≠ []) := by
      intro marked
      rw [if_pos marked] at free
      exact free (hidden _)
    rw [if_neg unmarked] at same free
    have shown : body.map names.shown = body.map dashed := map_shown_eq_dashed free
    rw [shown] at same unreserved
    exact ⟨fun closed => by_contra fun some => unmarked ⟨closed, some⟩, unreserved, same.symm⟩
  · intro facts
    obtain ⟨closing, unreserved, same⟩ := facts
    have shown : body.map names.shown = body.map dashed := by
      refine List.map_congr_left fun c member => shown_of_dashed (formed _ ?_)
      rw [← same]
      exact List.mem_map_of_mem member
    have unmarked : ¬ (url.path.getLast? = some '/' ∧ body ≠ []) := fun marked =>
      marked.2 (closing marked.1)
    rw [shown, if_neg unreserved]
    dsimp only
    rw [if_neg unmarked, shown, same]

/-! ## Paths without escapes -/

theorem noteBody_eq (documented : Documented names links) (spelled : '%' ∉ url.path)
    (inner : url.path ≠ ['/']) :
    url.noteBody names =
      ((url.path.rdropWhile (· = '/')).dropWhile (· = '/')).rdropWhile (· = '/') := by
  have trimmed : url.trimmedPath = url.path.rdropWhile (· = '/') := if_neg inner
  rw [ValidUrl.noteBody, trimmed,
    documented.plain _ fun member => spelled ((List.rdropWhile_prefix _ _).subset member)]

theorem pieces_noteBody (documented : Documented names links) (spelled : '%' ∉ url.path)
    (inner : url.path ≠ ['/']) : pieces '/' (url.noteBody names) = pieces '/' url.path := by
  rw [noteBody_eq documented spelled inner, pieces_rdropWhile, pieces_dropWhile, pieces_rdropWhile]

theorem segmentSlug_eq (documented : Documented names links) {segment : List Char}
    (letters : ∀ c ∈ segment, c = '-' ∨ c.isLower ∨ c.isDigit) :
    segmentSlug links segment = ['-'].intercalate (pieces '-' segment) := by
  have percent : '%' ∉ segment := fun member => absurd (letters '%' member) (by decide)
  have underscore : '_' ∉ segment := fun member => absurd (letters '_' member) (by decide)
  rw [segmentSlug, decodeAndNormalize_eq_self percent underscore, documented.words segment letters]

/-- The slug of the segments of a path without extension and escapes. -/
def plainSlug : List (List Char) → List Char
  | [] => "index".toList
  | [segment] => ['-'].intercalate (pieces '-' segment)
  | current :: parent :: _ =>
      ['-'].intercalate (pieces '-' parent) ++ '-' :: ['-'].intercalate (pieces '-' current)

theorem slugFromUrl_eq (documented : Documented names links)
    (letters : ∀ c ∈ url.path, c ≠ '/' → c = '-' ∨ c.isLower ∨ c.isDigit) :
    slugFromUrl links url.path = plainSlug (pieces '/' url.path).reverse := by
  have dot : '.' ∉ url.path := fun member => absurd (letters '.' member (by decide)) (by decide)
  have segment {s : List Char} (inside : s ∈ (pieces '/' url.path).reverse) :
      segmentSlug links s = ['-'].intercalate (pieces '-' s) := by
    refine segmentSlug_eq documented fun c member => ?_
    obtain ⟨there, other⟩ := mem_of_mem_pieces (List.mem_reverse.mp inside) member
    exact letters c there other
  rw [slugFromUrl, slugSegments_eq url dot]
  generalize (pieces '/' url.path).reverse = segments at segment
  match segments with
  | [] => rfl
  | [s] => exact segment (by simp)
  | current :: parent :: _ =>
      rw [plainSlug, ← segment (List.mem_cons_self ..), ← segment (s := parent) (by simp)]

/-- A path has no segments beside the two that make up all its characters. -/
theorem length_intercalate (before : List (List Char)) (parent current : List Char) :
    before.length + parent.length + current.length + 1 ≤
      (['/'].intercalate (before ++ [parent, current])).length := by
  induction before with
  | nil =>
      rw [List.nil_append, intercalate_cons (List.cons_ne_nil _ _), List.intercalate_singleton,
        List.length_append, List.length_cons, List.length_nil]
      omega
  | cons part before ih =>
      rw [List.cons_append, intercalate_cons (by simp), List.length_append, List.length_cons,
        List.length_cons]
      omega

/-- The words of a text that is its own slug. -/
theorem words_of_plainSlug {body : List Char}
    (same : body.map dashed = plainSlug (pieces '/' body).reverse) :
    (pieces '/' body).length ≤ 2 ∧ ∀ word ∈ (body.map dashed).splitOn '-', word ≠ [] := by
  have within : (['/'].intercalate (pieces '/' body)).Sublist body := intercalate_pieces_sublist body
  have lengths := congrArg List.length same
  rw [List.length_map] at lengths
  have shorter (segment : List Char) :
      (['-'].intercalate (pieces '-' segment)).Sublist segment := intercalate_pieces_sublist segment
  have nonempty (segment : List Char) (inside : segment ∈ (pieces '/' body).reverse) : segment ≠ [] :=
    (mem_pieces (List.mem_reverse.mp inside)).1
  have words {segment : List Char} (some : segment ≠ [])
      (whole : ['-'].intercalate (pieces '-' segment) = segment) :
      ∀ word ∈ segment.splitOn '-', word ≠ [] := by
    rw [splitOn_eq_pieces some whole]
    exact fun word member => (mem_pieces member).1
  generalize segments : (pieces '/' body).reverse = reversed at same lengths nonempty
  have forward : pieces '/' body = reversed.reverse := by rw [← segments, List.reverse_reverse]
  rw [forward] at within ⊢
  match reversed with
  | [] =>
      have first : 'i' ∈ body.map dashed := by
        rw [same]
        decide
      obtain ⟨c, member, letter⟩ := List.mem_map.mp first
      have other : c ≠ '/' := by
        rintro rfl
        exact absurd letter (by decide)
      obtain ⟨piece, inside, -⟩ := exists_piece member other
      rw [forward] at inside
      cases inside
  | [segment] =>
      have short := (shorter segment).length_le
      change (['/'].intercalate [segment]).Sublist body at within
      rw [List.intercalate_singleton] at within
      have kept : ['-'].intercalate (pieces '-' segment) = segment :=
        (shorter segment).eq_of_length (le_antisymm short (within.length_le.trans lengths.le))
      refine ⟨by simp, ?_⟩
      rw [same, plainSlug, kept]
      exact words (nonempty segment (by simp)) kept
  | current :: parent :: rest =>
      have turned : (current :: parent :: rest).reverse = rest.reverse ++ [parent, current] := by simp
      rw [turned] at within ⊢
      have long := (length_intercalate rest.reverse parent current).trans within.length_le
      have shortParent := (shorter parent).length_le
      have shortCurrent := (shorter current).length_le
      rw [plainSlug, List.length_append, List.length_cons] at lengths
      have keptParent : ['-'].intercalate (pieces '-' parent) = parent :=
        (shorter parent).eq_of_length (by omega)
      have keptCurrent : ['-'].intercalate (pieces '-' current) = current :=
        (shorter current).eq_of_length (by omega)
      constructor
      · rw [List.length_append, List.length_cons, List.length_singleton]
        omega
      · rw [same, plainSlug, keptParent, keptCurrent, List.splitOn_append_cons_self]
        exact List.forall_mem_append.mpr
          ⟨words (nonempty parent (by simp)) keptParent, words (nonempty current (by simp)) keptCurrent⟩

/-- A text whose words are not empty has no empty segments, and none with empty words. -/
theorem segments_of_words {body : List Char}
    (words : ∀ word ∈ (body.map dashed).splitOn '-', word ≠ []) :
    ['/'].intercalate (pieces '/' body) = body ∧
      ∀ segment ∈ pieces '/' body, ∀ word ∈ segment.splitOn '-', word ≠ [] := by
  have unslashed {text : List Char} (whole : '/' ∉ text) : text.map dashed = text := by
    have kept : ∀ c ∈ text, dashed c = id c := fun c member =>
      if_neg fun slash : c = '/' => whole (slash ▸ member)
    rw [List.map_congr_left kept, List.map_id]
  by_cases cut : '/' ∈ body
  · obtain ⟨before, behind, rfl, whole⟩ := List.eq_append_cons_of_mem cut
    rw [List.map_append, List.map_cons, unslashed whole] at words
    change ∀ word ∈ (before ++ '-' :: behind.map dashed).splitOn '-', word ≠ [] at words
    rw [List.splitOn_append_cons_self] at words
    obtain ⟨first, later⟩ := List.forall_mem_append.mp words
    obtain ⟨rest, segments⟩ := segments_of_words later
    have nonempty : before ≠ [] := by
      rintro rfl
      exact first [] (by simp) rfl
    have more : pieces '/' behind ≠ [] := fun none => by
      rw [none] at rest
      rw [← rest] at later
      exact later [] (by simp) rfl
    rw [pieces_append_cons, pieces_eq_singleton whole nonempty, List.singleton_append]
    refine ⟨by rw [intercalate_cons more, rest], List.forall_mem_cons.mpr ⟨first, segments⟩⟩
  · rw [unslashed cut] at words
    have nonempty : body ≠ [] := by
      rintro rfl
      exact words [] (by simp) rfl
    rw [pieces_eq_singleton cut nonempty, List.intercalate_singleton]
    exact ⟨rfl, List.forall_mem_singleton.mpr words⟩
termination_by body.length
decreasing_by
  simp_all only [List.length_append, List.length_cons]
  omega

theorem map_dashed_eq_plainSlug {body : List Char} (short : (pieces '/' body).length ≤ 2)
    (words : ∀ word ∈ (body.map dashed).splitOn '-', word ≠ []) :
    body.map dashed = plainSlug (pieces '/' body).reverse := by
  obtain ⟨whole, segments⟩ := segments_of_words words
  have kept {segment : List Char} (inside : segment ∈ pieces '/' body) :
      segment.map dashed = ['-'].intercalate (pieces '-' segment) := by
    have same : ∀ c ∈ segment, dashed c = id c := fun c member =>
      if_neg (mem_of_mem_pieces inside member).2
    rw [intercalate_pieces (segments segment inside), List.map_congr_left same, List.map_id]
  generalize pieces '/' body = parts at short whole kept
  match parts with
  | [] =>
      rw [← whole] at words
      exact absurd rfl (words [] (by simp))
  | [segment] =>
      rw [List.intercalate_singleton] at whole
      rw [← whole]
      exact kept (List.mem_singleton_self _)
  | [parent, current] =>
      rw [intercalate_cons (List.cons_ne_nil _ _), List.intercalate_singleton] at whole
      rw [← whole, List.map_append, List.map_cons, kept (List.mem_cons_self ..),
        kept (List.mem_pair.mpr (.inr rfl))]
      rfl

/-- Without escapes a page is named after its segments just when it has at most two, of words. -/
theorem map_dashed_eq_slug_iff (documented : Documented names links)
    (ascii : ∀ c ∈ url.path, c.toNat < 0x80) (spelled : '%' ∉ url.path) (inner : url.path ≠ ['/']) :
    (url.noteBody names).map dashed = slugFromUrl links url.path ↔
      (pieces '/' url.path).length ≤ 2 ∧
        ∀ word ∈ ((url.noteBody names).map dashed).splitOn '-', IsWord word := by
  have same := pieces_noteBody documented spelled inner
  have slug (letters : ∀ c ∈ (url.noteBody names).map dashed, c = '-' ∨ c.isLower ∨ c.isDigit) :
      slugFromUrl links url.path = plainSlug (pieces '/' (url.noteBody names)).reverse := by
    rw [same]
    refine slugFromUrl_eq documented fun c member other => ?_
    obtain ⟨piece, inside, there⟩ := exists_piece member other
    rw [← same] at inside
    have letter := letters _ (List.mem_map_of_mem (mem_of_mem_pieces inside there).1)
    rwa [dashed, if_neg other] at letter
  rw [← same]
  generalize url.noteBody names = body at slug
  constructor
  · intro named
    have letters : ∀ c ∈ body.map dashed, c = '-' ∨ c.isLower ∨ c.isDigit := fun c member =>
      mem_slug documented ascii (named ▸ member)
    obtain ⟨short, words⟩ := words_of_plainSlug (named.trans (slug letters))
    refine ⟨short, fun word inside => ⟨words word inside, fun c member => ?_⟩⟩
    rw [← pieces_eq_splitOn words] at inside
    obtain ⟨there, other⟩ := mem_of_mem_pieces inside member
    exact (letters c there).resolve_left other
  · intro ⟨short, words⟩
    have nonempty : ∀ word ∈ (body.map dashed).splitOn '-', word ≠ [] := fun word inside =>
      (words word inside).1
    have letters : ∀ c ∈ body.map dashed, c = '-' ∨ c.isLower ∨ c.isDigit := by
      intro c member
      by_cases dash : c = '-'
      · exact .inl dash
      · obtain ⟨word, inside, there⟩ := exists_piece member dash
        rw [pieces_eq_splitOn nonempty] at inside
        exact .inr ((words word inside).2 c there)
    rw [slug letters]
    exact map_dashed_eq_plainSlug short nonempty

/-- The name of the note of a page is the slug of its links just when the page is named alike. -/
theorem slug_eq_noteName_iff (documented : Documented names links)
    (plain : url.query = none ∧ url.fragment = none) (ascii : ∀ c ∈ url.path, c.toNat < 0x80) :
    slugFromUrl links url.path = url.noteName names ↔ url.NamedAlike names links := by
  by_cases root : url.path = ['/']
  · refine iff_of_true ?_ (.inl root)
    have unmarked : ¬ url.IsMarked .markdown := fun marked =>
      marked.2 (by rw [plain.1, plain.2]; simp)
    have index : slugFromUrl links ['/'] = "index".toList := rfl
    rw [noteName_eq, ValidUrl.letters, if_neg unmarked, if_pos root, root, index]
    exact (map_shown_ascii (by decide)).symm
  · rw [noteName_eq_slug_iff plain root fun c => mem_slug documented ascii, ValidUrl.NamedAlike,
      or_iff_right root]
    refine and_congr_right fun _ => and_congr_right fun _ => ?_
    have words : url.noteWords names = ((url.noteBody names).map dashed).splitOn '-' := if_neg root
    rw [words]
    split_ifs with escaped
    · rw [← splitOn_slug]
      exact (splitOn_injective '-').eq_iff.symm
    · exact map_dashed_eq_slug_iff documented ascii escaped root

/-- The words of a page that is named alike are those of its slug. -/
theorem splitOn_slug_of_alike (documented : Documented names links)
    (plain : url.query = none ∧ url.fragment = none) (ascii : ∀ c ∈ url.path, c.toNat < 0x80)
    (alike : url.NamedAlike names links) :
    (slugFromUrl links url.path).splitOn '-' = url.noteWords names := by
  by_cases root : url.path = ['/']
  · have index : slugFromUrl links ['/'] = "index".toList := rfl
    have whole : '-' ∉ "index".toList := by decide
    rw [ValidUrl.noteWords, if_pos root, root, index, List.splitOn_eq_singleton whole]
  · have named := (slug_eq_noteName_iff documented plain ascii).mpr alike
    obtain ⟨-, -, same⟩ :=
      (noteName_eq_slug_iff plain root fun c => mem_slug documented ascii).mp named
    rw [ValidUrl.noteWords, if_neg root, same]

/-! ## A whole export -/

/-- A link to a page with its own host around it. -/
theorem shouldConvertWikilink_page
    (parses : links.parseUrl url.asStr = some ⟨some url.host, url.path⟩) :
    shouldConvertWikilink links url.asStr url.host = some (slugFromUrl links url.path) := by
  have letter : url.asStr.head? = some 'h' := by
    cases scheme : url.scheme <;> rw [ValidUrl.asStr, scheme] <;> rfl
  have anchor : url.asStr.head? ≠ some '#' := by
    rw [letter]
    decide
  have relative : ¬ (url.asStr.head? = some '/' ∧
      ¬ url.asStr.tails.any ("://".toList.isPrefixOf ·)) := by
    rw [letter]
    exact fun both => absurd both.1 (by decide)
  rw [shouldConvertWikilink, if_neg anchor, if_neg relative]
  dsimp only
  rw [parses, Option.bind_some, Option.bind_some, if_neg fun other => other rfl]

/-- What is written for a link to a page that is named alike begins with the name of its note. -/
theorem foldl_link_page (documented : Documented names links)
    (plain : url.query = none ∧ url.fragment = none) (ascii : ∀ c ∈ url.path, c.toNat < 0x80)
    (parses : links.parseUrl url.asStr = some ⟨some url.host, url.path⟩)
    (alike : url.NamedAlike names links) {label : List MarkdownEvent} (isLabel : IsLabel label)
    {s : Transform} (outside : s.link = none ∧ s.inLink = false ∧ s.depth = 0) :
    (.start (.link url.asStr) :: (label ++ [.stop .link])).foldl (Transform.step links url.host) s =
      { s with result := s.result ++
          wikilinkText links (url.noteName names) ⟨false, url.asStr, label, []⟩ s.result } := by
  have slug := shouldConvertWikilink_page parses
  rw [(slug_eq_noteName_iff documented plain ascii).mpr alike] at slug
  rw [Transform.foldl_link isLabel url.asStr outside, linkText, if_neg Bool.false_ne_true]
  dsimp only
  rw [slug]

/-- Links to the pages of an export lead to their notes, those to different pages to different
names. -/
structure LinksResolve (names : NameTools) (links : LinkTools) (items : List ScrapedContent)
    (dir : Directory) : Prop where
  /-- a link has the name of the note of its page -/
  named : ∀ item ∈ items, shouldConvertWikilink links item.url.asStr item.url.host =
    some (item.url.noteName names)
  /-- a note has the name that a link has -/
  noted : ∀ item ∈ items, ∀ slug ∈ shouldConvertWikilink links item.url.asStr item.url.host,
    ∃ path, dir.files path ≠ none ∧ path.getLast? = some (slug ++ ".md".toList)
  apart : ∀ a ∈ items, ∀ b ∈ items, a.url ≠ b.url →
    shouldConvertWikilink links a.url.asStr a.url.host ≠
      shouldConvertWikilink links b.url.asStr b.url.host

theorem getLast?_target (url : ValidUrl) :
    (target names .markdown url).getLast? = some (url.noteName names ++ ".md".toList) := by
  rw [target, List.getLast?_concat, noteName_eq]
  rfl

variable {page : PageTools} {obsidian : ObsidianOptions}

end Names

/-! ## Two exports -/

/-- A letter of kebab case. -/
def kebabLetter (c : Char) : Char :=
  if c.isLower || c.isDigit then c else if c.toLower.isLower then c.toLower else '-'

/-- Kebab case of texts whose words are not told apart by their case, and the URLs of one host. -/
def siteLinks : LinkTools where
  toKebabCase text := ['-'].intercalate (pieces '-' (text.map kebabLetter))
  parseUrl text :=
    if "https://site.test".toList.isPrefixOf text then
      some ⟨some "site.test".toList, text.drop "https://site.test".length⟩
    else none
  toLowercase := List.map Char.toLower

theorem documented_siteLinks : Documented asciiTools siteLinks where
  plain _ _ := rfl
  kebab text _ c member := by
    obtain ⟨old, -, rfl⟩ := List.mem_map.mp ((intercalate_pieces_sublist _).subset member)
    rw [kebabLetter]
    split_ifs with letter lower
    · exact .inr (by simpa using letter)
    · exact .inr (.inl lower)
    · exact .inl rfl
  words text letters := by
    have same : ∀ c ∈ text, kebabLetter c = id c := by
      intro c member
      rcases letters c member with rfl | letter
      · rfl
      · rw [kebabLetter, if_pos (by simpa using letter)]
        rfl
    change ['-'].intercalate (pieces '-' (text.map kebabLetter)) = _
    rw [List.map_congr_left same, List.map_id]

def aboutPage : ScrapedContent := sitePage "About" "/about" (by decide) (by decide)

def endpointsPage : ScrapedContent := sitePage "API" "/docs/api/v2" (by decide) (by decide)

end Webfang.Output
