import Webfang.Domain.ExcerptRepair

/-!
# A repaired excerpt that is read again

A repair leaves the words of a text with single blanks between them.  How long the runs of blanks
were does not matter to the next repair, which finds the same bylines in both texts.
-/

namespace Webfang.Excerpt

open Blanks

variable {classes : WordClass} {afterWord : Bool} {text text' inside byline fragment : List Char}
  {parts bylines : List (List Char)}

/-! ## Blanks -/

/-- The repaired text is the words of the replaced one, with a blank between them. -/
theorem normalizeWhitespace_eq (text : List Char) :
    normalizeWhitespace ((text.dropWhile isWhitespace).rdropWhile isWhitespace) =
      unwords ' ' (words isWhitespace text) := by
  rw [← words_strip]
  have bare := @Segments.ends_of_strip _ isWhitespace text _ rfl
  generalize (text.dropWhile isWhitespace).rdropWhile isWhitespace = stripped at bare ⊢
  have first (c : Char) (head : stripped.head? = some c) : isWhitespace c = false :=
    (bare (List.ne_nil_of_mem (List.mem_of_head? head))).1 c head
  have last (c : Char) (ends : stripped.getLast? = some c) : isWhitespace c = false :=
    (bare (List.ne_nil_of_mem (List.mem_of_getLast? ends))).2 c ends
  unfold normalizeWhitespace
  dsimp only
  split
  case isTrue => rfl
  case isFalse clean =>
    rw [Bool.or_eq_true, not_or, List.any_eq_true, List.any_eq_true, not_exists, not_exists] at clean
    refine (unwords_words (by decide) (fun c member isBlank => ?_) (fun double => ?_) first last).symm
    · by_contra other
      exact clean.1 c ⟨member, by simp [isBlank, other]⟩
    · obtain ⟨tail, here, suffix⟩ := List.infix_iff_prefix_suffix.mp double
      exact clean.2 tail ⟨(List.mem_tails _ _).mpr suffix, List.isPrefixOf_iff_prefix.mpr here⟩

theorem blank_ne_b {c : Char} (isBlank : isWhitespace c = true) : c ≠ 'b' := by
  rintro rfl
  exact absurd isBlank (by decide)

theorem blank_ne_paren {c : Char} (isBlank : isWhitespace c = true) : c ≠ ')' := by
  rintro rfl
  exact absurd isBlank (by decide)

theorem parts_ne_nil (cut : Parts classes afterWord text parts bylines) : parts ≠ [] := by
  cases cut <;> exact List.cons_ne_nil _ _

/-- A blank in front of a text goes into its first part. -/
theorem parts_blank {c : Char} (isBlank : isWhitespace c = true)
    (cut : Parts classes false text parts bylines) :
    ∃ parts', Parts classes false (c :: text) parts' bylines ∧ ∀ fragment : List Char,
      fragment.intercalate parts' = c :: fragment.intercalate parts := by
  have absent : ∀ n, false = false → bylineLength (c :: text) ≠ some n := by
    intro n _ found
    obtain ⟨inside, ⟨w, same, -⟩, -⟩ := opens_of_bylineLength found
    exact blank_ne_b isBlank (List.cons.inj same).1
  have cut' : Parts classes (classes.isWord c) text parts bylines := by
    rwa [classes.blanks c isBlank]
  obtain ⟨parts', whole⟩ := parts_cons absent cut'
  refine ⟨parts', whole, fun fragment => ?_⟩
  rw [← splitBylines_eq whole, splitBylines_cons absent, splitBylines_eq cut']
  cases cut with
  | last => rw [List.modifyHead_cons, List.intercalate_singleton, List.intercalate_singleton]
  | cut => rw [List.modifyHead_cons, List.intercalate_cons_cons_left]

/-- A blank behind a text goes into its last part. -/
theorem parts_concat {c : Char} (isBlank : isWhitespace c = true)
    (cut : Parts classes afterWord text parts bylines) :
    ∃ parts', Parts classes afterWord (text ++ [c]) parts' bylines ∧ ∀ fragment : List Char,
      fragment.intercalate parts' = fragment.intercalate parts ++ [c] := by
  induction cut with
  | @last afterWord text whole =>
      refine ⟨[text ++ [c]], .last fun here => ?_, fun fragment => ?_⟩
      · -- the blank is not the parenthesis that closes a byline
        obtain ⟨p, front, inside, same, boundary, ⟨w, rfl, some, blanks⟩, closed⟩ := here
        obtain ⟨inside', d, rfl⟩ : ∃ inside' d, inside = inside' ++ [d] :=
          ⟨_, _, (List.dropLast_concat_getLast (List.ne_nil_of_mem closed)).symm⟩
        have shifted : p ++ 'b' :: 'y' :: (w ++ '(' :: (inside' ++ [d])) =
            (p ++ 'b' :: 'y' :: (w ++ '(' :: inside')) ++ [d] := by simp
        rw [shifted] at same
        obtain ⟨rfl, last⟩ := List.append_inj' same rfl
        obtain rfl := (List.cons.inj last).1
        refine whole ⟨p, _, inside', rfl, boundary, ⟨w, rfl, some, blanks⟩, ?_⟩
        refine (List.mem_append.mp closed).resolve_right fun paren => ?_
        exact blank_ne_paren isBlank (List.mem_singleton.mp paren).symm
      · rw [List.intercalate_singleton, List.intercalate_singleton]
  | @cut afterWord part byline text parts bylines unopened boundary isByline cut ih =>
      obtain ⟨parts', behind, each⟩ := ih
      refine ⟨part :: parts', ?_, fun fragment => ?_⟩
      · rw [List.append_assoc, List.append_assoc]
        exact .cut unopened boundary isByline behind
      · rw [List.intercalate_cons_of_ne_nil (parts_ne_nil behind),
          List.intercalate_cons_of_ne_nil (parts_ne_nil cut), each]
        simp only [List.append_assoc]

/-! ## Texts that differ in their blanks -/

theorem ends_blanks {v : List Char} (some : v ≠ []) (blanks : ∀ c ∈ v, isWhitespace c = true) :
    ends classes afterWord v = false := by
  rw [← List.dropLast_concat_getLast some, ends_append]
  exact classes.blanks _ (blanks _ (List.getLast_mem some))

theorem ends_alike (alike : Alike isWhitespace text text') :
    ends classes afterWord text = ends classes afterWord text' := by
  induction alike generalizing afterWord with
  | nil => rfl
  | @letter c _ _ _ _ ih => exact @ih (classes.isWord c)
  | blanks someV someW blanksV blanksW _ ih =>
      rw [ends_append, ends_append, ends_blanks someV blanksV, ends_blanks someW blanksW, ih]

theorem opens_alike (opens : Opens text inside) (alike : Alike isWhitespace text text') :
    ∃ inside', Opens text' inside' ∧ Alike isWhitespace inside inside' := by
  obtain ⟨w, rfl, nonempty, blanks⟩ := opens
  obtain ⟨u, rfl, behindB⟩ := alike.cut_cons (by decide)
  obtain ⟨u, rfl, behindY⟩ := behindB.cut_cons (by decide)
  obtain ⟨w', inside', rfl, between, behind⟩ := behindY.cut (by decide)
  obtain ⟨nonempty', blanks'⟩ := between.blanks_of nonempty blanks
  exact ⟨inside', ⟨w', rfl, nonempty', blanks'⟩, behind⟩

/-- What is opened in a text is opened in each that differs in its blanks. -/
theorem exists_opener_alike {p front : List Char} (opens : Opens front inside)
    (alike : Alike isWhitespace (p ++ front) text') :
    ∃ p' front' inside', text' = p' ++ front' ∧ Alike isWhitespace p p' ∧ Opens front' inside' ∧
      Alike isWhitespace inside inside' := by
  have letter : isWhitespace 'b' = false := by decide
  obtain ⟨w, rfl, some, blanks⟩ := opens
  obtain ⟨p', u, rfl, before, behind⟩ := alike.cut letter
  obtain ⟨inside', opens', same⟩ := opens_alike ⟨w, rfl, some, blanks⟩ (.letter letter behind)
  exact ⟨p', 'b' :: u, inside', rfl, before, opens', same⟩

theorem hasOpener_alike (opener : HasOpener classes afterWord text)
    (alike : Alike isWhitespace text text') : HasOpener classes afterWord text' := by
  obtain ⟨p, front, inside, rfl, boundary, opens⟩ := opener
  obtain ⟨p', front', inside', rfl, before, opens', -⟩ := exists_opener_alike opens alike
  rw [ends_alike before] at boundary
  exact ⟨p', front', inside', rfl, boundary, opens'⟩

theorem hasByline_alike (here : HasByline classes afterWord text)
    (alike : Alike isWhitespace text text') : HasByline classes afterWord text' := by
  obtain ⟨p, front, inside, rfl, boundary, opens, closed⟩ := here
  obtain ⟨p', front', inside', rfl, before, opens', same⟩ := exists_opener_alike opens alike
  rw [ends_alike before] at boundary
  exact ⟨p', front', inside', rfl, boundary, opens', (same.mem_iff (by decide)).mp closed⟩

/-- Texts that differ in their blanks are cut into parts that differ in their blanks. -/
theorem parts_alike (cut : Parts classes afterWord text parts bylines)
    (alike : Alike isWhitespace text text') :
    ∃ parts' bylines', Parts classes afterWord text' parts' bylines' ∧
      List.Forall₂ (Alike isWhitespace) parts parts' := by
  induction cut generalizing text' with
  | last whole =>
      exact ⟨[text'], [], .last fun here => whole (hasByline_alike here alike.symm),
        .cons alike .nil⟩
  | @cut afterWord part byline text parts bylines unopened boundary isByline _ ih =>
      obtain ⟨q, opens, absent⟩ := isByline
      have longer := opens_append opens text
      obtain ⟨part', front', inside', rfl, before, ⟨w, rfl, some, blanks⟩, same⟩ :=
        exists_opener_alike longer alike
      rw [List.append_assoc] at same
      obtain ⟨q', rest, rfl, inner, behind⟩ := same.cut (by decide)
      obtain ⟨parts', bylines', cut', alikes⟩ := ih behind
      have whole : 'b' :: 'y' :: (w ++ '(' :: (q' ++ ')' :: rest)) =
          'b' :: 'y' :: (w ++ '(' :: (q' ++ [')'])) ++ rest := by simp
      rw [whole]
      refine ⟨part' :: parts', _ :: bylines', .cut (fun opener => ?_) ?_ ?_ cut', .cons before alikes⟩
      · exact unopened (hasOpener_alike opener before.symm)
      · rw [← ends_alike before]
        exact boundary
      · exact ⟨q', ⟨w, rfl, some, blanks⟩, (inner.mem_iff (by decide)).not.mp absent⟩

theorem intercalate_alike {parts' : List (List Char)}
    (alikes : List.Forall₂ (Alike isWhitespace) parts parts') (fragment : List Char) :
    Alike isWhitespace (fragment.intercalate parts) (fragment.intercalate parts') := by
  induction alikes with
  | nil => exact .nil
  | @cons _ _ parts parts' here later ih =>
      cases later with
      | nil => rwa [List.intercalate_singleton, List.intercalate_singleton]
      | cons =>
          rw [List.intercalate_cons_cons, List.intercalate_cons_cons]
          exact (here.append (.refl fragment)).append ih

theorem replaceAll_eq (cut : Parts classes false text parts bylines) (fragment : List Char) :
    replaceAll classes fragment text = fragment.intercalate parts := by
  rw [replaceAll, splitBylines_eq cut]

/-- Between two blanks a text is replaced as it is without them. -/
theorem replaceAll_padded (fragment text : List Char) :
    replaceAll classes fragment (' ' :: (text ++ [' '])) =
      ' ' :: (replaceAll classes fragment text ++ [' ']) := by
  obtain ⟨parts, bylines, cut⟩ := exists_parts classes false text
  have blank : isWhitespace ' ' = true := by decide
  obtain ⟨parts', cut', each'⟩ := parts_concat blank cut
  obtain ⟨parts'', cut'', each''⟩ := parts_blank blank cut'
  rw [replaceAll_eq cut, replaceAll_eq cut'', each'', each']

theorem replaceAll_alike (fragment : List Char) (alike : Alike isWhitespace text text') :
    Alike isWhitespace (replaceAll classes fragment text) (replaceAll classes fragment text') := by
  obtain ⟨parts, bylines, cut⟩ := exists_parts classes false text
  obtain ⟨parts', bylines', cut', alikes⟩ := parts_alike cut alike
  rw [replaceAll_eq cut, replaceAll_eq cut']
  exact intercalate_alike alikes fragment

theorem words_padded (text : List Char) :
    words isWhitespace (' ' :: (text ++ [' '])) = words isWhitespace text := by
  have blank : ∀ c ∈ [' '], isWhitespace c = true := List.forall_mem_singleton.mpr (by decide)
  rw [words_cons (by decide), words_append_right blank]

/-- The words that are left of a text are left of it once it is written with single blanks. -/
theorem words_replaceAll_unwords (fragment text : List Char) :
    words isWhitespace (replaceAll classes fragment (unwords ' ' (words isWhitespace text))) =
      words isWhitespace (replaceAll classes fragment text) := by
  have padded : Alike isWhitespace (' ' :: (text ++ [' ']))
      (' ' :: (unwords ' ' (words isWhitespace text) ++ [' '])) := .padded (by decide) text
  have alike : Alike isWhitespace (replaceAll classes fragment _) (replaceAll classes fragment _) :=
    replaceAll_alike fragment padded
  rw [replaceAll_padded, replaceAll_padded] at alike
  rw [← words_padded, ← words_padded (replaceAll classes fragment text), alike.words_eq]

end Webfang.Excerpt
