import Mathlib.Data.List.Infix
import Webfang.Lib.Wildcards

/-!
# Globs against the text of a URL

`match_url_pattern` of `domain/pattern_matching/mod.rs`: a pattern without metacharacters is looked
for in the URL; any other is written as an anchored regular expression, which the whole URL has to
match.  The compiler of regular expressions is a parameter.
-/

namespace Webfang

namespace UrlGlobs

open Wildcards

/-- `regex::Regex::new`, with `is_match` of what it compiles to. -/
abbrev Regex := List Char → Option (List Char → Bool)

/-- `regex_syntax::is_meta_character` -/
def isMetaCharacter (c : Char) : Bool := c ∈ "\\.+*?()|[]\x7b\x7d^$#&-~".toList

/-- `regex::escape` of one character. -/
def escape (c : Char) : List Char := if isMetaCharacter c then ['\\', c] else [c]

def hasGlobMetachars (pattern : List Char) : Bool :=
  pattern.contains '*' || pattern.contains '?' || pattern.contains '['

/-- The loop of `glob_to_regex`. -/
def globLoop : List Char → List Char
  | '*' :: '*' :: chars => '.' :: '*' :: globLoop chars
  | '*' :: chars => '.' :: '*' :: globLoop chars
  | '?' :: chars => '.' :: globLoop chars
  | other :: chars => escape other ++ globLoop chars
  | [] => []

/-- The expression that `glob_to_regex` compiles. -/
def globToRegex (pattern : List Char) : List Char := '^' :: (globLoop pattern ++ ['$'])

def matchUrlPattern (regex : Regex) (url pattern : List Char) : Bool :=
  if pattern = [] ∨ pattern = ['*'] then true
  else if hasGlobMetachars pattern then (regex (globToRegex pattern)).any fun re => re url
  else url == pattern || url.tails.any fun rest => pattern.isPrefixOf rest

/-! ## What a pattern means -/

/-- One character of a pattern: `*` is any text, `?` any character. -/
def itemOf (c : Char) : Item Char :=
  if c = '*' then .run else if c = '?' then .one else .lit c

/-- A glob is the whole URL with its wildcards filled in; any other pattern is a part of it. -/
def Denotes (pattern url : List Char) : Prop :=
  if '*' ∈ pattern ∨ '?' ∈ pattern then Fits (fun _ => True) (pattern.map itemOf) url
  else pattern <:+: url

/-! ## What the expression means -/

/-- How an item stands in a regular expression. -/
def render : Item Char → List Char
  | .run => ['.', '*']
  | .one => ['.']
  | .lit c => escape c

/-- An anchored sequence of escaped characters, `.` and `.*`: what compiles matches just the texts
it is said to, and `.` is any character but a line feed. -/
def Documented (regex : Regex) : Prop :=
  ∀ items re, regex ('^' :: (items.flatMap render ++ ['$'])) = some re →
    ∀ text, re text = true ↔ Fits (· ≠ '\n') items text

/-- The items that the loop writes. -/
def globItems : List Char → List (Item Char)
  | '*' :: '*' :: chars => .run :: globItems chars
  | '*' :: chars => .run :: globItems chars
  | '?' :: chars => .one :: globItems chars
  | other :: chars => .lit other :: globItems chars
  | [] => []

theorem globLoop_eq (pattern : List Char) : globLoop pattern = (globItems pattern).flatMap render := by
  fun_induction globLoop pattern with
  | case1 chars ih => rw [globItems, List.flatMap_cons, ih]; rfl
  | case2 chars single ih =>
      rw [globItems, List.flatMap_cons, ih]
      · rfl
      · exact single
  | case3 chars ih => rw [globItems, List.flatMap_cons, ih]; rfl
  | case4 other chars pair star question ih =>
      rw [globItems, List.flatMap_cons, ih]
      · rfl
      · exact pair
      · exact star
      · exact question
  | case5 => rfl

/-- The loop takes stars in pairs, which changes nothing. -/
theorem fits_globItems {ok : Char → Prop} (pattern : List Char) :
    ∀ text, Fits ok (globItems pattern) text ↔ Fits ok (pattern.map itemOf) text := by
  fun_induction globItems pattern with
  | case1 chars ih =>
      intro text
      exact (fits_cons_congr .run ih).trans fits_run_run.symm
  | case2 chars single ih => exact fun text => fits_cons_congr .run ih
  | case3 chars ih => exact fun text => fits_cons_congr .one ih
  | case4 other chars pair star question ih =>
      intro text
      have plain : itemOf other = .lit other := by
        rw [itemOf, if_neg fun same => star same, if_neg fun same => question same]
      rw [List.map_cons, plain]
      exact fits_cons_congr (.lit other) ih
  | case5 => exact fun text => Iff.rfl

theorem letters_itemOf (pattern : List Char) :
    letters (pattern.map itemOf) = pattern.filter fun c => c ≠ '*' ∧ c ≠ '?' := by
  induction pattern with
  | nil => rfl
  | cons c pattern ih =>
      rw [List.map_cons, itemOf]
      split
      · rename_i star
        rw [letters, ih, star]
        · rfl
        · simp
      · split
        · rename_i question
          rw [letters, ih, question]
          · rfl
          · simp
        · rename_i star question
          rw [letters, ih, List.filter_cons_of_pos (by simp [star, question])]

theorem count_letters (pattern : List Char) :
    (letters (pattern.map itemOf)).count '\n' = pattern.count '\n' := by
  rw [letters_itemOf, List.count_filter (by decide)]

/-- A pattern without wildcards stands for itself. -/
theorem map_itemOf_plain {pattern : List Char} (plain : ¬ ('*' ∈ pattern ∨ '?' ∈ pattern)) :
    pattern.map itemOf = pattern.map .lit := by
  rw [not_or] at plain
  refine List.map_congr_left fun c member => ?_
  have star : c ≠ '*' := ne_of_mem_of_not_mem member plain.1
  have question : c ≠ '?' := ne_of_mem_of_not_mem member plain.2
  rw [itemOf, if_neg star, if_neg question]

/-! ## The code against the meaning -/

section Agreement

variable {regex : Regex} (documented : Documented regex) (url pattern : List Char)

include documented in
/-- A pattern with metacharacters is matched as its expression is. -/
theorem matches_expression :
    ((regex (globToRegex pattern)).any fun re => re url) = true ↔
      (regex (globToRegex pattern)).isSome ∧ Fits (· ≠ '\n') (pattern.map itemOf) url := by
  cases compiled : regex (globToRegex pattern) with
  | none => simp
  | some re =>
      rw [globToRegex, globLoop_eq] at compiled
      rw [Option.any_some, documented _ re compiled, fits_globItems, Option.isSome_some]
      simp

theorem matches_substring :
    (url == pattern || url.tails.any fun rest => pattern.isPrefixOf rest) = true ↔
      pattern <:+: url := by
  rw [Bool.or_eq_true, beq_iff_eq, List.any_eq_true]
  constructor
  · intro given
    rcases given with rfl | ⟨rest, tail, front⟩
    · exact List.infix_rfl
    · exact (List.isPrefixOf_iff_prefix.mp front).isInfix.trans
        ((List.mem_tails _ _).mp tail).isInfix
  · intro given
    rcases given with ⟨before, behind, rfl⟩
    refine .inr ⟨pattern ++ behind, (List.mem_tails _ _).mpr ⟨before, ?_⟩, ?_⟩
    · rw [List.append_assoc]
    · exact List.isPrefixOf_iff_prefix.mpr (List.prefix_append ..)

end Agreement

/-- The URLs and patterns on which the code does what the pattern means.  A bracket is taken for a
metacharacter, no wildcard stands for a line feed, and an expression may be too large. -/
def Spared (regex : Regex) (url pattern : List Char) : Prop :=
  if '*' ∈ pattern ∨ '?' ∈ pattern then
    pattern = ['*'] ∨ (Fits (fun _ => True) (pattern.map itemOf) url →
      url.count '\n' ≤ pattern.count '\n' ∧ (regex (globToRegex pattern)).isSome)
  else '[' ∈ pattern → pattern <:+: url → pattern = url ∧ (regex (globToRegex pattern)).isSome

section Exact

variable {regex : Regex} (documented : Documented regex) (url pattern : List Char)

theorem hasGlobMetachars_iff :
    hasGlobMetachars pattern = true ↔ ('*' ∈ pattern ∨ '?' ∈ pattern) ∨ '[' ∈ pattern := by
  simp [hasGlobMetachars]

include documented in
theorem matchUrlPattern_glob (glob : '*' ∈ pattern ∨ '?' ∈ pattern) :
    (matchUrlPattern regex url pattern = true ↔ Denotes pattern url) ↔
      pattern = ['*'] ∨ (Fits (fun _ => True) (pattern.map itemOf) url →
        url.count '\n' ≤ pattern.count '\n' ∧ (regex (globToRegex pattern)).isSome) := by
  have filled : pattern ≠ [] := by
    rintro rfl
    rcases glob with star | question
    · exact List.not_mem_nil star
    · exact List.not_mem_nil question
  rw [Denotes, if_pos glob]
  by_cases any : pattern = ['*']
  · subst any
    have all : Fits (fun _ => True) (['*'].map itemOf) url :=
      fits_run.mpr ⟨url, [], (List.append_nil url).symm, fun _ _ => trivial, .nil⟩
    exact ⟨fun _ => .inl rfl, fun _ => ⟨fun _ => all, fun _ => rfl⟩⟩
  · have code : matchUrlPattern regex url pattern = true ↔
        (regex (globToRegex pattern)).isSome ∧ Fits (· ≠ '\n') (pattern.map itemOf) url := by
      rw [← matches_expression documented, matchUrlPattern, if_neg (not_or.mpr ⟨filled, any⟩),
        if_pos ((hasGlobMetachars_iff pattern).mpr (.inl glob))]
    have unbroken (fits : Fits (fun _ => True) (pattern.map itemOf) url) :
        Fits (· ≠ '\n') (pattern.map itemOf) url ↔ url.count '\n' ≤ pattern.count '\n' := by
      rw [← count_letters pattern, ← fits_without fits]
      simp only [true_and]
    rw [code, or_iff_right any]
    constructor
    · intro same fits
      obtain ⟨compiled, strict⟩ := same.mpr fits
      exact ⟨(unbroken fits).mp strict, compiled⟩
    · intro spared
      refine ⟨fun matched => matched.2.mono fun _ _ => trivial, fun fits => ?_⟩
      obtain ⟨few, compiled⟩ := spared fits
      exact ⟨compiled, (unbroken fits).mpr few⟩

include documented in
theorem matchUrlPattern_plain (plain : ¬ ('*' ∈ pattern ∨ '?' ∈ pattern)) :
    (matchUrlPattern regex url pattern = true ↔ Denotes pattern url) ↔
      ('[' ∈ pattern → pattern <:+: url → pattern = url ∧ (regex (globToRegex pattern)).isSome) := by
  have star : pattern ≠ ['*'] := by
    rintro rfl
    exact plain (.inl (List.mem_singleton_self _))
  rw [Denotes, if_neg plain]
  by_cases bracket : '[' ∈ pattern
  · have filled : pattern ≠ [] := List.ne_nil_of_mem bracket
    have code : matchUrlPattern regex url pattern = true ↔
        (regex (globToRegex pattern)).isSome ∧ url = pattern := by
      have literal : Fits (· ≠ '\n') (pattern.map .lit) url ↔ url = pattern := fits_map_lit
      rw [← literal, ← map_itemOf_plain plain, ← matches_expression documented, matchUrlPattern,
        if_neg (not_or.mpr ⟨filled, star⟩),
        if_pos ((hasGlobMetachars_iff pattern).mpr (.inr bracket))]
    rw [code]
    constructor
    · intro same _ inside
      obtain ⟨compiled, whole⟩ := same.mpr inside
      exact ⟨whole.symm, compiled⟩
    · intro spared
      constructor
      · intro given
        rcases given with ⟨-, rfl⟩
        exact List.infix_rfl
      · intro inside
        obtain ⟨whole, compiled⟩ := spared bracket inside
        exact ⟨compiled, whole.symm⟩
  · refine ⟨fun _ inside => absurd inside bracket, fun _ => ?_⟩
    by_cases empty : pattern = []
    · subst empty
      exact ⟨fun _ => List.nil_infix, fun _ => rfl⟩
    · have none : ¬ hasGlobMetachars pattern = true := by
        rw [hasGlobMetachars_iff]
        exact not_or.mpr ⟨plain, bracket⟩
      rw [matchUrlPattern, if_neg (not_or.mpr ⟨empty, star⟩), if_neg none]
      exact matches_substring url pattern

/-! ## What follows from the meaning -/

theorem denotes_surrounded (means : Denotes pattern url) : Denotes ('*' :: (pattern ++ ['*'])) url := by
  rw [Denotes, if_pos (.inl List.mem_cons_self), List.map_cons, List.map_append]
  rw [Denotes] at means
  have last (behind : List Char) : Fits (fun _ => True) (['*'].map itemOf) behind :=
    fits_run.mpr ⟨behind, [], (List.append_nil behind).symm, fun _ _ => trivial, .nil⟩
  split at means
  · exact .done (fits_append.mpr ⟨url, [], (List.append_nil url).symm, means, last []⟩)
  · rename_i plain
    obtain ⟨before, behind, rfl⟩ := means
    rw [List.append_assoc, map_itemOf_plain plain]
    exact fits_run_append (fun _ _ => trivial)
      (fits_append.mpr ⟨pattern, behind, rfl, fits_map_lit.mpr rfl, last behind⟩)

theorem fits_stars (n : Nat) (items : List (Item Char)) :
    Fits (fun _ => True) ((List.replicate (n + 1) '*').map itemOf ++ items) url ↔
      Fits (fun _ => True) (.run :: items) url := by
  induction n generalizing url with
  | zero => exact Iff.rfl
  | succ n ih =>
      have first : (List.replicate (n + 2) '*').map itemOf ++ items =
          .run :: ((List.replicate (n + 1) '*').map itemOf ++ items) := rfl
      rw [first, fits_cons_congr .run fun text => ih text]
      exact fits_run_run

theorem denotes_stars (before behind : List Char) (n : Nat) :
    Denotes (before ++ List.replicate (n + 1) '*' ++ behind) url ↔
      Denotes (before ++ '*' :: behind) url := by
  rw [Denotes, if_pos (.inl (by simp)), Denotes, if_pos (.inl (by simp)), List.append_assoc,
    List.map_append, List.map_append, List.map_append, fits_append, fits_append]
  simp only [fits_stars]
  rfl

end Exact

/-- `match_url_pattern` is what the pattern means just where it is spared; a meaning is kept when the
pattern is put between stars, and runs of stars mean what one star does. -/
theorem matchUrlPattern_iff_spared {regex : Regex} (documented : Documented regex) :
    (∀ url pattern, (matchUrlPattern regex url pattern = true ↔ Denotes pattern url) ↔
        Spared regex url pattern) ∧
      (∀ url pattern, Denotes pattern url → Denotes ('*' :: (pattern ++ ['*'])) url) ∧
      ∀ url before behind n, Denotes (before ++ List.replicate (n + 1) '*' ++ behind) url ↔
        Denotes (before ++ '*' :: behind) url := by
  refine ⟨fun url pattern => ?_, denotes_surrounded, denotes_stars⟩
  rw [Spared]
  split
  · rename_i glob
    exact matchUrlPattern_glob documented url pattern glob
  · rename_i plain
    exact matchUrlPattern_plain documented url pattern plain

/-! ## A compiler of these expressions -/

/-- The items up to the closing anchor. -/
def readItems : List Char → Option (List (Item Char))
  | [] => none
  | ['$'] => some []
  | '.' :: '*' :: chars => (readItems chars).map (.run :: ·)
  | '.' :: chars => (readItems chars).map (.one :: ·)
  | '\\' :: c :: chars => (readItems chars).map (.lit c :: ·)
  | c :: chars => if isMetaCharacter c then none else (readItems chars).map (.lit c :: ·)

/-- Expressions other than anchored sequences of `.*`, `.` and single characters are refused. -/
def sequenceRegex : Regex
  | '^' :: chars => (readItems chars).map fun items text => fitsWithin (· ≠ '\n') items text
  | _ => none

/-- No item begins with a star, and neither does the closing anchor. -/
theorem render_ne_star (items : List (Item Char)) (rest : List Char) :
    items.flatMap render ++ ['$'] ≠ '*' :: rest := by
  intro star
  cases items with
  | nil => exact absurd (List.cons.inj star).1 (by decide)
  | cons item items =>
      rw [List.flatMap_cons, List.append_assoc] at star
      cases item with
      | run => exact absurd (List.cons.inj star).1 (by decide)
      | one => exact absurd (List.cons.inj star).1 (by decide)
      | lit c =>
          rw [render, escape] at star
          split at star
          · exact absurd (List.cons.inj star).1 (by decide)
          · rename_i plain
            have same : c = '*' := (List.cons.inj star).1
            exact plain (same ▸ by decide)

theorem readItems_plain {c : Char} (plain : isMetaCharacter c = false) (chars : List Char) :
    readItems (c :: chars) = (readItems chars).map (.lit c :: ·) := by
  have ordinary {d : Char} (marked : isMetaCharacter d = true) : c ≠ d := by
    rintro rfl
    rw [plain] at marked
    cases marked
  rw [readItems, plain]
  · rfl
  · exact fun dollar _ => ordinary (by decide) dollar
  · exact fun _ dot _ => ordinary (by decide) dot
  · exact fun dot => ordinary (by decide) dot
  · exact fun _ _ back _ => ordinary (by decide) back

theorem readItems_render (items : List (Item Char)) :
    readItems (items.flatMap render ++ ['$']) = some items := by
  induction items with
  | nil => rfl
  | cons item items ih =>
      rw [List.flatMap_cons, List.append_assoc]
      cases item with
      | run =>
          rw [render, List.cons_append, List.singleton_append, readItems, ih, Option.map_some]
      | one =>
          rw [render, List.singleton_append, readItems, ih, Option.map_some]
          exact render_ne_star items
      | lit c =>
          rw [render, escape]
          split
          · rw [List.cons_append, List.singleton_append, readItems, ih, Option.map_some]
          · rename_i plain
            rw [List.singleton_append, readItems_plain (Bool.not_eq_true _ ▸ plain), ih,
              Option.map_some]

theorem sequenceRegex_documented : Documented sequenceRegex := by
  intro items re compiled text
  rw [sequenceRegex, readItems_render, Option.map_some, Option.some.injEq] at compiled
  subst compiled
  rw [fitsWithin_iff]
  simp only [ne_eq, decide_not, Bool.not_eq_true', decide_eq_false_iff_not]

/-- `match_url_pattern` on a pattern with wildcards. -/
theorem catalogue_spared :
    matchUrlPattern sequenceRegex "http://a.example/catalogue/page-1.html".toList
        "**/catalogue/*".toList = true ↔
      Denotes "**/catalogue/*".toList "http://a.example/catalogue/page-1.html".toList :=
  ((matchUrlPattern_iff_spared sequenceRegex_documented).1 _ _).mpr
    (.inr fun _ => ⟨by decide, by decide⟩)

/-- A part of a URL that has a bracket in it is not found. -/
theorem bracket_not_found : ¬ ∀ regex, Documented regex → ∀ url pattern,
    matchUrlPattern regex url pattern = true ↔ Denotes pattern url := by
  intro all
  have found := (all sequenceRegex sequenceRegex_documented "http://a.example/list[1]".toList
    "[1]".toList).mpr
  have inside : Denotes "[1]".toList "http://a.example/list[1]".toList :=
    ⟨"http://a.example/list".toList, [], rfl⟩
  exact absurd (found inside) (by decide)

end UrlGlobs

end Webfang
