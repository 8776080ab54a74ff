import Webfang.Domain.Record
import Webfang.Lib.Markup

/-!
# Cleaning a page

`domain/html_cleaner.rs`: the elements that carry no content are removed from a page, and of the
others the attributes that are not preserved and the links to `javascript:`; the white space of
the result is collapsed.  A page that the rewriter rejects is returned as it is.
-/

namespace Webfang

open Markup

/-! ## The tables -/

def tagsToRemove : List String :=
  ["script", "style", "noscript", "form", "iframe", "object", "embed", "svg", "canvas", "video",
    "audio", "nav", "header", "footer", "aside"]

/-- The selectors that the cleaner writes. -/
inductive Selector where
  | tag (name : String)
  | ofClass (name : String)
  /-- `[name*='part']` -/
  | contains (name part : String)
  /-- `[name='value']` -/
  | equals (name value : String)
  | has (name : String)
  deriving DecidableEq, Repr

def selectorsToRemove : List Selector :=
  [.ofClass "site-title",
    .ofClass "global-nav",
    .ofClass "global-nav-list",
    .ofClass "mobile-menu-wrapper",
    .ofClass "right-sidebar",
    .ofClass "right-sidebar-container",
    .ofClass "mobile-toc",
    .ofClass "sl-sidebar",
    .ofClass "sl-mobile-toc",
    .ofClass "search",
    .ofClass "site-search",
    .ofClass "social-icons",
    .ofClass "page-feedback",
    .ofClass "feedback",
    .ofClass "sl-breadcrumbs",
    .ofClass "pagination",
    .contains "class" "sr-only",
    .equals "aria-hidden" "true",
    .has "hidden",
    .ofClass "copy-markdown-btn",
    .ofClass "copy-code-button",
    .ofClass "skip-link"]

def preservedAttrs : List String := ["href", "src", "alt", "id", "class", "dir", "code"]

def Selector.matches (e : Element) : Selector → Bool
  | .tag name => e.name = name
  | .ofClass name =>
      (getAttribute e.attributes "class").any fun value =>
        (value.splitOnP fun c => c ∈ [' ', '\t', '\n', '\r', '\x0C']).contains name.toList
  | .contains name part =>
      (getAttribute e.attributes name).any fun value => value.tails.any (part.toList.isPrefixOf ·)
  | .equals name value => getAttribute e.attributes name = some value.toList
  | .has name => (getAttribute e.attributes name).isSome

/-! ## The handlers -/

/-- The elements that the handlers of the two tables remove. -/
def removesElement (e : Element) : Bool :=
  (tagsToRemove.map Selector.tag ++ selectorsToRemove).any (·.matches e)

/-- `trim_start`, `split_once(':')` and `to_ascii_lowercase` of the text of an attribute. -/
def hasJavascriptScheme (value : List Char) : Bool :=
  let trimmed := value.dropWhile isWhitespace
  let scheme :=
    if ':' ∈ trimmed then (trimmed.takeWhile (· ≠ ':')).map Char.toLower else []
  scheme = "javascript".toList

/-- One name of the loop of the handler of all elements. -/
def stripAttribute (attributes : List Attribute) (name : String) : List Attribute :=
  if name ∉ preservedAttrs then removeAttribute attributes name
  else if name = "href" ∨ name = "src" then
    match getAttribute attributes name with
    | some value =>
        if hasJavascriptScheme value then removeAttribute attributes name else attributes
    | none => attributes
  else attributes

/-- The handler of all elements. -/
def stripAttributes (e : Element) : Element :=
  { e with attributes := (e.attributes.map Attribute.name).foldl stripAttribute e.attributes }

def handlers (e : Element) : Option Element :=
  if removesElement e then none else some (stripAttributes e)

/-! ## The cleaner -/

def normalizeFrom : Bool → List Char → List Char
  | _, [] => []
  | inWs, ch :: html =>
      if ch = ' ' ∨ ch = '\t' ∨ ch = '\n' ∨ ch = '\r' then
        if inWs then normalizeFrom true html else ' ' :: normalizeFrom true html
      else ch :: normalizeFrom false html

def normalizeWhitespace (html : List Char) : List Char := normalizeFrom false html

/-- `lol_html`, and the elements that a text is read as, with their names in lower case. -/
structure LolHtml where
  rewriteStr : (Element → Option Element) → List Char → Except String (List Char)
  read : List Char → Html

def collapseValues (e : Element) : Element :=
  { e with attributes := e.attributes.map fun a => { a with value := normalizeWhitespace a.value } }

/-- The rewriter applies its handlers to every element, and white space separates the parts of the
markup however much there is of it. -/
structure LolHtml.Lawful (lol : LolHtml) : Prop where
  empty : lol.read [] = .empty
  rewritten : ∀ handle html result, lol.rewriteStr handle html = .ok result →
    lol.read result = (lol.read html).rewrite handle
  collapsed : ∀ html, lol.read (normalizeWhitespace html) = (lol.read html).map collapseValues

def cleanHtml (lol : LolHtml) (html : List Char) : List Char :=
  if html.isEmpty then []
  else
    match lol.rewriteStr handlers html with
    | .ok result => normalizeWhitespace result
    | .error _ => html

/-! ## Elements without a script -/

section Script

variable (named : List Char → Option (List Char × Nat))

/-- The element is none to be removed, its attributes are preserved ones, and no link of it runs a
script. -/
def SafeElement (e : Element) : Prop :=
  e.name ∉ tagsToRemove ∧ (∀ a ∈ e.attributes, a.name ∈ preservedAttrs) ∧
    ∀ name ∈ ["href", "src"], ∀ value ∈ getAttribute e.attributes name, ¬ RunsScript named value

instance (e : Element) : Decidable (SafeElement named e) :=
  inferInstanceAs (Decidable (_ ∧ _ ∧ _))

def CarriesNoScript (h : Html) : Prop := h.All (SafeElement named)

instance (h : Html) : Decidable (CarriesNoScript named h) :=
  inferInstanceAs (Decidable (h.All _))

/-- The link that is left when the scheme of the text is tested runs no script behind the
collapsing. -/
def SafeLinks (e : Element) : Prop :=
  ∀ name ∈ ["href", "src"],
    ∀ value ∈ (values e.attributes name).find? fun value => !hasJavascriptScheme value,
      ¬ RunsScript named (normalizeWhitespace value)

instance (e : Element) : Decidable (SafeLinks named e) :=
  inferInstanceAs (Decidable (∀ name ∈ ["href", "src"], ∀ value ∈ List.find? _ _, _))

end Script

/-! ## What the handler leaves -/

/-- What one name of the loop does to the values of that name. -/
def stripValues (name : String) (written : List (List Char)) : List (List Char) :=
  if name ∉ preservedAttrs then written.tail
  else if name = "href" ∨ name = "src" then
    match written with
    | value :: others => if hasJavascriptScheme value then others else value :: others
    | [] => []
  else written

theorem values_stripAttribute (attributes : List Attribute) (name other : String) :
    values (stripAttribute attributes other) name =
      if other = name then stripValues name (values attributes name)
      else values attributes name := by
  have get := getAttribute_eq_head? attributes other
  unfold stripAttribute
  by_cases same : other = name
  · subst same
    rw [if_pos rfl]
    unfold stripValues
    split
    · exact values_removeAttribute_self attributes other
    · split
      · rw [get]
        cases found : values attributes other with
        | nil => exact found
        | cons value others =>
            rw [List.head?_cons]
            dsimp only
            split
            · rw [values_removeAttribute_self, found, List.tail_cons]
            · exact found
      · rfl
  · rw [if_neg same]
    have kept := values_removeAttribute_of_ne same attributes
    split
    · exact kept
    · split
      · split
        · split
          · exact kept
          · rfl
        · rfl
      · rfl

/-- The loop of the handler, at the values of one name. -/
theorem values_foldl_stripAttribute (names : List String) (attributes : List Attribute)
    (name : String) :
    values (names.foldl stripAttribute attributes) name =
      (stripValues name)^[names.count name] (values attributes name) := by
  induction names generalizing attributes with
  | nil => rfl
  | cons other names ih =>
      rw [List.foldl_cons, ih, values_stripAttribute, List.count_cons]
      by_cases same : other = name
      · rw [if_pos same, if_pos (beq_iff_eq.mpr same), Function.iterate_succ_apply]
      · rw [if_neg same, if_neg (fun eq => same (beq_iff_eq.mp eq)), Nat.add_zero]

/-- No value stays of a name that is not preserved. -/
theorem values_stripAttributes_of_not_preserved (e : Element) {name : String}
    (other : name ∉ preservedAttrs) : values (stripAttributes e).attributes name = [] := by
  rw [stripAttributes, values_foldl_stripAttribute, ← length_values]
  have strips : stripValues name = List.tail := funext fun written => if_pos other
  rw [strips, iterate_eq_dropWhile (fun _ => true) rfl (fun _ _ => rfl) _ _ (Nat.le_refl _)]
  induction values e.attributes name with
  | nil => rfl
  | cons value others ih => exact ih

/-- Of the values of a link, those go at the start that have the scheme. -/
theorem values_stripAttributes_of_link (e : Element) {name : String}
    (link : name ∈ ["href", "src"]) :
    values (stripAttributes e).attributes name =
      (values e.attributes name).dropWhile hasJavascriptScheme := by
  rw [stripAttributes, values_foldl_stripAttribute, ← length_values]
  have preserved : name ∈ preservedAttrs := by
    rcases List.mem_pair.mp link with rfl | rfl <;> decide
  have links : name = "href" ∨ name = "src" := List.mem_pair.mp link
  refine iterate_eq_dropWhile _ ?_ (fun value others => ?_) _ _ (Nat.le_refl _)
  · unfold stripValues
    rw [if_neg (not_not_intro preserved), if_pos links]
  · unfold stripValues
    rw [if_neg (not_not_intro preserved), if_pos links]

/-- The first value that the test of the scheme lets through. -/
theorem getAttribute_stripAttributes (e : Element) {name : String}
    (link : name ∈ ["href", "src"]) :
    getAttribute (stripAttributes e).attributes name =
      (values e.attributes name).find? fun value => !hasJavascriptScheme value := by
  rw [getAttribute_eq_head?, values_stripAttributes_of_link e link]
  induction values e.attributes name with
  | nil => rfl
  | cons value others ih =>
      rw [List.dropWhile_cons, List.find?_cons]
      cases hasJavascriptScheme value with
      | true => exact ih
      | false => rfl

theorem getAttribute_collapseValues (e : Element) (name : String) :
    getAttribute (collapseValues e).attributes name =
      (getAttribute e.attributes name).map normalizeWhitespace := by
  unfold getAttribute collapseValues
  rw [List.find?_map, Option.map_map, Option.map_map]
  rfl

/-- An element that is kept is safe behind the handlers and the collapsing, just when its links
are. -/
theorem safeElement_iff (named : List Char → Option (List Char × Nat)) {e : Element}
    (kept : removesElement e = false) :
    SafeElement named (collapseValues (stripAttributes e)) ↔ SafeLinks named e := by
  have tag : e.name ∉ tagsToRemove := by
    intro listed
    have removed : removesElement e = true := by
      refine List.any_eq_true.mpr ⟨.tag e.name, ?_, decide_eq_true rfl⟩
      exact List.mem_append_left _ (List.mem_map_of_mem listed)
    exact Bool.false_ne_true (kept.symm.trans removed)
  have preserved : ∀ a ∈ (collapseValues (stripAttributes e)).attributes,
      a.name ∈ preservedAttrs := by
    intro a inside
    obtain ⟨b, there, rfl⟩ := List.mem_map.mp inside
    by_contra other
    exact values_eq_nil.mp (values_stripAttributes_of_not_preserved e other) b there rfl
  refine (and_iff_right tag).trans ((and_iff_right preserved).trans ?_)
  refine forall₂_congr fun name link => ?_
  rw [getAttribute_collapseValues, getAttribute_stripAttributes e link]
  cases (values e.attributes name).find? fun value => !hasJavascriptScheme value with
  | none => simp
  | some value => simp

/-! ## The cleaned page -/

/-- The cleaned page carries no script just when it is empty, or the rewriter rejects a page that
carries none, or the rewriter takes a page where the links of the elements that are kept run no
script once the scheme of their text is tested. -/
theorem cleanHtml_carriesNoScript_iff {lol : LolHtml} (lawful : lol.Lawful)
    (named : List Char → Option (List Char × Nat)) (html : List Char) :
    CarriesNoScript named (lol.read (cleanHtml lol html)) ↔
      html = [] ∨
        if (lol.rewriteStr handlers html).toBool then
          (lol.read html).AllKept removesElement (SafeLinks named)
        else CarriesNoScript named (lol.read html) := by
  unfold cleanHtml
  cases html with
  | nil =>
      rw [List.isEmpty_nil, if_pos rfl, lawful.empty]
      exact iff_of_true trivial (.inl rfl)
  | cons c html =>
      rw [List.isEmpty_cons, if_neg Bool.false_ne_true, or_iff_right (List.cons_ne_nil c html)]
      cases rewritten : lol.rewriteStr handlers (c :: html) with
      | error reason => rw [if_neg (by simp [Except.toBool])]
      | ok result =>
          rw [if_pos (by rfl)]
          have handled : ∀ e, handlers e =
              if removesElement e then none else some (stripAttributes e) := fun _ => rfl
          dsimp only
          rw [CarriesNoScript, lawful.collapsed, Html.all_map,
            lawful.rewritten handlers _ result rewritten, Html.all_rewrite_iff handled]
          exact Html.allKept_congr (fun e kept => safeElement_iff named kept) _

/-! ## Pages that are not cleaned -/

theorem normalizeFrom_white {ch : Char} (white : ch = ' ' ∨ ch = '\t' ∨ ch = '\n' ∨ ch = '\r')
    (inWs : Bool) (html : List Char) :
    normalizeFrom inWs (ch :: html) =
      if inWs then normalizeFrom true html else ' ' :: normalizeFrom true html :=
  if_pos white

theorem normalizeFrom_other {ch : Char} (other : ¬ (ch = ' ' ∨ ch = '\t' ∨ ch = '\n' ∨ ch = '\r'))
    (inWs : Bool) (html : List Char) :
    normalizeFrom inWs (ch :: html) = ch :: normalizeFrom false html :=
  if_neg other

theorem normalizeFrom_normalizeFrom (inWs : Bool) (html : List Char) :
    normalizeFrom inWs (normalizeFrom inWs html) = normalizeFrom inWs html := by
  induction html generalizing inWs with
  | nil => rfl
  | cons ch html ih =>
      by_cases white : ch = ' ' ∨ ch = '\t' ∨ ch = '\n' ∨ ch = '\r'
      · rw [normalizeFrom_white white]
        cases inWs with
        | true => exact ih true
        | false =>
            rw [if_neg Bool.false_ne_true, normalizeFrom_white (.inl rfl),
              if_neg Bool.false_ne_true, ih]
      · rw [normalizeFrom_other white, normalizeFrom_other white, ih]

/-- A link whose scheme is written with a character reference. -/
def escapedPage : List Char := "<a href=\"&#106;avascript:alert(1)\">click</a>".toList

/-- Markup that the strict mode of the rewriter rejects. -/
def ambiguousPage : List Char := "<select><xmp><script>\"use strict\";</script></select>".toList

def plainPage : List Char := "<a href=\"https://example.com/page\">safe</a>".toList

def samplePages : List (List Char × Html) :=
  [(escapedPage,
      .element ⟨"a", [⟨"href", "&#106;avascript:alert(1)".toList⟩]⟩ .empty .empty),
    (ambiguousPage, .element ⟨"select", []⟩ (.element ⟨"script", []⟩ .empty .empty) .empty),
    (plainPage, .element ⟨"a", [⟨"href", "https://example.com/page".toList⟩]⟩ .empty .empty)]

def sampleRead (html : List Char) : Html :=
  (samplePages.lookup (normalizeWhitespace html)).getD .empty

/-- A rewriter of the three pages; it takes those where its handlers have nothing to change. -/
def sampleLolHtml : LolHtml where
  rewriteStr handle html :=
    if (sampleRead html).rewrite handle = sampleRead html then .ok html
    else .error "ambiguous markup"
  read := sampleRead

theorem lawful_sampleLolHtml : sampleLolHtml.Lawful where
  empty := by decide
  rewritten handle html result ok := by
    change (if (sampleRead html).rewrite handle = sampleRead html then _ else _) = _ at ok
    split at ok
    next same =>
        cases ok
        exact same.symm
    next => cases ok
  collapsed html := by
    change (samplePages.lookup _).getD .empty = ((samplePages.lookup _).getD .empty).map _
    rw [normalizeWhitespace, normalizeWhitespace, normalizeFrom_normalizeFrom]
    have fixed : ∀ page ∈ samplePages, page.2.map collapseValues = page.2 := by decide
    cases found : samplePages.lookup (normalizeFrom false html) with
    | none => rfl
    | some h =>
        obtain ⟨before, behind, split, -⟩ := List.lookup_eq_some_iff.mp found
        have inside : (normalizeFrom false html, h) ∈ samplePages := by
          rw [split]
          exact List.mem_append_right _ List.mem_cons_self
        exact (fixed _ inside).symm

/-- A plain page is cleaned. -/
theorem plain_page_carriesNoScript :
    CarriesNoScript (fun _ => none)
      (sampleLolHtml.read (cleanHtml sampleLolHtml plainPage)) :=
  (cleanHtml_carriesNoScript_iff lawful_sampleLolHtml _ plainPage).mpr (by decide +kernel)

/-- The link whose scheme is escaped stays, and the script of the page that is rejected. -/
theorem escaped_and_rejected_pages_keep_script :
    cleanHtml sampleLolHtml escapedPage = escapedPage ∧
      ¬ CarriesNoScript (fun _ => none)
        (sampleLolHtml.read (cleanHtml sampleLolHtml escapedPage)) ∧
      cleanHtml sampleLolHtml ambiguousPage = ambiguousPage ∧
      ¬ CarriesNoScript (fun _ => none)
        (sampleLolHtml.read (cleanHtml sampleLolHtml ambiguousPage)) := by
  decide +kernel

end Webfang
