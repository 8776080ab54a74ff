import Mathlib.Data.List.TakeWhile
import Webfang.Domain.HtmlCleaner
import Webfang.Lib.MarkedText

/-!
# Preformatted text

`clean_html` of `domain/html_cleaner.rs` and `convert_to_markdown` of
`infrastructure/converter/html_to_markdown.rs`.  White space is collapsed in the text of the page as
it is written, which comes to each stretch of text between two tags, whatever element it lies in.
So the text of a `pre` stays just where there is nothing to collapse and nothing to remove in it.
-/

namespace Webfang

open Markup MarkedText

/-! ## Collapsing a written page -/

/-- White space is collapsed up to a character that is none, and behind it. -/
theorem normalizeFrom_append_cons {ch : Char}
    (other : ¬ (ch = ' ' ∨ ch = '\t' ∨ ch = '\n' ∨ ch = '\r')) (inWs : Bool)
    (before rest : List Char) :
    normalizeFrom inWs (before ++ ch :: rest) =
      normalizeFrom inWs before ++ ch :: normalizeFrom false rest := by
  induction before generalizing inWs with
  | nil => exact normalizeFrom_other other inWs rest
  | cons c before ih =>
      rw [List.cons_append]
      by_cases white : c = ' ' ∨ c = '\t' ∨ c = '\n' ∨ c = '\r'
      · rw [normalizeFrom_white white, normalizeFrom_white white, ih]
        cases inWs <;> rfl
      · rw [normalizeFrom_other white, normalizeFrom_other white, ih]
        rfl

theorem normalizeWhitespace_tag (tag : Tag) :
    ∃ inner, normalizeWhitespace tag.raw = '<' :: (inner ++ ['>']) ∧
      ∀ before rest, normalizeWhitespace (before ++ tag.raw ++ rest) =
        normalizeWhitespace before ++ ('<' :: (inner ++ ['>'])) ++ normalizeWhitespace rest := by
  obtain ⟨inner, raw⟩ := tag.exists_inner
  have opens : ¬ ('<' = ' ' ∨ '<' = '\t' ∨ '<' = '\n' ∨ '<' = '\r') := by decide
  have closes : ¬ ('>' = ' ' ∨ '>' = '\t' ∨ '>' = '\n' ∨ '>' = '\r') := by decide
  refine ⟨normalizeFrom false inner, ?_, fun before rest => ?_⟩
  · rw [raw, normalizeWhitespace, normalizeFrom_other opens, normalizeFrom_append_cons closes]
    rfl
  · rw [raw, List.append_assoc, List.cons_append, List.append_assoc, List.singleton_append,
      normalizeWhitespace, normalizeFrom_append_cons opens, normalizeFrom_append_cons closes]
    simp [normalizeWhitespace]

def collapseTag (tag : Tag) : Tag where
  raw := normalizeWhitespace tag.raw
  opens := by
    obtain ⟨inner, raw, -⟩ := normalizeWhitespace_tag tag
    rw [raw]
    rfl
  closes := by
    obtain ⟨inner, raw, -⟩ := normalizeWhitespace_tag tag
    rw [raw, ← List.cons_append, List.getLast?_concat]

/-- A page whose stretches of text and tags are collapsed, each by itself. -/
def collapse (page : Written Element) : Written Element :=
  page.map normalizeWhitespace collapseValues collapseTag

/-- To collapse the text of a page is to collapse it stretch by stretch and tag by tag. -/
theorem normalizeWhitespace_write (page : Written Element) :
    normalizeWhitespace page.write = (collapse page).write := by
  refine Written.write_map (fun before tag rest => ?_) page
  obtain ⟨inner, raw, apart⟩ := normalizeWhitespace_tag tag
  rw [apart, ← raw]
  rfl

/-! ## What has nothing to collapse -/

/-- There are no tabs and newlines, and no two blanks in a row. -/
def Collapsed (text : List Char) : Prop :=
  (∀ c ∈ text, c ≠ '\t' ∧ c ≠ '\n' ∧ c ≠ '\r') ∧ ∀ pair ∈ text.zip text.tail, pair ≠ (' ', ' ')

instance (text : List Char) : Decidable (Collapsed text) :=
  have : Decidable (∀ c ∈ text, c ≠ '\t' ∧ c ≠ '\n' ∧ c ≠ '\r') := List.decidableBAll _ _
  inferInstanceAs (Decidable (_ ∧ _))

theorem length_normalizeFrom_le (inWs : Bool) (text : List Char) :
    (normalizeFrom inWs text).length ≤ text.length := by
  induction text generalizing inWs with
  | nil => exact Nat.le_refl _
  | cons c text ih =>
      have later := ih true
      by_cases white : c = ' ' ∨ c = '\t' ∨ c = '\n' ∨ c = '\r'
      · rw [normalizeFrom_white white, List.length_cons]
        split
        · omega
        · rw [List.length_cons]
          omega
      · rw [normalizeFrom_other white, List.length_cons, List.length_cons]
        exact Nat.succ_le_succ (ih false)

theorem collapsed_cons {c : Char} {text : List Char} :
    Collapsed (c :: text) ↔ (c ≠ '\t' ∧ c ≠ '\n' ∧ c ≠ '\r') ∧
      ¬ (c = ' ' ∧ text.head? = some ' ') ∧ Collapsed text := by
  unfold Collapsed
  rw [List.forall_mem_cons, List.tail_cons]
  cases text with
  | nil => simp
  | cons d text =>
      simp only [List.zip_cons_cons, List.forall_mem_cons, List.tail_cons, List.head?_cons, ne_eq,
        Prod.mk.injEq, Option.some.injEq]
      tauto

theorem normalizeFrom_eq_iff (inWs : Bool) (text : List Char) :
    normalizeFrom inWs text = text ↔
      ¬ (inWs = true ∧ text.head? = some ' ') ∧ Collapsed text := by
  induction text generalizing inWs with
  | nil => simp [normalizeFrom, Collapsed]
  | cons c text ih =>
      have shrinks := length_normalizeFrom_le true text
      rw [collapsed_cons, List.head?_cons]
      by_cases white : c = ' ' ∨ c = '\t' ∨ c = '\n' ∨ c = '\r'
      · rw [normalizeFrom_white white]
        cases inWs with
        | true =>
            rw [if_pos rfl]
            refine iff_of_false (fun same => ?_) fun both => ?_
            · have lengths := congrArg List.length same
              rw [List.length_cons] at lengths
              omega
            · rcases white with rfl | rfl | rfl | rfl <;> simp at both
        | false =>
            rw [if_neg Bool.false_ne_true, List.cons.injEq, ih true]
            rcases white with rfl | rfl | rfl | rfl <;> simp
      · rw [normalizeFrom_other white, List.cons.injEq, ih false]
        have blank : c ≠ ' ' := fun same => white (.inl same)
        have plain : c ≠ '\t' ∧ c ≠ '\n' ∧ c ≠ '\r' := by tauto
        simp [blank, plain]

theorem normalizeWhitespace_eq_iff (text : List Char) :
    normalizeWhitespace text = text ↔ Collapsed text := by
  rw [normalizeWhitespace, normalizeFrom_eq_iff]
  simp

/-! ## The text of `pre` elements -/

/-- The elements whose text is preformatted. -/
def preName (e : Element) : Option String :=
  if e.name ∈ ["pre", "textarea"] then some e.name else none

/-- `html_to_markdown_rs`, the texts of the fenced code blocks of a Markdown text, and the text that
is extracted where the conversion fails. -/
structure MarkdownTools where
  convert : List Char → Except String (List Char)
  codeBlocks : List Char → List (List Char)
  extractText : List Char → List Char

def convertToMarkdown (tools : MarkdownTools) (lol : LolHtml) (html : List Char) : List Char :=
  match tools.convert (cleanHtml lol html) with
  | .ok markdown => markdown
  | .error _ => tools.extractText html

/-- The texts of the `pre` elements among these. -/
def blockTexts (texts : List (String × List Char)) : List (List Char) :=
  (texts.filter (·.1 = "pre")).map Prod.snd

section Preformatted

variable (lol : LolHtml) (read : List Char → Written Element) (tools : MarkdownTools)

/-- A page is read as it is written, and with its white space collapsed as well; and the rewriter
gives kept text out as it is. -/
structure LolHtml.KeepsText : Prop where
  lossless : ∀ html, (read html).write = html
  collapsed : ∀ html, read (collapse (read html)).write = collapse (read html)
  rewritten : ∀ handle html result, lol.rewriteStr handle html = .ok result →
    (read result).outline = (read html).outline.rewrite handle

/-- A page that is converted has its `pre` elements turned into code blocks with their text. -/
def MarkdownTools.Fences : Prop :=
  ∀ html markdown, tools.convert html = .ok markdown →
    tools.codeBlocks markdown = blockTexts ((read html).outline.chosen (fun _ => false) preName)

/-- An element is removed where the rewriter takes the page, and a selector matches. -/
def removedFrom (html : List Char) (e : Element) : Bool :=
  (lol.rewriteStr handlers html).toBool && removesElement e

/-- The text of the `pre` and `textarea` elements that are not removed is as it was, in the cleaned
page and in the code blocks, and outside such elements white space is collapsed at most. -/
structure KeepsPreformatted (html : List Char) : Prop where
  texts : (read (cleanHtml lol html)).outline.chosen (fun _ => false) preName =
    (read html).outline.chosen (removedFrom lol html) preName
  blocks : (tools.convert (cleanHtml lol html)).toBool = true →
    tools.codeBlocks (convertToMarkdown tools lol html) =
      blockTexts ((read html).outline.chosen (removedFrom lol html) preName)
  outside : List.Forall₂ (fun before after => after = before ∨ after = normalizeWhitespace before)
    (((read html).outline.prune (removedFrom lol html)).outside preName)
    ((read (cleanHtml lol html)).outline.outside preName)

/-- Nothing is removed from a text, and nothing is there to collapse. -/
def PlainText (inner : Outline Element) : Prop :=
  (inner.prune removesElement).content = inner.content ∧
    ∀ stretch ∈ (inner.prune removesElement).stretches, Collapsed stretch

instance (inner : Outline Element) : Decidable (PlainText inner) :=
  inferInstanceAs (Decidable (_ ∧ _))

end Preformatted

variable {lol : LolHtml} {read : List Char → Written Element} {tools : MarkdownTools}

/-! ## The handlers and the outline -/

theorem handlers_isNone (e : Element) : (handlers e).isNone = removesElement e := by
  unfold handlers
  cases removesElement e <;> rfl

theorem preName_handled (e : Element) :
    preName (collapseValues ((handlers e).getD e)) = preName e := by
  unfold handlers
  cases removesElement e <;> rfl

/-- What the cleaned page has of text, when the rewriter takes it. -/
theorem LolHtml.KeepsText.outline_cleanHtml (keeps : lol.KeepsText read) {html result : List Char}
    (taken : lol.rewriteStr handlers html = .ok result) (nonempty : html ≠ []) :
    (read (cleanHtml lol html)).outline =
      ((read html).outline.prune removesElement).map normalizeWhitespace
        fun e => collapseValues ((handlers e).getD e) := by
  have cleaned : cleanHtml lol html = (collapse (read result)).write := by
    rw [cleanHtml, if_neg (by simpa using nonempty), taken, ← normalizeWhitespace_write,
      keeps.lossless]
  have removes : (fun e => (handlers e).isNone) = removesElement := funext handlers_isNone
  rw [cleaned, keeps.collapsed, collapse, Written.outline_map rfl,
    keeps.rewritten handlers html result taken, Outline.rewrite, Outline.map_map, removes]
  rfl

/-! ## Pages whose preformatted text stays -/

/-- Where the texts stay, so do the code blocks. -/
theorem blocks_of_texts (fences : tools.Fences read) {html : List Char}
    {texts : List (String × List Char)}
    (same : (read (cleanHtml lol html)).outline.chosen (fun _ => false) preName = texts)
    (converted : (tools.convert (cleanHtml lol html)).toBool = true) :
    tools.codeBlocks (convertToMarkdown tools lol html) = blockTexts texts := by
  rw [convertToMarkdown]
  cases markdown : tools.convert (cleanHtml lol html) with
  | error e =>
      rw [markdown] at converted
      cases converted
  | ok text =>
      dsimp only
      rw [fences _ _ markdown, same]

theorem forall₂_outside (f : List Char → List Char) (stretches : List (List Char)) :
    List.Forall₂ (fun before after => after = before ∨ after = f before) stretches
      (stretches.map f) := by
  rw [List.forall₂_map_right_iff]
  exact List.forall₂_same.mpr fun _ _ => .inr rfl

/-- A page that the cleaner does not change. -/
theorem keepsPreformatted_of_same (fences : tools.Fences read) {html : List Char}
    (same : cleanHtml lol html = html)
    (whole : (read html).outline.prune (removedFrom lol html) = (read html).outline)
    (chosen : (read html).outline.chosen (removedFrom lol html) preName =
      (read html).outline.chosen (fun _ => false) preName) :
    KeepsPreformatted lol read tools html := by
  refine ⟨?_, blocks_of_texts fences ?_, ?_⟩
  · rw [same, chosen]
  · rw [same, chosen]
  · rw [same, whole]
    exact List.forall₂_same.mpr fun _ _ => .inl rfl

/-- The preformatted text of a page stays just when the rewriter rejects the page, or nothing is
removed from that text and there is nothing to collapse in it. -/
theorem cleanHtml_keepsPreformatted_iff (keeps : lol.KeepsText read) (fences : tools.Fences read)
    (html : List Char) :
    KeepsPreformatted lol read tools html ↔
      (lol.rewriteStr handlers html).toBool = false ∨
        (read html).outline.ForChosen removesElement preName PlainText := by
  have removed (taken : (lol.rewriteStr handlers html).toBool = true) :
      removedFrom lol html = removesElement := by
    funext e
    rw [removedFrom, taken, Bool.true_and]
  cases html with
  | nil =>
      have empty : (read []).outline = .text [] := by
        rw [Written.eq_text_of_write_eq_nil (keeps.lossless [])]
        rfl
      refine iff_of_true (keepsPreformatted_of_same fences rfl ?_ ?_) (.inr ?_)
      · rw [empty]
        rfl
      · rw [empty]
        rfl
      · rw [empty]
        trivial
  | cons c html =>
      cases taken : lol.rewriteStr handlers (c :: html) with
      | error e =>
          have stays : removedFrom lol (c :: html) = fun _ => false := by
            funext e
            rw [removedFrom, taken]
            rfl
          refine iff_of_true (keepsPreformatted_of_same fences ?_ ?_ ?_) (.inl rfl)
          · rw [cleanHtml, List.isEmpty_cons, if_neg Bool.false_ne_true, taken]
          · rw [stays]
            exact Outline.prune_none _
          · rw [stays]
      | ok result =>
          have cleaned := keeps.outline_cleanHtml taken (List.cons_ne_nil c html)
          have exact_ := @Outline.chosen_map_prune_iff _ _ removesElement preName
            normalizeWhitespace _ (length_normalizeFrom_le false) preName_handled
            (read (c :: html)).outline
          simp only [normalizeWhitespace_eq_iff] at exact_
          rw [or_iff_right (by simp [Except.toBool])]
          have removes := removed (by rw [taken]; rfl)
          refine .trans ?_ exact_
          rw [← cleaned]
          constructor
          · intro kept
            rw [← removes]
            exact kept.texts
          · intro texts
            rw [← removes] at texts
            refine ⟨texts, blocks_of_texts fences texts, ?_⟩
            rw [cleaned, Outline.outside_map preName_handled, removes]
            exact forall₂_outside _ _

/-! ## Pages of one `pre` element -/

theorem mem_normalizeFrom {ch : Char} (other : ¬ (ch = ' ' ∨ ch = '\t' ∨ ch = '\n' ∨ ch = '\r'))
    (inWs : Bool) (text : List Char) : ch ∈ normalizeFrom inWs text ↔ ch ∈ text := by
  have blank : ch ≠ ' ' := fun same => other (.inl same)
  induction text generalizing inWs with
  | nil => rfl
  | cons c text ih =>
      by_cases white : c = ' ' ∨ c = '\t' ∨ c = '\n' ∨ c = '\r'
      · have ne : ch ≠ c := by
          rintro rfl
          exact other white
        rw [normalizeFrom_white white]
        cases inWs <;> simp [ih, ne, blank]
      · simp [normalizeFrom_other white, ih]

/-- What is no white space stands in front of a collapsed text if it does so before. -/
theorem normalizeWhitespace_eq_append {front : List Char}
    (inked : ∀ ch ∈ front, ¬ (ch = ' ' ∨ ch = '\t' ∨ ch = '\n' ∨ ch = '\r'))
    {text rest : List Char} (same : normalizeWhitespace text = front ++ rest) :
    ∃ behind, text = front ++ behind ∧ normalizeWhitespace behind = rest := by
  induction front generalizing text with
  | nil => exact ⟨text, rfl, same⟩
  | cons ch front ih =>
      obtain ⟨here, later⟩ := List.forall_mem_cons.mp inked
      cases text with
      | nil => cases same
      | cons c text =>
          rw [normalizeWhitespace] at same
          by_cases white : c = ' ' ∨ c = '\t' ∨ c = '\n' ∨ c = '\r'
          · rw [normalizeFrom_white white, if_neg Bool.false_ne_true, List.cons_append] at same
            exact absurd (.inl (List.cons.inj same).1.symm) here
          · rw [normalizeFrom_other white, List.cons_append] at same
            obtain ⟨rfl, more⟩ := List.cons.inj same
            obtain ⟨behind, split, collapsed⟩ := ih later more
            exact ⟨behind, congrArg _ split, collapsed⟩

def preOpening : Tag := ⟨['<', 'p', 'r', 'e', '>'], rfl, rfl⟩

def preClosing : Tag := ⟨['<', '/', 'p', 'r', 'e', '>'], rfl, rfl⟩

theorem collapseTag_preOpening : collapseTag preOpening = preOpening := by decide

theorem collapseTag_preClosing : collapseTag preClosing = preClosing := by decide

def prePage (text : List Char) : List Char := preOpening.raw ++ text ++ preClosing.raw

/-- The text of a page that is a `pre` element without elements inside. -/
def preText (html : List Char) : Option (List Char) :=
  let text := (html.drop 5).takeWhile (· ≠ '<')
  if html = prePage text then some text else none

theorem preText_eq_some {html text : List Char} :
    preText html = some text ↔ html = prePage text ∧ '<' ∉ text := by
  have cut (text : List Char) (plain : '<' ∉ text) :
      ((prePage text).drop 5).takeWhile (· ≠ '<') = text := by
    have behind : (prePage text).drop 5 = text ++ preClosing.raw := rfl
    rw [behind, List.takeWhile_append_of_pos (by
      intro c inside
      exact decide_eq_true (ne_of_mem_of_not_mem inside plain))]
    exact List.append_nil text
  unfold preText
  constructor
  · intro found
    dsimp only at found
    split at found
    next form =>
        cases found
        refine ⟨form, fun inside => ?_⟩
        have other := List.mem_takeWhile_imp inside
        simp at other
    next => cases found
  · rintro ⟨rfl, plain⟩
    rw [cut text plain]
    exact if_pos rfl

/-- Collapsing a page takes it neither to such a page nor from one. -/
theorem preText_normalizeWhitespace (html : List Char) :
    preText (normalizeWhitespace html) = (preText html).map normalizeWhitespace := by
  have mark : ¬ ('<' = ' ' ∨ '<' = '\t' ∨ '<' = '\n' ∨ '<' = '\r') := by decide
  have page (text : List Char) :
      normalizeWhitespace (prePage text) = prePage (normalizeWhitespace text) := by
    have whole := normalizeWhitespace_write
      (.element [] ⟨"pre", []⟩ preOpening preClosing (.text text) (.text []))
    have empty : normalizeWhitespace [] = [] := rfl
    simpa [Written.write, collapse, Written.map, prePage, collapseTag_preOpening,
      collapseTag_preClosing, empty] using whole
  cases found : preText html with
  | some text =>
      obtain ⟨rfl, plain⟩ := preText_eq_some.mp found
      rw [page]
      exact preText_eq_some.mpr ⟨rfl, fun inside => plain ((mem_normalizeFrom mark _ _).mp inside)⟩
  | none =>
      rw [Option.map_none, Option.eq_none_iff_forall_ne_some]
      intro text collapsed
      obtain ⟨form, plain⟩ := preText_eq_some.mp collapsed
      rw [prePage, List.append_assoc] at form
      obtain ⟨behind, rfl, same⟩ := normalizeWhitespace_eq_append (by simp [preOpening]) form
      have closing : preClosing.raw = '<' :: preClosing.raw.tail := rfl
      have inside : '<' ∈ behind := by
        rw [← mem_normalizeFrom mark false behind, ← normalizeWhitespace, same, closing]
        exact List.mem_append_right _ List.mem_cons_self
      obtain ⟨inner, after, rfl, first⟩ := List.eq_append_cons_of_mem inside
      rw [normalizeWhitespace, normalizeFrom_append_cons mark, closing] at same
      obtain ⟨-, -, rest⟩ := (List.append_cons_inj_of_notMem plain (by decide)).mp same.symm
      have slash : normalizeWhitespace after = preClosing.raw.tail ++ [] := rest.symm
      obtain ⟨nothing, rfl, none⟩ := normalizeWhitespace_eq_append (by simp [preClosing]) slash
      have empty : nothing = [] := by
        cases nothing with
        | nil => rfl
        | cons c more =>
            rw [normalizeWhitespace, normalizeFrom, if_neg Bool.false_ne_true] at none
            split at none <;> cases none
      have page : preText (preOpening.raw ++ (inner ++ '<' :: (preClosing.raw.tail ++ nothing))) =
          some inner := by
        refine preText_eq_some.mpr ⟨?_, first⟩
        rw [empty, List.append_nil, ← closing, prePage, List.append_assoc]
      rw [page] at found
      cases found

/-- A page is read as such an element, or as text. -/
def sampleReadText (html : List Char) : Written Element :=
  match preText html with
  | some text => .element [] ⟨"pre", []⟩ preOpening preClosing (.text text) (.text [])
  | none => .text html

/-- A rewriter of such pages, which removes nothing from them. -/
def sampleRewriter : LolHtml where
  rewriteStr handle html :=
    let outline := (sampleReadText html).outline
    if outline.rewrite handle = outline then .ok html else .error "not such a page"
  read _ := .empty

theorem write_sampleReadText (html : List Char) : (sampleReadText html).write = html := by
  unfold sampleReadText
  cases found : preText html with
  | none => rfl
  | some text =>
      obtain ⟨rfl, -⟩ := preText_eq_some.mp found
      simp [Written.write, prePage]

theorem sampleRewriter_keepsText : sampleRewriter.KeepsText sampleReadText where
  lossless := write_sampleReadText
  collapsed html := by
    rw [← normalizeWhitespace_write, write_sampleReadText, sampleReadText,
      preText_normalizeWhitespace, sampleReadText]
    cases preText html with
    | none => rfl
    | some text =>
        simp [collapse, Written.map, collapseTag_preOpening, collapseTag_preClosing, collapseValues,
          normalizeWhitespace, normalizeFrom]
  rewritten handle html result taken := by
    have choice : (if (sampleReadText html).outline.rewrite handle = (sampleReadText html).outline
        then Except.ok html else .error "not such a page") = .ok result := taken
    split at choice
    next same =>
        cases choice
        exact same.symm
    next => cases choice

/-- A converter of such pages. -/
def sampleMarkdown : MarkdownTools where
  convert html :=
    match preText html with
    | some text => .ok ("```\n".toList ++ text ++ "\n```".toList)
    | none => .error "not such a page"
  codeBlocks markdown := [(markdown.drop 4).take (markdown.length - 8)]
  extractText html := html

theorem sampleMarkdown_fences : sampleMarkdown.Fences sampleReadText := by
  intro html markdown converted
  unfold sampleMarkdown at converted
  dsimp only at converted
  cases found : preText html with
  | none =>
      rw [found] at converted
      cases converted
  | some text =>
      rw [found] at converted
      cases converted
      rw [sampleReadText, found]
      have fenced : sampleMarkdown.codeBlocks ("```\n".toList ++ text ++ "\n```".toList) =
          [text] := by
        simp [sampleMarkdown]
      exact fenced

def plainBlock : List Char := "<pre>let x = 1</pre>".toList

/-- A block of one line is kept. -/
theorem plain_block_kept :
    KeepsPreformatted sampleRewriter sampleReadText sampleMarkdown plainBlock :=
  (cleanHtml_keepsPreformatted_iff sampleRewriter_keepsText sampleMarkdown_fences plainBlock).mpr
    (.inr (by decide +kernel))

def indentedBlock : List Char := "<pre>if x:\n    y</pre>".toList

/-- The lines of a block are put on one. -/
theorem indented_block_lost :
    convertToMarkdown sampleMarkdown sampleRewriter indentedBlock = "```\nif x: y\n```".toList ∧
      ¬ KeepsPreformatted sampleRewriter sampleReadText sampleMarkdown indentedBlock :=
  ⟨by decide +kernel, fun kept => absurd kept.texts (by decide +kernel)⟩

end Webfang
