import Webfang.Embedding.SentenceSplitter
import Webfang.Embedding.Tokenizer

/-!
# Chunks of a page

`infrastructure_ai/chunker.rs`: the tags of a page are stripped, what is left is cut at blank lines,
and the paragraphs are merged up to a size.  A paragraph below the least size is gone before the
merge; and a plain text loses its angle brackets, and what stands behind them, as a page does.
-/

namespace Webfang.Chunker

structure HtmlChunker where
  minChunkSize : Nat
  maxChunkSize : Nat
  sentenceSplitter : SentenceSplitter

/-- The loop over the characters of a page. -/
def stripFrom (inTag : Bool) : List Char → List Char
  | [] => []
  | ch :: html =>
      if ch = '<' then stripFrom true html
      else if ch = '>' then '\n' :: stripFrom false html
      else if inTag then stripFrom true html
      else ch :: stripFrom false html

def stripHtmlTags (html : List Char) : List Char := stripFrom false html

/-- `str::split` at each two ends of lines, behind the paragraph that is begun. -/
def paragraphsFrom (paragraph : List Char) : List Char → List (List Char)
  | [] => [paragraph]
  | '\n' :: '\n' :: text => paragraph :: paragraphsFrom [] text
  | ch :: text => paragraphsFrom (paragraph ++ [ch]) text

def paragraphs (text : List Char) : List (List Char) :=
  (paragraphsFrom [] text).filter fun p => !(trim p).isEmpty

namespace HtmlChunker

variable (chunker : HtmlChunker)

/-- The chunk of a paragraph, if it is long enough. -/
def paragraphChunks (paragraph : List Char) : List DocumentChunk :=
  if bytes (trim paragraph) < chunker.minChunkSize then [] else [⟨[], [], trim paragraph, []⟩]

/-- The chunk that is pushed when the next one does not fit, or none follows. -/
def pushed (current : DocumentChunk) : List DocumentChunk :=
  if !current.content.isEmpty && chunker.minChunkSize ≤ bytes current.content then
    [{ current with metadata := [] }]
  else []

/-- The loop of `merge_small_chunks`, behind what is collected. -/
def mergeFrom (current : DocumentChunk) : List DocumentChunk → List DocumentChunk
  | [] => chunker.pushed current
  | chunk :: chunks =>
      if current.content.isEmpty then mergeFrom chunk chunks
      else if bytes current.content + bytes chunk.content ≤ chunker.maxChunkSize then
        mergeFrom { current with content := current.content ++ ' ' :: chunk.content } chunks
      else chunker.pushed current ++ mergeFrom chunk chunks

def mergeSmallChunks (chunks : List DocumentChunk) : List DocumentChunk :=
  chunker.mergeFrom ⟨[], [], [], []⟩ chunks

/-- One turn of the loop of `split_large_chunks`. -/
def splitLargeChunk (chunk : DocumentChunk) : List DocumentChunk :=
  if bytes chunk.content ≤ chunker.maxChunkSize then [chunk]
  else
    let parts := Packing.pack [] bytes chunker.maxChunkSize []
      (chunker.sentenceSplitter.split chunk.content)
    (parts.dropLast.map fun current => { chunk with content := current, metadata := [] }) ++
      (parts.getLast?.map fun current => { chunk with content := current }).toList

def splitLargeChunks (chunks : List DocumentChunk) : List DocumentChunk :=
  chunks.flatMap chunker.splitLargeChunk

def chunk (html : List Char) : Except SemanticError (List DocumentChunk) :=
  let chunks := (paragraphs (stripHtmlTags html)).flatMap chunker.paragraphChunks
  .ok (chunker.splitLargeChunks (chunker.mergeSmallChunks chunks))

def chunkText (text url title : List Char) : Except SemanticError (List DocumentChunk) :=
  (chunker.chunk text).map (List.map fun chunk => { chunk with url, title })

end HtmlChunker

/-! ## What is promised -/

/-- What stands outside of tags; a tag goes up to the next `>`, or to the end. -/
def outsideFrom (inTag : Bool) : List Char → List Char
  | [] => []
  | ch :: html =>
      if inTag then outsideFrom (ch != '>') html
      else if ch = '<' then outsideFrom true html
      else ch :: outsideFrom false html

def outsideTags (html : List Char) : List Char := outsideFrom false html

/-- What chunks have of a text. -/
def contents (chunks : List DocumentChunk) : List Char := chunks.flatMap fun chunk => inked chunk.content

namespace HtmlChunker

variable (chunker : HtmlChunker)

/-- A text that is long enough is kept whole, and no chunk of it is too long unless it is a
sentence. -/
structure Keeps (text : List Char) (result : Except SemanticError (List DocumentChunk)) : Prop where
  returns : ∃ chunks, result = .ok chunks
  whole : ∀ chunks, result = .ok chunks → chunker.minChunkSize ≤ bytes (inked text) →
    contents chunks = inked text
  bounded : ∀ chunks, result = .ok chunks → ∀ chunk ∈ chunks,
    bytes chunk.content ≤ chunker.maxChunkSize ∨
      ∃ merged, chunk.content ∈ chunker.sentenceSplitter.split merged

/-- No paragraph is too short. -/
def LongParagraphs (text : List Char) : Prop :=
  ∀ p ∈ paragraphs text, chunker.minChunkSize ≤ bytes (trim p)

end HtmlChunker

/-! ## Tags -/

/-- What is stripped is what stands in tags, and each `>` outside of them. -/
theorem inked_stripFrom (inTag : Bool) (html : List Char) :
    inked (stripFrom inTag html) = (inked (outsideFrom inTag html)).filter (· ≠ '>') := by
  induction html generalizing inTag with
  | nil => rfl
  | cons ch html ih =>
      rw [stripFrom, outsideFrom]
      by_cases opens : ch = '<'
      · subst opens
        cases inTag <;> exact ih true
      by_cases closes : ch = '>'
      · subst closes
        rw [if_neg opens, if_pos rfl, inked_blank rfl, ih]
        cases inTag <;> rfl
      rw [if_neg opens, if_neg closes, if_neg opens]
      cases inTag with
      | true => rw [if_pos rfl, if_pos rfl, bne_iff_ne.mpr closes, ih]
      | false =>
          rw [if_neg Bool.false_ne_true, if_neg Bool.false_ne_true, inked, inked,
            List.filter_cons, List.filter_cons]
          split
          · rw [List.filter_cons_of_pos (by simpa using closes)]
            exact congrArg _ (ih false)
          · exact ih false

theorem outsideFrom_sublist (inTag : Bool) (html : List Char) :
    (outsideFrom inTag html).Sublist html := by
  induction html generalizing inTag with
  | nil => exact List.Sublist.slnil
  | cons ch html ih =>
      rw [outsideFrom]
      split
      · exact (ih _).cons ch
      · split
        · exact (ih _).cons ch
        · exact (ih _).cons_cons ch

theorem not_mem_outsideFrom (inTag : Bool) (html : List Char) : '<' ∉ outsideFrom inTag html := by
  induction html generalizing inTag with
  | nil => exact List.not_mem_nil
  | cons ch html ih =>
      rw [outsideFrom]
      split
      · exact ih _
      · split
        case isTrue => exact ih _
        case isFalse other => exact List.not_mem_cons_of_ne_of_not_mem (Ne.symm other) (ih _)

/-- A text without tags stands outside of them. -/
theorem outsideTags_eq {text : List Char} (absent : '<' ∉ text) : outsideTags text = text := by
  rw [outsideTags]
  induction text with
  | nil => rfl
  | cons ch text ih =>
      obtain ⟨other, later⟩ := not_or.mp (List.mem_cons.not.mp absent)
      rw [outsideFrom, if_neg Bool.false_ne_true, if_neg (Ne.symm other), ih later]

theorem stripHtmlTags_eq {text : List Char} (opens : '<' ∉ text) (closes : '>' ∉ text) :
    stripHtmlTags text = text := by
  rw [stripHtmlTags]
  induction text with
  | nil => rfl
  | cons ch text ih =>
      obtain ⟨noOpen, opensLater⟩ := not_or.mp (List.mem_cons.not.mp opens)
      obtain ⟨noClose, closesLater⟩ := not_or.mp (List.mem_cons.not.mp closes)
      rw [stripFrom, if_neg (Ne.symm noOpen), if_neg (Ne.symm noClose), if_neg Bool.false_ne_true,
        ih opensLater closesLater]

/-! ## Paragraphs -/

theorem inked_paragraphsFrom (paragraph text : List Char) :
    (paragraphsFrom paragraph text).flatMap inked = inked (paragraph ++ text) := by
  induction paragraph, text using paragraphsFrom.induct with
  | case1 paragraph => rw [paragraphsFrom, List.flatMap_singleton, List.append_nil]
  | case2 paragraph text ih =>
      rw [paragraphsFrom, List.flatMap_cons, ih, List.nil_append, inked_append, inked_blank rfl,
        inked_blank rfl]
  | case3 paragraph ch text _ ih =>
      rw [paragraphsFrom, ih, List.append_assoc, List.singleton_append]
      assumption

theorem inked_paragraphs (text : List Char) : (paragraphs text).flatMap inked = inked text := by
  rw [← List.nil_append text, ← inked_paragraphsFrom, List.nil_append, paragraphs]
  induction paragraphsFrom [] text with
  | nil => rfl
  | cons p ps ih =>
      rw [List.filter_cons, List.flatMap_cons]
      split
      case isTrue => rw [List.flatMap_cons, ih]
      case isFalse blank =>
        have none : trim p = [] := by simpa using blank
        rw [ih, trim_eq_nil.mp none, List.nil_append]

/-! ## Conservation -/

theorem contents_append (chunks more : List DocumentChunk) :
    contents (chunks ++ more) = contents chunks ++ contents more := List.flatMap_append

theorem contents_flatMap {β : Type} (parts : List β) (f : β → List DocumentChunk) :
    contents (parts.flatMap f) = parts.flatMap fun part => contents (f part) := List.flatMap_assoc

@[simp] theorem contents_singleton (chunk : DocumentChunk) :
    contents [chunk] = inked chunk.content := List.flatMap_singleton ..

namespace HtmlChunker

variable {chunker : HtmlChunker}

theorem contents_pushed {current : DocumentChunk}
    (long : current.content ≠ [] → chunker.minChunkSize ≤ bytes current.content) :
    contents (chunker.pushed current) = inked current.content := by
  rw [pushed]
  by_cases none : current.content = []
  · rw [none]
    rfl
  · rw [if_pos]
    · exact contents_singleton _
    · simp [none, long none]

/-- The merge drops no chunk that is long enough. -/
theorem contents_mergeFrom {chunks : List DocumentChunk} {current : DocumentChunk}
    (long : current.content ≠ [] → chunker.minChunkSize ≤ bytes current.content)
    (each : ∀ chunk ∈ chunks, chunker.minChunkSize ≤ bytes chunk.content) :
    contents (chunker.mergeFrom current chunks) = inked current.content ++ contents chunks := by
  induction chunks generalizing current with
  | nil => rw [mergeFrom, contents_pushed long]; exact (List.append_nil _).symm
  | cons chunk chunks ih =>
      obtain ⟨here, later⟩ := List.forall_mem_cons.mp each
      have split : contents (chunk :: chunks) = inked chunk.content ++ contents chunks :=
        List.flatMap_cons
      rw [mergeFrom, split]
      split
      case isTrue none =>
        rw [ih (fun _ => here) later, List.isEmpty_iff.mp none, inked_nil, List.nil_append]
      case isFalse =>
        split
        case isTrue =>
          rw [ih _ later, inked_append, inked_blank rfl, List.append_assoc]
          intro _
          rw [bytes_append, ← List.singleton_append, bytes_append]
          omega
        case isFalse =>
          rw [contents_append, contents_pushed long, ih (fun _ => here) later]

theorem map_content_splitLargeChunk (chunk : DocumentChunk) :
    (chunker.splitLargeChunk chunk).map DocumentChunk.content =
      if bytes chunk.content ≤ chunker.maxChunkSize then [chunk.content]
      else Packing.pack [] bytes chunker.maxChunkSize []
        (chunker.sentenceSplitter.split chunk.content) := by
  rw [splitLargeChunk]
  split
  case isTrue => rfl
  case isFalse =>
    generalize Packing.pack _ _ _ _ _ = parts
    rcases parts.eq_nil_or_concat with rfl | ⟨init, last, rfl⟩
    · rfl
    · simp [Function.comp_def]

/-- A chunk that is split has its text in the parts. -/
theorem contents_splitLargeChunk (chunk : DocumentChunk) :
    contents (chunker.splitLargeChunk chunk) = inked chunk.content := by
  have texts : contents (chunker.splitLargeChunk chunk) =
      inked ((chunker.splitLargeChunk chunk).map DocumentChunk.content).flatten := by
    rw [inked_flatten, List.flatMap_map]
    rfl
  rw [texts, map_content_splitLargeChunk]
  split
  case isTrue => rw [List.flatten_singleton]
  case isFalse =>
    rw [inked, Packing.filter_flatten_pack fun c absent => absurd absent List.not_mem_nil,
      List.nil_append, SentenceSplitter.whole, inked]

theorem contents_chunk (html : List Char) (chunks : List DocumentChunk)
    (result : chunker.chunk html = .ok chunks) :
    contents chunks =
      (paragraphs (stripHtmlTags html)).flatMap fun p => contents (chunker.paragraphChunks p) := by
  obtain rfl : chunker.splitLargeChunks (chunker.mergeSmallChunks
      ((paragraphs (stripHtmlTags html)).flatMap chunker.paragraphChunks)) = chunks :=
    Except.ok.inj result
  rw [splitLargeChunks, contents_flatMap, funext contents_splitLargeChunk]
  refine (contents_mergeFrom (fun some => absurd rfl some) ?_).trans ?_
  · intro chunk member
    obtain ⟨p, -, of⟩ := List.mem_flatMap.mp member
    rw [paragraphChunks] at of
    split at of
    case isTrue => exact absurd of List.not_mem_nil
    case isFalse long =>
      rw [List.mem_singleton.mp of]
      exact Nat.not_lt.mp long
  · exact contents_flatMap ..

/-- What is left of a paragraph. -/
theorem contents_paragraphChunks (p : List Char) : contents (chunker.paragraphChunks p) =
    if bytes (trim p) < chunker.minChunkSize then [] else inked p := by
  rw [paragraphChunks]
  split
  case isTrue => rfl
  case isFalse => rw [contents_singleton, inked_trim]

theorem bounded_splitLargeChunk (chunk : DocumentChunk) :
    ∀ part ∈ chunker.splitLargeChunk chunk, bytes part.content ≤ chunker.maxChunkSize ∨
      ∃ merged, part.content ∈ chunker.sentenceSplitter.split merged := by
  intro part member
  have text := List.mem_map_of_mem (f := DocumentChunk.content) member
  rw [map_content_splitLargeChunk] at text
  split at text
  case isTrue fits => exact .inl (List.mem_singleton.mp text ▸ fits)
  case isFalse =>
    have each : ∀ piece ∈ chunker.sentenceSplitter.split chunk.content,
        ∃ merged, piece ∈ chunker.sentenceSplitter.split merged := fun piece of => ⟨_, of⟩
    exact Packing.bounded_pack bytes_append each (.inl (Nat.zero_le _)) _ text

theorem contents_paragraphChunks_sublist (p : List Char) :
    (contents (chunker.paragraphChunks p)).Sublist (inked p) := by
  rw [contents_paragraphChunks]
  split
  · exact List.nil_sublist _
  · exact List.Sublist.refl _

theorem contents_sublist {html : List Char} {chunks : List DocumentChunk}
    (result : chunker.chunk html = .ok chunks) :
    (contents chunks).Sublist (inked (stripHtmlTags html)) := by
  rw [contents_chunk html chunks result, ← inked_paragraphs]
  exact List.Sublist.flatMap_right _ fun p _ => contents_paragraphChunks_sublist p

/-- What is left of the tags is left in the chunks just when no paragraph is too short. -/
theorem contents_eq_stripped {html : List Char} {chunks : List DocumentChunk}
    (result : chunker.chunk html = .ok chunks) :
    contents chunks = inked (stripHtmlTags html) ↔ chunker.LongParagraphs (stripHtmlTags html) := by
  rw [contents_chunk html chunks result, ← inked_paragraphs,
    Packing.flatMap_eq_iff fun p _ => contents_paragraphChunks_sublist p]
  refine forall₂_congr fun p member => ?_
  have some : inked p ≠ [] := fun none => by
    simpa [trim_eq_nil.mpr none] using (List.mem_filter.mp member).2
  rw [contents_paragraphChunks]
  split
  case isTrue short => exact iff_of_false some.symm (Nat.not_le.mpr short)
  case isFalse long => exact iff_of_true rfl (Nat.not_lt.mp long)

/-- The text outside of tags is left just when it has no `>` and no paragraph is too short. -/
theorem contents_eq_outside {html : List Char} {chunks : List DocumentChunk}
    (result : chunker.chunk html = .ok chunks) :
    contents chunks = inked (outsideTags html) ↔
      '>' ∉ outsideTags html ∧ chunker.LongParagraphs (stripHtmlTags html) := by
  have stripped : inked (stripHtmlTags html) = (inked (outsideTags html)).filter (· ≠ '>') :=
    inked_stripFrom false html
  have fewer : (inked (stripHtmlTags html)).Sublist (inked (outsideTags html)) :=
    stripped ▸ List.filter_sublist
  have same : inked (stripHtmlTags html) = inked (outsideTags html) ↔ '>' ∉ outsideTags html := by
    rw [stripped, List.filter_eq_self]
    constructor
    · intro each member
      simpa using each '>' (List.mem_filter.mpr ⟨member, rfl⟩)
    · rintro absent c member
      simpa using fun is : c = '>' => absent (is ▸ List.mem_of_mem_filter member)
  rw [← contents_eq_stripped result, ← same]
  constructor
  · intro kept
    have all := fewer.antisymm (kept ▸ contents_sublist result)
    exact ⟨all, kept.trans all.symm⟩
  · exact fun ⟨all, kept⟩ => kept.trans all

theorem bounded_chunk {html : List Char} {chunks : List DocumentChunk}
    (result : chunker.chunk html = .ok chunks) :
    ∀ chunk ∈ chunks, bytes chunk.content ≤ chunker.maxChunkSize ∨
      ∃ merged, chunk.content ∈ chunker.sentenceSplitter.split merged := by
  intro part member
  rw [← Except.ok.inj result, splitLargeChunks] at member
  obtain ⟨chunk, -, of⟩ := List.mem_flatMap.mp member
  exact bounded_splitLargeChunk chunk part of

/-- The text of a page without tags is left just when it has no angle bracket and no paragraph is
too short. -/
theorem contents_eq_plain {text : List Char} {chunks : List DocumentChunk}
    (result : chunker.chunk text = .ok chunks) :
    contents chunks = inked text ↔
      '<' ∉ text ∧ '>' ∉ text ∧ chunker.LongParagraphs text := by
  constructor
  · intro kept
    have fewer : (contents chunks).Sublist (inked (outsideTags text)) := by
      refine (contents_sublist result).trans ?_
      rw [stripHtmlTags, inked_stripFrom]
      exact List.filter_sublist
    rw [kept] at fewer
    have outside : inked (outsideTags text) = inked text :=
      ((outsideFrom_sublist false text).filter _).antisymm fewer
    have opens : '<' ∉ text := by
      intro member
      have inside : '<' ∈ inked (outsideTags text) := by
        rw [outside]
        exact List.mem_filter.mpr ⟨member, rfl⟩
      exact not_mem_outsideFrom false text (List.mem_of_mem_filter inside)
    rw [← outside, contents_eq_outside result, outsideTags_eq opens] at kept
    obtain ⟨closes, long⟩ := kept
    rw [stripHtmlTags_eq opens closes] at long
    exact ⟨opens, closes, long⟩
  · intro ⟨opens, closes, long⟩
    have outside := contents_eq_outside result
    rw [outsideTags_eq opens, stripHtmlTags_eq opens closes] at outside
    exact outside.mpr ⟨closes, long⟩

theorem keeps_ok {text : List Char} {chunks : List DocumentChunk}
    (bounded : ∀ chunk ∈ chunks, bytes chunk.content ≤ chunker.maxChunkSize ∨
      ∃ merged, chunk.content ∈ chunker.sentenceSplitter.split merged) :
    chunker.Keeps text (.ok chunks) ↔
      bytes (inked text) < chunker.minChunkSize ∨ contents chunks = inked text := by
  constructor
  · intro keeps
    exact (Nat.lt_or_ge _ _).imp id (keeps.whole chunks rfl)
  · intro enough
    refine ⟨⟨chunks, rfl⟩, ?_, ?_⟩
    · intro _ result long
      rw [← Except.ok.inj result]
      exact enough.resolve_left (Nat.not_lt.mpr long)
    · intro _ result
      rw [← Except.ok.inj result]
      exact bounded

/-- A page is kept just when it is short, or its text has no `>` and no paragraph that is too
short; a plain text, when it is short, or has no angle bracket and no paragraph that is too
short. -/
theorem keeps_iff (chunker : HtmlChunker) :
    (∀ html, chunker.Keeps (outsideTags html) (chunker.chunk html) ↔
      bytes (inked (outsideTags html)) < chunker.minChunkSize ∨
        '>' ∉ outsideTags html ∧ chunker.LongParagraphs (stripHtmlTags html)) ∧
    ∀ text url title, chunker.Keeps text (chunker.chunkText text url title) ↔
      bytes (inked text) < chunker.minChunkSize ∨
        '<' ∉ text ∧ '>' ∉ text ∧ chunker.LongParagraphs text := by
  constructor
  · intro html
    obtain ⟨chunks, result⟩ : ∃ chunks, chunker.chunk html = .ok chunks := ⟨_, rfl⟩
    rw [result, keeps_ok (bounded_chunk result), contents_eq_outside result]
  · intro text url title
    obtain ⟨chunks, result⟩ : ∃ chunks, chunker.chunk text = .ok chunks := ⟨_, rfl⟩
    have named : chunker.chunkText text url title =
        .ok (chunks.map fun chunk => { chunk with url, title }) := by rw [chunkText, result]; rfl
    have same : contents (chunks.map fun chunk => { chunk with url, title }) = contents chunks :=
      List.flatMap_map ..
    rw [named, keeps_ok, same, contents_eq_plain result]
    intro chunk member
    obtain ⟨plain, of, rfl⟩ := List.mem_map.mp member
    exact bounded_chunk result plain of

/-- Two paragraphs of which the first is too short. -/
def twoParagraphs : List Char := "<p>Yes.</p>\n<p>Of course it is so.</p>".toList

/-- A text whose sentences are not told apart. -/
def oneSentence : SentenceSplitter := ⟨fun text => [text], fun _ => List.flatten_singleton⟩

/-- The short paragraph is gone, and so is what a plain text has behind a `<`. -/
theorem short_paragraph_dropped :
    ¬ ((HtmlChunker.mk 10 100 oneSentence).Keeps (outsideTags twoParagraphs)
        ((HtmlChunker.mk 10 100 oneSentence).chunk twoParagraphs)) ∧
    ¬ ((HtmlChunker.mk 10 100 oneSentence).Keeps "for every i < n it holds".toList
        ((HtmlChunker.mk 10 100 oneSentence).chunkText "for every i < n it holds".toList [] [])) := by
  constructor
  · intro keeps
    exact absurd (keeps.whole _ rfl (by decide)) (by decide)
  · intro keeps
    exact absurd (keeps.whole _ rfl (by decide)) (by decide)

end HtmlChunker

end Webfang.Chunker
