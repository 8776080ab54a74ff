import Webfang.Embedding.HtmlChunker
import Webfang.Sitemap.RobotsDirective

/-!
# Chunks of a note

`infrastructure_ai/markdown_chunker.rs`: the body of a note is cut at its headings, the callouts of
each section are taken apart from the text around them, what is too long is cut into sentences, and
what is left too short is merged with what follows.  A slice that cuts a character panics.
-/

namespace Webfang.Chunker

open Sitemap (lines stripCr)

/-! ## Lines -/

/-- `join("\n")`. -/
def joined (lines : List (List Char)) : List Char := ['\n'].intercalate lines

/-- `&text[n..]`; there is none where a character is cut. -/
def sliceFrom : List Char → Nat → Option (List Char)
  | text, 0 => some text
  | [], _ + 1 => none
  | c :: text, n + 1 => if c.utf8Size ≤ n + 1 then sliceFrom text (n + 1 - c.utf8Size) else none

/-- The text behind the first occurrence of a pattern. -/
def behindFirst (pattern : List Char) : List Char → Option (List Char)
  | [] => none
  | c :: text =>
      if pattern.isPrefixOf (c :: text) then some ((c :: text).drop pattern.length)
      else behindFirst pattern text

/-! ## Sections -/

def stripFrontmatter (md : List Char) : List Char :=
  let trimmed := md.dropWhile isWhitespace
  if !(['-', '-', '-'].isPrefixOf trimmed) then md
  else
    match behindFirst ['\n', '-', '-', '-'] (trimmed.drop 3) with
    | some ('\n' :: after) => after
    | some after => after
    | none => md

def isHeading (line : List Char) : Bool :=
  match line.dropWhile isWhitespace with
  | '#' :: c :: _ => c == '#' || c == ' '
  | _ => false

/-- A heading and the text below it, unless there is neither. -/
def flushed (heading : List Char) (lines : List (List Char)) : List (List Char × List Char) :=
  if lines.isEmpty && heading.isEmpty then [] else [(heading, joined lines)]

/-- The loop over the lines of the body. -/
def sectionsFrom (currentHeading : List Char) (currentLines : List (List Char)) :
    List (List Char) → List (List Char × List Char)
  | [] => flushed currentHeading currentLines
  | line :: lines =>
      if isHeading line then
        flushed currentHeading currentLines ++
          sectionsFrom (trim (line.dropWhile (· == '#'))) [] lines
      else sectionsFrom currentHeading (currentLines ++ [line]) lines

def splitByHeadings (body : List Char) : List (List Char × List Char) :=
  sectionsFrom [] [] (lines body)

/-! ## Callouts -/

def isBlockquote (trimmed : List Char) : Bool := trimmed.head? == some '>'

/-- Whether a line begins a callout; there is no answer where the slice panics. -/
def isCalloutStart (trimmed : List Char) : Option Bool :=
  if isBlockquote trimmed && 2 < bytes trimmed then
    (sliceFrom trimmed 2).map fun text => ['[', '!'].isPrefixOf (text.dropWhile isWhitespace)
  else some false

/-- Lines that are pushed as one block, if there are any. -/
def blockOf (lines : List (List Char)) : List (List Char) :=
  if lines.isEmpty then [] else [joined lines]

/-- The loop over the lines of a section. -/
def blocksFrom (normalLines calloutLines : List (List Char)) (inCallout : Bool) :
    List (List Char) → Option (List (List Char))
  | [] => some ((if inCallout then blockOf calloutLines else []) ++ blockOf normalLines)
  | line :: lines =>
      (isCalloutStart (trim line)).bind fun start =>
        if start then
          (blocksFrom [] (calloutLines ++ [line]) true lines).map (blockOf normalLines ++ ·)
        else if inCallout && isBlockquote (trim line) then
          blocksFrom normalLines (calloutLines ++ [line]) true lines
        else if inCallout then
          (blocksFrom (normalLines ++ [line]) [] false lines).map (joined calloutLines :: ·)
        else blocksFrom (normalLines ++ [line]) calloutLines false lines

def extractCalloutBlocks (text : List Char) : Option (List (List Char)) :=
  blocksFrom [] [] false (lines text)

/-- The blocks of all sections, each with its heading. -/
def allBlocks : List (List Char × List Char) → Option (List (List Char × List Char))
  | [] => some []
  | (heading, text) :: sections =>
      (extractCalloutBlocks text).bind fun blocks =>
        (allBlocks sections).map (blocks.map (heading, ·) ++ ·)

/-! ## Chunks -/

structure MarkdownChunker where
  minChunkSize : Nat
  maxChunkSize : Nat
  sentenceSplitter : SentenceSplitter

/-- A chunk of a note, whose address and title are filled in by the caller. -/
def makeChunk (heading content : List Char) : DocumentChunk :=
  ⟨[], [], content, if heading.isEmpty then [] else [("heading", heading)]⟩

namespace MarkdownChunker

variable (chunker : MarkdownChunker)

def splitLargeText (text : List Char) : List (List Char) :=
  ((Packing.pack [' '] bytes chunker.maxChunkSize []
    (chunker.sentenceSplitter.splitTrimmed text)).map trim).filter fun part => !part.isEmpty

/-- The chunks of a block. -/
def blockChunks (block : List Char × List Char) : List DocumentChunk :=
  let text := trim block.2
  if text.isEmpty then []
  else if bytes text ≤ chunker.maxChunkSize then
    if chunker.minChunkSize ≤ bytes text then [makeChunk block.1 text] else []
  else (chunker.splitLargeText text).map (makeChunk block.1)

/-- One turn of the loop of `merge_small_chunks`: what is pushed, and what is pending behind it. -/
def mergeStep : Option DocumentChunk → DocumentChunk → List DocumentChunk × Option DocumentChunk
  | none, chunk => ([], some chunk)
  | some prev, chunk =>
      if bytes prev.content < chunker.minChunkSize then
        let content := prev.content ++ '\n' :: '\n' :: chunk.content
        if bytes content ≤ chunker.maxChunkSize then ([], some { prev with content })
        else
          let heading := (prev.metadata.lookup "heading").getD []
          ((chunker.splitLargeText content).map (makeChunk heading), none)
      else ([prev], some chunk)

/-- The chunks behind a pending one. -/
def mergeFrom (pending : Option DocumentChunk) : List DocumentChunk → List DocumentChunk
  | [] => pending.toList
  | chunk :: chunks =>
      let (pushed, later) := chunker.mergeStep pending chunk
      pushed ++ mergeFrom later chunks

def mergeSmallChunks (chunks : List DocumentChunk) : List DocumentChunk :=
  chunker.mergeFrom none chunks

/-- `chunk`; there is no result where a slice panics. -/
def chunk (markdown : List Char) : Option (Except SemanticError (List DocumentChunk)) :=
  let body := stripFrontmatter markdown
  if (trim body).isEmpty then
    some (.error (.tokenize "contenido vacío después de eliminar frontmatter"))
  else
    (allBlocks (splitByHeadings body)).map fun blocks =>
      .ok (chunker.mergeSmallChunks (blocks.flatMap chunker.blockChunks))

end MarkdownChunker

/-! ## What is promised -/

/-- The text of a body below its headings. -/
def noteText (body : List Char) : List Char :=
  ((lines body).filter fun line => !isHeading line).flatMap inked

/-- A block that begins with the line of a callout. -/
def isCallout (block : List Char) : Bool :=
  (lines block).head?.any fun line => isCalloutStart (trim line) == some true

/-- A line with a `>` and a longer character right behind it. -/
def isTorn (line : List Char) : Bool :=
  match trim line with
  | '>' :: c :: _ => c.utf8Size != 1
  | _ => false

namespace MarkdownChunker

variable (chunker : MarkdownChunker)

/-- A chunk that is not too long, or a sentence. -/
def Bounded (chunk : DocumentChunk) : Prop :=
  bytes chunk.content ≤ chunker.maxChunkSize ∨
    ∃ merged, chunk.content ∈ chunker.sentenceSplitter.splitTrimmed merged

/-- What each chunk has. -/
def inks (chunks : List DocumentChunk) : List (List Char) := chunks.map fun chunk => inked chunk.content

/-- Nothing panics, only a blank body is refused, no text is lost, no chunk is too long unless it is
a sentence, and a callout that fits lies in one chunk. -/
structure KeepsNote (markdown : List Char) : Prop where
  returns : ∃ result, chunker.chunk markdown = some result
  refuses : ∀ result, chunker.chunk markdown = some result →
    ((∃ error, result = .error error) ↔ trim (stripFrontmatter markdown) = [])
  whole : ∀ chunks, chunker.chunk markdown = some (.ok chunks) →
    contents chunks = noteText (stripFrontmatter markdown)
  bounded : ∀ chunks, chunker.chunk markdown = some (.ok chunks) →
    ∀ chunk ∈ chunks, chunker.Bounded chunk
  atomic : ∀ chunks, chunker.chunk markdown = some (.ok chunks) →
    ∀ before callout after,
      allBlocks (splitByHeadings (stripFrontmatter markdown)) =
        some (before ++ callout :: after) →
      isCallout callout.2 = true → bytes (trim callout.2) ≤ chunker.maxChunkSize →
      let start := (before.flatMap fun block => inked block.2).length
      Packing.Uncut (inks chunks) start (start + (inked callout.2).length)

/-- The chunk that is pending behind others. -/
def pendingBehind (chunks : List DocumentChunk) : Option DocumentChunk :=
  chunks.foldl (fun pending chunk => (chunker.mergeStep pending chunk).2) none

/-- No line is torn and no block is too short; and a callout that is merged with a short text before
it either fits with it or is whole in one bundle of their sentences. -/
structure Mergeable (sections : List (List Char × List Char)) : Prop where
  untorn : ∀ part ∈ sections, ∀ line ∈ lines part.2, isTorn line = false
  long : ∀ blocks, allBlocks sections = some blocks → ∀ block ∈ blocks,
    trim block.2 ≠ [] → bytes (trim block.2) ≤ chunker.maxChunkSize →
    chunker.minChunkSize ≤ bytes (trim block.2)
  merged : ∀ before callout after, allBlocks sections = some (before ++ callout :: after) →
    isCallout callout.2 = true → bytes (trim callout.2) ≤ chunker.maxChunkSize →
    ∀ short, chunker.pendingBehind (before.flatMap chunker.blockChunks) = some short →
    bytes short.content < chunker.minChunkSize →
    chunker.maxChunkSize < bytes (short.content ++ '\n' :: '\n' :: trim callout.2) →
    Packing.Uncut ((chunker.splitLargeText
        (short.content ++ '\n' :: '\n' :: trim callout.2)).map inked)
      (inked short.content).length ((inked short.content).length + (inked callout.2).length)

end MarkdownChunker

end Webfang.Chunker
