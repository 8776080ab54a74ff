import Webfang.Embedding.MarkdownChunker

/-!
# The notes that are kept

The lines, the sections, the blocks and the merge each keep the text without its white space, but
for the headings and the blocks that are too short.  A chunk that is long enough is pushed as it is
unless it overflows behind a short one.
-/

namespace Webfang.Chunker

open Sitemap (lines stripCr)

/-! ## The text of the lines -/

theorem inked_joined (ls : List (List Char)) : inked (joined ls) = ls.flatMap inked := by
  rw [joined]
  induction ls with
  | nil => rfl
  | cons line ls ih =>
      cases ls with
      | nil => simp [List.intercalate]
      | cons next ls =>
          have blank : inked ['\n'] = [] := rfl
          rw [List.intercalate_cons_cons, inked_append, inked_append, blank, List.append_nil, ih]
          rfl

theorem inked_stripCr (line : List Char) : inked (stripCr line) = inked line := by
  rw [stripCr]
  split
  case isTrue last =>
    have whole := List.dropLast_append_getLast? '\r' last
    conv => rhs; rw [← whole, inked_append]
    exact (List.append_nil _).symm
  case isFalse => rfl

theorem inked_lines (text : List Char) : (lines text).flatMap inked = inked text := by
  have whole : inked text = (text.splitOn '\n').flatMap inked := by
    have joined : ['\n'].intercalate (text.splitOn '\n') = text := List.intercalate_splitOn '\n'
    conv => lhs; rw [← joined]
    exact inked_joined _
  have stripped (parts : List (List Char)) :
      (parts.map stripCr).flatMap inked = parts.flatMap inked := by
    rw [List.flatMap_map, funext inked_stripCr]
  have shown (last : List Char) : ([last].filter (· ≠ [])).flatMap inked = [last].flatMap inked := by
    by_cases empty : last = []
    · rw [empty]
      rfl
    · rw [List.filter_cons_of_pos (by simpa using empty), List.filter_nil]
  rw [whole, lines, List.flatMap_append, stripped]
  cases last : (text.splitOn '\n').getLast? with
  | none =>
      rw [List.getLast?_eq_none_iff.mp last]
      rfl
  | some part =>
      rw [Option.toList_some, shown, ← List.flatMap_append, List.dropLast_append_getLast? part last]

theorem inked_flushed (heading : List Char) (ls : List (List Char)) :
    (flushed heading ls).flatMap (fun part => inked part.2) = ls.flatMap inked := by
  rw [flushed]
  split
  case isTrue none =>
    rw [Bool.and_eq_true, List.isEmpty_iff] at none
    rw [none.1]
    rfl
  case isFalse => rw [List.flatMap_singleton, inked_joined]

theorem inked_sectionsFrom (heading : List Char) (current ls : List (List Char)) :
    (sectionsFrom heading current ls).flatMap (fun part => inked part.2) =
      current.flatMap inked ++ (ls.filter fun line => !isHeading line).flatMap inked := by
  induction ls generalizing heading current with
  | nil => rw [sectionsFrom, inked_flushed, List.filter_nil, List.flatMap_nil, List.append_nil]
  | cons line ls ih =>
      rw [sectionsFrom]
      split
      case isTrue is =>
        rw [List.flatMap_append, inked_flushed, ih, List.flatMap_nil, List.nil_append,
          List.filter_cons_of_neg (by simp [is])]
      case isFalse is =>
        rw [ih, List.filter_cons_of_pos (by simp [is]), List.flatMap_append, List.flatMap_singleton,
          List.flatMap_cons, List.append_assoc]

/-- The sections have the text below the headings. -/
theorem inked_splitByHeadings (body : List Char) :
    (splitByHeadings body).flatMap (fun part => inked part.2) = noteText body :=
  inked_sectionsFrom [] [] (lines body)

/-! ## The text of the blocks -/

theorem inked_blockOf (ls : List (List Char)) : (blockOf ls).flatMap inked = ls.flatMap inked := by
  rw [blockOf]
  split
  case isTrue none => rw [List.isEmpty_iff.mp none]
  case isFalse => rw [List.flatMap_singleton, inked_joined]

/-- The lines that are collected are those of a callout, or those outside of one. -/
theorem inked_blocksFrom {normal callout ls blocks : List (List Char)} {inCallout : Bool}
    (inside : inCallout = true → normal = []) (outside : inCallout = false → callout = [])
    (found : blocksFrom normal callout inCallout ls = some blocks) :
    blocks.flatMap inked = callout.flatMap inked ++ normal.flatMap inked ++ ls.flatMap inked := by
  induction ls generalizing normal callout inCallout blocks with
  | nil =>
      obtain rfl := Option.some.inj found
      cases inCallout with
      | true => simp [inked_blockOf]
      | false => simp [inked_blockOf, outside rfl]
  | cons line ls ih =>
      rw [blocksFrom] at found
      obtain ⟨start, -, found⟩ := Option.bind_eq_some_iff.mp found
      split at found
      case isTrue =>
        obtain ⟨later, rest, rfl⟩ := Option.map_eq_some_iff.mp found
        rw [List.flatMap_append, inked_blockOf, ih (fun _ => rfl) (by simp) rest]
        cases inCallout with
        | true => simp [inside rfl]
        | false => simp [outside rfl]
      case isFalse =>
        split at found
        case isTrue quote =>
          have within : inCallout = true := (Bool.and_eq_true_iff.mp quote).1
          rw [ih (fun _ => inside within) (by simp) found, inside within]
          simp
        case isFalse =>
          split at found
          case isTrue =>
            obtain ⟨later, rest, rfl⟩ := Option.map_eq_some_iff.mp found
            rw [List.flatMap_cons, inked_joined, ih (by simp) (fun _ => rfl) rest]
            simp
          case isFalse without =>
            have none := outside (by simpa using without)
            rw [ih (by simp) (fun _ => none) found, none]
            simp

theorem inked_extractCalloutBlocks {text : List Char} {blocks : List (List Char)}
    (found : extractCalloutBlocks text = some blocks) : blocks.flatMap inked = inked text := by
  rw [inked_blocksFrom (by simp) (fun _ => rfl) found, inked_lines]
  rfl

theorem inked_allBlocks {sections blocks : List (List Char × List Char)}
    (found : allBlocks sections = some blocks) :
    blocks.flatMap (fun block => inked block.2) = sections.flatMap fun part => inked part.2 := by
  induction sections generalizing blocks with
  | nil => rw [← Option.some.inj found]
  | cons part sections ih =>
      rw [allBlocks] at found
      obtain ⟨here, first, found⟩ := Option.bind_eq_some_iff.mp found
      obtain ⟨later, rest, rfl⟩ := Option.map_eq_some_iff.mp found
      rw [List.flatMap_append, ih rest, List.flatMap_cons, List.flatMap_map,
        inked_extractCalloutBlocks first]

/-! ## The slice of a line -/

theorem bytes_cons (c : Char) (text : List Char) : bytes (c :: text) = c.utf8Size + bytes text := by
  rw [bytes, Utf8.encode_cons, List.length_append, String.length_utf8EncodeChar]
  rfl

/-- The slice panics just where a `>` has a longer character right behind it. -/
theorem isCalloutStart_eq_none (line : List Char) :
    isCalloutStart (trim line) = none ↔ isTorn line = true := by
  rw [isTorn]
  rcases trim line with _ | ⟨first, _ | ⟨c, rest⟩⟩
  · simp [isCalloutStart, isBlockquote]
  · by_cases quote : first = '>'
    · subst quote
      exact iff_of_false (by decide) Bool.false_ne_true
    · simp [isCalloutStart, isBlockquote, quote]
  · by_cases quote : first = '>'
    · subst quote
      have positive := c.utf8Size_pos
      have size : bytes ('>' :: c :: rest) = c.utf8Size + bytes rest + 1 := by
        rw [bytes_cons, bytes_cons, Nat.add_comm]
        rfl
      have one : ('>').utf8Size = 1 := rfl
      by_cases short : c.utf8Size = 1
      · have behind : sliceFrom ('>' :: c :: rest) 2 = some rest := by
          simp [sliceFrom, one, short]
        rw [isCalloutStart, behind]
        split <;> simp [short]
      · have torn : sliceFrom ('>' :: c :: rest) 2 = none := by
          have long : ¬ c.utf8Size ≤ 1 := by omega
          simp [sliceFrom, one, long]
        rw [isCalloutStart, torn, size, if_pos]
        · simp [short]
        · have long : 2 < c.utf8Size + bytes rest + 1 := by omega
          simp [isBlockquote, long]
    · simp [isCalloutStart, isBlockquote, quote]

theorem blocksFrom_isSome {normal callout : List (List Char)} {inCallout : Bool}
    (ls : List (List Char)) : (blocksFrom normal callout inCallout ls).isSome = true ↔
      ∀ line ∈ ls, isTorn line = false := by
  induction ls generalizing normal callout inCallout with
  | nil => exact iff_of_true rfl fun line absent => absurd absent List.not_mem_nil
  | cons line ls ih =>
      rw [List.forall_mem_cons, blocksFrom]
      cases start : isCalloutStart (trim line) with
      | none =>
          have torn := (isCalloutStart_eq_none line).mp start
          simp [torn]
      | some is =>
          have whole : isTorn line = false := by
            rw [Bool.eq_false_iff, ne_eq, ← isCalloutStart_eq_none, start]
            exact Option.some_ne_none is
          rw [Option.bind_some, and_iff_right whole]
          split
          · rw [Option.isSome_map, ih]
          · split
            · exact ih
            · split
              · rw [Option.isSome_map, ih]
              · exact ih

/-- The blocks are there unless a line is torn. -/
theorem allBlocks_isSome (sections : List (List Char × List Char)) :
    (allBlocks sections).isSome = true ↔
      ∀ part ∈ sections, ∀ line ∈ lines part.2, isTorn line = false := by
  induction sections with
  | nil => exact iff_of_true rfl fun part absent => absurd absent List.not_mem_nil
  | cons part sections ih =>
      rw [List.forall_mem_cons, ← ih, ← blocksFrom_isSome, allBlocks, extractCalloutBlocks]
      cases blocksFrom [] [] false (lines part.2) with
      | none => simp
      | some blocks => rw [Option.bind_some, Option.isSome_map]; simp

/-! ## Texts cut into sentences -/

theorem trim_trim (text : List Char) : trim (trim text) = trim text := by
  have front : (trim text).dropWhile isWhitespace = trim text := by
    cases kept : trim text with
    | nil => rfl
    | cons c rest =>
        obtain ⟨behind, split⟩ := List.rdropWhile_prefix isWhitespace (text.dropWhile isWhitespace)
        have whole : text.dropWhile isWhitespace = c :: (rest ++ behind) := by
          rw [← split, ← trim, kept, List.cons_append]
        have ink := List.head_dropWhile_not isWhitespace (l := text) (by rw [whole]; simp)
        simp only [whole, List.head_cons] at ink
        exact List.dropWhile_cons_of_neg (by simp [ink])
  conv => lhs; rw [trim, front]
  rw [trim, List.rdropWhile_idempotent]

theorem bytes_trim_le (text : List Char) : bytes (trim text) ≤ bytes text := by
  have fewer : (trim text).Sublist text :=
    (List.rdropWhile_prefix _ _).sublist.trans (List.dropWhile_sublist _)
  exact (fewer.flatMap _).length_le

namespace MarkdownChunker

variable {chunker : MarkdownChunker}

theorem inked_shown (parts : List (List Char)) :
    inked ((parts.map trim).filter fun part => !part.isEmpty).flatten = inked parts.flatten := by
  rw [List.flatten_filter_not_isEmpty, inked_flatten, List.flatMap_map, funext inked_trim,
    inked_flatten]

theorem inked_splitLargeText (text : List Char) :
    inked (chunker.splitLargeText text).flatten = inked text := by
  have blank : ∀ c ∈ [' '], (!isWhitespace c) = false := List.forall_mem_singleton.mpr rfl
  rw [splitLargeText, inked_shown, inked, Packing.filter_flatten_pack blank, List.nil_append]
  exact (inked_shown _).trans (by rw [SentenceSplitter.whole])

theorem bounded_splitLargeText (text : List Char) : ∀ part ∈ chunker.splitLargeText text,
    bytes part ≤ chunker.maxChunkSize ∨
      ∃ merged, part ∈ chunker.sentenceSplitter.splitTrimmed merged := by
  intro part member
  obtain ⟨bundle, of, rfl⟩ := List.mem_map.mp (List.mem_filter.mp member).1
  have each : ∀ piece ∈ chunker.sentenceSplitter.splitTrimmed text,
      ∃ merged, piece ∈ chunker.sentenceSplitter.splitTrimmed merged := fun piece of => ⟨text, of⟩
  obtain fits | ⟨merged, single⟩ :=
    Packing.bounded_pack bytes_append each (.inl (Nat.zero_le _)) bundle of
  · exact .inl ((bytes_trim_le bundle).trans fits)
  · obtain ⟨sentence, -, rfl⟩ := List.mem_map.mp (List.mem_filter.mp single).1
    exact .inr ⟨merged, by rwa [trim_trim]⟩

/-! ## The merge -/

/-- What a pending chunk has. -/
def held (pending : Option DocumentChunk) : List Char := contents pending.toList

theorem contents_map_makeChunk (heading : List Char) (parts : List (List Char)) :
    contents (parts.map (makeChunk heading)) = inked parts.flatten := by
  rw [contents, List.flatMap_map, inked_flatten]
  rfl

theorem contents_mergeStep (pending : Option DocumentChunk) (chunk : DocumentChunk) :
    contents (chunker.mergeStep pending chunk).1 ++ held (chunker.mergeStep pending chunk).2 =
      held pending ++ inked chunk.content := by
  cases pending with
  | none => exact contents_singleton chunk
  | some prev =>
      have merged : inked (prev.content ++ '\n' :: '\n' :: chunk.content) =
          inked prev.content ++ inked chunk.content := by
        rw [inked_append, inked_blank rfl, inked_blank rfl]
      have front : held (some prev) = inked prev.content := contents_singleton prev
      rw [mergeStep, front]
      split
      case isTrue =>
        dsimp only
        split
        case isTrue => exact (contents_singleton _).trans merged
        case isFalse =>
          rw [contents_map_makeChunk, inked_splitLargeText, merged]
          exact List.append_nil _
      case isFalse =>
        rw [contents_singleton]
        exact congrArg _ (contents_singleton chunk)

theorem contents_mergeFrom (pending : Option DocumentChunk) (chunks : List DocumentChunk) :
    contents (chunker.mergeFrom pending chunks) = held pending ++ contents chunks := by
  induction chunks generalizing pending with
  | nil => exact (List.append_nil _).symm
  | cons chunk chunks ih =>
      have split : contents (chunk :: chunks) = inked chunk.content ++ contents chunks :=
        List.flatMap_cons
      rw [mergeFrom]
      dsimp only
      rw [contents_append, ih, ← List.append_assoc, contents_mergeStep, split, List.append_assoc]

theorem bounded_map_makeChunk (heading text : List Char) :
    ∀ chunk ∈ (chunker.splitLargeText text).map (makeChunk heading), chunker.Bounded chunk := by
  intro chunk member
  obtain ⟨part, of, rfl⟩ := List.mem_map.mp member
  exact bounded_splitLargeText text part of

theorem bounded_mergeStep {pending : Option DocumentChunk} {chunk : DocumentChunk}
    (before : ∀ prev ∈ pending, chunker.Bounded prev) (here : chunker.Bounded chunk) :
    (∀ c ∈ (chunker.mergeStep pending chunk).1, chunker.Bounded c) ∧
      ∀ c ∈ (chunker.mergeStep pending chunk).2, chunker.Bounded c := by
  cases pending with
  | none => exact ⟨fun c absent => absurd absent List.not_mem_nil, fun c is => Option.some.inj is ▸ here⟩
  | some prev =>
      rw [mergeStep]
      split
      case isTrue =>
        dsimp only
        split
        case isTrue fits =>
          exact ⟨fun c absent => absurd absent List.not_mem_nil,
            fun c is => Option.some.inj is ▸ .inl fits⟩
        case isFalse =>
          exact ⟨bounded_map_makeChunk _ _, fun c absent => absurd absent (Option.not_mem_none c)⟩
      case isFalse =>
        exact ⟨List.forall_mem_singleton.mpr (before prev rfl), fun c is => Option.some.inj is ▸ here⟩

theorem bounded_mergeFrom {chunks : List DocumentChunk} {pending : Option DocumentChunk}
    (before : ∀ prev ∈ pending, chunker.Bounded prev)
    (each : ∀ chunk ∈ chunks, chunker.Bounded chunk) :
    ∀ chunk ∈ chunker.mergeFrom pending chunks, chunker.Bounded chunk := by
  induction chunks generalizing pending with
  | nil => exact fun chunk member => before chunk (Option.mem_toList.mp member)
  | cons chunk chunks ih =>
      obtain ⟨here, later⟩ := List.forall_mem_cons.mp each
      obtain ⟨pushed, behind⟩ := bounded_mergeStep before here
      rw [mergeFrom]
      exact List.forall_mem_append.mpr ⟨pushed, ih behind later⟩

/-! ## Where a chunk lies in the merge -/

/-- The merge of chunks in front of others, and what is pending between them. -/
theorem mergeFrom_append (front back : List DocumentChunk) (pending : Option DocumentChunk) :
    ∃ pushed, chunker.mergeFrom pending (front ++ back) =
        pushed ++ chunker.mergeFrom
          (front.foldl (fun pending chunk => (chunker.mergeStep pending chunk).2) pending) back ∧
      contents pushed ++
          held (front.foldl (fun pending chunk => (chunker.mergeStep pending chunk).2) pending) =
        held pending ++ contents front := by
  induction front generalizing pending with
  | nil => exact ⟨[], rfl, (List.append_nil _).symm⟩
  | cons chunk front ih =>
      obtain ⟨pushed, split, text⟩ := ih (chunker.mergeStep pending chunk).2
      refine ⟨(chunker.mergeStep pending chunk).1 ++ pushed, ?_, ?_⟩
      · rw [List.cons_append, mergeFrom, List.append_assoc, List.foldl_cons, ← split]
      · have whole : contents (chunk :: front) = inked chunk.content ++ contents front :=
          List.flatMap_cons
        rw [contents_append, List.append_assoc, List.foldl_cons, text, ← List.append_assoc,
          contents_mergeStep, whole, List.append_assoc]

theorem mergeFrom_cons (pending : Option DocumentChunk) (chunk : DocumentChunk)
    (chunks : List DocumentChunk) : chunker.mergeFrom pending (chunk :: chunks) =
      (chunker.mergeStep pending chunk).1 ++
        chunker.mergeFrom (chunker.mergeStep pending chunk).2 chunks := rfl

/-- A pending chunk that is long enough is pushed as it is. -/
theorem mergeFrom_long {prev : DocumentChunk} (long : chunker.minChunkSize ≤ bytes prev.content)
    (chunks : List DocumentChunk) : ∃ rest, chunker.mergeFrom (some prev) chunks = prev :: rest := by
  cases chunks with
  | nil => exact ⟨[], rfl⟩
  | cons chunk chunks =>
      rw [mergeFrom, mergeStep, if_neg (Nat.not_lt.mpr long)]
      exact ⟨_, rfl⟩

theorem flatten_inks (chunks : List DocumentChunk) : (inks chunks).flatten = contents chunks :=
  List.flatMap_def.symm

/-- A chunk that is long enough lies in one chunk of the merge, unless it overflows behind a short
one and their sentences are packed otherwise. -/
theorem uncut_mergeSmallChunks {before after : List DocumentChunk} {chunk : DocumentChunk}
    (long : chunker.minChunkSize ≤ bytes chunk.content) (shown : inked chunk.content ≠ []) :
    Packing.Uncut (inks (chunker.mergeSmallChunks (before ++ chunk :: after)))
        (contents before).length ((contents before).length + (inked chunk.content).length) ↔
      ∀ short, chunker.pendingBehind before = some short →
        bytes short.content < chunker.minChunkSize →
        chunker.maxChunkSize < bytes (short.content ++ '\n' :: '\n' :: chunk.content) →
        Packing.Uncut ((chunker.splitLargeText
            (short.content ++ '\n' :: '\n' :: chunk.content)).map inked)
          (inked short.content).length
          ((inked short.content).length + (inked chunk.content).length) := by
  have positive : 0 < (inked chunk.content).length := List.length_pos_iff.mpr shown
  obtain ⟨pushed, split, text⟩ := chunker.mergeFrom_append before (chunk :: after) none
  rw [← pendingBehind] at split text
  have place : (contents before).length =
      (inks pushed).flatten.length + (held (chunker.pendingBehind before)).length := by
    rw [flatten_inks, ← List.length_append, text]
    rfl
  rw [mergeSmallChunks, split, inks, List.map_append, ← inks, ← inks, place, Nat.add_assoc,
    Packing.uncut_append_left (by omega)]
  rw [mergeFrom_cons]
  cases pending : chunker.pendingBehind before with
  | none =>
      obtain ⟨rest, first⟩ := chunker.mergeFrom_long long after
      refine iff_of_true ?_ fun short absent => absurd absent.symm (Option.some_ne_none short)
      rw [mergeStep, first, List.nil_append, inks, List.map_cons, Packing.uncut_cons]
      exact .inl (Nat.zero_add _).le
  | some prev =>
      have front : held (some prev) = inked prev.content := contents_singleton prev
      rw [front, mergeStep]
      split
      case isTrue short =>
        dsimp only
        split
        case isTrue fits =>
          have enough : chunker.minChunkSize ≤
              bytes (prev.content ++ '\n' :: '\n' :: chunk.content) := by
            rw [bytes_append, bytes_cons, bytes_cons]
            omega
          obtain ⟨rest, first⟩ : ∃ rest, chunker.mergeFrom
              (some { prev with content := prev.content ++ '\n' :: '\n' :: chunk.content }) after =
                { prev with content := prev.content ++ '\n' :: '\n' :: chunk.content } :: rest :=
            mergeFrom_long enough after
          refine iff_of_true ?_ ?_
          · rw [first, List.nil_append, inks, List.map_cons, Packing.uncut_cons, inked_append,
              inked_blank rfl, inked_blank rfl, List.length_append]
            exact .inl le_rfl
          · intro other is _ overflow
            rw [← Option.some.inj is] at overflow
            exact absurd overflow (Nat.not_lt.mpr fits)
        case isFalse overflows =>
          have parts (heading : List Char) :
              inks ((chunker.splitLargeText
                  (prev.content ++ '\n' :: '\n' :: chunk.content)).map (makeChunk heading)) =
                (chunker.splitLargeText
                  (prev.content ++ '\n' :: '\n' :: chunk.content)).map inked := List.map_map
          have whole : (((chunker.splitLargeText
              (prev.content ++ '\n' :: '\n' :: chunk.content)).map inked).flatten).length =
                (inked prev.content).length + (inked chunk.content).length := by
            rw [← List.flatMap_def, ← inked_flatten, inked_splitLargeText, inked_append,
              inked_blank rfl, inked_blank rfl, List.length_append]
          rw [inks, List.map_append, ← inks, parts, Packing.uncut_append_right (by omega) whole.ge]
          constructor
          · intro uncut other is _ _
            rwa [← Option.some.inj is]
          · intro uncut
            exact uncut prev rfl short (Nat.not_le.mp overflows)
      case isFalse long' =>
        obtain ⟨rest, first⟩ := chunker.mergeFrom_long long after
        refine iff_of_true ?_ ?_
        · rw [first, inks, List.singleton_append, List.map_cons, List.map_cons, Packing.uncut_cons,
            Packing.uncut_cons, Nat.add_sub_cancel_left, Nat.sub_self]
          exact .inr ⟨le_rfl, .inl le_rfl⟩
        · intro other is less
          rw [← Option.some.inj is] at less
          exact absurd less long'

/-! ## The notes that are kept -/

theorem contents_blockChunks (block : List Char × List Char) :
    contents (chunker.blockChunks block) =
      if trim block.2 ≠ [] ∧ bytes (trim block.2) ≤ chunker.maxChunkSize ∧
          bytes (trim block.2) < chunker.minChunkSize then []
      else inked block.2 := by
  rw [blockChunks]
  by_cases blank : trim block.2 = []
  · rw [if_pos (List.isEmpty_iff.mpr blank), if_neg fun short => short.1 blank,
      trim_eq_nil.mp blank]
    rfl
  rw [if_neg (by simp [blank])]
  by_cases fits : bytes (trim block.2) ≤ chunker.maxChunkSize
  · rw [if_pos fits]
    by_cases long : chunker.minChunkSize ≤ bytes (trim block.2)
    · rw [if_pos long, if_neg fun short => Nat.not_lt.mpr long short.2.2]
      exact (contents_singleton _).trans (inked_trim block.2)
    · rw [if_neg long, if_pos ⟨blank, fits, Nat.not_le.mp long⟩]
      rfl
  · rw [if_neg fits, if_neg fun short => fits short.2.1, contents_map_makeChunk,
      inked_splitLargeText, inked_trim]

/-- The blocks are kept just when none is too short. -/
theorem contents_flatMap_blockChunks (blocks : List (List Char × List Char)) :
    contents (blocks.flatMap chunker.blockChunks) = (blocks.flatMap fun block => inked block.2) ↔
      ∀ block ∈ blocks, trim block.2 ≠ [] → bytes (trim block.2) ≤ chunker.maxChunkSize →
        chunker.minChunkSize ≤ bytes (trim block.2) := by
  rw [contents_flatMap, Packing.flatMap_eq_iff]
  · refine forall₂_congr fun block _ => ?_
    rw [contents_blockChunks]
    split
    case isTrue short =>
      refine iff_of_false (fun none => short.1 (trim_eq_nil.mpr none.symm)) fun long => ?_
      exact Nat.not_lt.mpr (long short.1 short.2.1) short.2.2
    case isFalse long =>
      refine iff_of_true rfl fun ink fits => ?_
      by_contra less
      exact long ⟨ink, fits, Nat.not_le.mp less⟩
  · intro block _
    rw [contents_blockChunks]
    split
    · exact List.nil_sublist _
    · exact List.Sublist.refl _

theorem bounded_blockChunks (block : List Char × List Char) :
    ∀ chunk ∈ chunker.blockChunks block, chunker.Bounded chunk := by
  rw [blockChunks]
  split
  case isTrue => exact fun chunk absent => absurd absent List.not_mem_nil
  case isFalse =>
    split
    case isTrue fits =>
      split
      case isTrue => exact List.forall_mem_singleton.mpr (.inl fits)
      case isFalse => exact fun chunk absent => absurd absent List.not_mem_nil
    case isFalse => exact bounded_map_makeChunk _ _

theorem inked_of_isCallout {block : List Char} (is : isCallout block = true) :
    inked block ≠ [] := by
  rw [isCallout] at is
  rw [← inked_lines]
  cases shown : lines block with
  | nil =>
      rw [shown] at is
      exact absurd is Bool.false_ne_true
  | cons line rest =>
      rw [shown] at is
      intro none
      have blank : trim line = [] := trim_eq_nil.mpr (List.append_eq_nil_iff.mp none).1
      rw [List.head?_cons, Option.any_some, blank] at is
      exact absurd is (by decide)

/-- A callout that fits lies in one chunk, unless it overflows behind a short one. -/
theorem uncut_callout {before after : List (List Char × List Char)}
    {callout : List Char × List Char} (is : isCallout callout.2 = true)
    (fits : bytes (trim callout.2) ≤ chunker.maxChunkSize)
    (long : ∀ block ∈ before ++ callout :: after, trim block.2 ≠ [] →
      bytes (trim block.2) ≤ chunker.maxChunkSize →
      chunker.minChunkSize ≤ bytes (trim block.2)) :
    Packing.Uncut
        (inks (chunker.mergeSmallChunks
          ((before ++ callout :: after).flatMap chunker.blockChunks)))
        (before.flatMap fun block => inked block.2).length
        ((before.flatMap fun block => inked block.2).length + (inked callout.2).length) ↔
      ∀ short, chunker.pendingBehind (before.flatMap chunker.blockChunks) = some short →
        bytes short.content < chunker.minChunkSize →
        chunker.maxChunkSize < bytes (short.content ++ '\n' :: '\n' :: trim callout.2) →
        Packing.Uncut ((chunker.splitLargeText
            (short.content ++ '\n' :: '\n' :: trim callout.2)).map inked)
          (inked short.content).length
          ((inked short.content).length + (inked callout.2).length) := by
  obtain ⟨front, rest⟩ := List.forall_mem_append.mp long
  obtain ⟨here, -⟩ := List.forall_mem_cons.mp rest
  have shown := inked_of_isCallout is
  have ink : trim callout.2 ≠ [] := fun none => shown (trim_eq_nil.mp none)
  have chunks : chunker.blockChunks callout = [makeChunk callout.1 (trim callout.2)] := by
    rw [blockChunks, if_neg (by simp [ink]), if_pos fits, if_pos (here ink fits)]
  have start : (before.flatMap fun block => inked block.2) =
      contents (before.flatMap chunker.blockChunks) :=
    ((contents_flatMap_blockChunks before).mpr front).symm
  have place := @uncut_mergeSmallChunks chunker (before.flatMap chunker.blockChunks)
    (after.flatMap chunker.blockChunks) (makeChunk callout.1 (trim callout.2))
    (here ink fits) (by rwa [makeChunk, inked_trim])
  rw [List.flatMap_append, List.flatMap_cons, chunks, List.singleton_append, start]
  rw [makeChunk, inked_trim] at place
  exact place

/-- A note is kept just when its body is blank, or its blocks are there, none is too short, and
none of its callouts is cut in the merge. -/
theorem keepsNote_iff (chunker : MarkdownChunker) (markdown : List Char) :
    chunker.KeepsNote markdown ↔ trim (stripFrontmatter markdown) = [] ∨
      chunker.Mergeable (splitByHeadings (stripFrontmatter markdown)) := by
  by_cases blank : trim (stripFrontmatter markdown) = []
  · have refused : chunker.chunk markdown =
        some (.error (.tokenize "contenido vacío después de eliminar frontmatter")) := by
      rw [chunk, if_pos (List.isEmpty_iff.mpr blank)]
    refine iff_of_true ⟨⟨_, refused⟩, ?_, ?_, ?_, ?_⟩ (.inl blank)
    · intro result is
      rw [refused] at is
      exact iff_of_true ⟨_, (Option.some.inj is).symm⟩ blank
    all_goals
      intro chunks is
      rw [refused] at is
      exact absurd (Option.some.inj is) (by simp)
  have found : chunker.chunk markdown =
      (allBlocks (splitByHeadings (stripFrontmatter markdown))).map fun blocks =>
        .ok (chunker.mergeSmallChunks (blocks.flatMap chunker.blockChunks)) := by
    rw [chunk, if_neg (by simpa using blank)]
  rw [or_iff_right blank]
  cases split : allBlocks (splitByHeadings (stripFrontmatter markdown)) with
  | none =>
      rw [split, Option.map_none] at found
      refine iff_of_false (fun keeps => ?_) fun mergeable => ?_
      · obtain ⟨result, is⟩ := keeps.returns
        rw [found] at is
        exact absurd is.symm (Option.some_ne_none result)
      · have there := (allBlocks_isSome _).mpr mergeable.untorn
        rw [split] at there
        exact absurd there Bool.false_ne_true
  | some blocks =>
      rw [split, Option.map_some] at found
      have whole : contents (chunker.mergeSmallChunks (blocks.flatMap chunker.blockChunks)) =
          noteText (stripFrontmatter markdown) ↔ ∀ block ∈ blocks, trim block.2 ≠ [] →
            bytes (trim block.2) ≤ chunker.maxChunkSize →
            chunker.minChunkSize ≤ bytes (trim block.2) := by
        rw [mergeSmallChunks, contents_mergeFrom, ← inked_splitByHeadings, ← inked_allBlocks split]
        exact contents_flatMap_blockChunks blocks
      constructor
      · intro keeps
        have long := whole.mp (keeps.whole _ found)
        refine ⟨(allBlocks_isSome _).mp (by rw [split]; rfl), ?_, ?_⟩
        · intro same is
          rw [← Option.some.inj (split.symm.trans is)]
          exact long
        · intro before callout after is opens fits
          have uncut := keeps.atomic _ found before callout after is opens fits
          rw [Option.some.inj (split.symm.trans is)] at uncut long
          exact (uncut_callout opens fits long).mp uncut
      · intro mergeable
        have long := mergeable.long blocks split
        refine ⟨⟨_, found⟩, ?_, ?_, ?_, ?_⟩
        · intro result is
          rw [found] at is
          rw [← Option.some.inj is]
          exact iff_of_false (by simp) blank
        · intro chunks is
          rw [← Except.ok.inj (Option.some.inj (found.symm.trans is))]
          exact whole.mpr long
        · intro chunks is
          rw [← Except.ok.inj (Option.some.inj (found.symm.trans is))]
          refine bounded_mergeFrom (fun prev absent => absurd absent (Option.not_mem_none prev)) ?_
          intro chunk member
          obtain ⟨block, -, of⟩ := List.mem_flatMap.mp member
          exact bounded_blockChunks block chunk of
        · intro chunks is before callout after there opens fits
          have cut := mergeable.merged before callout after there opens fits
          rw [← Except.ok.inj (Option.some.inj (found.symm.trans is)),
            Option.some.inj (split.symm.trans there)]
          rw [Option.some.inj (split.symm.trans there)] at long
          exact (uncut_callout opens fits long).mpr cut

/-- A sentence ends at each full stop. -/
def sentencesOf : List Char → List (List Char)
  | [] => []
  | c :: text =>
      if c = '.' then [c] :: sentencesOf text
      else
        match sentencesOf text with
        | [] => [[c]]
        | sentence :: sentences => (c :: sentence) :: sentences

theorem flatten_sentencesOf (text : List Char) : (sentencesOf text).flatten = text := by
  induction text with
  | nil => rfl
  | cons c text ih =>
      rw [sentencesOf]
      split
      · rw [List.flatten_cons, ih, List.singleton_append]
      · split
        case h_1 none =>
          rw [none] at ih
          rw [← ih]
          rfl
        case h_2 sentence sentences cut =>
          rw [cut] at ih
          rw [← ih]
          rfl

def fullStops : SentenceSplitter := ⟨sentencesOf, flatten_sentencesOf⟩

/-- A callout behind a short sentence. -/
def calloutNote : List Char :=
  "One sentence is here. Two.\n> [!a] Left. Rights.".toList

/-- A line panics, a short section is gone, and a callout is cut. -/
theorem callout_cut :
    ¬ (mk 10 24 fullStops).KeepsNote ">é".toList ∧
      ¬ (mk 10 24 fullStops).KeepsNote "# Now\nShort.\n# Then\nThis is so.".toList ∧
      ¬ (mk 10 24 fullStops).KeepsNote calloutNote := by
  refine ⟨?_, ?_, ?_⟩
  · intro keeps
    have panics : (mk 10 24 fullStops).chunk ">é".toList = none := by decide
    obtain ⟨result, is⟩ := keeps.returns
    exact absurd (panics.symm.trans is) (Option.some_ne_none result).symm
  · intro keeps
    have found : (mk 10 24 fullStops).chunk "# Now\nShort.\n# Then\nThis is so.".toList =
        some (.ok [makeChunk "Then".toList "This is so.".toList]) := by decide
    exact absurd (keeps.whole _ found) (by decide)
  · intro keeps
    have found : (mk 10 24 fullStops).chunk calloutNote =
        some (.ok [makeChunk [] "One sentence is here.".toList,
          makeChunk [] "Two. > [!a] Left.".toList, makeChunk [] "Rights.".toList]) := by decide
    have uncut := keeps.atomic _ found [([], "One sentence is here. Two.".toList)]
      ([], "> [!a] Left. Rights.".toList) [] (by decide) (by decide) (by decide)
    exact absurd uncut (by decide)

end MarkdownChunker

end Webfang.Chunker
