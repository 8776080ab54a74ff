import Mathlib.Data.List.DropRight
import Webfang.Domain.Record
import Webfang.Lib.Packing
import Webfang.Lib.Utf8

/-!
# Sentences

`infrastructure_ai/sentence.rs`: a text is cut into sentences by the boundaries of Unicode.  What is
common to the chunkers stands here too: the size of a text is that of its bytes, and what a chunk
keeps of a text is what is no white space.
-/

namespace Webfang.Chunker

/-- `str::len`. -/
def bytes (text : List Char) : Nat := (Utf8.encode text).length

/-- `str::trim`. -/
def trim (text : List Char) : List Char := (text.dropWhile isWhitespace).rdropWhile isWhitespace

/-- A text without its white space. -/
def inked (text : List Char) : List Char := text.filter fun c => !isWhitespace c

/-- `DocumentChunk`, but for its fresh id and time and what is filled in later. -/
structure DocumentChunk where
  url : List Char
  title : List Char
  content : List Char
  metadata : List (String × List Char)
  deriving DecidableEq

/-- `split_sentence_bounds`: the pieces of a text are the text. -/
structure SentenceSplitter where
  split : List Char → List (List Char)
  whole : ∀ text, (split text).flatten = text

def SentenceSplitter.splitTrimmed (splitter : SentenceSplitter) (text : List Char) :
    List (List Char) :=
  ((splitter.split text).map trim).filter fun s => !s.isEmpty

/-! ## Sizes -/

@[simp] theorem bytes_nil : bytes [] = 0 := rfl

theorem bytes_append (front behind : List Char) : bytes (front ++ behind) = bytes front + bytes behind := by
  rw [bytes, Utf8.encode, List.flatMap_append, List.length_append]
  rfl

/-! ## What is no white space -/

@[simp] theorem inked_nil : inked [] = [] := rfl

theorem inked_append (front behind : List Char) :
    inked (front ++ behind) = inked front ++ inked behind := List.filter_append front behind

theorem inked_blank {c : Char} (blank : isWhitespace c = true) (text : List Char) :
    inked (c :: text) = inked text := List.filter_cons_of_neg (by simp [blank])

theorem inked_eq_nil {text : List Char} : inked text = [] ↔ ∀ c ∈ text, isWhitespace c = true := by
  rw [inked, List.filter_eq_nil_iff]
  exact forall₂_congr fun c _ => by simp

theorem inked_flatten (texts : List (List Char)) : inked texts.flatten = texts.flatMap inked :=
  List.filter_flatten ..

theorem inked_trim (text : List Char) : inked (trim text) = inked text := by
  have front := @List.takeWhile_append_dropWhile _ isWhitespace text
  have behind := @List.rdropWhile_append_rtakeWhile _ isWhitespace (text.dropWhile isWhitespace)
  have blankFront : inked (text.takeWhile isWhitespace) = [] :=
    inked_eq_nil.mpr fun c member => List.mem_takeWhile_imp member
  have blankBehind : inked ((text.dropWhile isWhitespace).rtakeWhile isWhitespace) = [] :=
    inked_eq_nil.mpr fun c member => List.mem_rtakeWhile_imp member
  rw [trim, ← front, inked_append, blankFront, List.nil_append, front]
  conv => rhs; rw [← behind, inked_append, blankBehind, List.append_nil]

/-- A text is blank just when nothing of it is left without white space. -/
theorem trim_eq_nil {text : List Char} : trim text = [] ↔ inked text = [] := by
  rw [inked_eq_nil, trim, List.rdropWhile_eq_nil_iff]
  constructor
  · intro all c member
    by_contra ink
    have inside : c ∈ text.dropWhile isWhitespace := by
      have split := @List.takeWhile_append_dropWhile _ isWhitespace text
      rw [← split] at member
      refine (List.mem_append.mp member).resolve_left fun taken => ink (List.mem_takeWhile_imp taken)
    exact ink (all c inside)
  · intro all c member
    exact all c ((List.dropWhile_sublist isWhitespace).subset member)

end Webfang.Chunker
