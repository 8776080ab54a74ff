import Mathlib.Data.Finset.Lattice.Lemmas
import Mathlib.Data.Finset.Option
import Webfang.Export.JsonlWriter
import Webfang.Export.CommitSession
import Webfang.Lib.TextLines

/-!
# The two indexes of flushed lines

`build_content_hash_index` of `export_factory.rs` reads the output file as it is found,
`build_hash_index` of `jsonl_writer.rs` as `recover_torn_tail` leaves it.  What is between the two
is the unterminated end of the file.
-/

namespace Webfang

open Utf8

/-- `line.trim().is_empty()`. -/
def isBlankLine (line : List UInt8) : Bool := ((decode line).getD []).all isWhitespace

section Indexes

-- `serde_json` on a line: the `checksum_sha256` string of its object, if it is one and has it
variable (checksum : List UInt8 → Option String)

/-- `build_content_hash_index`, on the bytes of an existing file. -/
def contentHashIndex (bytes : List UInt8) : Finset String :=
  if isValid bytes then
    (((lines bytes).filter fun line => !isBlankLine line).filterMap checksum).toFinset
  else ∅

/-- `build_hash_index`; `none` where the file cannot be read as text. -/
def buildHashIndex (bytes : List UInt8) : Option (Finset String) :=
  if isValid bytes then some ((lines bytes).filterMap checksum).toFinset else none

/-- The index that `JsonlSession::open` answers. -/
def openIndex (bytes : List UInt8) : Option (Finset String) :=
  buildHashIndex checksum (recoverTornTail bytes)

/-- What `recover_torn_tail` cuts off. -/
def tornTail (bytes : List UInt8) : List UInt8 := bytes.drop (recoverTornTail bytes).length

/-- The index taken before the session opens the file is the one of the lines it leaves. -/
def IndexesAgree (bytes : List UInt8) : Prop :=
  ∀ index, openIndex checksum bytes = some index → contentHashIndex checksum bytes = index

instance (bytes : List UInt8) : Decidable (IndexesAgree checksum bytes) :=
  match opened : openIndex checksum bytes with
  | none => .isTrue fun index there => by rw [opened] at there; cases there
  | some index =>
      decidable_of_iff (contentHashIndex checksum bytes = index) <| by
        rw [IndexesAgree, opened]
        simp

/-- The hashes of the lines that survive the recovery. -/
def survivingHashes (bytes : List UInt8) : Finset String :=
  ((lines (recoverTornTail bytes)).filterMap checksum).toFinset

variable {checksum}

/-! ## The file behind its last newline -/

/-- The last byte that satisfies `p`, if there is one. -/
theorem rfind_cases (p : UInt8 → Bool) (bytes : List UInt8) :
    (rfind p bytes = none ∧ ∀ b ∈ bytes, p b = false) ∨
      ∃ before b after, bytes = before ++ b :: after ∧ p b = true ∧ (∀ x ∈ after, p x = false) ∧
        rfind p bytes = some before.length := by
  induction bytes with
  | nil => exact .inl ⟨rfl, List.forall_mem_nil _⟩
  | cons b rest ih =>
      rw [rfind]
      rcases ih with ⟨none, all⟩ | ⟨before, c, after, split, last, later, found⟩
      · rw [none]
        cases here : p b with
        | false => exact .inl ⟨rfl, List.forall_mem_cons.mpr ⟨here, all⟩⟩
        | true => exact .inr ⟨[], b, rest, rfl, here, all, rfl⟩
      · rw [found]
        exact .inr ⟨b :: before, c, after, by rw [split]; rfl, last, later, rfl⟩

/-- A file is its lines and a tail without newline. -/
theorem recoverTornTail_append_tornTail (bytes : List UInt8) :
    bytes = recoverTornTail bytes ++ tornTail bytes ∧ 0x0A ∉ tornTail bytes ∧
      (recoverTornTail bytes = [] ∨ ∃ before, recoverTornTail bytes = before ++ [0x0A]) := by
  have absent {text : List UInt8} (all : ∀ x ∈ text, (x == 0x0A) = false) : 0x0A ∉ text :=
    fun member => absurd (all _ member) (by decide)
  unfold tornTail recoverTornTail
  rcases rfind_cases (· == 0x0A) bytes with
    ⟨none, all⟩ | ⟨before, b, after, rfl, newline, later, found⟩
  · rw [none]
    exact ⟨rfl, absent all, .inl rfl⟩
  · rw [found]
    dsimp only
    cases eq_of_beq newline
    have kept : (before ++ 0x0A :: after).take (before.length + 1) = before ++ [0x0A] := by
      rw [List.take_append, List.take_of_length_le (Nat.le_succ _), Nat.add_sub_cancel_left]
      rfl
    have cut : (before ++ 0x0A :: after).drop (before ++ [(0x0A : UInt8)]).length = after := by
      rw [show before ++ 0x0A :: after = (before ++ [0x0A]) ++ after by simp, List.drop_left]
    rw [kept, cut]
    exact ⟨by rw [List.append_assoc]; rfl, absent later, .inr ⟨before, rfl⟩⟩

/-- Lines that are blank have no checksum to index. -/
theorem filterMap_checksum_filter (blank : ∀ line, isBlankLine line → checksum line = none)
    (texts : List (List UInt8)) :
    (texts.filter fun line => !isBlankLine line).filterMap checksum = texts.filterMap checksum := by
  rw [List.filterMap_filter]
  refine List.filterMap_congr fun line _ => ?_
  cases here : isBlankLine line with
  | false => rfl
  | true => exact (blank line here).symm

/-- The file is text where its lines are and its tail is. -/
theorem isValid_eq (bytes : List UInt8) :
    isValid bytes = (isValid (recoverTornTail bytes) && isValid (tornTail bytes)) := by
  obtain ⟨whole, -, none | ⟨before, some⟩⟩ := recoverTornTail_append_tornTail bytes
  · rw [none] at whole ⊢
    conv_lhs => rw [whole]
    rw [List.nil_append, isValid_nil, Bool.true_and]
  · rw [some] at whole ⊢
    conv_lhs => rw [whole]
    rw [List.append_assoc, List.singleton_append, isValid_append_ascii (by decide),
      isValid_append_ascii (by decide), isValid_nil, Bool.and_true]

/-- The lines of the file are those that survive, and its tail. -/
theorem lines_eq (bytes : List UInt8) :
    lines bytes = lines (recoverTornTail bytes) ++ [tornTail bytes].filter (· ≠ []) := by
  obtain ⟨whole, unterminated, none | ⟨before, some⟩⟩ := recoverTornTail_append_tornTail bytes
  · rw [none] at whole ⊢
    conv_lhs => rw [whole]
    rw [List.nil_append, lines_eq_of_unterminated unterminated, lines_nil, List.nil_append]
  · rw [some] at whole ⊢
    conv_lhs => rw [whole]
    rw [List.append_assoc, List.singleton_append, lines_newline_append unterminated]

/-- The index of a file that is text: the surviving hashes, and that of the tail. -/
theorem contentHashIndex_of_valid (blank : ∀ line, isBlankLine line → checksum line = none)
    {bytes : List UInt8} (valid : isValid bytes = true) :
    contentHashIndex checksum bytes =
      survivingHashes checksum bytes ∪ (checksum (tornTail bytes)).toFinset := by
  rw [contentHashIndex, if_pos valid, filterMap_checksum_filter blank, lines_eq,
    List.filterMap_append, List.toFinset_append, survivingHashes]
  congr 1
  by_cases empty : tornTail bytes = []
  · rw [empty, blank [] rfl]
    rfl
  · rw [List.filter_cons_of_pos (by simpa using empty)]
    cases hash : checksum (tornTail bytes) with
    | none => simp [hash]
    | some _ => simp [hash]

/-- The file as the commit session sees it: what is read on each line, and on the tail. -/
def outputFileOf (url checksum : List UInt8 → Option String) (bytes : List UInt8) : OutputFile :=
  let read (line : List UInt8) : ExportLine := ⟨url line, checksum line, isValid line⟩
  ⟨(lines (recoverTornTail bytes)).map read, ([tornTail bytes].filter (· ≠ [])).head?.map read⟩

/-- The index of the session's file is the one read off the bytes. -/
theorem buildContentHashIndex_outputFileOf (url : List UInt8 → Option String)
    (blank : ∀ line, isBlankLine line → checksum line = none) (bytes : List UInt8) :
    buildContentHashIndex (outputFileOf url checksum bytes) = contentHashIndex checksum bytes := by
  have texts : (outputFileOf url checksum bytes).lines ++
      (outputFileOf url checksum bytes).tail.toList =
        (lines bytes).map fun line => ⟨url line, checksum line, isValid line⟩ := by
    rw [lines_eq, List.map_append]
    by_cases empty : tornTail bytes = []
    · simp [outputFileOf, empty]
    · simp [outputFileOf, empty]
  unfold buildContentHashIndex contentHashIndex
  dsimp only
  rw [texts, List.all_map, List.filterMap_map, filterMap_checksum_filter blank,
    isValid_eq_all_lines bytes]
  rfl

/-- The two indexes agree just where the session cannot open the file, the tail is text without a
hash that the surviving lines lack, or it is no text and no surviving line has a hash. -/
theorem indexesAgree_iff (blank : ∀ line, isBlankLine line → checksum line = none)
    (bytes : List UInt8) :
    IndexesAgree checksum bytes ↔
      isValid (recoverTornTail bytes) = false ∨
        if isValid (tornTail bytes) then
          ∀ hash, checksum (tornTail bytes) = some hash → hash ∈ survivingHashes checksum bytes
        else survivingHashes checksum bytes = ∅ := by
  cases readable : isValid (recoverTornTail bytes) with
  | false =>
      refine iff_of_true (fun index opened => ?_) (.inl rfl)
      rw [openIndex, buildHashIndex, readable] at opened
      cases opened
  | true =>
      have opens : openIndex checksum bytes = some (survivingHashes checksum bytes) := by
        rw [openIndex, buildHashIndex, if_pos readable, survivingHashes]
      have agree : IndexesAgree checksum bytes ↔
          contentHashIndex checksum bytes = survivingHashes checksum bytes := by
        rw [IndexesAgree, opens]
        simp
      rw [agree, or_iff_right (by simp : ¬ true = false)]
      cases text : isValid (tornTail bytes) with
      | true =>
          have valid : isValid bytes = true := by rw [isValid_eq, readable, text]; rfl
          rw [contentHashIndex_of_valid blank valid, if_pos rfl, Finset.union_eq_left]
          cases checksum (tornTail bytes) with
          | none => simp
          | some hash => simp
      | false =>
          have broken : ¬ isValid bytes = true := by rw [isValid_eq, readable, text]; decide
          rw [contentHashIndex, if_neg broken, if_neg (by decide)]
          exact eq_comm

end Indexes

/-! ## A line that is not terminated -/

/-- The line of an object with this checksum alone. -/
def checksumLine (hash : String) : List UInt8 :=
  encode ("\x7b\"checksum_sha256\":\"".toList ++ hash.toList ++ "\"\x7d".toList)

/-- What `serde_json` reads on the lines of the files below. -/
def sampleChecksum (line : List UInt8) : Option String :=
  if line = checksumLine "aa" then some "aa"
  else if line = checksumLine "bb" then some "bb"
  else none

theorem sampleChecksum_of_blank (line : List UInt8) (blank : isBlankLine line) :
    sampleChecksum line = none := by
  have first : isBlankLine (checksumLine "aa") = false := by decide +kernel
  have second : isBlankLine (checksumLine "bb") = false := by decide +kernel
  unfold sampleChecksum
  rw [if_neg, if_neg]
  · rintro rfl
    rw [second] at blank
    cases blank
  · rintro rfl
    rw [first] at blank
    cases blank

/-- The last line is not terminated, and its hash is there before it. -/
theorem indexes_agree_on_repeated_line :
    IndexesAgree sampleChecksum
      (checksumLine "aa" ++ 0x0A :: checksumLine "bb" ++ 0x0A :: checksumLine "aa") :=
  (indexesAgree_iff sampleChecksum_of_blank _).mpr (by decide +kernel)

/-- A line that the recovery cuts off is a proof of its own flush. -/
theorem torn_line_proves_flush :
    ¬ IndexesAgree sampleChecksum (checksumLine "aa" ++ 0x0A :: checksumLine "bb") := by
  decide +kernel

end Webfang
