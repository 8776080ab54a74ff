import Mathlib.Data.List.Basic
import Webfang.Lib.Utf8

/-!
# Lines of a UTF-8 text

A text is its bytes.  An ASCII byte is never part of a longer character, so a text can be cut at
its newlines: it is valid where its lines are, and its lines are those before a newline and those
behind it.
-/

namespace Utf8

/-- Every chunk encodes a character. -/
def isValid (bytes : List UInt8) : Bool := (chunks bytes).all (·.1)

@[simp] theorem isValid_nil : isValid [] = true := rfl

/-! ## Validity at an ASCII byte -/

section Ascii

variable {sep : UInt8} (ascii : sep.toNat < 0x80)

include ascii

/-- A chunk does not reach over an ASCII byte. -/
theorem scan_append_ascii (b : UInt8) (rest more : List UInt8) :
    scan b (rest ++ sep :: more) = scan b rest := by
  have single : isContinuation sep = false := by
    rw [isContinuation, decide_eq_false_iff_not]
    omega
  have three : secondOfThree b sep = false := by
    unfold secondOfThree
    split_ifs
    · rw [decide_eq_false_iff_not]
      omega
    · rw [decide_eq_false_iff_not]
      omega
    · exact single
  have four : secondOfFour b sep = false := by
    unfold secondOfFour
    split_ifs
    · rw [decide_eq_false_iff_not]
      omega
    · rw [decide_eq_false_iff_not]
      omega
    · exact single
  unfold scan
  rcases rest with _ | ⟨x, _ | ⟨y, _ | ⟨z, rest⟩⟩⟩
  · simp [single, three, four]
  · simp [single]
  · simp [single]
  · rfl

omit ascii in
theorem scan_width_le (b : UInt8) (rest : List UInt8) : (scan b rest).2 ≤ rest.length + 1 := by
  unfold scan
  rcases rest with _ | ⟨x, _ | ⟨y, _ | ⟨z, rest⟩⟩⟩ <;> dsimp only <;> split_ifs <;> simp

theorem chunks_append_ascii (before more : List UInt8) :
    chunks (before ++ sep :: more) = chunks before ++ (true, [sep]) :: chunks more := by
  induction size : before.length using Nat.strongRecOn generalizing before with
  | ind n ih =>
      cases before with
      | nil =>
          have single : scan sep more = (true, 1) := by
            unfold scan
            rw [if_pos ascii]
          rw [List.nil_append, chunks_cons, single]
          rfl
      | cons b rest =>
          have positive := scan_width_pos b rest
          have inside := scan_width_le b rest
          rw [List.cons_append, chunks_cons, chunks_cons, scan_append_ascii ascii,
            ← List.cons_append, List.take_append_of_le_length (by simpa using inside),
            List.drop_append_of_le_length (by simpa using inside), List.cons_append]
          refine congrArg _ (ih _ ?_ _ rfl)
          rw [List.length_drop, ← size, List.length_cons]
          omega

/-- A text is valid where it is on both sides of the byte. -/
theorem isValid_append_ascii (before more : List UInt8) :
    isValid (before ++ sep :: more) = (isValid before && isValid more) := by
  unfold isValid
  rw [chunks_append_ascii ascii, List.all_append, List.all_cons, Bool.true_and]

end Ascii

/-! ## Lines -/

/-- A line without the carriage return before its newline. -/
def stripCr (line : List UInt8) : List UInt8 :=
  if line.getLast? = some 0x0D then line.dropLast else line

/-- The lines of a text: what stands before each newline, and what stands behind the last one, if
anything does. -/
def lines (text : List UInt8) : List (List UInt8) :=
  let parts := text.splitOn 0x0A
  parts.dropLast.map stripCr ++ parts.getLast?.toList.filter (· ≠ [])

@[simp] theorem lines_nil : lines [] = [] := rfl

theorem isValid_stripCr (line : List UInt8) : isValid (stripCr line) = isValid line := by
  unfold stripCr
  split
  · rename_i last
    have whole := List.dropLast_append_getLast? 0x0D last
    conv_rhs => rw [← whole]
    rw [isValid_append_ascii (by decide), isValid_nil, Bool.and_true]
  · rfl

/-- A text of whole lines and what follows it. -/
theorem lines_newline_append {tail : List UInt8} (unterminated : 0x0A ∉ tail)
    (before : List UInt8) :
    lines (before ++ 0x0A :: tail) = lines (before ++ [0x0A]) ++ [tail].filter (· ≠ []) := by
  have cut : tail.splitOn 0x0A = [tail] := List.splitOn_eq_singleton unterminated
  have empty : ([] : List UInt8).splitOn 0x0A = [[]] := rfl
  unfold lines
  rw [List.splitOn_append_cons_self, List.splitOn_append_cons_self, cut, empty]
  simp

theorem lines_eq_of_unterminated {tail : List UInt8} (unterminated : 0x0A ∉ tail) :
    lines tail = [tail].filter (· ≠ []) := by
  unfold lines
  rw [List.splitOn_eq_singleton unterminated]
  rfl

theorem isValid_eq_all_splitOn (text : List UInt8) :
    isValid text = (text.splitOn 0x0A).all isValid := by
  induction size : text.length using Nat.strongRecOn generalizing text with
  | ind n ih =>
      by_cases newline : 0x0A ∈ text
      · obtain ⟨before, after, rfl⟩ := List.append_of_mem newline
        rw [List.length_append, List.length_cons] at size
        rw [isValid_append_ascii (by decide), List.splitOn_append_cons_self, List.all_append,
          ih before.length (by omega) before rfl, ih after.length (by omega) after rfl]
      · rw [List.splitOn_eq_singleton newline, List.all_cons, List.all_nil, Bool.and_true]

/-- A text is valid where its lines are. -/
theorem isValid_eq_all_lines (text : List UInt8) : isValid text = (lines text).all isValid := by
  rw [isValid_eq_all_splitOn, lines]
  have stripped (parts : List (List UInt8)) :
      (parts.map stripCr).all isValid = parts.all isValid := by
    simp only [List.all_map, Function.comp_def, isValid_stripCr]
  have shown (last : List UInt8) : ([last].filter (· ≠ [])).all isValid = [last].all isValid := by
    by_cases empty : last = []
    · rw [empty]
      rfl
    · rw [List.filter_cons_of_pos (by simpa using empty), List.filter_nil]
  rw [List.all_append, stripped]
  cases last : (text.splitOn 0x0A).getLast? with
  | none =>
      rw [List.getLast?_eq_none_iff.mp last]
      rfl
  | some part =>
      rw [Option.toList_some, shown, ← List.all_append, List.dropLast_append_getLast? part last]

end Utf8
