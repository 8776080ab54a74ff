import Webfang.Lib.Execution
import Webfang.Export.VectorHeader

/-!
# Appending to a vector file

Successful calls of any number of exporters on one path, in append mode.  As long as no append
starts its scan window inside a character, every call leaves a file that reads as the
documents exported so far; an append that does start inside one cuts the file too late.
-/

namespace Webfang

open Utf8 (encode encode_append encode_cons)
open StepSystem

/-! ## Cutting the closing bracket off -/

theorem rfind_of_last {p : UInt8 → Bool} {before after : List UInt8} {b : UInt8}
    (found : p b = true) (last : ∀ x ∈ after, p x = false) :
    rfind p (before ++ b :: after) = some before.length := by
  have none : rfind p after = none := by
    induction after with
    | nil => rfl
    | cons x after ih =>
        obtain ⟨here, later⟩ := List.forall_mem_cons.mp last
        rw [rfind, ih later]
        simp [here]
  induction before with
  | nil => rw [List.nil_append, rfind, none]; simp [found]
  | cons x before ih => rw [List.cons_append, rfind, ih]; rfl

/-- How many bytes of a character the scan window of an append to this file starts behind. -/
def tornBytes (file : List UInt8) : Nat :=
  ((file.drop (file.length - 256)).takeWhile Utf8.isContinuation).length

/-- The writer cuts two bytes too late for each byte of a character that its scan window tears
off. -/
theorem vectorWriter_cut {opened : List Char} {closing : List Char} {after : List UInt8}
    (closes : encode closing = 0x5D :: after) (others : ∀ b ∈ after, (b == 0x5D) = false)
    (short : after.length < 256) :
    vectorWriter true (some (encode (opened ++ closing))) =
      setLen (encode (opened ++ closing))
        ((encode opened).length + 2 * tornBytes (encode (opened ++ closing))) := by
  let start := (encode (opened ++ closing)).length - 256
  have shape : encode (opened ++ closing) = encode opened ++ 0x5D :: after := by
    rw [encode_append, closes]
  have long : (encode (opened ++ closing)).length = (encode opened).length + (after.length + 1) := by
    rw [shape, List.length_append, List.length_cons]
  have early : start ≤ (encode opened).length := by omega
  obtain ⟨stray, rest, split, -, continues, -⟩ := Utf8.drop_encode (opened ++ closing) start
  have window : (encode opened).drop start ++ 0x5D :: after = stray ++ encode rest := by
    rw [← split, shape, List.drop_append_of_le_length early]
  -- the bracket is no continuation byte, so it stands behind the torn bytes
  obtain ⟨middle, front, back⟩ : ∃ middle, (encode opened).drop start = stray ++ middle ∧
      encode rest = middle ++ 0x5D :: after := by
    rcases List.append_eq_append_iff.mp window with ⟨inner, torn, left⟩ | ⟨middle, front, back⟩
    · cases inner with
      | nil => exact ⟨[], by rw [torn]; simp, left.symm⟩
      | cons b inner =>
          obtain ⟨rfl, -⟩ := List.cons.inj left
          have bracket : Utf8.isContinuation 0x5D = true := continues _ (by rw [torn]; simp)
          exact absurd bracket (by decide)
    · exact ⟨middle, front, back⟩
  have torn : tornBytes (encode (opened ++ closing)) = stray.length := by
    unfold tornBytes
    rw [split, Utf8.takeWhile_stray continues]
  have read : Utf8.fromUtf8Lossy ((encode (opened ++ closing)).drop start) =
      (stray.flatMap (fun _ => Utf8.replacement) ++ middle) ++ 0x5D :: after := by
    rw [split, Utf8.fromUtf8Lossy_stray continues, Utf8.fromUtf8Lossy_encode, back, List.append_assoc]
  have nonempty : (encode (opened ++ closing)).isEmpty = false := by
    rw [shape]
    simp
  have replaced : (stray.flatMap fun _ => Utf8.replacement).length = 3 * stray.length := by
    rw [List.length_flatMap]
    simp [Utf8.replacement, Nat.mul_comm]
  have place : start + (stray.length + middle.length) = (encode opened).length := by
    rw [← List.length_append, ← front, List.length_drop]
    omega
  unfold vectorWriter
  dsimp only
  rw [nonempty]
  simp only [Bool.false_eq_true, if_false]
  rw [read, rfind_of_last (by decide) others, torn]
  dsimp only
  rw [List.length_append, replaced]
  refine congrArg (setLen _) ?_
  omega

/-- What a writer whose scan window tears `torn` bytes off leaves of the closing line. -/
def closingLeft (closing : List Char) (torn : Nat) : List Char :=
  closing.take (2 * torn) ++ List.replicate (2 * torn - closing.length) '\x00'

theorem closingLeft_zero (closing : List Char) : closingLeft closing 0 = [] := by
  simp [closingLeft]

theorem closingLeft_succ (a b : Char) (closing : List Char) (torn : Nat) :
    closingLeft (a :: b :: closing) (torn + 1) = a :: b :: closingLeft closing torn := by
  have twice : 2 * (torn + 1) = 2 * torn + 1 + 1 := by omega
  unfold closingLeft
  rw [twice, List.take_succ_cons, List.take_succ_cons, List.length_cons, List.length_cons,
    Nat.add_sub_add_right, Nat.add_sub_add_right]
  rfl

theorem mem_closingLeft {closing : List Char} {torn : Nat} {c : Char}
    (member : c ∈ closingLeft closing torn) : c ∈ closing ∨ c = '\x00' := by
  rcases List.mem_append.mp member with kept | filled
  · exact .inl (List.mem_of_mem_take kept)
  · exact .inr (List.eq_of_mem_replicate filled)

/-- What the writer leaves of a text whose closing line starts with its last bracket. -/
theorem vectorWriter_closing (opened closing : List Char)
    (plain : closing.all (fun c => decide (c.toNat < 0x80 ∧ c ≠ ']')) = true)
    (short : closing.length < 256) :
    vectorWriter true (some (encode (opened ++ ']' :: closing))) =
      encode (opened ++ closingLeft (']' :: closing)
        (tornBytes (encode (opened ++ ']' :: closing)))) := by
  have each (c : Char) (member : c ∈ closing) : c.toNat < 0x80 ∧ c ≠ ']' :=
    of_decide_eq_true (List.all_eq_true.mp plain c member)
  have ascii (c : Char) (member : c ∈ closing) : c.toNat < 0x80 := (each c member).1
  have whole : ∀ c ∈ ']' :: closing, c.toNat < 0x80 :=
    List.forall_mem_cons.mpr ⟨by decide, ascii⟩
  have closes : encode (']' :: closing) = 0x5D :: encode closing := rfl
  have others : ∀ b ∈ encode closing, (b == 0x5D) = false := by
    intro b member
    rw [beq_eq_false_iff_ne]
    intro same
    rw [same] at member
    exact (each _ (Utf8.mem_of_mem_encode member (by decide))).2 rfl
  rw [vectorWriter_cut closes others (by rw [Utf8.length_encode_ascii ascii]; exact short)]
  generalize tornBytes (encode (opened ++ ']' :: closing)) = torn
  unfold setLen closingLeft
  rw [encode_append, encode_append, encode_append, Utf8.encode_take whole, Utf8.encode_zeros,
    List.take_length_add_append, List.length_append, Utf8.length_encode_ascii whole,
    Nat.add_sub_add_left, List.append_assoc]

/-- What the writer leaves of a whole file. -/
theorem vectorWriter_text (opened : List Char) :
    vectorWriter true (some (encode (opened ++ "]\x7d\n".toList))) =
      encode (opened ++ closingLeft "]\x7d\n".toList
        (tornBytes (encode (opened ++ "]\x7d\n".toList)))) :=
  vectorWriter_closing opened "\x7d\n".toList (by decide) (by decide)

/-- The scan window of an append to this file does not start inside a character. -/
def OnBoundary (file : List UInt8) : Prop :=
  256 < file.length → ∀ b ∈ file[file.length - 256]?, Utf8.isContinuation b = false

instance (file : List UInt8) : Decidable (OnBoundary file) :=
  inferInstanceAs (Decidable (_ → ∀ b ∈ file[file.length - 256]?, _))

theorem tornBytes_of_onBoundary {text : List Char} (boundary : OnBoundary (encode text)) :
    tornBytes (encode text) = 0 := by
  have cutsNone : ∀ b, (encode text)[(encode text).length - 256]? = some b →
      Utf8.isContinuation b = false := by
    intro b here
    rcases Nat.lt_or_ge 256 (encode text).length with large | small
    · exact boundary large b here
    · rw [Nat.sub_eq_zero_of_le small] at here
      exact Utf8.isContinuation_head here
  obtain ⟨rest, left, -⟩ := Utf8.drop_encode_of_boundary cutsNone
  have none : (([] : List UInt8) ++ encode rest).takeWhile Utf8.isContinuation = [] :=
    Utf8.takeWhile_stray (by simp)
  unfold tornBytes
  rw [left, ← List.nil_append (encode rest), none]
  rfl

/-- On a boundary the writer cuts exactly the closing line off. -/
theorem vectorWriter_of_onBoundary {opened : List Char}
    (boundary : OnBoundary (encode (opened ++ "]\x7d\n".toList))) :
    vectorWriter true (some (encode (opened ++ "]\x7d\n".toList))) = encode opened := by
  rw [vectorWriter_text, tornBytes_of_onBoundary boundary, closingLeft_zero, List.append_nil]

/-! ## The windows of a file -/

section Windows

variable (window counted createdAt lines : List Char)

/-- What stands before the marker of the dimensions. -/
def beforeDimensions : List Char := "\x7b\"format_version\": \"1.0\", \"model_name\": null, ".toList

/-- What stands before the marker of the count. -/
def beforeCount : List Char := beforeDimensions ++ "\"dimensions\": ".toList ++ window ++ ", ".toList

theorem headerStart_eq :
    "\x7b\"format_version\": \"1.0\", \"model_name\": null, \"dimensions\": ".toList =
      beforeDimensions ++ "\"dimensions\": ".toList := by
  decide +kernel

theorem headerLine_dimensions :
    headerLine window counted createdAt ++ lines =
      beforeDimensions ++ ("\"dimensions\": ".toList ++ (window ++ ',' ::
        (" \"total_documents\": ".toList ++ (counted ++ (", \"created_at\": \"".toList ++
          (createdAt ++ ("\", \"documents\": [".toList ++ lines))))))) := by
  have second : ", \"total_documents\": ".toList = ',' :: " \"total_documents\": ".toList := rfl
  unfold headerLine
  rw [headerStart_eq, second]
  simp only [List.append_assoc, List.cons_append]

theorem headerLine_count :
    headerLine window counted createdAt ++ lines =
      beforeCount window ++ ("\"total_documents\": ".toList ++ (counted ++ ',' ::
        (" \"created_at\": \"".toList ++ (createdAt ++ ("\", \"documents\": [".toList ++
          lines))))) := by
  have second : ", \"total_documents\": ".toList = ", ".toList ++ "\"total_documents\": ".toList :=
    rfl
  have third : ", \"created_at\": \"".toList = ',' :: " \"created_at\": \"".toList := rfl
  unfold headerLine beforeCount
  rw [headerStart_eq, second, third]
  simp only [List.append_assoc, List.cons_append]

theorem encode_comma (text : List Char) : encode (',' :: text) = 0x2C :: encode text := rfl

variable {window counted}

theorem length_beforeCount (windowed : ∀ c ∈ window, isWindowChar c = true) :
    (encode (beforeCount window)).length = 62 + window.length := by
  unfold beforeCount
  rw [encode_append, encode_append, encode_append, List.length_append, List.length_append,
    List.length_append, length_encode_window windowed]
  have parts : (encode beforeDimensions).length = 46 ∧
      (encode "\"dimensions\": ".toList).length = 14 ∧ (encode ", ".toList).length = 2 := by decide
  omega

/-- The count's marker stands nowhere before its window. -/
theorem clear_beforeCount (windowed : ∀ c ∈ window, isWindowChar c = true) :
    clear (bytesOf "\"total_documents\": ") (encode (beforeCount window)) = true := by
  unfold beforeCount
  rw [encode_append, encode_append]
  refine clear_append (clear_append (by decide +kernel) ?_) (by decide +kernel)
  refine clear_of_ne fun b member same => ?_
  rw [same] at member
  exact (toNat_of_isWindowChar (windowed _ (Utf8.mem_of_mem_encode member (by decide)))).2 rfl

/-- The window of the count ends inside the head. -/
theorem count_inside (windowed : ∀ c ∈ window, isWindowChar c = true)
    (digits : ∀ c ∈ counted, isWindowChar c = true)
    (fits : window.length + counted.length ≤ 400) :
    (encode (beforeCount window)).length + (bytesOf "\"total_documents\": ").length +
      (encode counted).length < headerScanBytes := by
  rw [length_beforeCount windowed, length_encode_window digits]
  have marker : (bytesOf "\"total_documents\": ").length = 19 := by decide
  rw [marker]
  unfold headerScanBytes
  omega

/-- The marker of the count finds its window. -/
theorem windowAt_count (windowed : ∀ c ∈ window, isWindowChar c = true)
    (digits : ∀ c ∈ counted, isWindowChar c = true)
    (fits : window.length + counted.length ≤ 400) :
    WindowAt (readHeaderBytes (encode (headerLine window counted createdAt ++ lines)))
      (bytesOf "\"total_documents\": ") (encode (beforeCount window)).length
      (encode counted).length := by
  rw [headerLine_count, encode_append, encode_append, encode_append, encode_comma]
  exact windowAt_of_layout (by decide) (clear_beforeCount windowed)
    (count_inside windowed digits fits)

/-- The head of the file holds the count in its window. -/
theorem window_count (windowed : ∀ c ∈ window, isWindowChar c = true)
    (digits : ∀ c ∈ counted, isWindowChar c = true)
    (fits : window.length + counted.length ≤ 400) :
    ((readHeaderBytes (encode (headerLine window counted createdAt ++ lines))).drop
      ((encode (beforeCount window)).length + (bytesOf "\"total_documents\": ").length)).take
        (encode counted).length = encode counted := by
  rw [headerLine_count, encode_append, encode_append, encode_append, encode_comma]
  exact window_of_layout (count_inside windowed digits fits)

/-- The marker of the dimensions finds its window. -/
theorem windowAt_dimensions (windowed : ∀ c ∈ window, isWindowChar c = true)
    (fits : window.length ≤ 400) :
    WindowAt (readHeaderBytes (encode (headerLine window counted createdAt ++ lines)))
      (bytesOf "\"dimensions\": ") (encode beforeDimensions).length (encode window).length := by
  rw [headerLine_dimensions, encode_append, encode_append, encode_append, encode_comma]
  refine windowAt_of_layout (by decide) (by decide +kernel) ?_
  rw [length_encode_window windowed]
  have parts : (encode beforeDimensions).length = 46 ∧
      (encode "\"dimensions\": ".toList).length = 14 := by decide
  rw [parts.1, parts.2]
  unfold headerScanBytes
  omega

/-- A patch of the count, on the text of the file. -/
theorem patch_count {head : List UInt8} {fieldName : String} {value : List Char}
    {patched : List UInt8} {width : Nat} (digits : ∀ c ∈ counted, isWindowChar c = true)
    (sized : counted.length = width)
    (written : ∀ c ∈ value, isWindowChar c = true)
    (position : WindowAt head (bytesOf "\"total_documents\": ") (encode (beforeCount window)).length
      (encode counted).length)
    (ok : patchHeaderField (encode (headerLine window counted createdAt ++ lines)) head
      (bytesOf "\"total_documents\": ") fieldName value width = .ok patched) :
    value.length = width ∧
      patched = encode (headerLine window value createdAt ++ lines) := by
  rw [← sized, ← length_encode_window digits, headerLine_count, encode_append, encode_append,
    encode_append] at ok
  obtain ⟨same, rfl⟩ := patchHeaderField_ok position ok
  rw [length_encode_window written, length_encode_window digits] at same
  refine ⟨same.trans sized, ?_⟩
  rw [headerLine_count, encode_append, encode_append, encode_append]
  rfl

/-- A patch of the dimensions, on the text of the file. -/
theorem patch_dimensions {head : List UInt8} {fieldName : String} {value : List Char}
    {patched : List UInt8} {width : Nat} (windowed : ∀ c ∈ window, isWindowChar c = true)
    (sized : window.length = width)
    (written : ∀ c ∈ value, isWindowChar c = true)
    (position : WindowAt head (bytesOf "\"dimensions\": ") (encode beforeDimensions).length
      (encode window).length)
    (ok : patchHeaderField (encode (headerLine window counted createdAt ++ lines)) head
      (bytesOf "\"dimensions\": ") fieldName value width = .ok patched) :
    value.length = width ∧
      patched = encode (headerLine value counted createdAt ++ lines) := by
  rw [← sized, ← length_encode_window windowed, headerLine_dimensions, encode_append, encode_append,
    encode_append] at ok
  obtain ⟨same, rfl⟩ := patchHeaderField_ok position ok
  rw [length_encode_window written, length_encode_window windowed] at same
  refine ⟨same.trans sized, ?_⟩
  rw [headerLine_dimensions, encode_append, encode_append, encode_append]
  rfl

end Windows

theorem padLeft_fits {width : Nat} {text : List Char}
    (same : (padLeft width text).length = width) : text.length ≤ width := by
  rw [length_padLeft] at same
  omega

theorem isWindowChar_of_mem_dimWindow (dimensions : Option Nat) :
    ∀ c ∈ padLeft dimFieldWidth (dimensionsJson dimensions), isWindowChar c = true :=
  isWindowChar_of_mem_padLeft fun _ member => isWindowChar_of_mem_dimensionsJson member

theorem isWindowChar_of_mem_countWindow (n : Nat) :
    ∀ c ∈ padLeft countFieldWidth (Json.ofNat n), isWindowChar c = true :=
  isWindowChar_of_mem_padLeft fun _ member => isWindowChar_of_mem_ofNat member

/-- What `close_json` leaves when it succeeds: the closing line, the count, and the dimensions
where they are known. -/
theorem closeJson_ok {known dimensions : Option Nat} {counted createdAt lines : List Char}
    {total : Nat} {closed : List UInt8}
    (fits : (dimensionsJson dimensions).length ≤ dimFieldWidth)
    (digits : ∀ c ∈ counted, isWindowChar c = true) (width : counted.length = countFieldWidth)
    (ok : closeJson known (encode (headerLine (padLeft dimFieldWidth (dimensionsJson dimensions))
      counted createdAt ++ lines)) total = (.ok (), closed)) :
    (Json.ofNat total).length ≤ countFieldWidth ∧
      (dimensionsJson (known.or dimensions)).length ≤ dimFieldWidth ∧
      closed = encode (headerLine (padLeft dimFieldWidth (dimensionsJson (known.or dimensions)))
        (padLeft countFieldWidth (Json.ofNat total)) createdAt ++ (lines ++ "]\x7d\n".toList)) := by
  have sized : (padLeft dimFieldWidth (dimensionsJson dimensions)).length = dimFieldWidth :=
    length_padLeft_of_le fits
  have room : (padLeft dimFieldWidth (dimensionsJson dimensions)).length + counted.length ≤ 400 := by
    rw [sized, width]
    decide
  have countAt := windowAt_count createdAt (lines ++ "]\x7d\n".toList)
    (isWindowChar_of_mem_dimWindow dimensions) digits room
  unfold closeJson at ok
  rw [show ∀ text, encode text ++ bytesOf "]\x7d\n" = encode (text ++ "]\x7d\n".toList) from
    fun text => (encode_append ..).symm, List.append_assoc] at ok
  dsimp only at ok
  split at ok
  · cases ok
  · rename_i patched firstOk
    obtain ⟨same, rfl⟩ := patch_count createdAt (lines ++ "]\x7d\n".toList) digits width
      (isWindowChar_of_mem_countWindow total) countAt firstOk
    have countFits := padLeft_fits same
    cases known with
    | none =>
        cases ok
        exact ⟨countFits, fits, rfl⟩
    | some d =>
        dsimp only at ok
        split at ok
        · cases ok
        · rename_i final secondOk
          cases ok
          obtain ⟨same, rfl⟩ := patch_dimensions createdAt (lines ++ "]\x7d\n".toList)
            (isWindowChar_of_mem_dimWindow dimensions) sized
            (isWindowChar_of_mem_dimWindow (some d))
            (windowAt_dimensions createdAt (lines ++ "]\x7d\n".toList)
              (isWindowChar_of_mem_dimWindow dimensions) (by omega)) secondOk
          exact ⟨countFits, padLeft_fits same, rfl⟩

theorem patchHeaderField_of_fits {file head marker : List UInt8} (fieldName : String)
    {value : List Char} {position width : Nat} (place : WindowAt head marker position width)
    (sized : (encode value).length = width) :
    ∃ patched, patchHeaderField file head marker fieldName value width = .ok patched := by
  unfold patchHeaderField
  rw [if_neg (not_not.mpr sized), place.found]
  dsimp only
  rw [if_pos place.sentinel]
  exact ⟨_, rfl⟩

/-- `close_json` succeeds where the count and the dimensions fit their windows. -/
theorem closeJson_of_fits {known dimensions : Option Nat} {count total : Nat}
    (createdAt : Timestamp) (lines : List Char)
    (fits : (dimensionsJson dimensions).length ≤ dimFieldWidth)
    (countFits : (Json.ofNat count).length ≤ countFieldWidth)
    (totalFits : (Json.ofNat total).length ≤ countFieldWidth)
    (knownFits : (dimensionsJson (known.or dimensions)).length ≤ dimFieldWidth) :
    closeJson known (encode (layoutHeader dimensions count createdAt ++ lines)) total =
      (.ok (), encode (layoutHeader (known.or dimensions) total createdAt ++
        (lines ++ "]\x7d\n".toList))) := by
  have windowed := isWindowChar_of_mem_dimWindow dimensions
  have digits := isWindowChar_of_mem_countWindow count
  have sized : (padLeft dimFieldWidth (dimensionsJson dimensions)).length = dimFieldWidth :=
    length_padLeft_of_le fits
  have width : (padLeft countFieldWidth (Json.ofNat count)).length = countFieldWidth :=
    length_padLeft_of_le countFits
  have room : (padLeft dimFieldWidth (dimensionsJson dimensions)).length +
      (padLeft countFieldWidth (Json.ofNat count)).length ≤ 400 := by
    rw [sized, width]
    decide
  have countAt := windowAt_count createdAt.text (lines ++ "]\x7d\n".toList) windowed digits room
  have dimensionsAt : WindowAt (readHeaderBytes (encode (layoutHeader dimensions count createdAt ++
      (lines ++ "]\x7d\n".toList)))) _ _ _ :=
    windowAt_dimensions createdAt.text (lines ++ "]\x7d\n".toList) windowed (by omega)
  unfold layoutHeader at dimensionsAt
  rw [length_encode_window digits, width] at countAt
  rw [length_encode_window windowed, sized] at dimensionsAt
  have totalSized : (encode (padLeft countFieldWidth (Json.ofNat total))).length =
      countFieldWidth := by
    rw [length_encode_window (isWindowChar_of_mem_countWindow total),
      length_padLeft_of_le totalFits]
  have succeeds : ∃ closed, closeJson known
      (encode (layoutHeader dimensions count createdAt ++ lines)) total = (.ok (), closed) := by
    unfold closeJson layoutHeader
    rw [show ∀ text, encode text ++ bytesOf "]\x7d\n" = encode (text ++ "]\x7d\n".toList) from
      fun text => (encode_append ..).symm, List.append_assoc]
    dsimp only
    obtain ⟨counted, first⟩ := patchHeaderField_of_fits "total_documents" countAt totalSized
    rw [first]
    cases known with
    | none => exact ⟨_, rfl⟩
    | some d =>
        have knownSized : (encode (padLeft dimFieldWidth (Json.ofNat d))).length =
            dimFieldWidth :=
          (length_encode_window (isWindowChar_of_mem_dimWindow (some d))).trans
            (length_padLeft_of_le knownFits)
        obtain ⟨patched, second⟩ := patchHeaderField_of_fits "dimensions" dimensionsAt knownSized
        dsimp only
        rw [second]
        exact ⟨_, rfl⟩
  obtain ⟨closed, ok⟩ := succeeds
  obtain ⟨-, -, rfl⟩ := closeJson_ok fits digits width ok
  exact ok

/-! ## Opening a file -/

section Opening

variable {δ ε : Type} (codec : VectorCodec δ ε)

/-- The state of an append reads off the header, whatever stands behind the documents. -/
theorem readAppendState_tail (known : Option Nat) (v : VectorFile) (tail : List Char) :
    readAppendState codec known (encode (v.opened ++ tail)) =
      .ok (v.count, encode (v.opened ++ tail)) := by
  have digits := isWindowChar_of_mem_countWindow v.count
  have windowed := isWindowChar_of_mem_dimWindow v.dimensions
  have width : (padLeft countFieldWidth (Json.ofNat v.count)).length = countFieldWidth :=
    length_padLeft_of_le v.count_fits
  have room : (padLeft dimFieldWidth (dimensionsJson v.dimensions)).length +
      (padLeft countFieldWidth (Json.ofNat v.count)).length ≤ 400 := by
    rw [width, length_padLeft_of_le v.dimensions_fit]
    decide
  have position := windowAt_count v.createdAt.text (documentLines v.first v.rest ++ tail) windowed
    digits room
  have held := window_count v.createdAt.text (documentLines v.first v.rest ++ tail) windowed digits
    room
  rw [length_encode_window digits, width] at position held
  unfold readAppendState VectorFile.opened
  rw [List.append_assoc]
  dsimp only
  rw [position.found]
  dsimp only
  rw [if_pos position.sentinel, held, parseCountField_encode codec (n := v.count) v.count_fits]
  rfl

variable (createdAt : Timestamp) (known : Option Nat)

/-- An append whose writer cuts too late starts behind what is left of the closing line. -/
theorem openVectorFile_tail {v : VectorFile}
    {file : List UInt8} {tail : List Char}
    (cut : vectorWriter true (some file) = encode (v.opened ++ tail)) :
    openVectorFile codec true createdAt known (some file) =
      (.ok (false, v.count), encode (v.opened ++ tail)) := by
  have nonempty : (encode (v.opened ++ tail)).isEmpty = false := by
    unfold VectorFile.opened headerLine
    rfl
  unfold openVectorFile
  dsimp only
  rw [cut, nonempty]
  simp only [Bool.not_true, Bool.or_self, Bool.false_eq_true, if_false]
  rw [readAppendState_tail codec]
  rfl

/-- An append to a vector file starts behind its last document. -/
theorem openVectorFile_bytes {v : VectorFile} (boundary : OnBoundary v.bytes) :
    openVectorFile codec true createdAt known (some v.bytes) =
      (.ok (false, v.count), encode v.opened) := by
  have cut : vectorWriter true (some v.bytes) = encode (v.opened ++ []) := by
    rw [List.append_nil]
    exact vectorWriter_of_onBoundary boundary
  have opened := openVectorFile_tail codec createdAt known cut
  rwa [List.append_nil] at opened

/-- What a call starts a new file with. -/
theorem openVectorFile_new {path : Option (List UInt8)} (new : path.getD [] = []) :
    openVectorFile codec true createdAt known path =
      (.ok (true, 0), buildHeaderLine known createdAt.text) := by
  have started : vectorWriter true path = [] := by
    cases path with
    | none => rfl
    | some file => rw [show file = [] from new]; rfl
  unfold openVectorFile
  dsimp only
  rw [started]
  rfl

end Opening

end Webfang
