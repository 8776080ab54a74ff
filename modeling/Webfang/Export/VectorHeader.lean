import Webfang.Export.VectorFile

/-!
# The header windows

The markers of the two windows are found where the layout has them, the count is read back as
it was written, and a patch replaces one window by a value of its width and nothing else.
-/

namespace Webfang

open Utf8 (encode encode_append encode_cons)

/-! ## Windows -/

theorem length_padLeft (width : Nat) (text : List Char) :
    (padLeft width text).length = max width text.length := by
  rw [padLeft, List.length_append, List.length_replicate]
  omega

theorem length_padLeft_of_le {width : Nat} {text : List Char} (fits : text.length ≤ width) :
    (padLeft width text).length = width := by
  rw [length_padLeft]
  omega

/-- A character of a window: a blank, a digit, or a letter of `null`. -/
def isWindowChar (c : Char) : Bool := c == ' ' || c.isDigit || c == 'n' || c == 'u' || c == 'l'

theorem isWindowChar_of_mem_padLeft {width : Nat} {text : List Char}
    (inner : ∀ c ∈ text, isWindowChar c = true) : ∀ c ∈ padLeft width text, isWindowChar c = true := by
  intro c member
  rcases List.mem_append.mp member with blank | shown
  · rw [List.eq_of_mem_replicate blank]
    rfl
  · exact inner c shown

theorem isWindowChar_of_mem_ofNat {n : Nat} {c : Char} (member : c ∈ Json.ofNat n) :
    isWindowChar c = true := by
  simp [isWindowChar, Json.isDigit_of_mem_ofNat member]

theorem isWindowChar_of_mem_dimensionsJson {dimensions : Option Nat} {c : Char}
    (member : c ∈ dimensionsJson dimensions) : isWindowChar c = true := by
  cases dimensions with
  | some d => exact isWindowChar_of_mem_ofNat member
  | none =>
      have letters : ∀ c ∈ "null".toList, isWindowChar c = true :=
        List.all_eq_true.mp (by decide)
      exact letters c member

theorem toNat_of_isWindowChar {c : Char} (window : isWindowChar c = true) :
    c.toNat < 0x80 ∧ c.toNat ≠ 0x22 := by
  simp only [isWindowChar, Bool.or_eq_true, beq_iff_eq] at window
  rcases window with (((rfl | digit) | rfl) | rfl) | rfl
  · decide
  · simp only [Char.isDigit, ge_iff_le, Bool.and_eq_true, decide_eq_true_eq] at digit
    have low : 48 ≤ c.toNat := digit.1
    have high : c.toNat ≤ 57 := digit.2
    omega
  all_goals decide

theorem length_encode_window {text : List Char} (window : ∀ c ∈ text, isWindowChar c = true) :
    (encode text).length = text.length :=
  Utf8.length_encode_ascii fun c member => (toNat_of_isWindowChar (window c member)).1

/-! ## Finding a marker -/

/-- No occurrence of the needle begins in these bytes: it fails inside them. -/
def clear (needle : List UInt8) : List UInt8 → Bool
  | [] => true
  | b :: rest => ((b :: rest).zip needle).any (fun pair => pair.1 != pair.2) && clear needle rest

theorem not_isPrefixOf_of_zip {needle before : List UInt8} (after : List UInt8)
    (fails : (before.zip needle).any (fun pair => pair.1 != pair.2) = true) :
    needle.isPrefixOf (before ++ after) = false := by
  induction before generalizing needle with
  | nil => cases fails
  | cons b before ih =>
      cases needle with
      | nil => cases fails
      | cons n needle =>
          rw [List.cons_append, List.isPrefixOf_cons_cons]
          rw [List.zip_cons_cons, List.any_cons, Bool.or_eq_true] at fails
          rcases fails with different | later
          · have other : (n == b) = false := by
              rw [beq_eq_false_iff_ne]
              exact fun same => by simp [same] at different
            rw [other, Bool.false_and]
          · rw [ih later, Bool.and_false]

theorem mem_zip_append {left right needle : List UInt8} {pair : UInt8 × UInt8}
    (member : pair ∈ left.zip needle) : pair ∈ (left ++ right).zip needle := by
  induction left generalizing needle with
  | nil => cases member
  | cons b left ih =>
      cases needle with
      | nil => cases member
      | cons n needle =>
          rw [List.zip_cons_cons] at member
          rw [List.cons_append, List.zip_cons_cons]
          exact (List.mem_cons.mp member).elim (fun same => same ▸ List.mem_cons_self ..)
            fun later => List.mem_cons_of_mem _ (ih later)

theorem clear_append {needle left right : List UInt8} (first : clear needle left = true)
    (second : clear needle right = true) : clear needle (left ++ right) = true := by
  induction left with
  | nil => exact second
  | cons b left ih =>
      rw [clear, Bool.and_eq_true] at first
      rw [List.cons_append, clear, Bool.and_eq_true]
      refine ⟨?_, ih first.2⟩
      obtain ⟨pair, member, different⟩ := List.any_eq_true.mp first.1
      refine List.any_eq_true.mpr ⟨pair, ?_, different⟩
      rw [← List.cons_append]
      exact mem_zip_append member

theorem clear_of_ne {n : UInt8} {needle bytes : List UInt8} (other : ∀ b ∈ bytes, b ≠ n) :
    clear (n :: needle) bytes = true := by
  induction bytes with
  | nil => rfl
  | cons b bytes ih =>
      obtain ⟨here, later⟩ := List.forall_mem_cons.mp other
      rw [clear, ih later, List.zip_cons_cons, List.any_cons]
      simp [here]

/-- A needle is found behind bytes that are clear of it. -/
theorem findSubslice_of_clear {needle before : List UInt8} (nonempty : needle ≠ [])
    (ahead : clear needle before = true) (after : List UInt8) :
    findSubslice needle (before ++ (needle ++ after)) = some before.length := by
  induction before with
  | nil =>
      obtain ⟨n, rest, rfl⟩ := List.exists_cons_of_ne_nil nonempty
      rw [List.nil_append, List.cons_append, findSubslice, if_pos]
      · rfl
      · rw [← List.cons_append]
        exact List.isPrefixOf_iff_prefix.mpr (List.prefix_append ..)
  | cons b before ih =>
      rw [clear, Bool.and_eq_true] at ahead
      rw [List.cons_append, findSubslice, ← List.cons_append,
        not_isPrefixOf_of_zip (needle ++ after) ahead.1, ih ahead.2]
      simp

/-! ## Reading and patching a window -/

/-- A window behind its marker: what the marker finds in the head of the file. -/
structure WindowAt (head marker : List UInt8) (position width : Nat) : Prop where
  found : findSubslice marker head = some position
  sentinel : head[position + marker.length + width]? = some 0x2C

/-- The head of a file keeps a window that ends inside it. -/
theorem readHeaderBytes_layout {before marker window : List UInt8} (after : List UInt8)
    (inside : before.length + marker.length + window.length < headerScanBytes) :
    ∃ rest, readHeaderBytes (before ++ (marker ++ (window ++ 0x2C :: after))) =
      before ++ (marker ++ (window ++ 0x2C :: rest)) := by
  obtain ⟨room, enough⟩ : ∃ room, headerScanBytes =
      before.length + (marker.length + (window.length + (room + 1))) :=
    ⟨headerScanBytes - (before.length + marker.length + window.length) - 1, by omega⟩
  refine ⟨after.take room, ?_⟩
  rw [readHeaderBytes, enough, List.take_length_add_append, List.take_length_add_append,
    List.take_length_add_append, List.take_succ_cons]

/-- A file whose head holds `before`, the marker, a window and a comma. -/
theorem windowAt_of_layout {before marker window after : List UInt8} (nonempty : marker ≠ [])
    (ahead : clear marker before = true)
    (inside : before.length + marker.length + window.length < headerScanBytes) :
    WindowAt (readHeaderBytes (before ++ (marker ++ (window ++ 0x2C :: after)))) marker
      before.length window.length := by
  obtain ⟨rest, head⟩ := readHeaderBytes_layout after inside
  rw [head]
  refine ⟨findSubslice_of_clear nonempty ahead _, ?_⟩
  rw [Nat.add_assoc, List.getElem?_append_right (Nat.le_add_right ..), Nat.add_sub_cancel_left,
    List.getElem?_append_right (Nat.le_add_right ..), Nat.add_sub_cancel_left,
    List.getElem?_append_right (Nat.le_refl _), Nat.sub_self]
  rfl

/-- What the head of such a file holds in the window. -/
theorem window_of_layout {before marker window after : List UInt8}
    (inside : before.length + marker.length + window.length < headerScanBytes) :
    ((readHeaderBytes (before ++ (marker ++ (window ++ 0x2C :: after)))).drop
      (before.length + marker.length)).take window.length = window := by
  obtain ⟨rest, head⟩ := readHeaderBytes_layout after inside
  rw [head, ← List.append_assoc, ← List.length_append, List.drop_left, List.take_left]

theorem overwrite_window (before : List UInt8) {window value : List UInt8} (after : List UInt8)
    (same : value.length = window.length) :
    overwrite (before ++ (window ++ after)) before.length value = before ++ (value ++ after) := by
  unfold overwrite
  rw [List.take_left, same, ← List.append_assoc before, ← List.length_append, List.drop_left,
    List.append_assoc]

/-- A patch writes a value of the window's width over the window, or fails. -/
theorem patchHeaderField_ok {head before marker window after : List UInt8} {fieldName : String}
    {value : List Char} {patched : List UInt8}
    (position : WindowAt head marker before.length window.length)
    (ok : patchHeaderField (before ++ (marker ++ (window ++ after))) head marker fieldName value
      window.length = .ok patched) :
    (encode value).length = window.length ∧
      patched = before ++ (marker ++ (encode value ++ after)) := by
  unfold patchHeaderField at ok
  split at ok
  · cases ok
  · rename_i width
    rw [position.found] at ok
    dsimp only at ok
    rw [if_pos position.sentinel] at ok
    cases ok
    have same : (encode value).length = window.length := by simpa using width
    refine ⟨same, ?_⟩
    have written := overwrite_window (before ++ marker) after same
    rwa [List.append_assoc, List.append_assoc, List.length_append] at written

theorem isWhitespace_of_isDigit {c : Char} (digit : c.isDigit = true) :
    isWhitespace c = false := by
  simp only [Char.isDigit, ge_iff_le, Bool.and_eq_true, decide_eq_true_eq,
    UInt32.le_iff_toNat_le] at digit
  simp only [isWhitespace, Bool.or_eq_false_iff, Bool.and_eq_false_iff, decide_eq_false_iff_not,
    beq_eq_false_iff_ne, UInt32.le_iff_toNat_le, ne_eq, ← UInt32.toNat_inj]
  simp at digit ⊢
  omega

/-- The digits of a number are all of a trimmed window. -/
theorem trim_padLeft (width n : Nat) : trim (padLeft width (Json.ofNat n)) = Json.ofNat n := by
  have shown : ∀ c ∈ Json.ofNat n, isWhitespace c = false :=
    fun c member => isWhitespace_of_isDigit (Json.isDigit_of_mem_ofNat member)
  have kept {text : List Char} (visible : ∀ c ∈ text, isWhitespace c = false) :
      text.dropWhile isWhitespace = text := by
    cases text with
    | nil => rfl
    | cons c text =>
        exact List.dropWhile_cons_of_neg (by simp [visible c (List.mem_cons_self ..)])
  have front : (padLeft width (Json.ofNat n)).dropWhile isWhitespace = Json.ofNat n := by
    unfold padLeft
    induction width - (Json.ofNat n).length with
    | zero => exact kept shown
    | succ k ih =>
        rw [List.replicate_succ, List.cons_append, List.dropWhile_cons_of_pos (by decide), ih]
  unfold trim
  rw [front, kept fun c member => shown c (List.mem_reverse.mp member), List.reverse_reverse]

/-- The count is read back from its window. -/
theorem parseCountField_encode {δ ε : Type} (codec : VectorCodec δ ε) {n : Nat}
    (fits : (Json.ofNat n).length ≤ countFieldWidth) :
    parseCountField codec (encode (padLeft countFieldWidth (Json.ofNat n))) = .ok n := by
  have small : n < 2 ^ 64 := by
    have bound : n < 10 ^ countFieldWidth :=
      (Nat.length_toDigits_le_iff (by decide) (by decide)).mp fits
    unfold countFieldWidth at bound
    omega
  have unsigned : (Json.ofNat n).head? ≠ some '+' := by
    obtain ⟨c, rest, written, digit, -⟩ := Json.ofNat_eq_cons n
    rw [written, List.head?_cons]
    exact fun same => Json.ne_of_isDigit digit rfl (Option.some.inj same)
  have digits : (Json.ofNat n).all Char.isDigit = true :=
    List.all_eq_true.mpr fun c member => Json.isDigit_of_mem_ofNat member
  have nonempty : (Json.ofNat n).isEmpty = false := by
    obtain ⟨c, rest, written, -⟩ := Json.ofNat_eq_cons n
    rw [written]
    rfl
  have parsed : parseUsize (Json.ofNat n) = some n := by
    unfold parseUsize
    rw [if_neg unsigned]
    dsimp only
    rw [nonempty, digits]
    simp only [Bool.not_true, Bool.or_self, Bool.false_eq_true, if_false]
    rw [show Nat.ofDigitChars 10 (Json.ofNat n) 0 = n from Nat.ofDigitChars_ten_toDigits,
      if_pos small]
  unfold parseCountField
  rw [Utf8.decode_encode]
  dsimp only
  rw [trim_padLeft, parsed]

end Webfang
