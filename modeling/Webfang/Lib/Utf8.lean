import Mathlib.Data.List.Basic
import Mathlib.Tactic.SplitIfs

/-!
# UTF-8 and its lossy reading

`encode` is the encoding of a text.  `chunks` cuts any byte string the way a lossy reader
does: into the encodings of characters and into maximal runs that begin none, each of which
the reader replaces by U+FFFD.  A byte string cut out of an encoding is a text again, behind
the continuation bytes of the character it was cut in.
-/

namespace Utf8

def encode (text : List Char) : List UInt8 := text.flatMap String.utf8EncodeChar

@[simp] theorem encode_nil : encode [] = [] := rfl

@[simp] theorem encode_cons (c : Char) (text : List Char) :
    encode (c :: text) = String.utf8EncodeChar c ++ encode text := rfl

@[simp] theorem encode_append (text rest : List Char) :
    encode (text ++ rest) = encode text ++ encode rest := List.flatMap_append

/-- A byte that continues a character. -/
def isContinuation (b : UInt8) : Bool := decide (0x80 ≤ b.toNat ∧ b.toNat ≤ 0xBF)

/-- Whether `second` may follow the lead byte `lead` of a three-byte character. -/
def secondOfThree (lead second : UInt8) : Bool :=
  if lead.toNat = 0xE0 then decide (0xA0 ≤ second.toNat ∧ second.toNat ≤ 0xBF)
  else if lead.toNat = 0xED then decide (0x80 ≤ second.toNat ∧ second.toNat ≤ 0x9F)
  else isContinuation second

/-- Whether `second` may follow the lead byte `lead` of a four-byte character. -/
def secondOfFour (lead second : UInt8) : Bool :=
  if lead.toNat = 0xF0 then decide (0x90 ≤ second.toNat ∧ second.toNat ≤ 0xBF)
  else if lead.toNat = 0xF4 then decide (0x80 ≤ second.toNat ∧ second.toNat ≤ 0x8F)
  else isContinuation second

/-- The chunk at the head of a byte string: whether it encodes a character, and its length. -/
def scan (b : UInt8) : List UInt8 → Bool × Nat
  | rest =>
    if b.toNat < 0x80 then (true, 1)
    else if 0xC2 ≤ b.toNat ∧ b.toNat ≤ 0xDF then
      match rest with
      | second :: _ => if isContinuation second then (true, 2) else (false, 1)
      | [] => (false, 1)
    else if 0xE0 ≤ b.toNat ∧ b.toNat ≤ 0xEF then
      match rest with
      | second :: rest =>
          if secondOfThree b second then
            match rest with
            | third :: _ => if isContinuation third then (true, 3) else (false, 2)
            | [] => (false, 2)
          else (false, 1)
      | [] => (false, 1)
    else if 0xF0 ≤ b.toNat ∧ b.toNat ≤ 0xF4 then
      match rest with
      | second :: rest =>
          if secondOfFour b second then
            match rest with
            | third :: rest =>
                if isContinuation third then
                  match rest with
                  | fourth :: _ => if isContinuation fourth then (true, 4) else (false, 3)
                  | [] => (false, 3)
                else (false, 2)
            | [] => (false, 2)
          else (false, 1)
      | [] => (false, 1)
    else (false, 1)

/-- The chunks of a byte string, at most `fuel` of them. -/
def chunksFuel : Nat → List UInt8 → List (Bool × List UInt8)
  | 0, _ | _, [] => []
  | fuel + 1, b :: rest =>
      let (valid, width) := scan b rest
      (valid, (b :: rest).take width) :: chunksFuel fuel ((b :: rest).drop width)

/-- The chunks of a byte string. -/
def chunks (bytes : List UInt8) : List (Bool × List UInt8) := chunksFuel bytes.length bytes

/-- The encoding of U+FFFD. -/
def replacement : List UInt8 := [0xEF, 0xBF, 0xBD]

/-- The encoding of what a lossy reader reads. -/
def fromUtf8Lossy (bytes : List UInt8) : List UInt8 :=
  (chunks bytes).flatMap fun chunk => if chunk.1 then chunk.2 else replacement

/-- The code point a character's bytes carry. -/
def codePoint : List UInt8 → Nat
  | [a] => a.toNat
  | [a, b] => a.toNat % 32 * 64 + b.toNat % 64
  | [a, b, c] => a.toNat % 16 * 4096 + b.toNat % 64 * 64 + c.toNat % 64
  | [a, b, c, d] =>
      a.toNat % 8 * 262144 + b.toNat % 64 * 4096 + c.toNat % 64 * 64 + d.toNat % 64
  | _ => 0

/-- What a strict reader reads, if anything. -/
def decode (bytes : List UInt8) : Option (List Char) :=
  if (chunks bytes).all (·.1) then
    some ((chunks bytes).map fun chunk => Char.ofNat (codePoint chunk.2))
  else none

/-! ## Characters -/

/-- The bytes of a character, by its size. -/
theorem utf8EncodeChar_cases (c : Char) :
    (∃ a, String.utf8EncodeChar c = [a] ∧ a.toNat = c.toNat ∧ c.toNat < 0x80) ∨
    (∃ a b, String.utf8EncodeChar c = [a, b] ∧ a.toNat = c.toNat / 64 + 0xC0 ∧
      b.toNat = c.toNat % 64 + 0x80 ∧ 0x80 ≤ c.toNat ∧ c.toNat < 0x800) ∨
    (∃ a b d, String.utf8EncodeChar c = [a, b, d] ∧ a.toNat = c.toNat / 4096 + 0xE0 ∧
      b.toNat = c.toNat / 64 % 64 + 0x80 ∧ d.toNat = c.toNat % 64 + 0x80 ∧
      0x800 ≤ c.toNat ∧ c.toNat < 0x10000 ∧ ¬ (0xD800 ≤ c.toNat ∧ c.toNat ≤ 0xDFFF)) ∨
    (∃ a b d e, String.utf8EncodeChar c = [a, b, d, e] ∧ a.toNat = c.toNat / 262144 + 0xF0 ∧
      b.toNat = c.toNat / 4096 % 64 + 0x80 ∧ d.toNat = c.toNat / 64 % 64 + 0x80 ∧
      e.toNat = c.toNat % 64 + 0x80 ∧ 0x10000 ≤ c.toNat ∧ c.toNat < 0x110000) := by
  have scalar : c.toNat < 0xD800 ∨ 0xDFFF < c.toNat ∧ c.toNat < 0x110000 := c.valid
  unfold String.utf8EncodeChar
  have same : c.val.toNat = c.toNat := rfl
  simp only [same]
  split
  · exact .inl ⟨_, rfl, by simp; omega, by omega⟩
  · split
    · exact .inr (.inl ⟨_, _, rfl, by simp; omega, by simp; omega, by omega, by omega⟩)
    · split
      · exact .inr (.inr (.inl ⟨_, _, _, rfl, by simp; omega, by simp; omega, by simp; omega,
          by omega, by omega, by omega⟩))
      · exact .inr (.inr (.inr ⟨_, _, _, _, rfl, by simp; omega, by simp; omega, by simp; omega,
          by simp; omega, by omega, by omega⟩))

theorem encodeChar_ne_nil (c : Char) : String.utf8EncodeChar c ≠ [] := by
  rcases utf8EncodeChar_cases c with ⟨_, same, -⟩ | ⟨_, _, same, -⟩ | ⟨_, _, _, same, -⟩ |
    ⟨_, _, _, _, same, -⟩ <;> simp [same]

/-- A character is scanned whole, whatever comes behind it. -/
theorem scan_encodeChar {c : Char} {b : UInt8} {more : List UInt8}
    (encoded : String.utf8EncodeChar c = b :: more) (rest : List UInt8) :
    scan b (more ++ rest) = (true, (b :: more).length) := by
  unfold scan
  rcases utf8EncodeChar_cases c with ⟨x, same, lead, bound⟩ |
    ⟨x, y, same, lead, second, low, high⟩ |
    ⟨x, y, z, same, lead, second, third, low, high, scalar⟩ |
    ⟨x, y, z, w, same, lead, second, third, fourth, low, high⟩
  · rw [encoded] at same
    cases same
    rw [if_pos (by omega)]
    rfl
  · rw [encoded] at same
    cases same
    have tail : isContinuation y = true := by simp [isContinuation]; omega
    rw [if_neg (by omega), if_pos (by omega)]
    simp [tail]
  · rw [encoded] at same
    cases same
    have tails : isContinuation z = true := by simp [isContinuation]; omega
    have after : secondOfThree b y = true := by
      unfold secondOfThree isContinuation
      split
      · simp; omega
      · split
        · simp; omega
        · simp; omega
    rw [if_neg (by omega), if_neg (by omega), if_pos (by omega)]
    simp [tails, after]
  · rw [encoded] at same
    cases same
    have tails : isContinuation z = true ∧ isContinuation w = true := by
      simp [isContinuation]
      omega
    have after : secondOfFour b y = true := by
      unfold secondOfFour isContinuation
      split
      · simp; omega
      · split
        · simp; omega
        · simp; omega
    rw [if_neg (by omega), if_neg (by omega), if_neg (by omega), if_pos (by omega)]
    simp [tails, after]

theorem codePoint_encodeChar (c : Char) : codePoint (String.utf8EncodeChar c) = c.toNat := by
  rcases utf8EncodeChar_cases c with ⟨x, same, lead, bound⟩ |
    ⟨x, y, same, lead, second, low, high⟩ |
    ⟨x, y, z, same, lead, second, third, low, high, -⟩ |
    ⟨x, y, z, w, same, lead, second, third, fourth, low, high⟩
  all_goals
    rw [same]
    simp only [codePoint]
    omega

/-- The first byte of a character continues none, all the others do. -/
theorem isContinuation_encodeChar {c : Char} {b : UInt8} {more : List UInt8}
    (encoded : String.utf8EncodeChar c = b :: more) :
    isContinuation b = false ∧ ∀ x ∈ more, isContinuation x = true := by
  unfold isContinuation
  rcases utf8EncodeChar_cases c with ⟨x, same, lead, bound⟩ |
    ⟨x, y, same, lead, second, low, high⟩ |
    ⟨x, y, z, same, lead, second, third, low, high, -⟩ |
    ⟨x, y, z, w, same, lead, second, third, fourth, low, high⟩
  all_goals
    rw [encoded] at same
    cases same
    simp
    omega

theorem length_encodeChar_le (c : Char) : (String.utf8EncodeChar c).length ≤ 4 := by
  rw [String.length_utf8EncodeChar]
  exact c.utf8Size_le_four

/-- A character below 0x80 is its own byte. -/
theorem encodeChar_ascii {c : Char} (ascii : c.toNat < 0x80) :
    String.utf8EncodeChar c = [UInt8.ofNat c.toNat] := by
  unfold String.utf8EncodeChar
  have same : c.val.toNat = c.toNat := rfl
  simp only [same]
  rw [if_pos (by omega)]

/-- A byte below 0x80 in a character is the whole character. -/
theorem eq_of_mem_encodeChar {c : Char} {b : UInt8} (member : b ∈ String.utf8EncodeChar c)
    (ascii : b.toNat < 0x80) : c.toNat = b.toNat := by
  rcases utf8EncodeChar_cases c with ⟨x, same, lead, bound⟩ |
    ⟨x, y, same, lead, second, low, high⟩ |
    ⟨x, y, z, same, lead, second, third, low, high, -⟩ |
    ⟨x, y, z, w, same, lead, second, third, fourth, low, high⟩
  all_goals
    rw [same] at member
    simp only [List.mem_cons, List.not_mem_nil, or_false] at member
  · rw [member, lead]
  · rcases member with rfl | rfl <;> omega
  · rcases member with rfl | rfl | rfl <;> omega
  · rcases member with rfl | rfl | rfl | rfl <;> omega

/-! ## Chunks -/

theorem scan_width_pos (b : UInt8) (rest : List UInt8) : 0 < (scan b rest).2 := by
  unfold scan
  rcases rest with _ | ⟨second, _ | ⟨third, _ | ⟨fourth, rest⟩⟩⟩ <;> dsimp only <;>
    split_ifs <;> decide

/-- Any fuel that counts every byte gives the same chunks. -/
theorem chunksFuel_eq {fuel more : Nat} {bytes : List UInt8} (enough : bytes.length ≤ fuel)
    (plenty : bytes.length ≤ more) : chunksFuel fuel bytes = chunksFuel more bytes := by
  induction fuel generalizing more bytes with
  | zero =>
      rw [List.length_eq_zero_iff.mp (Nat.le_zero.mp enough)]
      cases more <;> rfl
  | succ fuel ih =>
      cases bytes with
      | nil => cases more <;> rfl
      | cons b rest =>
          rw [List.length_cons] at enough plenty
          obtain ⟨more, rfl⟩ := Nat.exists_eq_succ_of_ne_zero (n := more) (by omega)
          have positive := scan_width_pos b rest
          have shorter : ((b :: rest).drop (scan b rest).2).length ≤ rest.length := by
            rw [List.length_drop, List.length_cons]
            omega
          simp only [chunksFuel]
          rw [ih (by omega) (by omega : _ ≤ more)]

theorem chunks_cons (b : UInt8) (rest : List UInt8) :
    chunks (b :: rest) =
      ((scan b rest).1, (b :: rest).take (scan b rest).2) ::
        chunks ((b :: rest).drop (scan b rest).2) := by
  have positive := scan_width_pos b rest
  unfold chunks
  simp only [List.length_cons, chunksFuel]
  rw [chunksFuel_eq _ (Nat.le_refl ((b :: rest).drop (scan b rest).2).length)]
  rw [List.length_drop, List.length_cons]
  omega

/-- A character at the head is a chunk. -/
theorem chunks_encodeChar_append (c : Char) (rest : List UInt8) :
    chunks (String.utf8EncodeChar c ++ rest) =
      (true, String.utf8EncodeChar c) :: chunks rest := by
  cases encoded : String.utf8EncodeChar c with
  | nil => exact absurd encoded (encodeChar_ne_nil c)
  | cons b more =>
      rw [List.cons_append, chunks_cons, scan_encodeChar encoded, ← List.cons_append,
        List.take_left, List.drop_left]

theorem chunks_encode_append (text : List Char) (rest : List UInt8) :
    chunks (encode text ++ rest) =
      text.map (fun c => (true, String.utf8EncodeChar c)) ++ chunks rest := by
  induction text with
  | nil => rfl
  | cons c text ih =>
      rw [encode_cons, List.append_assoc, chunks_encodeChar_append, ih]
      rfl

/-- A stray continuation byte is a chunk of its own. -/
theorem chunks_continuation {b : UInt8} (stray : isContinuation b = true) (rest : List UInt8) :
    chunks (b :: rest) = (false, [b]) :: chunks rest := by
  have range : 0x80 ≤ b.toNat ∧ b.toNat ≤ 0xBF := by simpa [isContinuation] using stray
  have broken : scan b rest = (false, 1) := by
    unfold scan
    rw [if_neg (by omega), if_neg (by omega), if_neg (by omega), if_neg (by omega)]
  rw [chunks_cons, broken]
  rfl

/-! ## Reading an encoding -/

/-- A strict reader reads an encoding back. -/
theorem decode_encode (text : List Char) : decode (encode text) = some text := by
  have whole := chunks_encode_append text []
  rw [List.append_nil, show chunks [] = [] from rfl, List.append_nil] at whole
  unfold decode
  rw [whole, if_pos (by simp), List.map_map]
  refine congrArg some ?_
  conv_rhs => rw [← List.map_id text]
  refine List.map_congr_left fun c _ => ?_
  simp only [Function.comp_apply, codePoint_encodeChar, id_eq]
  exact Char.ofNat_toNat c

theorem encode_injective : Function.Injective encode := by
  intro left right same
  have decoded := decode_encode left
  rw [same, decode_encode] at decoded
  exact (Option.some.inj decoded).symm

theorem fromUtf8Lossy_encode (text : List Char) : fromUtf8Lossy (encode text) = encode text := by
  have whole := chunks_encode_append text []
  rw [List.append_nil, show chunks [] = [] from rfl, List.append_nil] at whole
  unfold fromUtf8Lossy
  rw [whole, List.flatMap_map]
  rfl

/-- A stray continuation byte reads as a replacement character. -/
theorem fromUtf8Lossy_continuation {b : UInt8} (stray : isContinuation b = true)
    (rest : List UInt8) : fromUtf8Lossy (b :: rest) = replacement ++ fromUtf8Lossy rest := by
  unfold fromUtf8Lossy
  rw [chunks_continuation stray]
  rfl

/-- Each byte of a torn character is replaced on its own. -/
theorem fromUtf8Lossy_stray {stray : List UInt8} (continues : ∀ b ∈ stray, isContinuation b = true)
    (rest : List UInt8) :
    fromUtf8Lossy (stray ++ rest) =
      stray.flatMap (fun _ => replacement) ++ fromUtf8Lossy rest := by
  induction stray with
  | nil => rfl
  | cons b stray ih =>
      obtain ⟨here, later⟩ := List.forall_mem_cons.mp continues
      rw [List.cons_append, fromUtf8Lossy_continuation here, ih later, List.flatMap_cons,
        List.append_assoc]

/-- What is left of an encoding from some byte on: the rest of the character cut there, then
the encoding of the characters behind it. -/
theorem drop_encode (text : List Char) (n : Nat) :
    ∃ stray rest, (encode text).drop n = stray ++ encode rest ∧ rest <:+ text ∧
      (∀ b ∈ stray, isContinuation b = true) ∧ stray.length < 4 := by
  induction text generalizing n with
  | nil => exact ⟨[], [], by simp, List.suffix_rfl, by simp, by simp⟩
  | cons c text ih =>
      rw [encode_cons]
      have size := length_encodeChar_le c
      cases encoded : String.utf8EncodeChar c with
      | nil => exact absurd encoded (encodeChar_ne_nil c)
      | cons b more =>
          rw [encoded, List.length_cons] at size
          rcases Nat.lt_or_ge n (b :: more).length with inside | beyond
          · cases n with
            | zero =>
                refine ⟨[], c :: text, ?_, List.suffix_rfl, by simp, by simp⟩
                rw [encode_cons, encoded]
                rfl
            | succ n =>
                rw [List.length_cons] at inside
                refine ⟨more.drop n, text, ?_, List.suffix_cons .., ?_, ?_⟩
                · rw [List.cons_append, List.drop_succ_cons,
                    List.drop_append_of_le_length (by omega)]
                · intro x member
                  exact (isContinuation_encodeChar encoded).2 x (List.mem_of_mem_drop member)
                · rw [List.length_drop]
                  omega
          · obtain ⟨stray, rest, same, suffix, continues, short⟩ := ih (n - (b :: more).length)
            refine ⟨stray, rest, ?_, suffix.trans (List.suffix_cons ..), continues, short⟩
            rw [← same, List.drop_append, List.drop_of_length_le beyond, List.nil_append]

/-- An encoding does not begin inside a character. -/
theorem isContinuation_head {text : List Char} {b : UInt8} (first : (encode text)[0]? = some b) :
    isContinuation b = false := by
  cases text with
  | nil => cases first
  | cons c text =>
      rw [encode_cons] at first
      cases encoded : String.utf8EncodeChar c with
      | nil => exact absurd encoded (encodeChar_ne_nil c)
      | cons d more =>
          rw [encoded] at first
          cases first
          exact (isContinuation_encodeChar encoded).1

/-- Cut where no character is cut, an encoding is the encoding of a text. -/
theorem drop_encode_of_boundary {text : List Char} {n : Nat}
    (boundary : ∀ b, (encode text)[n]? = some b → isContinuation b = false) :
    ∃ rest, (encode text).drop n = encode rest ∧ rest <:+ text := by
  obtain ⟨stray, rest, same, suffix, continues, -⟩ := drop_encode text n
  cases stray with
  | nil => exact ⟨rest, same, suffix⟩
  | cons b stray =>
      have first : (encode text)[n]? = some b := by
        rw [← List.head?_drop, same]
        rfl
      have stray := continues b (List.mem_cons_self ..)
      rw [boundary b first] at stray
      cases stray

/-! ## ASCII -/

theorem length_encode_ascii {text : List Char} (ascii : ∀ c ∈ text, c.toNat < 0x80) :
    (encode text).length = text.length := by
  induction text with
  | nil => rfl
  | cons c text ih =>
      obtain ⟨here, later⟩ := List.forall_mem_cons.mp ascii
      rw [encode_cons, encodeChar_ascii here, List.length_append, ih later]
      simp [Nat.add_comm]

/-- An ASCII byte occurs in an encoding only as its own character. -/
theorem mem_of_mem_encode {text : List Char} {b : UInt8} (member : b ∈ encode text)
    (ascii : b.toNat < 0x80) : Char.ofNat b.toNat ∈ text := by
  obtain ⟨c, inText, inChar⟩ := List.mem_flatMap.mp member
  rw [← eq_of_mem_encodeChar inChar ascii, Char.ofNat_toNat]
  exact inText

theorem takeWhile_stray {stray : List UInt8} {text : List Char}
    (continues : ∀ b ∈ stray, isContinuation b = true) :
    (stray ++ encode text).takeWhile isContinuation = stray := by
  rw [List.takeWhile_append_of_pos continues]
  cases shape : encode text with
  | nil => simp
  | cons b rest =>
      have lead : isContinuation b = false :=
        isContinuation_head (show (encode text)[0]? = some b by rw [shape]; rfl)
      rw [List.takeWhile_cons_of_neg (by rw [lead]; decide), List.append_nil]

theorem encode_take {text : List Char} (ascii : ∀ c ∈ text, c.toNat < 0x80) (n : Nat) :
    encode (text.take n) = (encode text).take n := by
  induction text generalizing n with
  | nil => simp
  | cons c text ih =>
      obtain ⟨here, later⟩ := List.forall_mem_cons.mp ascii
      cases n with
      | zero => rfl
      | succ n =>
          rw [List.take_succ_cons, encode_cons, encode_cons, encodeChar_ascii here,
            List.singleton_append, List.singleton_append, List.take_succ_cons, ih later]

theorem encode_zeros (n : Nat) : encode (List.replicate n '\x00') = List.replicate n 0 := by
  induction n with
  | zero => rfl
  | succ n ih =>
      rw [List.replicate_succ, List.replicate_succ, encode_cons, ih]
      rfl

end Utf8
