import Webfang.Downloader.DocumentScraper
import Webfang.Lib.Segments

/-!
# Names in a `Content-Disposition`

`percent_decode` and `parse_content_disposition`: every decoded byte becomes a character of its own,
and a value is cut at its semicolons before its quotes are looked at.
-/

namespace Webfang.Scrape

open Http

/-! ## What is promised -/

/-- `attr-char` of RFC 5987. -/
def isAttrChar (c : Char) : Bool := c.isAlphanum || "!#$&+-.^_`|~".toList.contains c

/-- The bytes, percent-encoded: attribute characters stand for themselves, and every other byte is
written with two digits. -/
inductive Encoded : List UInt8 → List Char → Prop
  | nil : Encoded [] []
  | plain {c : Char} {bytes : List UInt8} {text : List Char} (attr : isAttrChar c = true)
      (rest : Encoded bytes text) : Encoded (UInt8.ofNat c.toNat :: bytes) (c :: text)
  | escaped {b : UInt8} {high low : Char} {h l : Nat} {bytes : List UInt8} {text : List Char}
      (other : isAttrChar (Char.ofNat b.toNat) = false) (first : Json.hexDigit high = some h)
      (second : Json.hexDigit low = some l) (value : b.toNat = h * 16 + l)
      (rest : Encoded bytes text) : Encoded (b :: bytes) ('%' :: high :: low :: text)

/-- `attachment` with a name that is encoded. -/
def extendedHeader (encoded : List Char) : List Char :=
  "attachment; ".toList ++ ("filename*=UTF-8''".toList ++ encoded)

/-- `attachment` with a name in quotes. -/
def quotedHeader (name : List Char) : List Char :=
  "attachment; ".toList ++ ("filename=".toList ++ '"' :: (name ++ ['"']))

/-- The name survives in quotes: it is not empty, has no semicolon, and no apostrophe at its ends. -/
def SurvivesQuotes (name : List Char) : Prop :=
  name ≠ [] ∧ ';' ∉ name ∧ name.head? ≠ some '\'' ∧ name.getLast? ≠ some '\''

/-! ## Decoded bytes -/

theorem percentDecode_cons {c : Char} (plain : c ≠ '%') (text : List Char) :
    percentDecode (c :: text) = c :: percentDecode text := by
  match text with
  | [] => simp only [percentDecode, if_neg plain]
  | [a] => simp only [percentDecode, if_neg plain]
  | a :: b :: rest => rw [percentDecode, if_neg plain]

theorem percentDecode_percent (a b : Char) (text : List Char) :
    percentDecode ('%' :: a :: b :: text) = percentByte [a, b] ++ percentDecode text := by
  rw [percentDecode, if_pos rfl]

theorem percentByte_digits {high low : Char} {h l : Nat} (first : Json.hexDigit high = some h)
    (second : Json.hexDigit low = some l) : percentByte [high, low] = [Char.ofNat (h * 16 + l)] := by
  have digit : high ≠ '+' := by
    rintro rfl
    cases first
  have byte : byteOfHex [high, low] = some (h * 16 + l) := by
    have whole : ([high, low].head? = some '+') ↔ False := by
      simpa only [List.head?_cons, Option.some.injEq, iff_false] using digit
    simp only [byteOfHex, whole, if_false, List.cons_ne_nil, List.foldlM_cons, List.foldlM_nil, first,
      second, Option.map_some, Option.bind_eq_bind, Option.bind_some, Option.pure_def, Nat.zero_mul,
      Nat.zero_add]
  rw [percentByte, byte]

/-- A property of the ASCII characters can be checked by their codes. -/
theorem of_codes {p : Char → Bool} (codes : ∀ n < 0x80, p (Char.ofNat n) = true) {c : Char}
    (ascii : c.toNat < 0x80) : p c = true := by
  have here := codes c.toNat ascii
  rwa [Char.ofNat_toNat] at here

theorem isAttrChar_ascii {c : Char} (attr : isAttrChar c = true) : c.toNat < 0x80 := by
  have letters : c.isAlphanum = ((decide (c.val ≥ 'A'.val ∧ c.val ≤ 'Z'.val) ||
      (decide (c.val ≥ 'a'.val) && decide (c.val ≤ 'z'.val))) ||
        (decide (c.val ≥ '0'.val) && decide (c.val ≤ '9'.val))) := rfl
  simp only [isAttrChar, letters, Bool.or_eq_true, Bool.and_eq_true, decide_eq_true_eq,
    List.contains_iff_mem] at attr
  rcases attr with ((upper | lower) | digit) | mark
  · exact Nat.lt_of_le_of_lt (UInt32.le_iff_toNat_le.1 upper.2) (by decide)
  · exact Nat.lt_of_le_of_lt (UInt32.le_iff_toNat_le.1 lower.2) (by decide)
  · exact Nat.lt_of_le_of_lt (UInt32.le_iff_toNat_le.1 digit.2) (by decide)
  · simp at mark
    rcases mark with rfl | rfl | rfl | rfl | rfl | rfl | rfl | rfl | rfl | rfl | rfl | rfl <;> decide

theorem isAttrChar_spec {c : Char} (attr : isAttrChar c = true) :
    c ≠ '%' ∧ c ≠ ';' ∧ isWhitespace c = false := by
  have checked := of_codes
    (p := fun c => !isAttrChar c || (c != '%' && c != ';' && !isWhitespace c))
    (by decide +kernel) (isAttrChar_ascii attr)
  rw [attr] at checked
  simpa [bne_iff_ne, and_assoc] using checked

theorem hexDigit_spec {c : Char} {n : Nat} (digit : Json.hexDigit c = some n) :
    c ≠ ';' ∧ isWhitespace c = false := by
  have ascii : c.toNat < 0x80 := by
    unfold Json.hexDigit at digit
    split_ifs at digit with decimal lower upper
    · exact Nat.lt_of_le_of_lt decimal.2 (by decide)
    · exact Nat.lt_of_le_of_lt lower.2 (by decide)
    · exact Nat.lt_of_le_of_lt upper.2 (by decide)
  have checked := of_codes
    (p := fun c => (Json.hexDigit c).isNone || (c != ';' && !isWhitespace c))
    (by decide +kernel) ascii
  rw [digit] at checked
  simpa [bne_iff_ne] using checked

/-- The decoder makes a character of each byte. -/
theorem percentDecode_encoded {bytes : List UInt8} {text : List Char}
    (encoded : Encoded bytes text) :
    percentDecode text = bytes.map fun b => Char.ofNat b.toNat := by
  induction encoded with
  | nil => rfl
  | @plain c bytes text attr rest ih =>
      have ascii := isAttrChar_ascii attr
      have back : (UInt8.ofNat c.toNat).toNat = c.toNat := by
        rw [UInt8.toNat_ofNat', Nat.mod_eq_of_lt (by omega)]
      rw [percentDecode_cons (isAttrChar_spec attr).1, ih, List.map_cons, back, Char.ofNat_toNat]
  | escaped other first second value rest ih =>
      rw [percentDecode_percent, percentByte_digits first second, ih, List.map_cons, value]
      rfl

theorem length_percentByte_le (hex : List Char) : (percentByte hex).length ≤ hex.length + 1 := by
  rw [percentByte]
  split
  · exact Nat.succ_le_succ (Nat.zero_le _)
  · exact Nat.le_refl _

theorem length_percentDecode_le (text : List Char) :
    (percentDecode text).length ≤ text.length := by
  induction text using percentDecode.induct with
  | case1 => exact Nat.le_refl _
  | case2 => exact length_percentByte_le []
  | case3 c plain =>
      rw [percentDecode, if_neg plain]
  | case4 a => exact length_percentByte_le [a]
  | case5 c a plain ih =>
      rw [percentDecode_cons plain]
      exact Nat.succ_le_succ ih
  | case6 a b rest ih =>
      have first := length_percentByte_le [a, b]
      rw [percentDecode_percent, List.length_append]
      simp only [List.length_cons, List.length_nil] at first ⊢
      omega
  | case7 c a b rest plain ih =>
      rw [percentDecode_cons plain]
      exact Nat.succ_le_succ ih

/-- A text takes a byte for each character at least, and more where one is not ASCII. -/
theorem ascii_of_length_encode (text : List Char) :
    text.length ≤ (Utf8.encode text).length ∧
      ((Utf8.encode text).length = text.length → ∀ c ∈ text, c.toNat < 0x80) := by
  induction text with
  | nil => exact ⟨Nat.le_refl _, fun _ c member => absurd member List.not_mem_nil⟩
  | cons d text ih =>
      rw [Utf8.encode_cons, List.length_append, List.length_cons]
      have size : (String.utf8EncodeChar d).length = 1 ∧ d.toNat < 0x80 ∨
          1 < (String.utf8EncodeChar d).length := by
        rcases Utf8.utf8EncodeChar_cases d with ⟨_, bytes, -, ascii⟩ | ⟨_, _, bytes, -⟩ |
          ⟨_, _, _, bytes, -⟩ | ⟨_, _, _, _, bytes, -⟩ <;> rw [bytes]
        · exact .inl ⟨rfl, ascii⟩
        all_goals exact .inr (Nat.succ_lt_succ (Nat.succ_pos _))
      refine ⟨by omega, fun same c member => ?_⟩
      rcases size with ⟨one, ascii⟩ | more
      · rcases List.mem_cons.1 member with rfl | later
        · exact ascii
        · exact ih.2 (by omega) c later
      · omega

theorem map_encode_ascii {text : List Char} (ascii : ∀ c ∈ text, c.toNat < 0x80) :
    (Utf8.encode text).map (fun b => Char.ofNat b.toNat) = text := by
  induction text with
  | nil => rfl
  | cons c text ih =>
      have small := ascii c List.mem_cons_self
      have back : (UInt8.ofNat c.toNat).toNat = c.toNat := by
        rw [UInt8.toNat_ofNat', Nat.mod_eq_of_lt (by omega)]
      rw [Utf8.encode_cons, Utf8.encodeChar_ascii small, List.map_append,
        ih fun d member => ascii d (List.mem_cons_of_mem c member)]
      rw [List.map_singleton, back, Char.ofNat_toNat]
      rfl

/-- The decoded text is the encoded one just if that is ASCII. -/
theorem decoded_eq_iff {name text : List Char} (encoded : Encoded (Utf8.encode name) text) :
    percentDecode text = name ↔ ∀ c ∈ name, c.toNat < 0x80 := by
  rw [percentDecode_encoded encoded]
  constructor
  · intro same
    have lengths := congrArg List.length same
    rw [List.length_map] at lengths
    exact (ascii_of_length_encode name).2 lengths
  · exact map_encode_ascii

/-! ## Parameters -/

theorem Encoded.letters {bytes : List UInt8} {text : List Char} (encoded : Encoded bytes text) :
    ∀ c ∈ text, c ≠ ';' ∧ isWhitespace c = false := by
  induction encoded with
  | nil => exact fun c member => absurd member List.not_mem_nil
  | plain attr rest ih =>
      intro c member
      rcases List.mem_cons.1 member with rfl | later
      · exact (isAttrChar_spec attr).2
      · exact ih c later
  | escaped other first second value rest ih =>
      intro c member
      rcases List.mem_cons.1 member with rfl | member
      · exact ⟨by decide, by decide⟩
      · rcases List.mem_cons.1 member with rfl | member
        · exact hexDigit_spec first
        · rcases List.mem_cons.1 member with rfl | later
          · exact hexDigit_spec second
          · exact ih c later

/-- A parameter behind a space, which ends in no space. -/
theorem trim_parameter {parameter : List Char}
    (first : ∀ c, parameter.head? = some c → isWhitespace c = false)
    (last : ∀ c, parameter.getLast? = some c → isWhitespace c = false) :
    Response.trim (' ' :: parameter) = parameter := by
  rw [Response.trim, List.dropWhile_cons_of_pos (by decide)]
  exact Segments.strip_eq_self first last

theorem filter_nonempty {text : List Char} (nonempty : text ≠ []) :
    (some text).filter (· ≠ []) = some text := Option.filter_some_pos (decide_eq_true nonempty)

theorem extendedName_parameter (text : List Char) :
    extendedName ("filename*=UTF-8''".toList ++ text) = (some (percentDecode text)).filter (· ≠ []) := by
  rw [extendedName, if_pos (List.isPrefixOf_iff_prefix.2 (List.prefix_append _ _))]
  rfl

theorem plainName_parameter (text : List Char) :
    plainName ("filename=".toList ++ text) =
      (some ((text.dropWhile isQuote).rdropWhile isQuote)).filter (· ≠ []) := by
  rw [plainName, if_pos (List.isPrefixOf_iff_prefix.2 (List.prefix_append _ _))]
  rfl

/-- A value with one parameter behind its type. -/
theorem parse_parameter {parameter : List Char} (whole : ';' ∉ parameter) :
    parseContentDisposition ("attachment; ".toList ++ parameter) =
      (extendedName (Response.trim (' ' :: parameter))).or
        (plainName (Response.trim (' ' :: parameter))) := by
  have cut : ("attachment; ".toList ++ parameter).splitOn ';' =
      ["attachment".toList, ' ' :: parameter] := by
    have header : "attachment; ".toList ++ parameter =
        "attachment".toList ++ ';' :: ' ' :: parameter := by simp
    have kept : "attachment".toList.splitOn ';' = ["attachment".toList] :=
      List.splitOn_eq_singleton (by simp)
    have kept' : (' ' :: parameter).splitOn ';' = [' ' :: parameter] :=
      List.splitOn_eq_singleton (by simpa using whole)
    rw [header, List.splitOn_append_cons_self, kept, kept', List.singleton_append]
  have second (read : List Char → Option (List Char))
      (silent : read (Response.trim "attachment".toList) = none) :
      [Response.trim "attachment".toList, Response.trim (' ' :: parameter)].findSome? read =
        read (Response.trim (' ' :: parameter)) := by
    rw [List.findSome?_cons, silent, List.findSome?_singleton]
  rw [parseContentDisposition, cut, List.map_cons, List.map_singleton, second extendedName rfl,
    second plainName rfl]

theorem parse_extendedHeader {name encoded : List Char}
    (encodes : Encoded (Utf8.encode name) encoded) (nonempty : name ≠ []) :
    parseContentDisposition (extendedHeader encoded) = some (percentDecode encoded) := by
  have decoded : percentDecode encoded ≠ [] := by
    rw [percentDecode_encoded encodes, ne_eq, List.map_eq_nil_iff]
    intro empty
    exact nonempty (Utf8.encode_injective empty)
  have nonempty' : encoded ≠ [] := by
    rintro rfl
    exact decoded rfl
  have letters := encodes.letters
  have whole : ';' ∉ "filename*=UTF-8''".toList ++ encoded := by
    rw [List.mem_append, not_or]
    exact ⟨by decide, fun member => (letters ';' member).1 rfl⟩
  have trimmed : Response.trim (' ' :: ("filename*=UTF-8''".toList ++ encoded)) =
      "filename*=UTF-8''".toList ++ encoded := by
    refine trim_parameter (fun c head => ?_) fun c tail => ?_
    · rw [List.head?_append] at head
      cases head
      decide
    · rw [List.getLast?_append_of_ne_nil _ nonempty'] at tail
      exact (letters c (List.mem_of_getLast? tail)).2
  unfold extendedHeader
  rw [parse_parameter whole, trimmed, extendedName_parameter,
    filter_nonempty decoded, Option.some_or]

/-- A quoted name without semicolons is stripped of quotes and apostrophes. -/
theorem parse_quotedHeader {name : List Char} (whole : ';' ∉ name) :
    parseContentDisposition (quotedHeader name) =
      (some ((name.dropWhile isQuote).rdropWhile isQuote)).filter (· ≠ []) := by
  have whole' : ';' ∉ "filename=".toList ++ '"' :: (name ++ ['"']) := by
    simp [whole]
  have trimmed : Response.trim (' ' :: ("filename=".toList ++ '"' :: (name ++ ['"']))) =
      "filename=".toList ++ '"' :: (name ++ ['"']) := by
    refine trim_parameter (fun c head => ?_) fun c tail => ?_
    · rw [List.head?_append] at head
      cases head
      decide
    · rw [← List.cons_append, ← List.append_assoc, List.getLast?_concat] at tail
      cases tail
      decide
  have other : extendedName ("filename=".toList ++ '"' :: (name ++ ['"'])) = none := by
    rw [extendedName, if_neg (by simp)]
  unfold quotedHeader
  rw [parse_parameter whole', trimmed, other, plainName_parameter,
    Segments.strip_between rfl rfl name, Option.none_or]

/-- The name of an extended parameter is far shorter than the parameter. -/
theorem length_of_extendedName {part name : List Char} (named : extendedName part = some name) :
    name.length + 17 ≤ part.length := by
  rw [extendedName] at named
  split at named
  case isTrue starts =>
    rw [Option.filter_eq_some_iff, Option.some.injEq] at named
    obtain ⟨rfl, -⟩ := named
    have decoded := length_percentDecode_le (part.drop 17)
    have long := (List.isPrefixOf_iff_prefix.1 starts).length_le
    rw [List.length_drop] at decoded
    have seventeen : "filename*=UTF-8''".toList.length = 17 := rfl
    omega
  case isFalse => cases named

/-- The name of a plain parameter is a part of it. -/
theorem sublist_of_plainName {part name : List Char} (named : plainName part = some name) :
    name.Sublist part := by
  rw [plainName] at named
  split at named
  case isTrue =>
    rw [Option.filter_eq_some_iff, Option.some.injEq] at named
    obtain ⟨rfl, -⟩ := named
    exact (Segments.strip_sublist _ _).trans (List.drop_sublist _ _)
  case isFalse => cases named

/-- A name with a semicolon is cut. -/
theorem parse_quotedHeader_cut {name : List Char} (cut : ';' ∈ name) :
    parseContentDisposition (quotedHeader name) ≠ some name := by
  intro parsed
  have segments {segment : List Char}
      (member : segment ∈ ((quotedHeader name).splitOn ';').map Response.trim) :
      ';' ∉ segment ∧ (extendedName segment ≠ none → segment.length ≤ name.length + 12) := by
    obtain ⟨raw, inside, rfl⟩ := List.mem_map.1 member
    have trimmed := Segments.strip_sublist isWhitespace raw
    have header : quotedHeader name =
        "attachment".toList ++ ';' :: (" filename=\"".toList ++ (name ++ ['"'])) := by
      unfold quotedHeader
      simp
    rw [header, List.splitOn_append_cons_self] at inside
    rcases List.mem_append.1 inside with first | later
    · have clean : ';' ∉ "attachment".toList := by simp
      rw [List.splitOn_eq_singleton clean, List.mem_singleton] at first
      subst first
      exact ⟨fun there => clean (trimmed.mem there), fun named => absurd rfl named⟩
    · obtain ⟨clean, sublist⟩ := Segments.of_mem_splitOn later
      refine ⟨fun there => clean (trimmed.mem there), fun _ => ?_⟩
      have bound := (trimmed.trans sublist).length_le
      simp only [List.length_append, List.length_singleton] at bound
      have eleven : " filename=\"".toList.length = 11 := by simp
      rw [Response.trim]
      omega
  rw [parseContentDisposition, Option.or_eq_some_iff] at parsed
  rcases parsed with extended | ⟨-, plain⟩
  · obtain ⟨segment, member, named⟩ := List.exists_of_findSome?_eq_some extended
    have shorter := length_of_extendedName named
    have bound := (segments member).2 (by rw [named]; exact Option.some_ne_none name)
    omega
  · obtain ⟨segment, member, named⟩ := List.exists_of_findSome?_eq_some plain
    exact (segments member).1 ((sublist_of_plainName named).mem cut)

/-! ## What survives -/

theorem isQuote_iff {c : Char} : isQuote c = true ↔ c = '"' ∨ c = '\'' := by
  rw [isQuote, Bool.or_eq_true, decide_eq_true_eq, decide_eq_true_eq]

/-- A quoted name comes back just if it survives its quotes. -/
theorem parse_quotedHeader_iff {name : List Char} (unquoted : '"' ∉ name) :
    parseContentDisposition (quotedHeader name) = some name ↔ SurvivesQuotes name := by
  have bare {c : Char} (member : c ∈ name) : isQuote c = false ↔ c ≠ '\'' := by
    have other : c ≠ '"' := fun same => unquoted (same ▸ member)
    rw [← Bool.not_eq_true, isQuote_iff]
    exact ⟨fun neither same => neither (.inr same), fun apart either => either.elim other apart⟩
  constructor
  · intro parsed
    have whole : ';' ∉ name := fun cut => parse_quotedHeader_cut cut parsed
    rw [parse_quotedHeader whole, Option.filter_eq_some_iff, Option.some.injEq] at parsed
    obtain ⟨same, nonempty⟩ := parsed
    have nonempty : name ≠ [] := of_decide_eq_true nonempty
    obtain ⟨first, last⟩ := Segments.ends_of_strip same nonempty
    refine ⟨nonempty, whole, fun head => ?_, fun tail => ?_⟩
    · exact (bare (List.mem_of_head? head)).1 (first _ head) rfl
    · exact (bare (List.mem_of_getLast? tail)).1 (last _ tail) rfl
  · rintro ⟨nonempty, whole, first, last⟩
    have stripped : (name.dropWhile isQuote).rdropWhile isQuote = name := by
      refine Segments.strip_eq_self (fun c head => ?_) fun c tail => ?_
      · exact (bare (List.mem_of_head? head)).2 fun same => first (same ▸ head)
      · exact (bare (List.mem_of_getLast? tail)).2 fun same => last (same ▸ tail)
    rw [parse_quotedHeader whole, stripped, filter_nonempty nonempty]

/-- An encoded name comes back just if it is ASCII, and a quoted one just if it survives its
quotes. -/
theorem names_return_iff {name encoded quoted : List Char} (nonempty : name ≠ [])
    (encodes : Encoded (Utf8.encode name) encoded) (unquoted : '"' ∉ quoted) :
    (parseContentDisposition (extendedHeader encoded) = some name ↔ ∀ c ∈ name, c.toNat < 0x80) ∧
      (parseContentDisposition (quotedHeader quoted) = some quoted ↔ SurvivesQuotes quoted) := by
  rw [parse_extendedHeader encodes nonempty, Option.some.injEq, decoded_eq_iff encodes]
  exact ⟨Iff.rfl, parse_quotedHeader_iff unquoted⟩

theorem plain_names_return :
    (parseContentDisposition (extendedHeader ['a', '%', '2', '0']) = some ['a', ' '] ↔
        ∀ c ∈ ['a', ' '], c.toNat < 0x80) ∧
      (parseContentDisposition (quotedHeader ['b']) = some ['b'] ↔ SurvivesQuotes ['b']) :=
  names_return_iff (List.cons_ne_nil _ _)
    (.plain (c := 'a') (by decide +kernel)
      (.escaped (h := 2) (l := 0) (by decide +kernel) rfl rfl rfl .nil))
    (by simp)

/-- An accented letter comes back as two characters, and a name is cut at its semicolon. -/
theorem names_lost :
    (Encoded (Utf8.encode ['é']) ['%', 'C', '3', '%', 'A', '9'] ∧
      parseContentDisposition (extendedHeader ['%', 'C', '3', '%', 'A', '9']) ≠ some ['é']) ∧
      parseContentDisposition (quotedHeader ['a', ';', 'b']) ≠ some ['a', ';', 'b'] := by
  refine ⟨⟨?_, by decide +kernel⟩, by decide +kernel⟩
  exact .escaped (h := 12) (l := 3) (by decide +kernel) rfl rfl rfl
    (.escaped (h := 10) (l := 9) (by decide +kernel) rfl rfl rfl .nil)

end Webfang.Scrape
