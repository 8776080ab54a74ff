import Webfang.Downloader.DocumentScraper
import Webfang.Lib.HexDigits
import Webfang.Lib.Segments
import Webfang.Output.PagePaths
import Webfang.Output.SavedPages

/-!
# Names of downloads

`domain/crawler_port/filename.rs`: what a server names is cut down to one safe component.  A name
that is made up from the host and the hash of the path is neither cut nor padded.
-/

namespace Webfang.Scrape

open Wreq Assets Output

/-- `confine_filename_component`. -/
def confineFilenameComponent (names : NameTools) (raw fallback : List Char) : List Char :=
  (sanitizeFilenameComponent names raw).getD fallback

/-! ## What is promised -/

def isSeparator (c : Char) : Bool := c = '/' || c = '\\'

/-- No separator, and no control character. -/
def Plain (name : List Char) : Prop := ∀ c ∈ name, isSeparator c = false ∧ isControl c = false

/-- One safe component of a path. -/
structure Component (name : List Char) : Prop where
  nonempty : name ≠ []
  dot : name ≠ ['.']
  dots : name ≠ ['.', '.']
  plain : Plain name
  short : (Utf8.encode name).length ≤ maxFilenameLen

/-- Something is left of the name when control characters and dot segments are taken out. -/
def Nameable (name : List Char) : Prop :=
  ∃ segment ∈ (name.filter fun c => !isControl c).splitOnP isSeparator,
    segment ≠ [] ∧ segment ≠ ['.'] ∧ segment ≠ ['.', '.']

/-- The last segment of the path of a URL, up to a question mark. -/
def basename (url : Url) : List Char :=
  ((url.path.splitOn '/').getLastD []).takeWhile (· ≠ '?')

/-- The host that a made-up name begins with. -/
def hostOf (url : Url) : List Char := url.hostStr.getD "unknown".toList

/-- The hash has eight digits, and the made-up name is short enough. -/
def FallbackFits (names : NameTools) (url : Url) (contentType : String) : Prop :=
  16 ^ 7 ≤ (names.defaultHash url.path).toNat ∧
    (Utf8.encode (hostOf url)).length + (typeExtension contentType).toList.length + 10 ≤
      maxFilenameLen

/-- The header names a download, or the URL does, or the made-up name fits. -/
def Named (names : NameTools) (contentDisposition : Option String) (url : Url)
    (contentType : String) : Prop :=
  (∃ value parsed, contentDisposition = some value ∧
    parseContentDisposition value.toList = some parsed ∧ Nameable parsed) ∨
    Nameable (basename url) ∨ FallbackFits names url contentType

/-! ## Candidates -/

/-- The last segment that is safe apart from its length. -/
def candidate (name : List Char) : Option (List Char) :=
  (((name.filter fun c => !isControl c).splitOnP isSeparator).filter fun segment =>
    segment ≠ [] ∧ segment ≠ ['.'] ∧ segment ≠ ['.', '.']).getLast?

/-- A candidate that is too long is cut before its hash. -/
def capped (names : NameTools) (segment : List Char) : List Char :=
  if (Utf8.encode segment).length ≤ maxFilenameLen then segment
  else
    let hash8 := hexPadded (names.defaultHash segment)
    cutAtBytes (maxFilenameLen - 1 - hash8.length) segment ++ '-' :: hash8

variable {names : NameTools} {name segment : List Char}

theorem sanitize_eq (names : NameTools) (name : List Char) :
    sanitizeFilenameComponent names name = (candidate name).map (capped names) := rfl

theorem candidate_spec (found : candidate name = some segment) :
    segment ≠ [] ∧ segment ≠ ['.'] ∧ segment ≠ ['.', '.'] ∧ Plain segment := by
  obtain ⟨member, safe⟩ := List.mem_filter.1 (List.mem_of_getLast? found)
  obtain ⟨nonempty, dot, dots⟩ := of_decide_eq_true safe
  obtain ⟨whole, sublist⟩ := Segments.of_mem_splitOnP member
  refine ⟨nonempty, dot, dots, fun c inside => ⟨whole c inside, ?_⟩⟩
  simpa using (List.mem_filter.1 (sublist.mem inside)).2

theorem candidate_eq_none : candidate name = none ↔ ¬ Nameable name := by
  rw [candidate, List.getLast?_eq_none_iff, List.filter_eq_nil_iff]
  constructor
  · rintro none_ ⟨segment, member, safe⟩
    exact none_ segment member (decide_eq_true safe)
  · intro none_ segment member safe
    exact none_ ⟨segment, member, of_decide_eq_true safe⟩

/-- A name that is safe apart from its length is its own candidate. -/
theorem candidate_of_plain (nonempty : name ≠ []) (dot : name ≠ ['.']) (dots : name ≠ ['.', '.'])
    (plain : Plain name) : candidate name = some name := by
  have kept : name.filter (fun c => !isControl c) = name :=
    List.filter_eq_self.2 fun c member => by rw [(plain c member).2]; rfl
  rw [candidate, kept, List.splitOnP_eq_singleton fun c member => (plain c member).1]
  simp [nonempty, dot, dots]

/-! ## Capped names -/

theorem hexPadded_letters (hash : UInt64) :
    ∀ c ∈ hexPadded hash, c ≠ '-' ∧ isSeparator c = false ∧ isControl c = false ∧ c.toNat < 0x80 := by
  intro c member
  rcases List.mem_append.1 member with zero | digit
  · rw [List.eq_of_mem_replicate zero]
    decide
  · exact HexDigits.of_digits
      (p := fun c => c ≠ '-' ∧ isSeparator c = false ∧ isControl c = false ∧ c.toNat < 0x80)
      (by decide) digit

theorem hexPadded_injective : Function.Injective hexPadded := fun _ _ same =>
  UInt64.toNat_inj.1 (HexDigits.padded_injective same)

theorem length_hexPadded_le (hash : UInt64) : (hexPadded hash).length ≤ 16 := by
  have digits := (Nat.length_toDigits_le_iff (by decide) (by decide)).2
    (show hash.toNat < 16 ^ 16 from hash.toNat_lt)
  rw [hexPadded, List.length_append, List.length_replicate]
  omega

theorem length_encode_cutAtBytes (budget : Nat) (text : List Char) :
    (Utf8.encode (cutAtBytes budget text)).length ≤ budget := by
  induction text generalizing budget with
  | nil => exact Nat.zero_le _
  | cons c text ih =>
      rw [cutAtBytes]
      split
      case isTrue fits =>
        have later := ih (budget - c.utf8Size)
        rw [Utf8.encode_cons, List.length_append, String.length_utf8EncodeChar]
        omega
      case isFalse => exact Nat.zero_le _

theorem capped_of_short (short : (Utf8.encode segment).length ≤ maxFilenameLen) :
    capped names segment = segment := if_pos short

theorem capped_of_long (long : maxFilenameLen < (Utf8.encode segment).length) :
    capped names segment =
      cutAtBytes (maxFilenameLen - 1 - (hexPadded (names.defaultHash segment)).length) segment ++
        '-' :: hexPadded (names.defaultHash segment) := if_neg (Nat.not_le.2 long)

theorem component_capped (nonempty : segment ≠ []) (dot : segment ≠ ['.'])
    (dots : segment ≠ ['.', '.']) (plain : Plain segment) : Component (capped names segment) := by
  rcases Nat.lt_or_ge maxFilenameLen (Utf8.encode segment).length with long | short
  · rw [capped_of_long long]
    have letters := hexPadded_letters (names.defaultHash segment)
    have width := length_hexPadded_le (names.defaultHash segment)
    have dash : '-' ∈ cutAtBytes
        (maxFilenameLen - 1 - (hexPadded (names.defaultHash segment)).length) segment ++
          '-' :: hexPadded (names.defaultHash segment) :=
      List.mem_append_right _ List.mem_cons_self
    refine ⟨List.ne_nil_of_mem dash, fun same => ?_, fun same => ?_, fun c member => ?_, ?_⟩
    · rw [same] at dash
      exact absurd dash (by decide)
    · rw [same] at dash
      exact absurd dash (by decide)
    · rcases List.mem_append.1 member with cut | hash
      · exact plain c (mem_cutAtBytes cut)
      · rcases List.mem_cons.1 hash with rfl | digit
        · exact ⟨by decide, by decide⟩
        · exact ⟨(letters c digit).2.1, (letters c digit).2.2.1⟩
    · have cut := length_encode_cutAtBytes
        (maxFilenameLen - 1 - (hexPadded (names.defaultHash segment)).length) segment
      have suffix : (Utf8.encode ('-' :: hexPadded (names.defaultHash segment))).length =
          (hexPadded (names.defaultHash segment)).length + 1 := by
        refine Utf8.length_encode_ascii fun c member => ?_
        rcases List.mem_cons.1 member with rfl | digit
        · decide
        · exact (letters c digit).2.2.2
      rw [Utf8.encode_append, List.length_append, suffix]
      have max : maxFilenameLen = 255 := rfl
      omega
  · rw [capped_of_short short]
    exact ⟨nonempty, dot, dots, plain, short⟩

/-! ## The sanitizer -/

theorem component_of_sanitize {safe : List Char}
    (sanitized : sanitizeFilenameComponent names name = some safe) : Component safe := by
  rw [sanitize_eq] at sanitized
  obtain ⟨segment, found, rfl⟩ := Option.map_eq_some_iff.1 sanitized
  obtain ⟨nonempty, dot, dots, plain⟩ := candidate_spec found
  exact component_capped nonempty dot dots plain

/-- A safe name is returned unchanged. -/
theorem sanitize_of_component (safe : Component name) :
    sanitizeFilenameComponent names name = some name := by
  rw [sanitize_eq, candidate_of_plain safe.nonempty safe.dot safe.dots safe.plain, Option.map_some,
    capped_of_short safe.short]

theorem sanitize_eq_none :
    sanitizeFilenameComponent names name = none ↔ ¬ Nameable name := by
  rw [sanitize_eq, Option.map_eq_none_iff, candidate_eq_none]

theorem confine_of_component (safe : Component name) (fallback : List Char) :
    confineFilenameComponent names name fallback = name := by
  rw [confineFilenameComponent, sanitize_of_component safe, Option.getD_some]

/-- Names that are cut before different hashes are different. -/
theorem capped_ne {other : List Char} (long : maxFilenameLen < (Utf8.encode segment).length)
    (long' : maxFilenameLen < (Utf8.encode other).length)
    (apart : names.defaultHash segment ≠ names.defaultHash other) :
    capped names segment ≠ capped names other := by
  intro same
  rw [capped_of_long long, capped_of_long long'] at same
  -- the hash stands behind the last dash
  have suffixes := congrArg (fun text => (text.reverse.takeWhile (· ≠ '-')).reverse) same
  have behind (cut : List Char) (hash : UInt64) :
      ((cut ++ '-' :: hexPadded hash).reverse.takeWhile (· ≠ '-')).reverse = hexPadded hash := by
    have letters : ∀ c ∈ (hexPadded hash).reverse, decide (c ≠ '-') = true := fun c member =>
      decide_eq_true (hexPadded_letters hash c (List.mem_reverse.1 member)).1
    rw [List.reverse_append, List.reverse_cons, List.append_assoc,
      List.takeWhile_append_of_pos letters, List.singleton_append,
      List.takeWhile_cons_of_neg (by simp), List.append_nil, List.reverse_reverse]
  rw [behind, behind] at suffixes
  exact apart (hexPadded_injective suffixes)

/-! ## Made-up names -/

variable {contentDisposition : Option String} {url : Url} {contentType : String}

theorem typeExtension_mem (contentType : String) :
    typeExtension contentType ∈ "bin" :: typeExtensions.map Prod.snd := by
  rw [typeExtension]
  cases found : typeExtensions.find? fun entry => contains contentType.toList entry.1 with
  | none => exact List.mem_cons_self
  | some entry =>
      exact List.mem_cons_of_mem _ (List.mem_map_of_mem (List.mem_of_find?_eq_some found))

/-- The extensions are plain ASCII. -/
theorem typeExtension_letters (contentType : String) :
    ∀ c ∈ (typeExtension contentType).toList,
      isSeparator c = false ∧ isControl c = false ∧ c.toNat < 0x80 := by
  have all : ∀ extension ∈ "bin" :: typeExtensions.map Prod.snd,
      extension.toList.all (fun c => !isSeparator c && !isControl c && decide (c.toNat < 0x80)) =
        true := by
    decide +kernel
  intro c member
  have here := List.all_eq_true.1 (all _ (typeExtension_mem contentType)) c member
  simpa [and_assoc] using here

/-- The name that is made up from a hash of at least eight digits. -/
def madeUp (names : NameTools) (url : Url) (contentType : String) : List Char :=
  (hostOf url).map (fun c => if c = '.' then '_' else c) ++
    '_' :: (Nat.toDigits 16 (names.defaultHash url.path).toNat).take 8 ++
      '.' :: (typeExtension contentType).toList

theorem eight_digits_iff {hash : Nat} :
    ¬ (Nat.toDigits 16 hash).length < 8 ↔ 16 ^ 7 ≤ hash := by
  rw [← Nat.not_lt, not_iff_not, ← Nat.length_toDigits_le_iff (by decide) (by decide)]
  exact Nat.lt_succ_iff

theorem fallbackName_eq (names : NameTools) (url : Url) (contentType : String) :
    fallbackName names url contentType =
      if 16 ^ 7 ≤ (names.defaultHash url.path).toNat then some (madeUp names url contentType)
      else none := by
  rw [fallbackName]
  split
  case isTrue few => rw [if_neg fun enough => eight_digits_iff.2 enough few]
  case isFalse enough => rw [if_pos (eight_digits_iff.1 enough)]; rfl

theorem length_encode_dots (text : List Char) :
    (Utf8.encode (text.map fun c => if c = '.' then '_' else c)).length =
      (Utf8.encode text).length := by
  induction text with
  | nil => rfl
  | cons c text ih =>
      rw [List.map_cons, Utf8.encode_cons, Utf8.encode_cons, List.length_append,
        List.length_append, ih]
      split
      case isTrue dot => rw [dot]; rfl
      case isFalse => rfl

theorem length_encode_madeUp (enough : 16 ^ 7 ≤ (names.defaultHash url.path).toNat) :
    (Utf8.encode (madeUp names url contentType)).length =
      (Utf8.encode (hostOf url)).length + (typeExtension contentType).toList.length + 10 := by
  have digits : ((Nat.toDigits 16 (names.defaultHash url.path).toNat).take 8).length = 8 := by
    have long := eight_digits_iff.2 enough
    rw [List.length_take]
    omega
  have behind : (Utf8.encode ('_' :: (Nat.toDigits 16 (names.defaultHash url.path).toNat).take 8 ++
      '.' :: (typeExtension contentType).toList)).length =
        (typeExtension contentType).toList.length + 10 := by
    rw [Utf8.length_encode_ascii, List.length_append, List.length_cons, List.length_cons, digits]
    · omega
    · intro c member
      rcases List.mem_append.1 member with front | back
      · rcases List.mem_cons.1 front with rfl | digit
        · decide
        · exact HexDigits.of_digits (p := fun c => c.toNat < 0x80) (by decide)
            (List.mem_of_mem_take digit)
      · rcases List.mem_cons.1 back with rfl | letter
        · decide
        · exact (typeExtension_letters contentType c letter).2.2
  rw [madeUp, List.append_assoc, Utf8.encode_append, List.length_append, length_encode_dots, behind,
    Nat.add_assoc]

theorem plain_madeUp (clean : Plain (hostOf url)) : Plain (madeUp names url contentType) := by
  intro c member
  rcases List.mem_append.1 member with front | back
  · rcases List.mem_append.1 front with host | hash
    · obtain ⟨d, inside, rfl⟩ := List.mem_map.1 host
      split
      · exact ⟨by decide, by decide⟩
      · exact clean d inside
    · rcases List.mem_cons.1 hash with rfl | digit
      · exact ⟨by decide, by decide⟩
      · exact HexDigits.of_digits (p := fun c => isSeparator c = false ∧ isControl c = false)
          (by decide) (List.mem_of_mem_take digit)
  · rcases List.mem_cons.1 back with rfl | letter
    · exact ⟨by decide, by decide⟩
    · exact (typeExtension_letters contentType c letter).imp_right And.left

theorem component_madeUp (clean : Plain (hostOf url))
    (enough : 16 ^ 7 ≤ (names.defaultHash url.path).toNat) :
    Component (madeUp names url contentType) ↔ FallbackFits names url contentType := by
  constructor
  · intro safe
    have short := safe.short
    rw [length_encode_madeUp enough] at short
    exact ⟨enough, short⟩
  · intro fits
    have underscore : '_' ∈ madeUp names url contentType :=
      List.mem_append_left _ (List.mem_append_right _ List.mem_cons_self)
    refine ⟨List.ne_nil_of_mem underscore, fun same => ?_, fun same => ?_, plain_madeUp clean, ?_⟩
    · rw [same] at underscore
      exact absurd underscore (by decide)
    · rw [same] at underscore
      exact absurd underscore (by decide)
    · rw [length_encode_madeUp enough]
      exact fits.2

/-! ## What is derived -/

theorem nameOfPath_eq (names : NameTools) (url : Url) :
    nameOfPath names url = sanitizeFilenameComponent names (basename url) := by
  rw [nameOfPath]
  split
  case isTrue empty => rw [basename, empty]; rfl
  case isFalse => rfl

theorem derive_of_named {safe : List Char}
    (named : ((contentDisposition.bind fun value => (parseContentDisposition value.toList).bind
      (sanitizeFilenameComponent names)).or (nameOfPath names url)) = some safe) :
    deriveFilenameFromContentDisposition names contentDisposition url contentType = some safe := by
  rw [deriveFilenameFromContentDisposition, named]

theorem derive_of_nameless
    (nameless : ((contentDisposition.bind fun value => (parseContentDisposition value.toList).bind
      (sanitizeFilenameComponent names)).or (nameOfPath names url)) = none) :
    deriveFilenameFromContentDisposition names contentDisposition url contentType =
      fallbackName names url contentType := by
  rw [deriveFilenameFromContentDisposition, nameless]

/-- The header and the URL both name nothing. -/
theorem nameless_iff :
    ((contentDisposition.bind fun value => (parseContentDisposition value.toList).bind
      (sanitizeFilenameComponent names)).or (nameOfPath names url)) = none ↔
        (¬ ∃ value parsed, contentDisposition = some value ∧
          parseContentDisposition value.toList = some parsed ∧ Nameable parsed) ∧
        ¬ Nameable (basename url) := by
  rw [Option.or_eq_none_iff, nameOfPath_eq, sanitize_eq_none]
  refine and_congr_left fun _ => ?_
  constructor
  · rintro none_ ⟨value, parsed, given, read, nameable⟩
    rw [given, Option.bind_some, read, Option.bind_some, sanitize_eq_none] at none_
    exact none_ nameable
  · intro none_
    cases contentDisposition with
    | none => rfl
    | some value =>
        rw [Option.bind_some]
        cases read : parseContentDisposition value.toList with
        | none => rfl
        | some parsed =>
            rw [Option.bind_some, sanitize_eq_none]
            exact fun nameable => none_ ⟨value, parsed, rfl, read, nameable⟩

/-- A safe name comes out just if something names the download or the made-up name fits. -/
theorem derive_component_iff (clean : Plain (hostOf url)) :
    (∃ name, deriveFilenameFromContentDisposition names contentDisposition url contentType =
      some name ∧ Component name) ↔ Named names contentDisposition url contentType := by
  cases named : (contentDisposition.bind fun value => (parseContentDisposition value.toList).bind
      (sanitizeFilenameComponent names)).or (nameOfPath names url) with
  | some safe =>
      have component : Component safe := by
        rcases Option.or_eq_some_iff.1 named with header | ⟨-, path⟩
        · obtain ⟨value, -, parsed⟩ := Option.bind_eq_some_iff.1 header
          obtain ⟨name, -, sanitized⟩ := Option.bind_eq_some_iff.1 parsed
          exact component_of_sanitize sanitized
        · rw [nameOfPath_eq] at path
          exact component_of_sanitize path
      refine iff_of_true ⟨safe, derive_of_named named, component⟩ ?_
      by_contra unnamed
      rw [Named, not_or, not_or] at unnamed
      rw [nameless_iff.2 ⟨unnamed.1, unnamed.2.1⟩] at named
      cases named
  | none =>
      obtain ⟨header, path⟩ := nameless_iff.1 named
      rw [derive_of_nameless named, fallbackName_eq, Named, or_iff_right header, or_iff_right path]
      split
      case isTrue enough =>
        rw [← component_madeUp clean enough]
        constructor
        · rintro ⟨name, same, safe⟩
          rwa [Option.some.inj same]
        · exact fun safe => ⟨_, rfl, safe⟩
      case isFalse few =>
        constructor
        · rintro ⟨name, same, -⟩
          cases same
        · exact fun fits => absurd fits.1 few

/-- Sanitizing and confining give safe names, leave them as they are, and keep cut names apart. -/
structure Sanitizes (names : NameTools) (fallback : List Char) : Prop where
  safe : ∀ name safe, sanitizeFilenameComponent names name = some safe → Component safe
  unchanged : ∀ name, Component name → sanitizeFilenameComponent names name = some name ∧
    confineFilenameComponent names name fallback = name
  idempotent : ∀ name safe, sanitizeFilenameComponent names name = some safe →
    sanitizeFilenameComponent names safe = some safe
  confined : ∀ raw, Component (confineFilenameComponent names raw fallback) ∧
    confineFilenameComponent names (confineFilenameComponent names raw fallback) fallback =
      confineFilenameComponent names raw fallback
  apart : ∀ name other segment segment', candidate name = some segment →
    candidate other = some segment' → maxFilenameLen < (Utf8.encode segment).length →
    maxFilenameLen < (Utf8.encode segment').length →
    names.defaultHash segment ≠ names.defaultHash segment' →
      sanitizeFilenameComponent names name ≠ sanitizeFilenameComponent names other

theorem sanitizes (names : NameTools) {fallback : List Char} (literal : Component fallback) :
    Sanitizes names fallback := by
  have confined (raw : List Char) : Component (confineFilenameComponent names raw fallback) := by
    rw [confineFilenameComponent]
    cases sanitized : sanitizeFilenameComponent names raw with
    | none => exact literal
    | some safe => exact component_of_sanitize sanitized
  refine ⟨fun _ _ sanitized => component_of_sanitize sanitized, fun name safe =>
    ⟨sanitize_of_component safe, confine_of_component safe fallback⟩, fun _ _ sanitized =>
    sanitize_of_component (component_of_sanitize sanitized), fun raw =>
    ⟨confined raw, confine_of_component (confined raw) fallback⟩, ?_⟩
  intro name other segment segment' found found' long long' different same
  rw [sanitize_eq, sanitize_eq, found, found', Option.map_some, Option.map_some,
    Option.some.injEq] at same
  exact capped_ne long long' different same

/-- The name of a download is one safe component just if the header or the URL names it, or the
made-up name fits; the sanitizer keeps its promises everywhere. -/
theorem download_names (names : NameTools) (contentDisposition : Option String) (url : Url)
    (contentType : String) (clean : Plain (hostOf url)) {fallback : List Char}
    (literal : Component fallback) :
    ((∃ name, deriveFilenameFromContentDisposition names contentDisposition url contentType =
      some name ∧ Component name) ↔ Named names contentDisposition url contentType) ∧
      Sanitizes names fallback :=
  ⟨derive_component_iff clean, sanitizes names literal⟩

/-- Names with a hash that is given. -/
def hashing (hash : UInt64) : NameTools := { asciiTools with defaultHash := fun _ => hash }

/-- The first page of a host. -/
def rootOf (host : List Char) : Url where
  asStr := "https://".toList ++ host ++ ['/']
  hostStr := some host
  path := ['/']

theorem plain_singleton {c : Char} (plain : isSeparator c = false ∧ isControl c = false) :
    Plain [c] := fun d member => by
  rw [List.mem_singleton.1 member]
  exact plain

theorem root_named :
    ((∃ name, deriveFilenameFromContentDisposition (hashing 4294967296) none (rootOf ['a'])
      "image/png" = some name ∧ Component name) ↔
        Named (hashing 4294967296) none (rootOf ['a']) "image/png") ∧
      Sanitizes (hashing 4294967296) ['x'] :=
  download_names (hashing 4294967296) none (rootOf ['a']) "image/png" (plain_singleton ⟨rfl, rfl⟩)
    ⟨by decide, by decide, by decide, plain_singleton ⟨rfl, rfl⟩, by decide +kernel⟩

/-- The slice of a small hash panics, and the name of a long host is too long. -/
theorem made_up_names_fail :
    (¬ ∃ name, deriveFilenameFromContentDisposition (hashing 1) none (rootOf ['a']) "image/png" =
      some name ∧ Component name) ∧
    ¬ ∃ name, deriveFilenameFromContentDisposition (hashing 4294967296) none
      (rootOf (List.replicate 243 'a')) "image/png" = some name ∧ Component name := by
  constructor
  · rintro ⟨name, derived, -⟩
    have panics : deriveFilenameFromContentDisposition (hashing 1) none (rootOf ['a']) "image/png" =
        none := by decide +kernel
    rw [panics] at derived
    cases derived
  · rintro ⟨name, derived, safe⟩
    have long : (deriveFilenameFromContentDisposition (hashing 4294967296) none
        (rootOf (List.replicate 243 'a')) "image/png").all
          (fun name => decide (maxFilenameLen < (Utf8.encode name).length)) = true := by
      decide +kernel
    rw [derived, Option.all_some, decide_eq_true_eq] at long
    exact absurd safe.short (Nat.not_le.2 long)

end Webfang.Scrape
