import Webfang.Lib.AsciiCase
import Webfang.Sitemap.SitemapParser

/-!
# Seeds and the hosts that they name

A seed names its host in a URL, or bare, or with a port or a path behind it.  What the URL parser
makes of these texts is not in the repository: the laws that it keeps are stated here, for the kinds
of text that a seed can be.
-/

namespace Webfang.Seeds

open Sitemap (ParserTools extractDomain isInternalLink normalizeSeedHost)
open UrlValidation (toAsciiLowercase)
open AsciiCase

/-! ## Hosts and seeds -/

def www : List Char := "www.".toList

def localhost : List Char := "localhost".toList

def fileScheme : List Char := "file".toList

/-- The special schemes but `file`. -/
def isSpecial (scheme : List Char) : Bool :=
  scheme = "http".toList || scheme = "https".toList || scheme = "ws".toList ||
    scheme = "wss".toList || scheme = "ftp".toList

structure IsScheme (scheme : List Char) : Prop where
  letter : ∃ c rest, scheme = c :: rest ∧ c.isAlpha
  valid : ∀ c ∈ scheme, c.isAlphanum ∨ c = '+' ∨ c = '-' ∨ c = '.'

structure IsPort (port : List Char) : Prop where
  nonempty : port ≠ []
  digits : ∀ c ∈ port, c.isDigit
  fits : Nat.ofDigitChars 10 port 0 < 65536

/-- The characters that end a host with its credentials and its port. -/
def isDelimiter (c : Char) : Bool := c = '/' || c = '\\' || c = '?' || c = '#'

/-- What stands around a host in a URL. -/
structure FullUrl where
  scheme : List Char
  credentials : Option (List Char)
  port : Option (List Char)
  behind : List Char
  isScheme : IsScheme scheme
  undelimited : ∀ text, credentials = some text → ∀ c ∈ text, isDelimiter c = false
  isPort : ∀ text, port = some text → IsPort text
  begins : ∀ c rest, behind = c :: rest → c ∈ ['/', '?', '#']

def FullUrl.authority (url : FullUrl) (host : List Char) : List Char :=
  url.credentials.elim [] (· ++ ['@']) ++ host ++ url.port.elim [] (':' :: ·)

def FullUrl.text (url : FullUrl) (host : List Char) : List Char :=
  url.scheme ++ "://".toList ++ url.authority host ++ url.behind

/-- A host as it is written: a name, or an address between brackets. -/
structure HostText (host : List Char) : Prop where
  nonempty : host ≠ []
  undelimited : ∀ c ∈ host, isDelimiter c = false ∧ c ≠ '@'
  form : '[' ∉ host ∧ ':' ∉ host ∨
    ∃ address, host = '[' :: address ++ [']'] ∧ ']' ∉ address ∧ ':' ∈ address

section Hosts

variable {υ : Type} (tools : ParserTools υ)

/-- What the parser makes of a host. -/
def canonicalHost (host : List Char) : Option (List Char) :=
  extractDomain tools ("https://".toList ++ host ++ ['/'])

/-- A host that the parser accepts. -/
structure IsHost (host : List Char) : Prop extends HostText host where
  accepted : (canonicalHost tools host).isSome

/-- The host without, or with, a leading `www.`. -/
inductive Variant (host : List Char) : List Char → Prop
  | plain : Variant host host
  | marked (mark : List Char) (reads : toAsciiLowercase mark = www)
      (accepted : (canonicalHost tools (mark ++ host)).isSome) : Variant host (mark ++ host)

/-- The spellings of a host as a seed. -/
inductive Spells (host : List Char) : List Char → Prop
  | full (url : FullUrl) (accepted : (tools.parse (url.text host)).isSome) :
      Spells host (url.text host)
  | bare : Spells host host
  | withPort (port : List Char) (isPort : IsPort port) : Spells host (host ++ ':' :: port)
  | withPath (path : List Char) : Spells host (host ++ '/' :: path)

/-- The spelling of the seed does not change what is internal. -/
structure SpellingsAgree (host : List Char) : Prop where
  alike : ∀ x y s t, Variant tools host x → Variant tools host y → Spells tools x s →
    Spells tools y t →
      toAsciiLowercase (normalizeSeedHost tools s) = toAsciiLowercase (normalizeSeedHost tools t) ∧
        ∀ u, isInternalLink tools u s = isInternalLink tools u t
  own : ∀ x y s u, Variant tools host x → Variant tools host y → Spells tools x s →
    extractDomain tools u = canonicalHost tools y → isInternalLink tools u s = true

/-- A name that reads the same by hand and by the parser. -/
structure PlainName (host : List Char) : Prop where
  canonical : canonicalHost tools host = some (toAsciiLowercase host)
  colonFree : ':' ∉ host
  unmarked : ∀ name, toAsciiLowercase host = www ++ name → name = []
  noScheme : isSpecial (toAsciiLowercase host) = false
  notLocal : toAsciiLowercase host ≠ localhost

/-- What the URL parser and `str::to_lowercase` do. -/
structure UrlLaws : Prop where
  /-- ASCII is lowered letter by letter. -/
  ascii : ∀ text, Ascii text → tools.toLowercase text = toAsciiLowercase text
  /-- No other character becomes a colon. -/
  colon : ∀ text, ':' ∈ tools.toLowercase text → ':' ∈ text
  /-- A canonical host is in lower-case ASCII. -/
  canonical : ∀ host name, canonicalHost tools host = some name →
    name ≠ [] ∧ Ascii name ∧ toAsciiLowercase name = name
  /-- An address between brackets stays one. -/
  bracketKept : ∀ host name, IsHost tools host → canonicalHost tools host = some name →
    ':' ∈ host → ∃ rest, name = '[' :: rest ∧ ':' ∈ rest
  /-- A special URL has the canonical host, whatever stands around it. -/
  special : ∀ host (url : FullUrl), IsHost tools host →
    isSpecial (toAsciiLowercase url.scheme) = true → (tools.parse (url.text host)).isSome →
      extractDomain tools (url.text host) = canonicalHost tools host
  /-- A `file` URL has it too, but `localhost` stands for none. -/
  file : ∀ host (url : FullUrl), IsHost tools host → toAsciiLowercase url.scheme = fileScheme →
    (tools.parse (url.text host)).isSome →
      extractDomain tools (url.text host) = (canonicalHost tools host).filter (· ≠ localhost)
  fileAccepted : ∀ host, IsHost tools host →
    (tools.parse (fileScheme ++ "://".toList ++ host ++ ['/'])).isSome
  /-- Behind any other scheme a host stays as it is, at least where nothing is to be encoded. -/
  foreign : ∀ host (url : FullUrl), IsHost tools host → ':' ∉ host →
    canonicalHost tools host = some (toAsciiLowercase host) →
      isSpecial (toAsciiLowercase url.scheme) = false →
        toAsciiLowercase url.scheme ≠ fileScheme → (tools.parse (url.text host)).isSome →
          extractDomain tools (url.text host) = some host
  /-- A text without a scheme is no URL. -/
  schemeless : ∀ text, ':' ∉ text.takeWhile (· ≠ '/') → extractDomain tools text = none
  bracketed : ∀ text, extractDomain tools ('[' :: text) = none
  /-- Of a name and a port the name is the scheme, and there is no host. -/
  ported : ∀ host port, IsHost tools host → ':' ∉ host →
    canonicalHost tools host = some (toAsciiLowercase host) →
      isSpecial (toAsciiLowercase host) = false → IsPort port →
        extractDomain tools (host ++ ':' :: port) = none
  /-- A special scheme needs no slashes, and the port is the host. -/
  specialPorted : ∀ scheme n, isSpecial (toAsciiLowercase scheme) = true → n < 65536 →
    extractDomain tools (scheme ++ ':' :: Nat.toDigits 10 n) =
      canonicalHost tools (Nat.toDigits 10 n)
  /-- A number is an IPv4 address. -/
  number : ∀ n < 65536, ∃ name, canonicalHost tools (Nat.toDigits 10 n) = some name ∧
    ∀ c ∈ name, c.isDigit ∨ c = '.'
  /-- What reads `www.` in lower case is the label `www`. -/
  label : ∀ host name rest, IsHost tools host → tools.toLowercase host = www ++ rest →
    canonicalHost tools host = some name → ∃ more, name = www ++ more
  /-- A name of letters and dots is in lower case its own canonical form. -/
  letters : ∀ host name, IsHost tools host → canonicalHost tools host = some name →
    (∀ c ∈ toAsciiLowercase (tools.toLowercase host), c = '.' ∨ c.isLower) →
      name = toAsciiLowercase (tools.toLowercase host)
  /-- One more label `www` is the same label in the canonical form. -/
  marked : ∀ mark host name name', IsHost tools host → ':' ∉ host → toAsciiLowercase mark = www →
    canonicalHost tools host = some name → canonicalHost tools (mark ++ host) = some name' →
      name' = www ++ name
  /-- It does no harm to a name that has one. -/
  markedTwice : ∀ host more, IsHost tools host → more ≠ [] →
    canonicalHost tools host = some (www ++ more) →
      (canonicalHost tools (www ++ host)).isSome

end Hosts

/-! ## What the texts have in common -/

variable {host : List Char}

theorem lower_idem (text : List Char) :
    toAsciiLowercase (toAsciiLowercase text) = toAsciiLowercase text :=
  map_toLower_map_toLower text

theorem lower_append (front behind : List Char) :
    toAsciiLowercase (front ++ behind) = toAsciiLowercase front ++ toAsciiLowercase behind :=
  List.map_append

theorem colon_mem_lower {text : List Char} : ':' ∈ toAsciiLowercase text ↔ ':' ∈ text :=
  mem_map_toLower rfl (by decide)

section Spans

variable {p : Char → Bool} {d : Char} {front behind text : List Char}

theorem takeWhile_span (all : ∀ c ∈ front, p c = true)
    (stops : ∀ c rest, behind = c :: rest → p c = false) :
    (front ++ behind).takeWhile p = front := by
  rw [List.takeWhile_append_of_pos all]
  cases behind with
  | nil => exact List.append_nil front
  | cons c rest =>
      rw [List.takeWhile_cons_of_neg (Bool.eq_false_iff.mp (stops c rest rfl)), List.append_nil]

theorem all_ne (free : d ∉ text) : ∀ c ∈ text, decide (c ≠ d) = true := by
  intro c present
  rw [decide_eq_true_iff]
  exact fun same => free (same ▸ present)

theorem stops_cons (rest : List Char) :
    ∀ c more, d :: rest = c :: more → decide (c ≠ d) = false := by
  intro c more same
  cases same
  exact decide_eq_false (not_not_intro rfl)

theorem takeWhile_of_notMem (free : d ∉ text) : text.takeWhile (· ≠ d) = text :=
  List.takeWhile_eq_self_iff.mpr (all_ne free)

theorem takeWhile_append_cons (free : d ∉ text) (rest : List Char) :
    (text ++ d :: rest).takeWhile (· ≠ d) = text :=
  takeWhile_span (all_ne free) (stops_cons rest)

theorem dropWhile_append_cons (free : d ∉ text) (rest : List Char) :
    (text ++ d :: rest).dropWhile (· ≠ d) = d :: rest := by
  rw [List.dropWhile_append_of_pos (all_ne free), List.dropWhile_cons_of_neg]
  exact Bool.eq_false_iff.mp (stops_cons rest d rest rfl)

end Spans

theorem IsScheme.colon_notMem {scheme : List Char} (isScheme : IsScheme scheme) : ':' ∉ scheme :=
  fun present => absurd (isScheme.valid ':' present) (by decide)

theorem HostText.slash_notMem (hostText : HostText host) : '/' ∉ host :=
  fun present => absurd (hostText.undelimited '/' present).1 (by decide)

theorem HostText.bracketFree (hostText : HostText host) (colonFree : ':' ∉ host) : '[' ∉ host := by
  rcases hostText.form with ⟨unbracketed, -⟩ | ⟨address, whole, -, colon⟩
  · exact unbracketed
  · refine absurd ?_ colonFree
    rw [whole]
    exact List.mem_append_left _ (List.mem_cons_of_mem _ colon)

/-- A character whose lower case is in `www.` is none that has a meaning in a URL. -/
theorem mem_mark {mark : List Char} (reads : toAsciiLowercase mark = www) {c : Char}
    (present : c ∈ mark) : (isDelimiter c = false ∧ c ≠ '@') ∧ c ≠ '[' ∧ c ≠ ':' := by
  have lowered : c.toLower ∈ www := reads ▸ List.mem_map_of_mem present
  have excluded : ∀ d : Char, d.toLower ∉ www → c ≠ d := fun d other same =>
    other (same ▸ lowered)
  refine ⟨⟨?_, excluded '@' (by decide)⟩, excluded '[' (by decide), excluded ':' (by decide)⟩
  simp only [isDelimiter, Bool.or_eq_false_iff, decide_eq_false_iff_not]
  exact ⟨⟨⟨excluded '/' (by decide), excluded '\\' (by decide)⟩, excluded '?' (by decide)⟩,
    excluded '#' (by decide)⟩

theorem HostText.marked (hostText : HostText host) (colonFree : ':' ∉ host) {mark : List Char}
    (reads : toAsciiLowercase mark = www) : HostText (mark ++ host) where
  nonempty := fun empty => hostText.nonempty (List.append_eq_nil_iff.mp empty).2
  undelimited := by
    intro c present
    rcases List.mem_append.mp present with present | present
    · exact (mem_mark reads present).1
    · exact hostText.undelimited c present
  form := by
    refine .inl ⟨fun present => ?_, fun present => ?_⟩
    · rcases List.mem_append.mp present with present | present
      · exact (mem_mark reads present).2.1 rfl
      · exact hostText.bracketFree colonFree present
    · rcases List.mem_append.mp present with present | present
      · exact (mem_mark reads present).2.2 rfl
      · exact colonFree present

/-- A URL with nothing but a scheme and a path around the host. -/
def bareUrl (scheme : List Char) (isScheme : IsScheme scheme) : FullUrl where
  scheme := scheme
  credentials := none
  port := none
  behind := ['/']
  isScheme := isScheme
  undelimited := by
    intro text given
    cases given
  isPort := by
    intro text given
    cases given
  begins := by
    intro c rest slash
    cases slash
    exact List.mem_cons_self

theorem bareUrl_text (scheme : List Char) (isScheme : IsScheme scheme) (host : List Char) :
    (bareUrl scheme isScheme).text host = scheme ++ "://".toList ++ host ++ ['/'] := by
  rw [FullUrl.text]
  exact congrArg (scheme ++ "://".toList ++ · ++ ['/']) (List.append_nil host)

theorem https_isScheme : IsScheme "https".toList where
  letter := ⟨'h', "ttps".toList, rfl, rfl⟩
  valid := @of_decide_eq_true _ (List.decidableBAll _ _) rfl

theorem file_isScheme : IsScheme fileScheme where
  letter := ⟨'f', "ile".toList, rfl, rfl⟩
  valid := @of_decide_eq_true _ (List.decidableBAll _ _) rfl

theorem canonicalHost_eq {υ : Type} (tools : ParserTools υ) (host : List Char) :
    canonicalHost tools host =
      extractDomain tools ((bareUrl "https".toList https_isScheme).text host) := by
  rw [bareUrl_text]
  rfl

end Webfang.Seeds
