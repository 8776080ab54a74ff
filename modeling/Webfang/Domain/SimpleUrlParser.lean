import Webfang.Domain.SeedHosts
import Webfang.Lib.Json

/-!
# A parser of simple hosts

The parser accepts names of letters and dots, numbers and one bracketed address, with whatever a URL
has around them, and keeps every law of `UrlLaws`.
-/

namespace Webfang.Seeds

open Sitemap (ParserTools extractDomain)
open UrlValidation (toAsciiLowercase)
open AsciiCase

variable {host : List Char}

/-! ## The parser -/

structure SampleUrl where
  text : List Char
  host : Option (List Char)
  deriving DecidableEq, Repr

/-- A number as an IPv4 address. -/
def quad (n : Nat) : List Char :=
  Nat.toDigits 10 (n / 16777216) ++ '.' :: Nat.toDigits 10 (n / 65536 % 256) ++
    '.' :: Nat.toDigits 10 (n / 256 % 256) ++ '.' :: Nat.toDigits 10 (n % 256)

/-- Accepts names of letters and dots, numbers, and one address between brackets. -/
def sampleHost (host : List Char) : Option (List Char) :=
  if host = [] then none
  else if host.all fun c => c.isAlpha || c = '.' then some (toAsciiLowercase host)
  else if host.all Char.isDigit && decide (Nat.ofDigitChars 10 host 0 < 4294967296) then
    some (quad (Nat.ofDigitChars 10 host 0))
  else if host = "[::1]".toList then some host
  else none

/-- Where the scheme is not special a host stays as it is. -/
def foreignHost (host : List Char) : Option (List Char) :=
  if host.all fun c => c.isAlphanum || c = '.' || c = '-' then some host else none

def splitHost (place : List Char) : List Char :=
  if place.head? = some '[' then place.takeWhile (· ≠ ']') ++ [']'] else place.takeWhile (· ≠ ':')

def portFits (port : List Char) : Bool :=
  port = [] || port.head? = some ':' && port.tail.all Char.isDigit &&
    decide (Nat.ofDigitChars 10 port.tail 0 < 65536)

def readAuthority (read : List Char → Option (List Char)) (rest : List Char) :
    Option (List Char) :=
  let place := (rest.takeWhile (!isDelimiter ·)).rtakeWhile (· ≠ '@')
  if portFits (place.drop (splitHost place).length) then read (splitHost place) else none

/-- The host of a `file` URL, which has neither credentials nor a port. -/
def fileHost (rest : List Char) : Option (Option (List Char)) :=
  let host := rest.takeWhile (!isDelimiter ·)
  if host = [] then some none
  else (sampleHost host).map fun name => (some name).filter (· ≠ localhost)

def schemeFits (scheme : List Char) : Bool :=
  scheme.head?.any Char.isAlpha &&
    scheme.all fun c => c.isAlphanum || c = '+' || c = '-' || c = '.'

def sampleParse (text : List Char) : Option SampleUrl :=
  let scheme := toAsciiLowercase (text.takeWhile (· ≠ ':'))
  match text.dropWhile (· ≠ ':') with
  | [] => none
  | _ :: rest =>
      if isSpecial scheme then
        (readAuthority sampleHost (rest.dropWhile (· = '/'))).map fun host => ⟨text, some host⟩
      else if !schemeFits scheme then none
      else if !"//".toList.isPrefixOf rest then some ⟨text, none⟩
      else if scheme = fileScheme then (fileHost (rest.drop 2)).map fun host => ⟨text, host⟩
      else (readAuthority foreignHost (rest.drop 2)).map fun host => ⟨text, some host⟩

def sampleTools : ParserTools SampleUrl where
  parse := sampleParse
  scheme := fun url => toAsciiLowercase (url.text.takeWhile (· ≠ ':'))
  beforePath := SampleUrl.text
  path := fun _ => ['/']
  afterPath := fun _ => []
  setPath := fun url _ => url
  toString := SampleUrl.text
  hostStr := SampleUrl.host
  join := fun _ text => sampleParse text
  toLowercase := toAsciiLowercase
  parseF32 := fun _ => none

@[simp]
theorem sampleTools_parse (text : List Char) : sampleTools.parse text = sampleParse text := rfl

theorem extractDomain_sample (text : List Char) :
    extractDomain sampleTools text = (sampleParse text).bind SampleUrl.host := rfl

/-! ## It keeps the laws -/

theorem isDelimiter_digit {c : Char} (digit : c.isDigit = true) : isDelimiter c = false := by
  simp only [isDelimiter, Bool.or_eq_false_iff, decide_eq_false_iff_not]
  exact ⟨⟨⟨Json.ne_of_isDigit digit rfl, Json.ne_of_isDigit digit rfl⟩, Json.ne_of_isDigit digit rfl⟩,
    Json.ne_of_isDigit digit rfl⟩

theorem FullUrl.authority_undelimited (url : FullUrl) (hostText : HostText host) :
    ∀ c ∈ url.authority host, isDelimiter c = false := by
  intro c present
  rcases List.mem_append.mp present with present | present
  · rcases List.mem_append.mp present with present | present
    · cases given : url.credentials with
      | none =>
          rw [given] at present
          cases present
      | some text =>
          rw [given] at present
          rcases List.mem_append.mp present with present | present
          · exact url.undelimited text given c present
          · cases List.mem_singleton.mp present
            rfl
    · exact (hostText.undelimited c present).1
  · cases given : url.port with
    | none =>
        rw [given] at present
        cases present
    | some port =>
        rw [given] at present
        rcases List.mem_cons.mp present with same | present
        · rw [same]
          rfl
        · exact isDelimiter_digit ((url.isPort port given).digits c present)

theorem FullUrl.takeWhile_authority (url : FullUrl) (hostText : HostText host) :
    (url.authority host ++ url.behind).takeWhile (!isDelimiter ·) = url.authority host := by
  apply takeWhile_span
  · intro c present
    rw [url.authority_undelimited hostText c present]
    rfl
  · intro c rest begins
    have delimits := url.begins c rest begins
    simp only [List.mem_cons, List.not_mem_nil, or_false] at delimits
    rcases delimits with rfl | rfl | rfl
    · rfl
    · rfl
    · rfl

/-- The credentials end with the last `@`. -/
theorem FullUrl.rtakeWhile_authority (url : FullUrl) (hostText : HostText host) :
    (url.authority host).rtakeWhile (· ≠ '@') = host ++ url.port.elim [] (':' :: ·) := by
  have free : '@' ∉ host ++ url.port.elim [] (':' :: ·) := by
    intro present
    rcases List.mem_append.mp present with present | present
    · exact (hostText.undelimited _ present).2 rfl
    · cases given : url.port with
      | none =>
          rw [given] at present
          cases present
      | some port =>
          rw [given] at present
          rcases List.mem_cons.mp present with same | present
          · exact absurd same (by decide)
          · exact absurd ((url.isPort port given).digits _ present) (by decide)
  rw [FullUrl.authority, List.append_assoc, List.rtakeWhile, List.reverse_append, takeWhile_span,
    List.reverse_reverse]
  · exact all_ne fun present => free (List.mem_reverse.mp present)
  · intro c rest begins
    cases given : url.credentials with
    | none =>
        rw [given] at begins
        cases begins
    | some text =>
        rw [given, Option.elim_some, List.reverse_append] at begins
        cases begins
        rfl

theorem splitHost_place (hostText : HostText host) (port : Option (List Char)) :
    splitHost (host ++ port.elim [] (':' :: ·)) = host := by
  rcases hostText.form with ⟨unbracketed, colonFree⟩ | ⟨address, whole, closes, -⟩
  · have bare : (host ++ port.elim [] (':' :: ·)).head? ≠ some '[' := by
      intro bracket
      rw [List.head?_append_of_ne_nil _ hostText.nonempty] at bracket
      exact unbracketed (List.mem_of_mem_head? bracket)
    rw [splitHost, if_neg bare]
    apply takeWhile_span (all_ne colonFree)
    intro c rest begins
    cases port with
    | none => cases begins
    | some port =>
        cases begins
        rfl
  · have free : ']' ∉ '[' :: address := by
      intro present
      rcases List.mem_cons.mp present with same | present
      · exact absurd same (by decide)
      · exact closes present
    have place : host ++ port.elim [] (':' :: ·) =
        ('[' :: address) ++ ']' :: port.elim [] (':' :: ·) := by
      rw [whole]
      exact List.append_assoc ('[' :: address) [']'] _
    have bracket : ('[' :: address ++ ']' :: port.elim [] (':' :: ·)).head? = some '[' := rfl
    rw [place, splitHost, if_pos bracket, takeWhile_append_cons free, whole]

theorem portFits_elim (url : FullUrl) : portFits (url.port.elim [] (':' :: ·)) = true := by
  cases given : url.port with
  | none => rfl
  | some port =>
      have isPort := url.isPort port given
      have digits : port.all Char.isDigit = true := List.all_eq_true.mpr isPort.digits
      simp [portFits, digits, isPort.fits]

theorem readAuthority_text (url : FullUrl) (hostText : HostText host)
    (read : List Char → Option (List Char)) :
    readAuthority read (url.authority host ++ url.behind) = read host := by
  simp only [readAuthority, url.takeWhile_authority hostText, url.rtakeWhile_authority hostText,
    splitHost_place hostText, List.drop_left, portFits_elim, if_true]

theorem readAuthority_bare (hostText : HostText host) (read : List Char → Option (List Char)) :
    readAuthority read host = read host := by
  have begins : ∀ c rest, ([] : List Char) = c :: rest → c ∈ ['/', '?', '#'] := by
    intro c rest empty
    cases empty
  have whole := readAuthority_text
    { bareUrl "https".toList https_isScheme with behind := [], begins } hostText read
  rw [← whole]
  exact congrArg (readAuthority read) ((List.append_nil _).trans (List.append_nil _)).symm

/-- The scheme and the slashes are read; what is left is read as the scheme wants it. -/
theorem dropWhile_authority (url : FullUrl) (hostText : HostText host) :
    ('/' :: '/' :: (url.authority host ++ url.behind)).dropWhile (· = '/') =
      url.authority host ++ url.behind := by
  have undelimited := url.authority_undelimited hostText
  have nonempty : url.authority host ≠ [] := fun empty =>
    hostText.nonempty (List.append_eq_nil_iff.mp (List.append_eq_nil_iff.mp empty).1).2
  obtain ⟨c, rest, whole⟩ := List.exists_cons_of_ne_nil nonempty
  rw [whole] at undelimited ⊢
  rw [List.dropWhile_cons_of_pos rfl, List.dropWhile_cons_of_pos rfl, List.cons_append,
    List.dropWhile_cons_of_neg]
  rw [decide_eq_true_iff]
  intro slash
  have delimits := undelimited c List.mem_cons_self
  rw [slash] at delimits
  exact absurd delimits (by decide)

theorem FullUrl.text_eq (url : FullUrl) (host : List Char) :
    url.text host = url.scheme ++ ':' :: '/' :: '/' :: (url.authority host ++ url.behind) := by
  rw [FullUrl.text, List.append_assoc, List.append_assoc]
  rfl

theorem sampleParse_special (url : FullUrl) (hostText : HostText host)
    (special : isSpecial (toAsciiLowercase url.scheme) = true) :
    sampleParse (url.text host) = (sampleHost host).map fun name => ⟨url.text host, some name⟩ := by
  have colonFree := url.isScheme.colon_notMem
  rw [sampleParse, url.text_eq, takeWhile_append_cons colonFree, dropWhile_append_cons colonFree]
  simp only [special, if_true, dropWhile_authority url hostText, readAuthority_text url hostText]

theorem sampleParse_file (url : FullUrl) (file : toAsciiLowercase url.scheme = fileScheme) :
    sampleParse (url.text host) =
      (fileHost (url.authority host ++ url.behind)).map fun host' => ⟨url.text host, host'⟩ := by
  have colonFree := url.isScheme.colon_notMem
  have slashes : "//".toList.isPrefixOf ('/' :: '/' :: (url.authority host ++ url.behind)) = true :=
    List.isPrefixOf_iff_prefix.mpr ⟨_, rfl⟩
  have fits : schemeFits fileScheme = true := by decide
  have plain : isSpecial fileScheme = false := by decide
  rw [sampleParse, url.text_eq, takeWhile_append_cons colonFree, dropWhile_append_cons colonFree]
  simp only [file, plain, fits, slashes, Bool.false_eq_true, Bool.not_true, if_true, if_false,
    List.drop_succ_cons, List.drop_zero]

theorem sampleParse_foreign (url : FullUrl) (hostText : HostText host)
    (plain : isSpecial (toAsciiLowercase url.scheme) = false)
    (other : toAsciiLowercase url.scheme ≠ fileScheme)
    (accepted : (sampleParse (url.text host)).isSome) :
    sampleParse (url.text host) = some ⟨url.text host, some host⟩ := by
  have colonFree := url.isScheme.colon_notMem
  have slashes : "//".toList.isPrefixOf ('/' :: '/' :: (url.authority host ++ url.behind)) = true :=
    List.isPrefixOf_iff_prefix.mpr ⟨_, rfl⟩
  rw [sampleParse, url.text_eq, takeWhile_append_cons colonFree, dropWhile_append_cons colonFree]
    at accepted ⊢
  simp only [plain, slashes, Bool.false_eq_true, Bool.not_true, if_false, if_neg other,
    List.drop_succ_cons, List.drop_zero, readAuthority_text url hostText] at accepted ⊢
  split_ifs at accepted ⊢ with misfit
  · cases accepted
  · rw [foreignHost] at accepted ⊢
    split_ifs at accepted ⊢ with valid
    · rfl
    · cases accepted

theorem canonicalHost_sample (hostText : HostText host) :
    canonicalHost sampleTools host = sampleHost host := by
  have special : isSpecial (toAsciiLowercase "https".toList) = true := by decide
  rw [canonicalHost_eq, extractDomain_sample, sampleParse_special _ hostText special]
  cases sampleHost host with
  | none => rfl
  | some name => rfl

/-- What `sampleHost` accepts. -/
inductive SampleHost (host : List Char) : List Char → Prop
  | letters (nonempty : host ≠ []) (valid : ∀ c ∈ host, c.isAlpha ∨ c = '.') :
      SampleHost host (toAsciiLowercase host)
  | digits (nonempty : host ≠ []) (valid : ∀ c ∈ host, c.isDigit = true) (n : Nat) :
      SampleHost host (quad n)
  | address (same : host = "[::1]".toList) : SampleHost host host

theorem sampleHost_cases {name : List Char} (named : sampleHost host = some name) :
    SampleHost host name := by
  rw [sampleHost] at named
  split_ifs at named with empty letters digits address
  · cases named
    apply SampleHost.letters empty
    intro c present
    have valid := List.all_eq_true.mp letters c present
    rwa [Bool.or_eq_true, decide_eq_true_iff] at valid
  · cases named
    rw [Bool.and_eq_true] at digits
    exact .digits empty (List.all_eq_true.mp digits.1) _
  · cases named
    exact .address address

theorem mem_quad {n : Nat} {c : Char} (present : c ∈ quad n) : c.isDigit = true ∨ c = '.' := by
  have digits : ∀ m, c ∈ Nat.toDigits 10 m → c.isDigit = true := fun m member =>
    Nat.isDigit_of_mem_toDigits (by decide) (by decide) member
  simp only [quad, List.mem_append, List.mem_cons] at present
  rcases present with ((first | dot | second) | dot | third) | dot | fourth
  · exact .inl (digits _ first)
  · exact .inr dot
  · exact .inl (digits _ second)
  · exact .inr dot
  · exact .inl (digits _ third)
  · exact .inr dot
  · exact .inl (digits _ fourth)

theorem toNat_of_isDigit {c : Char} (digit : c.isDigit = true) : 48 ≤ c.toNat ∧ c.toNat ≤ 57 := by
  simp only [Char.isDigit, Bool.and_eq_true, decide_eq_true_iff] at digit
  exact ⟨UInt32.le_iff_toNat_le.mp digit.1, UInt32.le_iff_toNat_le.mp digit.2⟩

theorem toLower_of_isDigit {c : Char} (digit : c.isDigit = true) : c.toLower = c := by
  have bounds := toNat_of_isDigit digit
  rcases toLower_cases c with same | ⟨low, -, -⟩
  · exact same
  · omega

theorem map_toLower_of_digits {text : List Char} (digits : ∀ c ∈ text, c.isDigit = true ∨ c = '.') :
    toAsciiLowercase text = text := by
  apply (List.map_congr_left fun c present => ?_).trans (List.map_id text)
  rcases digits c present with digit | dot
  · exact toLower_of_isDigit digit
  · rw [dot]
    rfl

theorem SampleHost.canonical {name : List Char} (accepts : SampleHost host name) :
    name ≠ [] ∧ Ascii name ∧ toAsciiLowercase name = name := by
  cases accepts with
  | letters nonempty valid =>
      refine ⟨fun empty => nonempty (List.map_eq_nil_iff.mp empty), ?_, lower_idem host⟩
      intro c present
      obtain ⟨d, member, lowered⟩ := List.mem_map.mp present
      have small : d.toNat < 128 := by
        rcases valid d member with letter | dot
        · have letters := toNat_of_isAlpha letter
          omega
        · rw [dot]
          decide
      rcases toLower_cases d with same | ⟨-, high, code⟩
      · rwa [← lowered, same]
      · rw [← lowered]
        omega
  | digits nonempty valid n =>
      refine ⟨?_, ?_, map_toLower_of_digits fun c => mem_quad⟩
      · exact List.append_ne_nil_of_right_ne_nil _ (List.cons_ne_nil _ _)
      · intro c present
        rcases mem_quad present with digit | dot
        · exact Nat.lt_of_le_of_lt (toNat_of_isDigit digit).2 (by decide)
        · rw [dot]
          decide
  | address same =>
      rw [same]
      exact ⟨by decide, @of_decide_eq_true _ (List.decidableBAll _ _) rfl, by decide⟩

/-- A name that begins with `www.`, in some case, has been read as letters. -/
theorem SampleHost.of_www {name rest : List Char} (accepts : SampleHost host name)
    (marked : toAsciiLowercase host = www ++ rest) :
    name = toAsciiLowercase host ∧ ∀ c ∈ host, c.isAlpha ∨ c = '.' := by
  cases accepts with
  | letters nonempty valid => exact ⟨rfl, valid⟩
  | digits nonempty valid n =>
      rw [map_toLower_of_digits fun c present => .inl (valid c present)] at marked
      exact absurd (valid 'w' (marked ▸ List.mem_cons_self)) (by decide)
  | address same =>
      rw [same] at marked
      have head : some '[' = some 'w' := congrArg List.head? marked
      exact absurd head (by decide)

theorem exists_sampleHost {text name : List Char}
    (special : isSpecial (toAsciiLowercase (text.takeWhile (· ≠ ':'))) = true)
    (named : extractDomain sampleTools text = some name) : ∃ host, SampleHost host name := by
  rw [extractDomain_sample, sampleParse] at named
  split at named
  · cases named
  · simp only [special, if_true, readAuthority] at named
    split_ifs at named
    · obtain ⟨url, read, host⟩ := Option.bind_eq_some_iff.mp named
      obtain ⟨name', accepted, whole⟩ := Option.map_eq_some_iff.mp read
      rw [← whole] at host
      cases host
      exact ⟨_, sampleHost_cases accepted⟩
    · cases named

theorem SampleHost.of_canonical {name : List Char} (isHost : IsHost sampleTools host)
    (named : canonicalHost sampleTools host = some name) : SampleHost host name := by
  rw [canonicalHost_sample isHost.toHostText] at named
  exact sampleHost_cases named

theorem sampleHost_letters (nonempty : host ≠ []) (valid : ∀ c ∈ host, c.isAlpha ∨ c = '.') :
    sampleHost host = some (toAsciiLowercase host) := by
  have letters : (host.all fun c => c.isAlpha || c = '.') = true := by
    rw [List.all_eq_true]
    intro c present
    rw [Bool.or_eq_true, decide_eq_true_iff]
    exact valid c present
  rw [sampleHost, if_neg nonempty, if_pos letters]

theorem hostText_digits (n : Nat) : HostText (Nat.toDigits 10 n) where
  nonempty := Nat.toDigits_ne_nil
  undelimited := by
    intro c present
    have digit : c.isDigit = true := Nat.isDigit_of_mem_toDigits (by decide) (by decide) present
    exact ⟨isDelimiter_digit digit, Json.ne_of_isDigit digit rfl⟩
  form := by
    have digits : ∀ c ∈ Nat.toDigits 10 n, c.isDigit = true := fun c present =>
      Nat.isDigit_of_mem_toDigits (by decide) (by decide) present
    exact .inl ⟨fun present => absurd (digits _ present) (by decide),
      fun present => absurd (digits _ present) (by decide)⟩

theorem sampleHost_number {n : Nat} (small : n < 65536) :
    sampleHost (Nat.toDigits 10 n) = some (quad n) := by
  have digits : ∀ c ∈ Nat.toDigits 10 n, c.isDigit = true := fun c present =>
    Nat.isDigit_of_mem_toDigits (by decide) (by decide) present
  have noName : ((Nat.toDigits 10 n).all fun c => c.isAlpha || c = '.') = false := by
    rw [List.all_eq_false]
    obtain ⟨c, rest, whole⟩ := List.exists_cons_of_ne_nil (Nat.toDigits_ne_nil (n := n) (b := 10))
    have digit := digits c (whole ▸ List.mem_cons_self)
    refine ⟨c, whole ▸ List.mem_cons_self, ?_⟩
    rw [Bool.not_eq_true, Bool.or_eq_false_iff]
    refine ⟨?_, decide_eq_false (Json.ne_of_isDigit digit rfl)⟩
    rw [Bool.eq_false_iff]
    intro letter
    have bounds := toNat_of_isDigit digit
    have letters := toNat_of_isAlpha letter
    omega
  have number : ((Nat.toDigits 10 n).all Char.isDigit && decide (n < 4294967296)) = true := by
    rw [List.all_eq_true.mpr digits, Bool.true_and, decide_eq_true_iff]
    omega
  rw [sampleHost, if_neg Nat.toDigits_ne_nil, noName, Nat.ofDigitChars_ten_toDigits, number]
  rfl

/-- A `file` URL is accepted with nothing but the host in its authority. -/
theorem SampleHost.authority {url : FullUrl} {name : List Char}
    (accepts : SampleHost (url.authority host) name) : url.authority host = host := by
  have unsigned : '@' ∉ url.authority host := by
    intro present
    cases accepts with
    | letters nonempty valid => exact absurd (valid _ present) (by decide)
    | digits nonempty valid n => exact absurd (valid _ present) (by decide)
    | address same =>
        rw [same] at present
        exact absurd present (by decide)
  have portless : url.port = none := by
    cases given : url.port with
    | none => rfl
    | some port =>
        exfalso
        have isPort := url.isPort port given
        have whole : url.authority host =
            (url.credentials.elim [] (· ++ ['@']) ++ host) ++ ':' :: port := by
          rw [FullUrl.authority, given, Option.elim_some]
        have colon : ':' ∈ url.authority host := by
          rw [whole]
          exact List.mem_append_right _ List.mem_cons_self
        cases accepts with
        | letters nonempty valid => exact absurd (valid _ colon) (by decide)
        | digits nonempty valid n => exact absurd (valid _ colon) (by decide)
        | address same =>
            obtain ⟨front, last, split⟩ :=
              (List.eq_nil_or_concat port).resolve_left isPort.nonempty
            rw [List.concat_eq_append] at split
            have digit := isPort.digits last (split ▸ List.mem_append_right _ List.mem_cons_self)
            have ends := congrArg List.getLast? (whole.symm.trans same)
            rw [split, ← List.cons_append, ← List.append_assoc, List.getLast?_concat] at ends
            cases ends
            exact absurd digit (by decide)
  have anonymous : url.credentials = none := by
    cases given : url.credentials with
    | none => rfl
    | some text =>
        refine absurd ?_ unsigned
        rw [FullUrl.authority, given, Option.elim_some, List.append_assoc, List.append_assoc]
        exact List.mem_append_right _ List.mem_cons_self
  rw [FullUrl.authority, portless, anonymous]
  exact List.append_nil host

theorem schemeFits_of_isSpecial {scheme : List Char} (special : isSpecial scheme = true) :
    schemeFits scheme = true := by
  simp only [isSpecial, Bool.or_eq_true, decide_eq_true_eq] at special
  rcases special with (((rfl | rfl) | rfl) | rfl) | rfl
  · rfl
  · rfl
  · rfl
  · rfl
  · rfl

/-- Without a colon, or with no scheme in front of the first one, there is no URL. -/
theorem extractDomain_misfit {text : List Char}
    (misfit : ':' ∈ text → schemeFits (toAsciiLowercase (text.takeWhile (· ≠ ':'))) = false) :
    extractDomain sampleTools text = none := by
  have unparsed : sampleParse text = none := by
    rw [sampleParse]
    split
    · rfl
    · rename_i c rest behind
      have colon : ':' ∈ text := by
        by_contra free
        rw [List.dropWhile_eq_nil_iff.mpr (all_ne free)] at behind
        cases behind
      have fits := misfit colon
      have plain : isSpecial (toAsciiLowercase (text.takeWhile (· ≠ ':'))) = false := by
        rw [Bool.eq_false_iff]
        intro special
        rw [schemeFits_of_isSpecial special] at fits
        cases fits
      simp only [plain, fits, Bool.false_eq_true, Bool.not_false, if_true, if_false]
  rw [extractDomain_sample, unparsed]
  rfl

theorem lower_file : toAsciiLowercase fileScheme = fileScheme := by decide

/-- The parser of simple hosts keeps the laws. -/
theorem sample_laws : UrlLaws sampleTools where
  ascii := fun _ _ => rfl
  colon := fun _ => colon_mem_lower.mp
  canonical := by
    intro host name named
    rw [canonicalHost_eq] at named
    obtain ⟨host', accepts⟩ := exists_sampleHost
      (by rw [FullUrl.text_eq, takeWhile_append_cons (by decide)]; decide) named
    exact accepts.canonical
  bracketKept := by
    intro host name isHost named colon
    cases SampleHost.of_canonical isHost named with
    | letters nonempty valid => exact absurd (valid ':' colon) (by decide)
    | digits nonempty valid n => exact absurd (valid ':' colon) (by decide)
    | address same => exact ⟨"::1]".toList, same, by decide⟩
  special := by
    intro host url isHost special _
    rw [canonicalHost_sample isHost.toHostText, extractDomain_sample,
      sampleParse_special url isHost.toHostText special]
    cases sampleHost host with
    | none => rfl
    | some name => rfl
  file := by
    intro host url isHost file accepted
    have parsed : sampleParse (url.text host) = _ := sampleParse_file url file
    obtain ⟨name, named⟩ := Option.isSome_iff_exists.mp isHost.accepted
    rw [canonicalHost_sample isHost.toHostText] at named
    rw [extractDomain_sample, canonicalHost_sample isHost.toHostText, named, parsed]
    rw [sampleTools_parse, parsed, fileHost, url.takeWhile_authority isHost.toHostText] at accepted
    rw [fileHost, url.takeWhile_authority isHost.toHostText]
    have nonempty : url.authority host ≠ [] := fun empty =>
      isHost.nonempty (List.append_eq_nil_iff.mp (List.append_eq_nil_iff.mp empty).1).2
    simp only [if_neg nonempty] at accepted ⊢
    obtain ⟨_, read⟩ := Option.isSome_iff_exists.mp accepted
    obtain ⟨_, read, -⟩ := Option.map_eq_some_iff.mp read
    obtain ⟨name', read, -⟩ := Option.map_eq_some_iff.mp read
    rw [(sampleHost_cases read).authority, named]
    rfl
  fileAccepted := by
    intro host isHost
    have text := bareUrl_text fileScheme file_isScheme host
    obtain ⟨name, named⟩ := Option.isSome_iff_exists.mp isHost.accepted
    rw [canonicalHost_sample isHost.toHostText] at named
    have authority : (bareUrl fileScheme file_isScheme).authority host = host :=
      List.append_nil host
    rw [← text, sampleTools_parse, sampleParse_file _ lower_file, fileHost,
      FullUrl.takeWhile_authority (bareUrl fileScheme file_isScheme) isHost.toHostText, authority]
    simp only [if_neg isHost.nonempty, named]
    rfl
  foreign := by
    intro host url isHost _ _ plain other accepted
    rw [extractDomain_sample, sampleParse_foreign url isHost.toHostText plain other accepted]
    rfl
  schemeless := by
    intro text free
    apply extractDomain_misfit
    intro colon
    obtain ⟨front, rest, whole, first⟩ := List.eq_append_cons_of_mem colon
    rw [whole, takeWhile_append_cons first]
    have slash : '/' ∈ front := by
      by_contra slashFree
      apply free
      rw [whole, List.takeWhile_append_of_pos (all_ne slashFree), List.takeWhile_cons_of_pos rfl]
      exact List.mem_append_right _ List.mem_cons_self
    rw [schemeFits, Bool.and_eq_false_iff, List.all_eq_false]
    exact .inr ⟨'/', List.mem_map.mpr ⟨'/', slash, rfl⟩, by decide⟩
  bracketed := by
    intro text
    apply extractDomain_misfit
    intro _
    rw [List.takeWhile_cons_of_pos rfl]
    rfl
  ported := by
    intro host port isHost colonFree _ plain isPort
    have slashless : "//".toList.isPrefixOf port = false := by
      obtain ⟨c, rest, whole⟩ := List.exists_cons_of_ne_nil isPort.nonempty
      rw [Bool.eq_false_iff]
      intro slashes
      obtain ⟨more, split⟩ := List.isPrefixOf_iff_prefix.mp slashes
      exact absurd (isPort.digits '/' (split ▸ List.mem_append_left _ (by decide))) (by decide)
    by_cases fits : schemeFits (toAsciiLowercase host) = true
    · have parsed : sampleParse (host ++ ':' :: port) = some ⟨host ++ ':' :: port, none⟩ := by
        rw [sampleParse, takeWhile_append_cons colonFree, dropWhile_append_cons colonFree]
        simp only [plain, fits, slashless, Bool.false_eq_true, Bool.not_true, Bool.not_false,
          if_true, if_false]
      rw [extractDomain_sample, parsed]
      rfl
    · apply extractDomain_misfit
      intro _
      rw [takeWhile_append_cons colonFree, Bool.eq_false_iff.mpr fits]
  specialPorted := by
    intro scheme n special _
    have colonFree : ':' ∉ scheme := by
      rw [← colon_mem_lower]
      intro colon
      simp only [isSpecial, Bool.or_eq_true, decide_eq_true_eq] at special
      rcases special with (((same | same) | same) | same) | same
      all_goals
        rw [same] at colon
        exact absurd colon (by decide)
    have digits : ∀ c ∈ Nat.toDigits 10 n, c.isDigit = true := fun c present =>
      Nat.isDigit_of_mem_toDigits (by decide) (by decide) present
    have slashless : (Nat.toDigits 10 n).dropWhile (· = '/') = Nat.toDigits 10 n := by
      obtain ⟨c, rest, whole⟩ :=
        List.exists_cons_of_ne_nil (Nat.toDigits_ne_nil : Nat.toDigits 10 n ≠ [])
      rw [whole, List.dropWhile_cons_of_neg]
      rw [decide_eq_true_iff]
      exact Json.ne_of_isDigit (digits c (whole ▸ List.mem_cons_self)) rfl
    have read := readAuthority_bare (hostText_digits n) sampleHost
    have parsed : sampleParse (scheme ++ ':' :: Nat.toDigits 10 n) =
        (sampleHost (Nat.toDigits 10 n)).map fun name =>
          ⟨scheme ++ ':' :: Nat.toDigits 10 n, some name⟩ := by
      rw [sampleParse, takeWhile_append_cons colonFree, dropWhile_append_cons colonFree]
      simp only [special, if_true, slashless, read]
    rw [extractDomain_sample, parsed, canonicalHost_sample (hostText_digits n)]
    cases sampleHost (Nat.toDigits 10 n) with
    | none => rfl
    | some name => rfl
  number := by
    intro n small
    rw [canonicalHost_sample (hostText_digits n), sampleHost_number small]
    exact ⟨_, rfl, fun c => mem_quad⟩
  label := by
    intro host name rest isHost marked named
    have read := ((SampleHost.of_canonical isHost named).of_www marked).1
    exact ⟨rest, read.trans marked⟩
  letters := by
    intro host name isHost named plain
    have lowered : toAsciiLowercase (sampleTools.toLowercase host) = toAsciiLowercase host :=
      lower_idem host
    rw [lowered] at plain ⊢
    cases SampleHost.of_canonical isHost named with
    | letters nonempty valid => rfl
    | digits nonempty valid n =>
        rw [map_toLower_of_digits fun c present => .inl (valid c present)] at plain
        obtain ⟨c, rest, whole⟩ := List.exists_cons_of_ne_nil nonempty
        have digit := valid c (whole ▸ List.mem_cons_self)
        have bounds := toNat_of_isDigit digit
        rcases plain c (whole ▸ List.mem_cons_self) with dot | letter
        · exact absurd dot (Json.ne_of_isDigit digit rfl)
        · have letters := toNat_of_isLower letter
          omega
    | address same =>
        rw [same] at plain
        exact absurd (plain ':' (by decide)) (by decide)
  marked := by
    intro mark host name name' isHost colonFree reads named named'
    rw [canonicalHost_sample (isHost.marked colonFree reads)] at named'
    have lowered : toAsciiLowercase (mark ++ host) = www ++ toAsciiLowercase host := by
      rw [lower_append, reads]
    obtain ⟨whole, valid⟩ := (sampleHost_cases named').of_www lowered
    rw [canonicalHost_sample isHost.toHostText, sampleHost_letters isHost.nonempty
      fun c present => valid c (List.mem_append_right _ present)] at named
    cases named
    rw [whole, lowered]
  markedTwice := by
    intro host more isHost _ named
    have accepts := SampleHost.of_canonical isHost named
    have valid : ∀ c ∈ host, c.isAlpha ∨ c = '.' := by
      generalize whole : www ++ more = name at accepts
      have letter : 'w' ∈ name := whole ▸ List.mem_cons_self
      cases accepts with
      | letters nonempty valid => exact valid
      | digits nonempty valid n => exact absurd (mem_quad letter) (by decide)
      | address same =>
          rw [same] at letter
          exact absurd letter (by decide)
    have colonFree : ':' ∉ host := fun colon => absurd (valid _ colon) (by decide)
    have letters : ∀ c ∈ www ++ host, c.isAlpha ∨ c = '.' := by
      intro c present
      rcases List.mem_append.mp present with present | present
      · exact @of_decide_eq_true _ (List.decidableBAll (fun c => c.isAlpha ∨ c = '.') www) rfl c
          present
      · exact valid c present
    have reads : toAsciiLowercase www = www := rfl
    have marked := isHost.marked colonFree reads
    rw [canonicalHost_sample marked, sampleHost_letters marked.nonempty letters]
    rfl

end Webfang.Seeds
