import Mathlib.Algebra.Group.Nat.Defs
import Webfang.Lib.Pieces
import Webfang.Lib.Utf8

/-!
# Paths of the pages that are saved

`adapters/url_path.rs`: the domain of a page is its folder, the path of its URL a folder below it
and a file name.  Markdown pages keep the query and the fragment in the name, text pages do not.
Texts are lists of characters.
-/

namespace Webfang.Output

open Pieces

/-- What a name is made with beside the source: `char::is_alphanumeric`, `percent_decode_str`
with `decode_utf8_lossy`, and the hasher of the standard library. -/
structure NameTools where
  isAlphanumeric : Char → Bool
  percentDecode : List Char → List Char
  defaultHash : List Char → UInt64
  ascii : ∀ c : Char, c.toNat < 0x80 → isAlphanumeric c = c.isAlphanum

/-- The schemes of a `ValidUrl`. -/
inductive Scheme
  | http
  | https
  deriving DecidableEq

def Scheme.text : Scheme → List Char
  | .http => "http".toList
  | .https => "https".toList

/-- `ValidUrl`: what the parser reads of an http(s) URL without credentials. -/
structure ValidUrl where
  scheme : Scheme
  host : List Char
  port : Option Nat
  path : List Char
  query : Option (List Char)
  fragment : Option (List Char)
  host_named : host ≠ [] ∧ '/' ∉ host
  path_rooted : path.head? = some '/'
  path_plain : '?' ∉ path ∧ '#' ∉ path

/-- The text of a URL, which the parser reads back. -/
def ValidUrl.asStr (url : ValidUrl) : List Char :=
  url.scheme.text ++ "://".toList ++ url.host ++
    (url.port.elim [] fun port => ':' :: port.repr.toList) ++ url.path ++
    (url.query.elim [] fun query => '?' :: query) ++
    url.fragment.elim [] fun fragment => '#' :: fragment

/-- `OutputFormat`. -/
inductive OutputFormat
  | markdown
  | text
  | json
  deriving DecidableEq

/-- `MAX_FILENAME_BODY_BYTES`. -/
def maxFilenameBodyBytes : Nat := 180

/-- The characters before the last one that starts at most `budget` bytes into a text that is
longer than that. -/
def cutAtBytes : Nat → List Char → List Char
  | _, [] => []
  | budget, c :: text =>
      if c.utf8Size ≤ budget then c :: cutAtBytes (budget - c.utf8Size) text else []

/-- `{:08x}` of the low 32 bits. -/
def hex8 (hash : UInt64) : List Char :=
  [7, 6, 5, 4, 3, 2, 1, 0].map fun i => Nat.digitChar (hash.toNat / 16 ^ i % 16)

def truncateWithHash (tools : NameTools) (s : List Char) (maxBytes : Nat) : List Char :=
  if (Utf8.encode s).length ≤ maxBytes then s
  else cutAtBytes (maxBytes - 9) s ++ '_' :: hex8 (tools.defaultHash s)

def windowsReserved : List (List Char) :=
  ["CON", "PRN", "AUX", "NUL", "COM1", "COM2", "COM3", "COM4", "COM5", "COM6", "COM7", "COM8",
    "COM9", "LPT1", "LPT2", "LPT3", "LPT4", "LPT5", "LPT6", "LPT7", "LPT8", "LPT9"].map
    String.toList

/-- `Domain::from_url`; the host of a `ValidUrl` is never empty. -/
def domainOf (url : ValidUrl) : List Char :=
  if "www.".toList.isPrefixOf url.host then url.host.drop 4 else url.host

/-- `UrlPath`. -/
structure UrlPath where
  raw : List Char
  isRoot : Bool
  endsWithSlash : Bool

namespace UrlPath

/-- `sanitize_query_part`. -/
def sanitizeQueryPart (s : List Char) : List Char :=
  s.map fun c => if c ∈ ['?', '&', ':', '=', '#', '/'] then '_' else c

/-- `sanitize_path_segment`. -/
def sanitizePathSegment (tools : NameTools) (s : List Char) : List Char :=
  s.map fun c =>
    if tools.isAlphanumeric c ∨ c = '-' ∨ c = '_' ∨ c = '.' then c else '_'

def fromUrlPath (path : List Char) : UrlPath :=
  let clean := (path.takeWhile (· ≠ '?')).takeWhile (· ≠ '#')
  let normalized := if clean.head? = some '/' then clean else '/' :: clean
  let isRoot := normalized = ['/']
  let endsWithSlash := normalized.getLast? = some '/' ∧ ¬ isRoot
  { raw := if endsWithSlash then normalized.rdropWhile (· = '/') else normalized
    isRoot := isRoot
    endsWithSlash := endsWithSlash }

/-- `from_url`. -/
def fromUrl (url : ValidUrl) : UrlPath := fromUrlPath url.path

/-- What the query and the fragment add to the name. -/
def querySuffix (tools : NameTools) (url : ValidUrl) : List Char :=
  let query := url.query.getD []
  let fragment := url.fragment.getD []
  let suffix := (if query = [] then [] else '_' :: sanitizeQueryPart query) ++
    if fragment = [] then [] else '_' :: sanitizeQueryPart fragment
  truncateWithHash tools suffix maxFilenameBodyBytes

def fromUrlWithQuery (tools : NameTools) (url : ValidUrl) : UrlPath :=
  let base := fromUrlPath url.path
  if url.query.getD [] = [] ∧ url.fragment.getD [] = [] then base
  else
    { raw := base.raw ++ querySuffix tools url
      isRoot := false
      endsWithSlash := false }

/-- Whether Windows reserves a name; upper case makes the letters of the reserved names from
no character outside ASCII. -/
def isReserved (name : List Char) : Bool := windowsReserved.contains (name.map Char.toUpper)

/-- The name of a page without its extension. -/
def stem (tools : NameTools) (path : UrlPath) : List Char :=
  if path.isRoot then "index".toList
  else
    let pathTrimmed := (tools.percentDecode path.raw).dropWhile (· = '/')
    let slug := ((pathTrimmed.rdropWhile (· = '/')).map fun c => if c = '/' then '-' else c).map
      fun c => if c = ' ' then '_' else c
    let sanitized := sanitizePathSegment tools slug
    let finalName := if isReserved sanitized then sanitized ++ "_safe".toList else sanitized
    if path.endsWithSlash ∧ finalName ≠ [] then finalName ++ ['_'] else finalName

def toSafeFilenameWithFormat (tools : NameTools) (path : UrlPath) (format : Option OutputFormat) :
    List Char :=
  stem tools path ++ '.' :: match format with
    | some .json => "json".toList
    | some .text => "txt".toList
    | some .markdown | none => "md".toList

/-- `to_directory`. -/
def toDirectory (tools : NameTools) (path : UrlPath) : List Char :=
  if path.isRoot then []
  else
    let pathTrimmed := path.raw.dropWhile (· = '/')
    if '/' ∈ pathTrimmed then
      -- what stands before the last slash
      let dir := (pathTrimmed.rdropWhile (· ≠ '/')).dropLast
      let sanitized := (pieces '/' dir).map fun component =>
        if component = ['.'] ∨ component = ['.', '.'] then ['_']
        else sanitizePathSegment tools component
      ['/'].intercalate sanitized ++ ['/']
    else []

end UrlPath

/-- `OutputPath`. -/
structure OutputPath where
  domain : List Char
  path : UrlPath

namespace OutputPath

def fromUrl (url : ValidUrl) : OutputPath := ⟨domainOf url, UrlPath.fromUrl url⟩

def fromUrlWithQuery (tools : NameTools) (url : ValidUrl) : OutputPath :=
  ⟨domainOf url, UrlPath.fromUrlWithQuery tools url⟩

def toFolderPath (tools : NameTools) (out : OutputPath) : List Char :=
  "./output/".toList ++ out.domain ++ '/' :: out.path.toDirectory tools

def toFullPathWithFormat (tools : NameTools) (out : OutputPath) (format : Option OutputFormat) :
    List Char :=
  out.toFolderPath tools ++ out.path.toSafeFilenameWithFormat tools format

def toFullPath (tools : NameTools) (out : OutputPath) : List Char :=
  out.toFullPathWithFormat tools none

end OutputPath

end Webfang.Output
