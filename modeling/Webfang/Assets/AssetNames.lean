import Mathlib.Algebra.Group.Nat.Defs
import Webfang.Domain.Record
import Webfang.Output.UrlPath

/-!
# The names of downloaded assets

`adapters/downloader/mod.rs` and `domain/crawler_port/filename.rs`: an asset is named after its
contents, its URL or its `Content-Disposition`, and where a file has that name already, after both
the name and the contents.
-/

namespace Webfang.Assets

open Webfang.Output

/-- `AssetNamingStrategy`. -/
inductive AssetNamingStrategy where
  | hash
  | slug
  | contentDisposition
  deriving DecidableEq, Repr

/-- The tools of the names, and the digest of a body as 64 digits of base sixteen. -/
structure AssetTools where
  names : NameTools
  sha256Hex : List UInt8 → List Char

/-! ## Sanitizing -/

/-- `MAX_FILENAME_LEN`. -/
def maxFilenameLen : Nat := 255

/-- `char::is_control`. -/
def isControl (c : Char) : Bool := c.toNat < 0x20 || (0x7F ≤ c.toNat && c.toNat ≤ 0x9F)

/-- `{:08x}` of all 64 bits. -/
def hexPadded (hash : UInt64) : List Char :=
  let digits := Nat.toDigits 16 hash.toNat
  List.replicate (8 - digits.length) '0' ++ digits

def sanitizeFilenameComponent (tools : NameTools) (name : List Char) : Option (List Char) :=
  let cleaned := name.filter fun c => !isControl c
  let segments := (cleaned.splitOnP fun c => c = '/' || c = '\\').filter fun segment =>
    segment ≠ [] ∧ segment ≠ ['.'] ∧ segment ≠ ['.', '.']
  segments.getLast?.map fun candidate =>
    if (Utf8.encode candidate).length ≤ maxFilenameLen then candidate
    else
      let hash8 := hexPadded (tools.defaultHash candidate)
      cutAtBytes (maxFilenameLen - 1 - hash8.length) candidate ++ '-' :: hash8

def sanitizeFilename (tools : NameTools) (name : List Char) : List Char :=
  (sanitizeFilenameComponent tools name).getD []

/-! ## Three sources of a name -/

/-- The last segment of the path of a URL. -/
def deriveSlugFromUrl (url : Output.ValidUrl) : List Char := (url.path.splitOn '/').getLastD []

/-- What stands behind the first occurrence of a pattern in lower case. -/
def behindIgnoringCase (pat : List Char) : List Char → Option (List Char)
  | [] => none
  | c :: text =>
      if pat.isPrefixOf ((c :: text).map Char.toLower) then some ((c :: text).drop pat.length)
      else behindIgnoringCase pat text

/-- The name of a `filename=` parameter that is not empty. -/
def filenameOf (rest : List Char) : Option (List Char) :=
  match rest with
  | '"' :: inner => if '"' ∈ inner then some (inner.takeWhile (· ≠ '"')) else none
  | rest =>
      let name := rest.takeWhile (· ≠ ';')
      some ((name.dropWhile isWhitespace).rdropWhile isWhitespace)

def parseContentDispositionHeader (tools : NameTools) (value : List Char) : Option (List Char) :=
  match behindIgnoringCase "filename*=utf-8''".toList value with
  | some encoded => some (tools.percentDecode (encoded.takeWhile fun c => c ≠ ';' ∧ c ≠ ' '))
  | none =>
      (behindIgnoringCase "filename=".toList value).bind fun rest =>
        (filenameOf rest).filter (· ≠ [])

def mimeTypeToExtension (mime : List Char) : Option (List Char) :=
  match String.ofList ((mime.dropWhile isWhitespace).rdropWhile isWhitespace) with
  | "image/jpeg" | "image/jpg" => some "jpg".toList
  | "image/png" => some "png".toList
  | "image/gif" => some "gif".toList
  | "image/webp" => some "webp".toList
  | "image/svg+xml" => some "svg".toList
  | "image/bmp" => some "bmp".toList
  | "image/tiff" => some "tiff".toList
  | "image/x-icon" => some "ico".toList
  | "application/pdf" => some "pdf".toList
  | "application/msword" => some "doc".toList
  | "application/vnd.openxmlformats-officedocument.wordprocessingml.document" => some "docx".toList
  | "application/vnd.ms-excel" => some "xls".toList
  | "application/vnd.openxmlformats-officedocument.spreadsheetml.sheet" => some "xlsx".toList
  | "application/vnd.ms-powerpoint" => some "ppt".toList
  | "application/vnd.openxmlformats-officedocument.presentationml.presentation" =>
      some "pptx".toList
  | "text/csv" => some "csv".toList
  | "application/vnd.oasis.opendocument.text" => some "odt".toList
  | "application/vnd.oasis.opendocument.spreadsheet" => some "ods".toList
  | "application/epub+zip" => some "epub".toList
  | "application/rtf" => some "rtf".toList
  | "text/plain" => some "txt".toList
  | "application/json" => some "json".toList
  | "application/xml" | "text/xml" => some "xml".toList
  | _ => none

/-! ## The name of an asset -/

/-- The name of an asset after its contents. -/
def hashName (contentHash extension : List Char) : List Char :=
  contentHash.take 12 ++ '.' :: extension

def generateFilename (tools : NameTools) (naming : AssetNamingStrategy) (url : Output.ValidUrl)
    (contentHash : List Char) (mimeType contentDispositionFilename : Option (List Char)) :
    List Char :=
  let extension := (mimeTypeToExtension (mimeType.getD [])).getD "bin".toList
  match naming with
  | .hash => hashName contentHash extension
  | .slug =>
      let name := sanitizeFilename tools (deriveSlugFromUrl url)
      if name.isEmpty then hashName contentHash extension
      else
        let slugExt := (name.splitOn '.').getLastD []
        if !slugExt.isEmpty && slugExt ≠ name then sanitizeFilename tools name
        else name ++ '.' :: extension
  | .contentDisposition =>
      match contentDispositionFilename with
      | some name =>
          let sanitized := sanitizeFilename tools name
          if !sanitized.isEmpty then sanitized else hashName contentHash extension
      | none => hashName contentHash extension

/-- `file_stem` and `extension` of a file name. -/
def splitExtension (filename : List Char) : List Char × List Char :=
  if '.' ∈ filename.drop 1 then
    let extension := (filename.reverse.takeWhile (· ≠ '.')).reverse
    (filename.take (filename.length - extension.length - 1), extension)
  else (filename, [])

/-- `Path::join`. -/
def join (folder name : List Char) : List Char :=
  if name.head? = some '/' then name
  else if folder.isEmpty || folder.getLast? = some '/' then folder ++ name
  else folder ++ '/' :: name

def resolveCollision (subdir filename contentHash : List Char) : List Char :=
  let hashSuffix := contentHash.take 8
  let (stem, ext) := splitExtension filename
  let stem := if stem.isEmpty then "file".toList else stem
  if ext.isEmpty then join subdir (stem ++ '-' :: hashSuffix)
  else join subdir (stem ++ '-' :: hashSuffix ++ '.' :: ext)

/-! ## The folder of an asset -/

def imageExtensions : List String :=
  ["jpg", "jpeg", "png", "gif", "webp", "svg", "bmp", "ico", "tiff", "tif"]

/-- `detect_from_url(…).is_image()`; the path of a URL is ASCII. -/
def isImageUrl (url : Output.ValidUrl) : Bool :=
  String.ofList (((url.path.splitOn '.').getLastD []).map Char.toLower) ∈ imageExtensions

end Webfang.Assets
