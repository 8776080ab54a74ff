import Mathlib.Logic.Function.Basic
import Webfang.Assets.AssetNames
import Webfang.Downloader.WreqDownloader
import Webfang.Lib.Json

/-!
# The documents that are saved

`scrape_single_url` of `application/crawler/discovery.rs` and `domain/crawler_port/filename.rs`: a
page of a binary type is not read but saved, under a name that its `Content-Disposition`, its URL or
its type gives.  Paths and texts are lists of characters, and every write succeeds.
-/

namespace Webfang.Scrape

open Wreq Assets Output

/-! ## Names -/

/-- `u8::from_str_radix` to base sixteen, of at most two characters. -/
def byteOfHex (hex : List Char) : Option Nat :=
  let digits := if hex.head? = some '+' then hex.drop 1 else hex
  if digits = [] then none
  else digits.foldlM (fun byte c => (Json.hexDigit c).map (byte * 16 + ·)) 0

/-- The text of a `%` and the characters that are taken behind it. -/
def percentByte (hex : List Char) : List Char :=
  match byteOfHex hex with
  | some byte => [Char.ofNat byte]
  | none => '%' :: hex

def percentDecode : List Char → List Char
  | [] => []
  | [c] => if c = '%' then percentByte [] else [c]
  | [c, a] => if c = '%' then percentByte [a] else c :: percentDecode [a]
  | c :: a :: b :: rest =>
      if c = '%' then percentByte [a, b] ++ percentDecode rest
      else c :: percentDecode (a :: b :: rest)

def isQuote (c : Char) : Bool := c = '"' || c = '\''

/-- The name of a `filename*=` parameter. -/
def extendedName (part : List Char) : Option (List Char) :=
  if "filename*=UTF-8''".toList.isPrefixOf part then
    some (percentDecode (part.drop 17)) |>.filter (· ≠ [])
  else none

/-- The name of a `filename=` parameter. -/
def plainName (part : List Char) : Option (List Char) :=
  if "filename=".toList.isPrefixOf part then
    some ((part.drop 9).dropWhile isQuote |>.rdropWhile isQuote) |>.filter (· ≠ [])
  else none

def parseContentDisposition (value : List Char) : Option (List Char) :=
  let parts := (value.splitOn ';').map Http.Response.trim
  (parts.findSome? extendedName).or (parts.findSome? plainName)

/-- The types that give a name its extension. -/
def typeExtensions : List (String × String) :=
  [("application/pdf", "pdf"), ("application/zip", "zip"), ("application/x-tar", "tar"),
    ("image/png", "png"), ("image/jpeg", "jpg"), ("image/gif", "gif"), ("image/webp", "webp"),
    ("image/svg", "svg"), ("audio/mpeg", "mp3"), ("video/mp4", "mp4")]

def typeExtension (contentType : String) : String :=
  ((typeExtensions.find? fun entry => contains contentType.toList entry.1).map Prod.snd).getD "bin"

/-- The name of a document that has no other; there is none when the hash has less than the eight
digits that are cut out of it, and the slice panics. -/
def fallbackName (names : NameTools) (url : Url) (contentType : String) : Option (List Char) :=
  let host := (url.hostStr.getD "unknown".toList).map fun c => if c = '.' then '_' else c
  let pathHash := Nat.toDigits 16 (names.defaultHash url.path).toNat
  if pathHash.length < 8 then none
  else some (host ++ '_' :: pathHash.take 8 ++ '.' :: (typeExtension contentType).toList)

/-- The name that the path of a URL ends in. -/
def nameOfPath (names : NameTools) (url : Url) : Option (List Char) :=
  let basename := (url.path.splitOn '/').getLastD []
  if basename = [] then none
  else sanitizeFilenameComponent names (basename.takeWhile (· ≠ '?'))

def deriveFilenameFromContentDisposition (names : NameTools) (contentDisposition : Option String)
    (url : Url) (contentType : String) : Option (List Char) :=
  let named := contentDisposition.bind fun disposition =>
    (parseContentDisposition disposition.toList).bind (sanitizeFilenameComponent names)
  match named.or (nameOfPath names url) with
  | some name => some name
  | none => fallbackName names url contentType

/-! ## Scraping -/

inductive ScraperError
  | invalidUrl (message : List Char)
  | http (status : Nat) (url : List Char)
  | network (e : DownloadError)
  | config (message : String)
  | wafBlocked (url : List Char) (provider : String)

/-- `ScrapedContent`: what differs between documents. -/
structure ScrapedContent where
  title : List Char
  content : List Char
  url : Url

/-- What a call comes to: it returns, or it panics. -/
inductive Outcome
  | returned (result : Except ScraperError ScrapedContent)
  | panicked

/-- The files of the disk. -/
abbrev Files := List Char → Option (List UInt8)

/-- The configuration and the ports of a run.  The asset downloader is the shared one, or else it is
built for the call; credentials are stripped by the parser of URLs; a page that is no document is
scraped elsewhere. -/
structure Scraper where
  downloader : WreqDownloader
  names : NameTools
  outputDir : List Char
  downloadDocuments : Bool
  assetDownloader : Except ScraperError Unit
  withoutCredentials : Url → Url
  scrapeHtml : Url → FetchedPage → Files → Outcome × Files

/-- The types of documents. -/
def binaryTypes : List String :=
  ["application/pdf", "application/octet-stream", "application/zip", "application/x-", "image/",
    "audio/", "video/"]

def isBinary (contentType : String) : Bool := binaryTypes.any (contains contentType.toList)

/-- A failed download as an error of the scraper. -/
def ofDownload (url : Url) : DownloadError → ScraperError
  | .wafChallenge provider => .wafBlocked url.asStr provider
  | .http status _ => .http status url.asStr
  | other => .network other

namespace Scraper

variable (s : Scraper)

/-- `ValidUrl::try_from_url`. -/
def tryFromUrl (url : Url) : Except ScraperError Url :=
  let scheme := url.asStr.takeWhile (· ≠ ':')
  if scheme ≠ "http".toList ∧ scheme ≠ "https".toList then
    .error (.invalidUrl ("Scheme '".toList ++ scheme ++
      "' no soportado. Solo http:// y https://".toList))
  else .ok (s.withoutCredentials url)

/-- The text of a document that is saved. -/
def savedText (path : List Char) (url : Url) : List Char :=
  "[Binary file saved: ".toList ++ path ++ "] ".toList ++ url.asStr

/-- The text of a document that is not. -/
def unsavedText (contentType : String) (url : Url) : List Char :=
  "[Binary content: ".toList ++ contentType.toList ++ "] ".toList ++ url.asStr

/-- What is returned for a document with this text; it has no assets, but their downloader is
built. -/
def describe (url : Url) (content : List Char) : Except ScraperError ScrapedContent :=
  match s.assetDownloader with
  | .error e => .error e
  | .ok () =>
      match url.hostStr with
      | none => .error (.invalidUrl ("URL missing host: ".toList ++ url.asStr))
      | some host =>
          (s.tryFromUrl url).map fun valid => { title := host, content := content, url := valid }

/-- The type of a page. -/
def contentType (page : FetchedPage) : String := (page.headers["content-type"]?).getD ""

/-- The path that a document is saved at. -/
def outputPath (url : Url) (page : FetchedPage) : Option (List Char) :=
  (deriveFilenameFromContentDisposition s.names page.headers["content-disposition"]? url
    (contentType page)).map (Assets.join s.outputDir)

def scrapeDocument (url : Url) (page : FetchedPage) (files : Files) : Outcome × Files :=
  if s.downloadDocuments then
    match s.outputPath url page with
    | none => (.panicked, files)
    | some path =>
        (.returned (s.describe url (savedText path url)),
          Function.update files path (some (Utf8.encode page.html.toList)))
  else (.returned (s.describe url (unsavedText (contentType page) url)), files)

/-- `scrape_single_url`, with the answers to its requests. -/
def scrapeSingleUrl (url : Url) (answers : Nat → Except TransportError Response) (files : Files) :
    Outcome × Files :=
  match (s.downloader.fetch answers url).1 with
  | .error e => (.returned (.error (ofDownload url e)), files)
  | .ok page =>
      if ¬ (200 ≤ page.status ∧ page.status < 300) then
        (.returned (.error (.http page.status url.asStr)), files)
      else if isBinary (contentType page) then s.scrapeDocument url page files
      else s.scrapeHtml url page files

end Scraper

end Webfang.Scrape
