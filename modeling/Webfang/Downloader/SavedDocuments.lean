import Webfang.Downloader.DocumentScraper
import Webfang.Lib.KeyedRows
import Webfang.Output.SavedPages

/-!
# What the saved documents hold

A document is saved as the text that its body decodes to, over whatever was saved under its name
before: its file holds its body at the end just when that text has the body as its encoding, and so
has the text of the last document of the name.
-/

namespace Webfang.Scrape.Scraper

open Wreq KeyedRows

/-! ## Documents -/

/-- A URL that is answered with a 2xx of a binary type, and a body that comes whole and within the
cap. -/
structure Document (s : Scraper) where
  url : Url
  response : Response
  pieces : List (List UInt8)
  success : response.isSuccess
  binary : isBinary ((response.pageHeaders["content-type"]?).getD "") = true
  whole : response.chunks = pieces.map .ok
  within : pieces.flatten.length ≤ s.downloader.maxPageBytes

namespace Document

variable {s : Scraper}

/-- The bytes of the body. -/
def bytes (doc : s.Document) : List UInt8 := doc.pieces.flatten

/-- The text that the body decodes to under its charset. -/
def text (doc : s.Document) : List Char :=
  (s.downloader.tools.decode doc.response.charset doc.bytes).toList

/-- The page that the document is fetched as. -/
def page (doc : s.Document) (finalUrl : Url) : FetchedPage where
  url := finalUrl
  html := s.downloader.tools.decode doc.response.charset doc.bytes
  status := doc.response.status
  headers := doc.response.pageHeaders
  cookies := s.downloader.extractCookies doc.url doc.response

/-- The path that the document is saved at, if it is. -/
def savedAt (doc : s.Document) : Option (List Char) :=
  match s.downloader.tools.parseUrl doc.response.uri with
  | .error _ => none
  | .ok finalUrl =>
      if s.downloadDocuments then s.outputPath doc.url (doc.page finalUrl) else none

/-- The URL is one that content is returned for. -/
def Described (doc : s.Document) : Prop :=
  s.assetDownloader = .ok () ∧ (∃ host, doc.url.hostStr = some host) ∧
    ∃ valid, s.tryFromUrl doc.url = .ok valid

end Document

variable (s : Scraper)

def scrape (doc : s.Document) (files : Files) : Outcome × Files :=
  s.scrapeSingleUrl doc.url (fun _ => .ok doc.response) files

/-- The documents are scraped one after the other; the outcomes, and the files at the end. -/
def scrapeAll : List s.Document → Files → List (s.Document × Outcome) × Files
  | [], files => ([], files)
  | doc :: docs, files =>
      let (outcome, files) := s.scrape doc files
      let (outcomes, files) := scrapeAll docs files
      ((doc, outcome) :: outcomes, files)

/-- Each path that a returned content names holds at the end the bytes of its document. -/
def HoldsBodies (docs : List s.Document) (files : Files) : Prop :=
  ∀ doc content path, (doc, .returned (.ok content)) ∈ (s.scrapeAll docs files).1 →
    content.content = savedText path doc.url → (s.scrapeAll docs files).2 path = some doc.bytes

variable {s}

/-- The last document that is saved at a path. -/
def lastAt (docs : List s.Document) (path : List Char) : Option s.Document :=
  rowAt Document.savedAt docs.reverse (some path)

/-- For each document that is saved and returned, the last document of its name decodes to a text
whose encoding is the body. -/
def LastEncodes (docs : List s.Document) : Prop :=
  ∀ doc ∈ docs, doc.Described → ∀ path, doc.savedAt = some path →
    ∀ last, lastAt docs path = some last → Utf8.encode last.text = doc.bytes

/-! ## One document -/

theorem readBounded_pieces {limit : Nat} {onOverflow : BoundedRead} {pieces : List (List UInt8)}
    {buf : List UInt8} (within : buf.length + pieces.flatten.length ≤ limit) :
    readBounded limit onOverflow (pieces.map .ok) buf = .ok (buf ++ pieces.flatten) := by
  induction pieces generalizing buf with
  | nil => rw [List.flatten_nil, List.append_nil]; rfl
  | cons piece pieces ih =>
      rw [List.flatten_cons, List.length_append] at within
      rw [List.map_cons]
      refine (if_neg (by omega)).trans ?_
      rw [ih (by rw [List.length_append]; omega), List.flatten_cons, List.append_assoc]

/-- A first answer that is a 2xx is the page. -/
theorem fetch_of_success {d : WreqDownloader} {url : Url} {r : Response} (success : r.isSuccess) :
    d.fetch (fun _ => .ok r) url = (d.buildPage url r, 1) := by
  rw [WreqDownloader.fetch, WreqDownloader.fetchLoop]
  exact if_pos success

/-- A document is fetched as its page. -/
theorem fetch_document (doc : s.Document) :
    (s.downloader.fetch (fun _ => .ok doc.response) doc.url).1 =
      match s.downloader.tools.parseUrl doc.response.uri with
      | .error e => .error (.invalidUrl e)
      | .ok finalUrl => .ok (doc.page finalUrl) := by
  have read : readBounded s.downloader.maxPageBytes .abort doc.response.chunks [] =
      .ok doc.bytes := by
    rw [doc.whole, readBounded_pieces (by simpa using doc.within), List.nil_append]
    rfl
  rw [fetch_of_success doc.success, WreqDownloader.buildPage, WreqDownloader.readBodyCapped,
    WreqDownloader.readBodyBounded, read]
  rfl

theorem scrape_of_error {doc : s.Document} {e : String}
    (failed : s.downloader.tools.parseUrl doc.response.uri = .error e) (files : Files) :
    s.scrape doc files = (.returned (.error (.network (.invalidUrl e))), files) := by
  rw [scrape, scrapeSingleUrl, fetch_document, failed]
  rfl

theorem scrape_of_page {doc : s.Document} {finalUrl : Url}
    (parsed : s.downloader.tools.parseUrl doc.response.uri = .ok finalUrl) (files : Files) :
    s.scrape doc files = s.scrapeDocument doc.url (doc.page finalUrl) files := by
  have status : 200 ≤ doc.response.status ∧ doc.response.status < 300 :=
    ⟨doc.success.1, Nat.lt_succ_of_le doc.success.2⟩
  rw [scrape, scrapeSingleUrl, fetch_document, parsed]
  exact (if_neg (not_not_intro status)).trans (if_pos doc.binary)

/-- A document that is saved is written and described. -/
theorem scrape_saved {doc : s.Document} {path : List Char} (saved : doc.savedAt = some path)
    (files : Files) :
    s.scrape doc files =
      (.returned (s.describe doc.url (savedText path doc.url)),
        Function.update files path (some (Utf8.encode doc.text))) := by
  rw [Document.savedAt] at saved
  rcases parsed : s.downloader.tools.parseUrl doc.response.uri with e | finalUrl <;>
    rw [parsed] at saved
  · cases saved
  · dsimp only at saved
    by_cases enabled : s.downloadDocuments = true
    · rw [if_pos enabled] at saved
      rw [scrape_of_page parsed, scrapeDocument, if_pos enabled, saved]
      rfl
    · rw [if_neg enabled] at saved
      cases saved

theorem unsavedText_ne_savedText {contentType : String} {url : Url} {path : List Char} :
    unsavedText contentType url ≠ savedText path url := by
  intro same
  have texts : "[Binary content: ".toList ++ contentType.toList ++ "] ".toList ++ url.asStr =
      "[Binary file saved: ".toList ++ path ++ "] ".toList ++ url.asStr := same
  have openings := List.append_cancel_right (List.append_cancel_right texts)
  have ninth : ("[Binary content: ".toList ++ contentType.toList)[8]? =
      ("[Binary file saved: ".toList ++ path)[8]? := by rw [openings]
  rw [List.getElem?_append_left (by decide), List.getElem?_append_left (by decide)] at ninth
  exact absurd ninth (by decide)

theorem describe_eq_ok {url : Url} {text : List Char} {content : ScrapedContent} :
    s.describe url text = .ok content ↔
      s.assetDownloader = .ok () ∧ ∃ host, url.hostStr = some host ∧
        ∃ valid, s.tryFromUrl url = .ok valid ∧
          { title := host, content := text, url := valid } = content := by
  rw [describe]
  rcases s.assetDownloader with e | ⟨⟩
  · refine iff_of_false (fun other => ?_) (fun ⟨other, _⟩ => ?_) <;> cases other
  rcases url.hostStr with _ | host
  · refine iff_of_false (fun other => ?_) (fun ⟨_, _, other, _⟩ => ?_) <;> cases other
  rcases s.tryFromUrl url with e | valid
  · refine iff_of_false (fun other => ?_) (fun ⟨_, _, _, _, other, _⟩ => ?_) <;> cases other
  · constructor
    · intro same
      exact ⟨rfl, host, rfl, valid, rfl, Except.ok.inj same⟩
    · intro ⟨_, host', here, valid', parsed, same⟩
      cases here
      cases parsed
      exact congrArg Except.ok same

theorem content_of_describe {url : Url} {text : List Char} {content : ScrapedContent}
    (described : s.describe url text = .ok content) : content.content = text := by
  obtain ⟨_, _, _, _, _, same⟩ := describe_eq_ok.mp described
  rw [← same]

/-- A document that is not saved leaves the files, and its text names no path. -/
theorem scrape_unsaved {doc : s.Document} (unsaved : doc.savedAt = none) :
    ∃ outcome, (∀ files, s.scrape doc files = (outcome, files)) ∧
      ∀ content path, outcome = .returned (.ok content) →
        content.content ≠ savedText path doc.url := by
  rw [Document.savedAt] at unsaved
  rcases parsed : s.downloader.tools.parseUrl doc.response.uri with e | finalUrl <;>
    rw [parsed] at unsaved
  · refine ⟨_, scrape_of_error parsed, fun content path returned => ?_⟩
    cases returned
  · dsimp only at unsaved
    simp only [scrape_of_page parsed, scrapeDocument]
    by_cases enabled : s.downloadDocuments = true
    · rw [if_pos enabled] at unsaved
      simp only [if_pos enabled, unsaved]
      refine ⟨_, fun files => rfl, fun content path returned => ?_⟩
      cases returned
    · simp only [if_neg enabled]
      refine ⟨_, fun files => rfl, fun content path returned => ?_⟩
      injection returned with described
      rw [content_of_describe described]
      exact unsavedText_ne_savedText

/-- Content is returned for a document just where its URL is one. -/
theorem describe_iff {doc : s.Document} {text : List Char} :
    (∃ content, s.describe doc.url text = .ok content) ↔ doc.Described := by
  constructor
  · intro ⟨content, described⟩
    obtain ⟨assets, host, here, valid, parsed, _⟩ := describe_eq_ok.mp described
    exact ⟨assets, ⟨host, here⟩, valid, parsed⟩
  · intro ⟨assets, ⟨host, here⟩, valid, parsed⟩
    exact ⟨_, describe_eq_ok.mpr ⟨assets, host, here, valid, parsed, rfl⟩⟩

theorem savedText_inj {path path' : List Char} {url : Url}
    (same : savedText path url = savedText path' url) : path = path' := by
  have texts : "[Binary file saved: ".toList ++ path ++ "] ".toList ++ url.asStr =
      "[Binary file saved: ".toList ++ path' ++ "] ".toList ++ url.asStr := same
  exact List.append_cancel_left (List.append_cancel_right (List.append_cancel_right texts))

/-! ## A list of documents -/

theorem lastAt_cons {doc : s.Document} {docs : List s.Document} {path : List Char} :
    lastAt (doc :: docs) path =
      (lastAt docs path).or (if doc.savedAt = some path then some doc else none) := by
  rw [lastAt, rowAt, List.reverse_cons, List.find?_append, List.find?_singleton]
  simp only [decide_eq_true_eq]
  rfl

/-- At each path stands the text of the last document that is saved there. -/
theorem files_scrapeAll (docs : List s.Document) (files : Files) (path : List Char) :
    (s.scrapeAll docs files).2 path =
      ((lastAt docs path).map fun last => Utf8.encode last.text).or (files path) := by
  induction docs generalizing files with
  | nil => rfl
  | cons doc docs ih =>
      rw [scrapeAll, lastAt_cons]
      dsimp only
      rw [ih]
      cases lastAt docs path with
      | some last => rfl
      | none =>
          rw [Option.none_or, Option.map_none, Option.none_or]
          rcases saved : doc.savedAt with _ | path'
          · obtain ⟨outcome, same, -⟩ := scrape_unsaved saved
            rw [same, if_neg (by simp)]
            rfl
          · rw [scrape_saved saved]
            by_cases here : path' = path
            · rw [if_pos (congrArg some here), ← here]
              exact Function.update_self ..
            · rw [if_neg (fun same => here (Option.some.inj same))]
              exact Function.update_of_ne (fun same => here same.symm) ..

/-- A document is saved no later than the last one of its path. -/
theorem lastAt_isSome {docs : List s.Document} {doc : s.Document} {path : List Char}
    (member : doc ∈ docs) (saved : doc.savedAt = some path) : lastAt docs path ≠ none := by
  rw [lastAt, Ne, rowAt_eq_none, ← saved]
  exact not_not_intro (List.mem_map_of_mem (List.mem_reverse.mpr member))

/-- What a document comes to does not depend on the files. -/
theorem scrape_fst (doc : s.Document) (files files' : Files) :
    (s.scrape doc files).1 = (s.scrape doc files').1 := by
  rcases saved : doc.savedAt with _ | path
  · obtain ⟨outcome, same, -⟩ := scrape_unsaved saved
    rw [same, same]
  · rw [scrape_saved saved, scrape_saved saved]

theorem mem_scrapeAll {docs : List s.Document} {files : Files} {doc : s.Document}
    {outcome : Outcome} :
    (doc, outcome) ∈ (s.scrapeAll docs files).1 ↔
      doc ∈ docs ∧ (s.scrape doc files).1 = outcome := by
  induction docs generalizing files with
  | nil => exact iff_of_false List.not_mem_nil fun member => List.not_mem_nil member.1
  | cons first docs ih =>
      rw [scrapeAll]
      dsimp only
      rw [List.mem_cons, List.mem_cons, ih, scrape_fst doc _ files, Prod.mk.injEq, or_and_right]
      refine or_congr_left ?_
      constructor
      · intro ⟨same, comes⟩
        rw [same, comes]
        exact ⟨rfl, rfl⟩
      · intro ⟨same, comes⟩
        rw [← same, comes]
        exact ⟨rfl, rfl⟩

/-- A content that names a path is returned for the documents that are saved there. -/
theorem named_iff {doc : s.Document} (files : Files) {path : List Char} :
    (∃ content, (s.scrape doc files).1 = .returned (.ok content) ∧
        content.content = savedText path doc.url) ↔
      doc.savedAt = some path ∧ doc.Described := by
  rcases saved : doc.savedAt with _ | path'
  · obtain ⟨outcome, same, unnamed⟩ := scrape_unsaved saved
    refine iff_of_false (fun ⟨content, comes, names⟩ => ?_) fun ⟨other, _⟩ => by cases other
    rw [same] at comes
    exact unnamed content path comes names
  · rw [scrape_saved saved, Option.some.injEq, ← describe_iff]
    constructor
    · intro ⟨content, comes, names⟩
      have described : s.describe doc.url (savedText path' doc.url) = .ok content := by
        injection comes
      have text := content_of_describe described
      exact ⟨savedText_inj (text.symm.trans names), content, described⟩
    · intro ⟨same, content, described⟩
      rw [same] at described ⊢
      exact ⟨content, congrArg Outcome.returned described, content_of_describe described⟩

/-- Every named path holds its body at the end just where the last text saved there has the body as
its encoding. -/
theorem holdsBodies_iff (s : Scraper) (docs : List s.Document) (files : Files) :
    s.HoldsBodies docs files ↔ LastEncodes docs := by
  constructor
  · intro holds doc member described path saved last final
    obtain ⟨content, comes, names⟩ := (named_iff files).mpr ⟨saved, described⟩
    have held := holds doc content path (mem_scrapeAll.mpr ⟨member, comes⟩) names
    rw [files_scrapeAll, final] at held
    exact Option.some.inj held
  · intro encodes doc content path returned names
    obtain ⟨member, comes⟩ := mem_scrapeAll.mp returned
    obtain ⟨saved, described⟩ := (named_iff files).mp ⟨content, comes, names⟩
    rw [files_scrapeAll]
    rcases final : lastAt docs path with _ | last
    · exact absurd final (lastAt_isSome member saved)
    · exact congrArg some (encodes doc member described path saved last final)

/-- A document that is saved and returned is held only where its body is the encoding of a text. -/
theorem bytes_of_holds {docs : List s.Document} {files : Files} (holds : s.HoldsBodies docs files)
    {doc : s.Document} (member : doc ∈ docs) (described : doc.Described) {path : List Char}
    (saved : doc.savedAt = some path) : ∃ text, doc.bytes = Utf8.encode text := by
  obtain ⟨content, comes, names⟩ := (named_iff files).mpr ⟨saved, described⟩
  have held := holds doc content path (mem_scrapeAll.mpr ⟨member, comes⟩) names
  rw [files_scrapeAll] at held
  rcases final : lastAt docs path with _ | last
  · exact absurd final (lastAt_isSome member saved)
  · rw [final] at held
    exact ⟨last.text, (Option.some.inj held).symm⟩

/-! ## A body that is no text -/

/-- `http://a.example/b.pdf`. -/
def pdfUrl : Url where
  asStr := "http://a.example/b.pdf".toList
  hostStr := some "a.example".toList
  path := "/b.pdf".toList

/-- A scraper of UTF-8 texts into `out`. -/
def utf8Scraper : Scraper where
  downloader :=
    { tools :=
        { inspect := fun _ _ => { isBlocked := false, evidenceChain := "" }
          decode := fun _ bytes =>
            String.ofList ((Utf8.decode (Utf8.fromUtf8Lossy bytes)).getD [])
          parseUrl := fun _ => .ok pdfUrl
          toLowercase := fun text => text.map Char.toLower }
      timeoutSecs := 30
      pinnedUa := none
      maxRetries := 3
      maxPageBytes := 50000000
      ignoreWaf := false }
  names := Output.asciiTools
  outputDir := "out".toList
  downloadDocuments := true
  assetDownloader := .ok ()
  withoutCredentials := id
  scrapeHtml := fun _ _ files => (.panicked, files)

/-- A body of one byte that is no UTF-8. -/
def strayDocument : utf8Scraper.Document where
  url := pdfUrl
  response :=
    { status := 200
      uri := "http://a.example/b.pdf"
      headers := [("content-type", some "application/pdf")]
      cookies := []
      chunks := [.ok [0xFF]] }
  pieces := [[0xFF]]
  success := by decide
  binary := by decide +kernel
  whole := rfl
  within := by decide

/-- The file of the document holds another body. -/
theorem stray_byte_replaced : ¬ utf8Scraper.HoldsBodies [strayDocument] fun _ => none := by
  intro holds
  have saved : strayDocument.savedAt = some "out/b.pdf".toList := by decide +kernel
  have described : strayDocument.Described := ⟨rfl, ⟨_, rfl⟩, _, rfl⟩
  obtain ⟨content, comes, names⟩ := (named_iff fun _ => none).mpr ⟨saved, described⟩
  have held := holds strayDocument content _
    (mem_scrapeAll.mpr ⟨List.mem_singleton_self _, comes⟩) names
  rw [files_scrapeAll] at held
  exact absurd held (by decide +kernel)

end Webfang.Scrape.Scraper
