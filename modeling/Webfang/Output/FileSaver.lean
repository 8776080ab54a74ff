import Webfang.Domain.Record
import Webfang.Output.UrlPath

/-!
# Saving pages as files

`infrastructure/output/file_saver.rs` over a directory tree.  Each page is written to a temporary
file next to its own and renamed, so that the last page with a path is what is read there.  How
Markdown is made of a page is a parameter.
-/

namespace Webfang.Output

open Pieces

/-! ## The output directory -/

/-- The names from the output directory down to a file or a folder. -/
abbrev FilePath := List (List Char)

/-- What is below the output directory. -/
structure Directory where
  files : FilePath → Option (List Char)
  folders : FilePath → Bool

namespace Directory

def empty : Directory := ⟨fun _ => none, fun path => path.isEmpty⟩

/-- `fs::create_dir_all`, which fails at a file. -/
def createDirAll (dir : Directory) (path : FilePath) : Option Directory :=
  if path.inits.any fun above => (dir.files above).isSome then none
  else some { dir with folders := fun folder => dir.folders folder || folder.isPrefixOf path }

/-- Where `write_atomic` writes before it renames. -/
def tmpPath (path : FilePath) : FilePath :=
  path.dropLast ++ ['.' :: (path.getLast?.getD "output".toList ++ ".tmp".toList)]

/-- `write_atomic`; neither the write nor the rename replaces a folder. -/
def writeAtomic (dir : Directory) (path : FilePath) (bytes : List Char) : Option Directory :=
  if dir.folders (tmpPath path) then none
  else if dir.folders path then none
  else some { dir with
    files := Function.update (Function.update dir.files (tmpPath path) none) path (some bytes) }

end Directory

/-- The path a text names below the output directory, if it names one: an absolute text and one
that goes up lead out of it. -/
def locate (relative : List Char) : Option FilePath :=
  let names := (pieces '/' relative).filter (· ≠ ['.'])
  if relative.head? = some '/' ∨ ['.', '.'] ∈ names then none else some names

/-- Writes a page to the path a text names; a page written elsewhere changes nothing here. -/
def savePage (dir : Directory) (relative content : List Char) : Option Directory :=
  match locate relative with
  | none => some dir
  | some path => (dir.createDirAll path.dropLast).bind fun dir => dir.writeAtomic path content

/-! ## Pages -/

/-- The fields of `ScrapedContent` a saved page is made of. -/
structure ScrapedContent where
  title : List Char
  content : List Char
  url : ValidUrl
  author : Option (List Char) := none
  date : Option (List Char) := none
  excerpt : Option (List Char) := none
  html : Option (List Char) := none

/-- The fields of `ObsidianOptions` the body of a page depends on. -/
structure ObsidianOptions where
  wikiLinks : Bool
  relativeAssets : Bool

/-- The steps between a page and its Markdown, and the codec of `results.json`. -/
structure PageTools where
  convertHtmlToMarkdown : List Char → List Char
  highlightCodeBlocks : List Char → List Char
  convertWikiLinks : List Char → List Char → List Char
  relativeAssets : List Char → List Char → ScrapedContent → List Char
  frontmatter : ScrapedContent → List Char
  parseJson : List Char → Option (List ScrapedContent)
  toStringPretty : List ScrapedContent → List Char

section Saving

variable (tools : NameTools) (page : PageTools) (obsidian : ObsidianOptions)

/-- The path of a Markdown page from the output directory. -/
def markdownPath (url : ValidUrl) : List Char :=
  trimStart "./output/".toList ((OutputPath.fromUrlWithQuery tools url).toFullPath tools)

/-- The Markdown file of a page. -/
def renderMarkdown (item : ScrapedContent) : List Char :=
  let markdownContent := match item.html with
    | some html => page.convertHtmlToMarkdown html
    | none => item.content
  let processed := page.highlightCodeBlocks markdownContent
  let processed :=
    if obsidian.wikiLinks then page.convertWikiLinks processed item.url.host else processed
  let processed :=
    if obsidian.relativeAssets then
      page.relativeAssets processed (markdownPath tools item.url) item
    else processed
  "---\n".toList ++ (page.frontmatter item).rdropWhile isWhitespace ++ "\n---\n\n".toList ++ processed

def saveAsMarkdown (items : List ScrapedContent) (dir : Directory) : Option Directory :=
  items.foldlM (fun dir item =>
    savePage dir (markdownPath tools item.url) (renderMarkdown tools page obsidian item)) dir

/-- The path of a text page from the output directory. -/
def textPath (url : ValidUrl) : List Char :=
  substitute ".md".toList ".txt".toList
    (trimStart "./output/".toList ((OutputPath.fromUrl url).toFullPath tools))

/-- The text file of a page. -/
def renderText (item : ScrapedContent) : List Char :=
  let author := item.author.getD "Unknown".toList
  let date := item.date.getD "N/A".toList
  "========================================\nTITLE: ".toList ++ item.title ++
    "\nURL: ".toList ++ item.url.asStr ++ "\nAUTHOR: ".toList ++ author ++
    "\nDATE: ".toList ++ date ++
    "\n----------------------------------------\nCONTENT:\n".toList ++ item.content ++
    "\n========================================".toList

def saveAsText (items : List ScrapedContent) (dir : Directory) : Option Directory :=
  items.foldlM (fun dir item => savePage dir (textPath tools item.url) (renderText item)) dir

def saveAsJson (items : List ScrapedContent) (dir : Directory) : Option Directory :=
  let jsonPath := ["results.json".toList]
  if dir.folders jsonPath then none
  else
    let merged := match dir.files jsonPath with
      | some existing => page.parseJson existing
      | none => some []
    merged.bind fun merged => dir.writeAtomic jsonPath (page.toStringPretty (merged ++ items))

/-- `save_results`. -/
def saveResults (items : List ScrapedContent) (format : OutputFormat) (dir : Directory) :
    Option Directory :=
  match format with
  | .markdown => saveAsMarkdown tools page obsidian items dir
  | .text => saveAsText tools items dir
  | .json => saveAsJson page items dir

end Saving

end Webfang.Output
