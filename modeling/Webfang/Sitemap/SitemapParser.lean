import Webfang.Domain.UrlNormalization
import Webfang.Sitemap.RobotsDirective
import Webfang.Sitemap.SitemapOrder

/-!
# The sitemap parser

`parse_sitemap_core` of `infrastructure/crawler/sitemap_parser.rs`, with `resolve_url`,
`apply_url_validation` and the classification of links in `domain/url_validation.rs`.  The XML
reader is not modelled: the parser is a function of the events that it reports.
-/

namespace Webfang

namespace Sitemap

/-- What is used of `url::Url` and of the standard library. -/
structure ParserTools (υ : Type) extends UrlValidation.UrlCrate υ where
  hostStr : υ → Option (List Char)
  join : υ → List Char → Option υ
  toLowercase : List Char → List Char
  parseF32 : List Char → Option F32

inductive ValidationResult (υ : Type)
  | valid
  | invalid (reason : List Char)
  | needsRedirect (url : υ)

/-! ## Links -/

section Links

variable {υ : Type} (tools : ParserTools υ)

def stripWwwPrefix (host : List Char) : List Char :=
  match stripPrefix "www.".toList (tools.toLowercase host) with
  | some [] => host
  | some stripped => stripped
  | none => host

def normalizeSeedHost (seed : List Char) : List Char :=
  match (tools.parse seed).bind tools.hostStr with
  | some host => stripWwwPrefix tools host
  | none => stripWwwPrefix tools ((seed.takeWhile (· ≠ '/')).takeWhile (· ≠ ':'))

def extractDomain (url : List Char) : Option (List Char) := (tools.parse url).bind tools.hostStr

def isInternalLink (url seedDomain : List Char) : Bool :=
  let seedHost := tools.toLowercase (normalizeSeedHost tools seedDomain)
  (extractDomain tools url).any fun host =>
    let host := tools.toLowercase host
    host == seedHost || ('.' :: seedHost).isSuffixOf host || ('.' :: host).isSuffixOf seedHost

def resolveUrl (base : υ) (input : List Char) : Option υ :=
  let input := Http.Response.trim input
  if input = [] then none
  else if "http://".toList.isPrefixOf input || "https://".toList.isPrefixOf input then
    tools.parse input
  else
    (tools.join base input).bind fun resolved =>
      if isInternalLink tools (tools.toString resolved) ((tools.hostStr base).getD []) then
        some resolved
      else none

end Links

/-- A validator, if there is one: `filter_invalid_patterns`. -/
abbrev Validator (υ : Type) := Option (υ → ValidationResult υ)

/-- What is left in `current_url` when a URL has been found. -/
def applyUrlValidation {υ : Type} (url : υ) (validator : Validator υ) (currentUrl : Option υ) :
    Option υ :=
  match validator with
  | none => some url
  | some filterInvalidPatterns =>
      match filterInvalidPatterns url with
      | .valid => some url
      | .invalid _ => currentUrl
      | .needsRedirect newUrl => some newUrl

/-! ## Events -/

/-- The name of a tag: those that the parser knows, and every other one. -/
inductive Tag
  | urlset
  | sitemapindex
  | url
  | sitemap
  | loc
  | lastmod
  | priority
  | changefreq
  | other (name : List Char)
  deriving DecidableEq

/-- `quick_xml::events::Event`; the end of the stream is the end of the list. -/
inductive Event
  | start (name : Tag)
  | finish (name : Tag)
  /-- a tag that closes itself -/
  | empty (name : Tag)
  /-- character data, decoded -/
  | text (decoded : Except (List Char) (List Char))
  /-- a CDATA section, decoded with replacement characters -/
  | cdata (lossy : List Char)
  /-- an entity or character reference -/
  | generalRef (name : List Char)
  /-- a comment, a processing instruction, a declaration -/
  | other

/-- `SitemapError`, the variants that the parser returns. -/
inductive ParseError
  | xmlError (message : List Char)
  | invalidStructure
  deriving DecidableEq

/-! ## The state machine -/

/-- The element that is being read. -/
structure Flags where
  inUrl : Bool
  inSitemap : Bool
  inLoc : Bool
  inLastmod : Bool
  inPriority : Bool
  inChangefreq : Bool
  deriving DecidableEq

def Flags.none : Flags := ⟨false, false, false, false, false, false⟩

/-- The entry that is being read: `current_url` and the others. -/
structure Current (υ : Type) where
  url : Option υ
  lastmod : Option (List Char)
  priority : Option Priority
  changefreq : Option (List Char)

def Current.empty {υ : Type} : Current υ := ⟨.none, .none, .none, .none⟩

/-- The entry at the end of a `url` element. -/
def Current.asEntry {υ : Type} (current : Current υ) : Option (SitemapUrl υ (List Char)) :=
  current.url.map fun url =>
    { url, lastmod := current.lastmod, priority := current.priority,
      changefreq := current.changefreq }

/-- The entry at the end of a `sitemap` element. -/
def Current.sitemap? {υ : Type} (current : Current υ) : Option (SitemapUrl υ (List Char)) :=
  current.url.map fun url =>
    { url, lastmod := current.lastmod, priority := .none, changefreq := .none }

structure ParserState (υ : Type) where
  urls : List (SitemapUrl υ (List Char))
  rootTag : Option Tag
  isIndex : Bool
  sawElement : Bool
  flags : Flags
  current : Current υ

def ParserState.initial {υ : Type} : ParserState υ :=
  ⟨[], .none, false, false, .none, .empty⟩

section Parser

variable {υ : Type} (tools : ParserTools υ) (base : υ) (handleSitemapIndex : Bool)
  (validator : Validator υ)

/-- What is left in `current_url` after a text in `loc`. -/
def readLoc (text : List Char) (currentUrl : Option υ) : Option υ :=
  match resolveUrl tools base (Http.Response.trim text) with
  | some url => applyUrlValidation url validator currentUrl
  | none => currentUrl

/-- What is read of a text in `priority`. -/
def readPriority (text : List Char) : Option Priority :=
  (tools.parseF32 (Http.Response.trim text)).map F32.clamp

/-- The classification by the root element. -/
def classifyRoot (name : Tag) (s : ParserState υ) : Except ParseError (ParserState υ) :=
  if handleSitemapIndex && s.rootTag.isNone then
    match name with
    | .sitemapindex => .ok { s with isIndex := true, rootTag := some .sitemapindex }
    | .urlset => .ok { s with rootTag := some .urlset }
    | _ => .error .invalidStructure
  else .ok s

def onStart (name : Tag) (s : ParserState υ) : ParserState υ :=
  match name with
  | .url => { s with flags.inUrl := true, current := .empty }
  | .sitemap =>
      if handleSitemapIndex then
        { s with flags.inSitemap := true, current.url := none, current.lastmod := none }
      else s
  | .loc =>
      if s.flags.inUrl || handleSitemapIndex && s.flags.inSitemap then
        { s with flags.inLoc := true }
      else s
  | .lastmod => if s.flags.inUrl then { s with flags.inLastmod := true } else s
  | .priority => if s.flags.inUrl then { s with flags.inPriority := true } else s
  | .changefreq => if s.flags.inUrl then { s with flags.inChangefreq := true } else s
  | .urlset | .sitemapindex | .other _ => s

def onEnd (name : Tag) (s : ParserState υ) : ParserState υ :=
  match name with
  | .url => { s with flags.inUrl := false, urls := s.urls ++ s.current.asEntry.toList }
  | .sitemap =>
      if handleSitemapIndex then
        { s with flags.inSitemap := false, urls := s.urls ++ s.current.sitemap?.toList }
      else s
  | .loc => { s with flags.inLoc := false }
  | .lastmod => { s with flags.inLastmod := false }
  | .priority => { s with flags.inPriority := false }
  | .changefreq => { s with flags.inChangefreq := false }
  | .urlset | .sitemapindex | .other _ => s

/-- Character data; only in `loc` an error of the decoder is returned. -/
def onText (decoded : Except (List Char) (List Char)) (s : ParserState υ) :
    Except ParseError (ParserState υ) :=
  if s.flags.inLoc then
    match decoded with
    | .error message => .error (.xmlError message)
    | .ok text => .ok { s with current.url := readLoc tools base validator text s.current.url }
  else
    match decoded with
    | .error _ => .ok s
    | .ok text =>
        if s.flags.inLastmod then
          .ok { s with current.lastmod := some (Http.Response.trim text) }
        else if s.flags.inPriority then
          .ok { s with current.priority := (readPriority tools text).or s.current.priority }
        else if s.flags.inChangefreq then
          .ok { s with current.changefreq := some (Http.Response.trim text) }
        else .ok s

def onCData (lossy : List Char) (s : ParserState υ) : ParserState υ :=
  if s.flags.inLoc then
    { s with current.url := readLoc tools base validator lossy s.current.url }
  else s

def onEvent (s : ParserState υ) : Event → Except ParseError (ParserState υ)
  | .start name =>
      (classifyRoot handleSitemapIndex name { s with sawElement := true }).map
        (onStart handleSitemapIndex name)
  | .finish name => .ok (onEnd handleSitemapIndex name s)
  | .text decoded => onText tools base validator decoded s
  | .cdata lossy => .ok (onCData tools base validator lossy s)
  | .empty _ | .generalRef _ | .other => .ok s

/-- The loop: what the reader answers, down to the end of the stream. -/
def readEvents (s : ParserState υ) : List (Except (List Char) Event) →
    Except ParseError (ParserState υ)
  | [] => .ok s
  | .error message :: _ => .error (.xmlError message)
  | .ok event :: events =>
      match onEvent tools base handleSitemapIndex validator s event with
      | .error e => .error e
      | .ok s => readEvents s events

def parseSitemapCore (events : List (Except (List Char) Event)) :
    Except ParseError (List (SitemapUrl υ (List Char)) × Bool) :=
  match readEvents tools base handleSitemapIndex validator .initial events with
  | .error e => .error e
  | .ok s => if s.sawElement then .ok (s.urls, s.isIndex) else .error .invalidStructure

end Parser

end Sitemap

end Webfang
