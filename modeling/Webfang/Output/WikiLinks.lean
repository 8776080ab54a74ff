import Webfang.Output.FileSaver

/-!
# Links between notes

`infrastructure/converter/wikilinks.rs`: in the Markdown of a page a link to a page of the same
host becomes a link to a note, `[[slug]]` or `[[slug|text]]`.  The events of the Markdown parser
are the input.
-/

namespace Webfang.Output

open Pieces

/-! ## The slug of a page -/

/-- `host_str` and `path` of a URL that was parsed. -/
structure ParsedUrl where
  hostStr : Option (List Char)
  path : List Char
  deriving DecidableEq

/-- What a link is read with beside the source: `to_kebab_case`, `Url::parse` and
`to_lowercase`. -/
structure LinkTools where
  toKebabCase : List Char → List Char
  parseUrl : List Char → Option ParsedUrl
  toLowercase : List Char → List Char

/-- What `decode_and_normalize` replaces, in order. -/
def replacements : List (String × String) :=
  [("%20", " "), ("%2F", "/"), ("%2f", "/"), ("%3A", ":"), ("%3a", ":"), ("%2D", "-"),
    ("%2d", "-"), ("%2E", "."), ("%2e", "."), ("_", " ")]

def decodeAndNormalize (s : List Char) : List Char :=
  replacements.foldl (fun s (pat, sub) => substitute pat.toList sub.toList s) s

def fileExtensions : List String := [".html", ".htm", ".php", ".asp", ".aspx", ".jsp"]

/-- The segments that are left of a path. -/
def slugSegments (urlPath : List Char) : List (List Char) :=
  let path := (urlPath.takeWhile (· ≠ '?')).takeWhile (· ≠ '#')
  let path := path.rdropWhile (· = '/')
  let path := fileExtensions.foldl (fun path extension => trimEnd extension.toList path) path
  pieces '/' path

section Links

variable (tools : LinkTools)

def segmentSlug (segment : List Char) : List Char := tools.toKebabCase (decodeAndNormalize segment)

def slugFromUrl (urlPath : List Char) : List Char :=
  match (slugSegments urlPath).reverse with
  | [] => "index".toList
  | [segment] => segmentSlug tools segment
  | current :: parent :: _ => segmentSlug tools parent ++ '-' :: segmentSlug tools current

def shouldConvertWikilink (urlStr baseDomain : List Char) : Option (List Char) :=
  if urlStr.head? = some '#' then none
  else
    let resolvedUrl :=
      if urlStr.head? = some '/' ∧ ¬ urlStr.tails.any ("://".toList.isPrefixOf ·) then
        "https://".toList ++ baseDomain ++ urlStr
      else urlStr
    (tools.parseUrl resolvedUrl).bind fun parsed =>
      parsed.hostStr.bind fun host =>
        if host ≠ baseDomain then none else some (slugFromUrl tools parsed.path)

end Links

/-! ## The events of the parser -/

/-- `Tag`. -/
inductive Tag where
  | paragraph
  | heading
  | blockQuote
  | codeBlock
  | list
  | item
  | footnoteDefinition (label : List Char)
  | table
  | tableRow
  | tableCell
  | emphasis
  | strong
  | strikethrough
  | link (destUrl : List Char)
  | image (destUrl : List Char)
  | metadataBlock
  /-- one that leaves no text -/
  | unmarked
  deriving DecidableEq

/-- `TagEnd`. -/
inductive TagEnd where
  | paragraph
  | heading
  | blockQuote
  | codeBlock
  | list
  | item
  | footnoteDefinition
  | table
  | tableRow
  | tableCell
  | emphasis
  | strong
  | strikethrough
  | link
  | image
  | metadataBlock
  | unmarked
  deriving DecidableEq

/-- `Event`. -/
inductive MarkdownEvent where
  | start (tag : Tag)
  | stop (tag : TagEnd)
  | text (s : List Char)
  | code (s : List Char)
  | inlineMath (s : List Char)
  | displayMath (s : List Char)
  | html (s : List Char)
  | inlineHtml (s : List Char)
  | footnoteReference (s : List Char)
  | softBreak
  | hardBreak
  | rule
  | taskListMarker (checked : Bool)
  deriving DecidableEq

def startText : Tag → List Char
  | .image _ => "![".toList
  | .codeBlock => "```\n".toList
  | .blockQuote => "> ".toList
  | .footnoteDefinition s => "[^".toList ++ s ++ "]: ".toList
  | .emphasis => "*".toList
  | .strong => "**".toList
  | .strikethrough => "~~".toList
  | _ => []

def stopText : TagEnd → List Char
  | .paragraph => "\n\n".toList
  | .codeBlock => "\n```\n".toList
  | .blockQuote => "\n".toList
  | .table => "\n".toList
  | .tableRow => "\n".toList
  | .tableCell => "|".toList
  | .footnoteDefinition => "\n\n".toList
  | .emphasis => "*".toList
  | .strong => "**".toList
  | .strikethrough => "~~".toList
  | .heading => "\n".toList
  | .metadataBlock => "---\n".toList
  | _ => []

/-- What `push_event_text` appends. -/
def eventText : MarkdownEvent → List Char
  | .text s => s
  | .code s => '\x60' :: s ++ ['\x60']
  | .html s => s
  | .footnoteReference s => "[^".toList ++ s ++ "]".toList
  | .taskListMarker checked => if checked then "- [x] ".toList else "- [ ] ".toList
  | .softBreak => "\n".toList
  | .hardBreak => "  \n".toList
  | .rule => "---\n".toList
  | .inlineMath s => '$' :: s ++ ['$']
  | .displayMath s => "$$".toList ++ s ++ "$$".toList
  | .start tag => startText tag
  | .stop tag => stopText tag
  | .inlineHtml _ => []

def extractTextFromEvents (events : List MarkdownEvent) : List Char :=
  events.flatMap fun
    | .text s => s
    | .code s => s
    | _ => []

/-! ## Writing a link -/

structure LinkState where
  hasImage : Bool
  url : List Char
  textParts : List MarkdownEvent
  imageUrls : List (List Char)

namespace LinkState

def new (url : List Char) : LinkState := ⟨false, url, [], []⟩

def recordImage (state : LinkState) (destUrl : List Char) : LinkState :=
  { state with hasImage := true, imageUrls := state.imageUrls ++ [destUrl] }

def push (state : LinkState) (event : MarkdownEvent) : LinkState :=
  { state with textParts := state.textParts ++ [event] }

end LinkState

/-- The space before a link behind a word. -/
def spaceAfter (result : List Char) : List Char :=
  if result ≠ [] ∧ result.getLast? ≠ some ' ' ∧ result.getLast? ≠ some '\n' then [' '] else []

/-- A text with its parenthesized groups replaced by blanks, from the left: the state tells
whether a group that is closed later is being left out. -/
def blankGroups : Bool → List Char → List Char
  | _, [] => []
  | true, c :: text => blankGroups (c ≠ ')') text
  | false, c :: text =>
      if c = '(' ∧ ')' ∈ text then ' ' :: blankGroups true text else c :: blankGroups false text

def isParentheticalOnly (text : List Char) : Bool := (blankGroups false text).all isWhitespace

/-- What stands behind the first `://`, if there is one. -/
def behindScheme : List Char → Option (List Char)
  | ':' :: '/' :: '/' :: text => some text
  | _ :: text => behindScheme text
  | [] => none

def humanizeLastSegment (urlStr : List Char) : List Char :=
  let noFragment := (urlStr.takeWhile (· ≠ '?')).takeWhile (· ≠ '#')
  let path := match behindScheme noFragment with
    | some afterAuthority => afterAuthority.dropWhile (· ≠ '/')
    | none => noFragment
  let last := (pieces '/' path).getLastD []
  let spaced := (decodeAndNormalize last).map fun c => if c = '-' then ' ' else c
  [' '].intercalate ((spaced.splitOnP isWhitespace).filter (· ≠ []))

section Writing

variable (tools : LinkTools)

def resolveAliasText (rawText url slug : List Char) : List Char :=
  if isParentheticalOnly rawText then
    let fallback := humanizeLastSegment url
    if fallback = [] then slug else fallback
  else rawText

def normalizedLinkText (text : List Char) : List Char :=
  let lower := tools.toLowercase text
  ((lower.dropWhile isWhitespace).rdropWhile isWhitespace).map fun c => if c = ' ' then '-' else c

/-- What `convert_to_wikilink` appends. -/
def wikilinkText (slug : List Char) (state : LinkState) (result : List Char) : List Char :=
  let linkText := resolveAliasText (extractTextFromEvents state.textParts) state.url slug
  spaceAfter result ++ "[[".toList ++ slug ++
    if slug = normalizedLinkText tools linkText then "]]".toList
    else '|' :: linkText ++ "]]".toList

/-- What `reconstruct_image_link` appends. -/
def imageLinkText (state : LinkState) (result : List Char) : List Char :=
  let images := match state.imageUrls with
    | [] => []
    | first :: others =>
        "![".toList ++ extractTextFromEvents state.textParts ++ "](".toList ++ first ++ ")".toList ++
          others.flatMap fun url => "![img](".toList ++ url ++ ")".toList
  spaceAfter result ++ "[".toList ++ images ++ "](".toList ++ state.url ++ ")".toList

/-- What `keep_original_link` appends. -/
def originalLinkText (state : LinkState) : List Char :=
  "[".toList ++ extractTextFromEvents state.textParts ++ "](".toList ++ state.url ++ ")".toList

/-- What `finish_link` appends. -/
def linkText (baseDomain : List Char) (state : LinkState) (result : List Char) : List Char :=
  if state.hasImage then imageLinkText state result
  else
    match shouldConvertWikilink tools state.url baseDomain with
    | some slug => wikilinkText tools slug state result
    | none => originalLinkText state

/-! ## The transformation -/

structure StandaloneImage where
  url : List Char
  alt : List Char

def StandaloneImage.text (image : StandaloneImage) : List Char :=
  "![".toList ++ image.alt ++ "](".toList ++ image.url ++ ")".toList

/-- The variables of `transform_and_serialize`. -/
structure Transform where
  result : List Char
  inLink : Bool
  link : Option LinkState
  standaloneImage : Option StandaloneImage
  depth : Int

namespace Transform

def new : Transform := ⟨[], false, none, none, 0⟩

def pushText (s : Transform) (event : MarkdownEvent) : Transform :=
  { s with result := s.result ++ eventText event }

/-- An event goes into the link, else into the alt text, else into the result. -/
def route (s : Transform) (event : MarkdownEvent) : Transform :=
  match s.link, s.standaloneImage with
  | some state, _ => { s with link := some (state.push event) }
  | none, some image =>
      { s with standaloneImage := some { image with alt := image.alt ++ eventText event } }
  | none, none => s.pushText event

def step (baseDomain : List Char) (s : Transform) (event : MarkdownEvent) : Transform :=
  match event with
  | .start (.link destUrl) =>
      let s :=
        if s.depth = 0 then { s with inLink := true, link := some (LinkState.new destUrl) } else s
      let s := { s with depth := s.depth + 1 }
      if s.inLink then s else s.pushText event
  | .stop .link =>
      if s.depth = 1 ∧ s.inLink then
        let written := match s.link with
          | some state => linkText tools baseDomain state s.result
          | none => []
        { s with inLink := false, depth := 0, link := none, result := s.result ++ written }
      else
        let s := { s with depth := s.depth - 1 }
        if s.inLink then s else s.pushText event
  | .start (.image destUrl) =>
      match s.link, s.standaloneImage with
      | some state, _ => { s with link := some (state.recordImage destUrl) }
      | none, none => { s with standaloneImage := some ⟨destUrl, []⟩ }
      | none, some image =>
          { s with standaloneImage := some { image with alt := image.alt ++ eventText event } }
  | .start _ =>
      let s := s.route event
      if s.link.isSome then { s with depth := s.depth + 1 } else s
  | .stop .image =>
      if s.inLink then s
      else
        match s.standaloneImage with
        | some image =>
            { s with standaloneImage := none, result := s.result ++ image.text }
        | none => s.pushText event
  | .stop _ =>
      let s := if s.link.isSome ∧ 1 < s.depth then { s with depth := s.depth - 1 } else s
      s.route event
  | event => s.route event

/-- What is left open is written as it is. -/
def finish (s : Transform) : List Char :=
  let pending := match s.link with
    | some state => if s.inLink then state.textParts.flatMap eventText else []
    | none => []
  let image := match s.standaloneImage with
    | some image => image.text
    | none => []
  (s.result ++ pending ++ image).rdropWhile isWhitespace

end Transform

/-- `transform_and_serialize`. -/
def transformAndSerialize (events : List MarkdownEvent) (baseDomain : List Char) : List Char :=
  (events.foldl (Transform.step tools baseDomain) .new).finish

/-- `convert_wiki_links` behind the parser of Markdown. -/
def convertWikiLinks (parse : List Char → List MarkdownEvent) (content baseDomain : List Char) :
    List Char :=
  transformAndSerialize tools (parse content) baseDomain

end Writing

/-! ## A link in its document -/

/-- The label of a link: texts, and markup that is closed, without links and images. -/
inductive IsLabel : List MarkdownEvent → Prop
  | nil : IsLabel []
  | leaf {event : MarkdownEvent} {rest : List MarkdownEvent} :
    (∀ tag, event ≠ .start tag) → (∀ tag, event ≠ .stop tag) → IsLabel rest →
    IsLabel (event :: rest)
  | marked {tag : Tag} {close : TagEnd} {inner rest : List MarkdownEvent} :
    (∀ url, tag ≠ .link url) → (∀ url, tag ≠ .image url) → close ≠ .link → close ≠ .image →
    IsLabel inner → IsLabel rest → IsLabel (.start tag :: (inner ++ .stop close :: rest))

namespace Transform

variable {tools : LinkTools} {baseDomain result : List Char} {inLink : Bool} {state : LinkState}
  {image : Option StandaloneImage} {depth : Int}

theorem step_leaf {event : MarkdownEvent} (unopened : ∀ tag, event ≠ .start tag)
    (unclosed : ∀ tag, event ≠ .stop tag) :
    step tools baseDomain ⟨result, inLink, some state, image, depth⟩ event =
      ⟨result, inLink, some (state.push event), image, depth⟩ := by
  cases event with
  | start tag => exact absurd rfl (unopened tag)
  | stop tag => exact absurd rfl (unclosed tag)
  | _ => rfl

theorem step_start {tag : Tag} (noLink : ∀ url, tag ≠ .link url)
    (noImage : ∀ url, tag ≠ .image url) :
    step tools baseDomain ⟨result, inLink, some state, image, depth⟩ (.start tag) =
      ⟨result, inLink, some (state.push (.start tag)), image, depth + 1⟩ := by
  cases tag with
  | link url => exact absurd rfl (noLink url)
  | image url => exact absurd rfl (noImage url)
  | _ => rfl

theorem step_stop {close : TagEnd} (noLink : close ≠ .link) (noImage : close ≠ .image)
    (deep : 1 ≤ depth) :
    step tools baseDomain ⟨result, inLink, some state, image, depth + 1⟩ (.stop close) =
      ⟨result, inLink, some (state.push (.stop close)), image, depth⟩ := by
  have deeper : 1 < depth + 1 := by omega
  cases close with
  | link => exact absurd rfl noLink
  | image => exact absurd rfl noImage
  | _ => simp [step, route, deeper]

/-- The label is collected, and the depth is what it was. -/
theorem foldl_label {events : List MarkdownEvent} (label : IsLabel events) (deep : 1 ≤ depth) :
    events.foldl (step tools baseDomain) ⟨result, inLink, some state, image, depth⟩ =
      ⟨result, inLink, some { state with textParts := state.textParts ++ events }, image, depth⟩ := by
  induction label generalizing state depth with
  | nil => rw [List.foldl_nil, List.append_nil]
  | leaf unopened unclosed _ ih =>
      rw [List.foldl_cons, step_leaf unopened unclosed, ih deep, LinkState.push,
        List.append_assoc, List.singleton_append]
  | marked link image closeLink closeImage _ _ ihInner ihRest =>
      have deeper : 1 ≤ depth + 1 := by omega
      rw [List.foldl_cons, step_start link image, List.foldl_append, ihInner deeper,
        List.foldl_cons, step_stop closeLink closeImage deep, ihRest deep]
      simp only [LinkState.push, List.append_assoc, List.cons_append, List.nil_append]

/-- A link outside of links is written at once. -/
theorem foldl_link {events : List MarkdownEvent} (label : IsLabel events) (url : List Char)
    {s : Transform} (outside : s.link = none ∧ s.inLink = false ∧ s.depth = 0) :
    (.start (.link url) :: (events ++ [.stop .link])).foldl (step tools baseDomain) s =
      { s with result := s.result ++ linkText tools baseDomain ⟨false, url, events, []⟩ s.result } := by
  obtain ⟨result, inLink, link, image, depth⟩ := s
  obtain ⟨rfl, rfl, rfl⟩ := outside
  have opened : step tools baseDomain ⟨result, false, none, image, 0⟩ (.start (.link url)) =
      ⟨result, true, some (.new url), image, 1⟩ := by
    simp [step]
  rw [List.foldl_cons, opened, List.foldl_append, foldl_label label (by omega)]
  simp [step, LinkState.new]

end Transform

end Webfang.Output
