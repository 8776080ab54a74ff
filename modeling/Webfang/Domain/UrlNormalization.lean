import Mathlib.Data.List.DropRight
import Webfang.Lib.AsciiCase

/-!
# URL normalization

`normalize_url` and `collapse_index_path` of `domain/url_validation.rs`.  Texts are lists of
characters.  The crates `url` and `url-normalize` are arguments; `UrlLaws` and `NormalizeLaws` say
what is relied on of them.

A URL is written as the text before its path, the path and the text after it.  The collapsing of an
index file keeps everything else of the plain output exactly where the path of the file is in lower
case and a file at the root has no query (`normalizeUrl_keeps_iff`): the new path is cut from a
lowercased copy, and the slash of a root is removed by popping the last character, which belongs to
the query where there is one.
-/

namespace Webfang

namespace UrlValidation

/-- `url_normalize::RemoveQueryParameters`. -/
inductive RemoveQueryParameters
  | none
  | all
  | list (removes : List Char → Bool)

structure NormalizeConfig where
  stripWww : Bool
  queryPolicy : RemoveQueryParameters

/-- The configuration of a dedup key. -/
def dedupConfig : NormalizeConfig := ⟨true, .all⟩

/-- The configuration of a URL that is fetched. -/
def fetchConfig : NormalizeConfig := ⟨true, .none⟩

/-- The fields of `url_normalize::Options` that are set; the others keep their defaults. -/
structure Options where
  stripHash : Bool
  removeTrailingSlash : Bool
  removeQueryParameters : RemoveQueryParameters
  sortQueryParameters : Bool
  stripWww : Bool
  forceHttps : Bool

/-- `url::Url`: the parser, the setter of the path, and the slices of the serialization. -/
structure UrlCrate (υ : Type) where
  parse : List Char → Option υ
  scheme : υ → List Char
  beforePath : υ → List Char
  path : υ → List Char
  /-- the query and the fragment, with their marks -/
  afterPath : υ → List Char
  setPath : υ → List Char → υ
  toString : υ → List Char

/-- `str::contains`. -/
def contains (text pattern : List Char) : Bool := text.tails.any pattern.isPrefixOf

/-- `str::strip_suffix`. -/
def stripSuffix (text pattern : List Char) : Option (List Char) :=
  if pattern.isSuffixOf text then some (text.take (text.length - pattern.length)) else none

def toAsciiLowercase (text : List Char) : List Char := text.map Char.toLower

def indexHtml : List Char := "index.html".toList

def indexHtm : List Char := "index.htm".toList

variable {υ : Type} (crate : UrlCrate υ)

def collapseIndexPath (url : List Char) : List Char :=
  match crate.parse url with
  | none => url
  | some parsed =>
      let lower := toAsciiLowercase (crate.path parsed)
      let collapsed := ((stripSuffix lower ('/' :: indexHtml)).or
        (stripSuffix lower ('/' :: indexHtm))).map fun parent => parent ++ ['/']
      match collapsed with
      | some newPath =>
          let parsed := crate.setPath parsed newPath
          let result := crate.toString parsed
          -- the pop takes the last character of the text, whatever it is
          if crate.path parsed = ['/'] then result.dropLast else result
      | none => url

/-- The options that `normalize_url` builds; a `List` is replaced by `All`. -/
def options (config : NormalizeConfig) : Options where
  stripHash := true
  removeTrailingSlash := false
  removeQueryParameters :=
    match config.queryPolicy with
    | .none => .none
    | .all => .all
    | .list _ => .all
  sortQueryParameters := true
  stripWww := config.stripWww
  forceHttps := false

variable (urlNormalize : Options → List Char → Option (List Char))

def normalizeUrl (config : NormalizeConfig) (url : List Char) : List Char :=
  if contains url "://".toList then
    collapseIndexPath crate ((urlNormalize (options config) url).getD url)
  else url

/-! ## Paths -/

/-- The path down to its last slash, the case as it is. -/
def parentPath (path : List Char) : List Char := path.rdropWhile (· ≠ '/')

def lastSegment (path : List Char) : List Char := path.rtakeWhile (· ≠ '/')

/-- `index.html` or `index.htm`, ignoring the case of ASCII letters. -/
def isIndexName (segment : List Char) : Bool :=
  toAsciiLowercase segment = indexHtml || toAsciiLowercase segment = indexHtm

theorem slash_notMem_toAsciiLowercase {text : List Char} (free : '/' ∉ text) :
    '/' ∉ toAsciiLowercase text := by
  rw [toAsciiLowercase, AsciiCase.mem_map_toLower rfl (.inl (by decide))]
  exact free

@[simp]
theorem lastSegment_append {segment : List Char} (free : '/' ∉ segment) (parent : List Char) :
    lastSegment (parent ++ '/' :: segment) = segment := by
  rw [lastSegment, List.rtakeWhile, List.reverse_append, List.reverse_cons, List.append_assoc,
    List.takeWhile_append_of_pos]
  · rw [List.singleton_append, List.takeWhile_cons_of_neg (by simp), List.append_nil,
      List.reverse_reverse]
  · intro c present
    rw [decide_eq_true_iff]
    intro slash
    exact free (slash ▸ List.mem_reverse.mp present)

@[simp]
theorem parentPath_append {segment : List Char} (free : '/' ∉ segment) (parent : List Char) :
    parentPath (parent ++ '/' :: segment) = parent ++ ['/'] := by
  have whole : parentPath (parent ++ '/' :: segment) ++ segment = parent ++ ['/'] ++ segment := by
    calc parentPath (parent ++ '/' :: segment) ++ segment
        = parentPath (parent ++ '/' :: segment) ++ lastSegment (parent ++ '/' :: segment) := by
          rw [lastSegment_append free]
      _ = parent ++ '/' :: segment := List.rdropWhile_append_rtakeWhile
      _ = parent ++ ['/'] ++ segment := List.append_cons ..
  exact List.append_cancel_right whole

/-- A path with a slash is split at the last one. -/
theorem exists_split {path : List Char} (slash : '/' ∈ path) :
    ∃ parent segment, '/' ∉ segment ∧ path = parent ++ '/' :: segment := by
  obtain ⟨segment, parent, split, free⟩ :=
    List.eq_append_cons_of_mem (List.mem_reverse.mpr slash)
  refine ⟨parent.reverse, segment.reverse, ?_, ?_⟩
  · rw [List.mem_reverse]
    exact free
  · rw [← List.reverse_reverse path, split, List.reverse_append, List.reverse_cons,
      List.append_assoc]
    rfl

theorem toAsciiLowercase_append (parent segment : List Char) :
    toAsciiLowercase (parent ++ '/' :: segment) =
      toAsciiLowercase parent ++ '/' :: toAsciiLowercase segment :=
  List.map_append

/-- A file name is cut from a path only where it is the whole last segment. -/
theorem stripSuffix_lowercase {segment name : List Char} (free : '/' ∉ segment)
    (plain : '/' ∉ name) (parent : List Char) :
    stripSuffix (toAsciiLowercase (parent ++ '/' :: segment)) ('/' :: name) =
      if toAsciiLowercase segment = name then some (toAsciiLowercase parent) else none := by
  rw [stripSuffix, toAsciiLowercase_append]
  by_cases same : toAsciiLowercase segment = name
  · rw [if_pos same, same, if_pos (List.isSuffixOf_iff_suffix.mpr (List.suffix_append ..)),
      List.length_append, Nat.add_sub_cancel, List.take_left]
  · rw [if_neg same, if_neg]
    intro suffix
    obtain ⟨front, whole⟩ := List.isSuffixOf_iff_suffix.mp suffix
    have last := congrArg lastSegment whole
    rw [lastSegment_append plain, lastSegment_append (slash_notMem_toAsciiLowercase free)] at last
    exact same last.symm

/-- The new path: the parent in lower case, for a path that ends with an index name. -/
theorem collapsed_lowercase {segment : List Char} (free : '/' ∉ segment) (parent : List Char) :
    ((stripSuffix (toAsciiLowercase (parent ++ '/' :: segment)) ('/' :: indexHtml)).or
      (stripSuffix (toAsciiLowercase (parent ++ '/' :: segment)) ('/' :: indexHtm))).map
        (fun parent => parent ++ ['/']) =
      if isIndexName segment then some (toAsciiLowercase parent ++ ['/']) else none := by
  rw [stripSuffix_lowercase free (by decide), stripSuffix_lowercase free (by decide), isIndexName]
  by_cases html : toAsciiLowercase segment = indexHtml
  · rw [if_pos html, decide_eq_true html]
    rfl
  · by_cases htm : toAsciiLowercase segment = indexHtm
    · rw [if_neg html, if_pos htm, decide_eq_true htm, Bool.or_true]
      rfl
    · rw [if_neg html, if_neg htm, decide_eq_false html, decide_eq_false htm]
      rfl

/-! ## What is relied on -/

/-- An http(s) URL. -/
def Web (u : υ) : Prop := crate.scheme u = "http".toList ∨ crate.scheme u = "https".toList

/-- An absolute http(s) URL, as text. -/
def AbsoluteHttp (url : List Char) : Prop :=
  contains url "://".toList ∧ ∃ u, crate.parse url = some u ∧ Web crate u

/-- The text of a URL as url-normalize writes it: a bare root without its slash. -/
def canonicalText (u : υ) : List Char :=
  if crate.path u = ['/'] ∧ crate.afterPath u = [] then crate.beforePath u else crate.toString u

/-- The URLs that url-normalize leaves as they are, and whose text is parsed back. -/
structure Normal (opts : Options) (u : υ) : Prop where
  web : Web crate u
  parsed : crate.parse (canonicalText crate u) = some u
  fixed : urlNormalize opts (canonicalText crate u) = some (canonicalText crate u)

/-- `url` on http(s) URLs. -/
structure UrlLaws : Prop where
  toString_eq : ∀ {u}, Web crate u →
    crate.toString u = crate.beforePath u ++ crate.path u ++ crate.afterPath u
  path_rooted : ∀ {u}, Web crate u → ∃ rest, crate.path u = '/' :: rest
  afterPath_mark : ∀ {u c rest}, Web crate u → crate.afterPath u = c :: rest → c = '?' ∨ c = '#'
  web_setPath : ∀ {u path}, Web crate u → Web crate (crate.setPath u path)
  setPath_beforePath : ∀ {u path}, Web crate u →
    crate.beforePath (crate.setPath u path) = crate.beforePath u
  setPath_afterPath : ∀ {u path}, Web crate u →
    crate.afterPath (crate.setPath u path) = crate.afterPath u
  -- a folder of a path that is serialized already needs no encoding, in lower case neither
  setPath_path : ∀ {u}, Web crate u →
    crate.path (crate.setPath u (toAsciiLowercase (parentPath (crate.path u)))) =
      toAsciiLowercase (parentPath (crate.path u))

/-- `url-normalize`: the output can be parsed again and is left as it is, and so is the folder of
a URL in this form. -/
structure NormalizeLaws (opts : Options) : Prop where
  reparseable : ∀ {url}, AbsoluteHttp crate url →
    ∃ u, Normal crate urlNormalize opts u ∧ urlNormalize opts url = some (canonicalText crate u)
  parent : ∀ {u}, Normal crate urlNormalize opts u →
    Normal crate urlNormalize opts (crate.setPath u (parentPath (crate.path u)))

/-! ## The law -/

/-- The parsed form of the plain output. -/
def plainUrl (config : NormalizeConfig) (url : List Char) : Option υ :=
  (urlNormalize (options config) url).bind crate.parse

/-- The plain output, of which nothing but an index segment and a lone root slash is removed. -/
def OnlyIndexRemoved (config : NormalizeConfig) (url : List Char) : Prop :=
  ∃ plain u, urlNormalize (options config) url = some plain ∧ crate.parse plain = some u ∧
    if isIndexName (lastSegment (crate.path u)) then
      normalizeUrl crate urlNormalize config url =
          crate.beforePath u ++ parentPath (crate.path u) ++ crate.afterPath u ∨
        parentPath (crate.path u) = ['/'] ∧
          normalizeUrl crate urlNormalize config url = crate.beforePath u ++ crate.afterPath u
    else normalizeUrl crate urlNormalize config url = plain

/-- Nothing but an index is removed from a URL, and a second pass leaves the result as it is. -/
structure Canonicalised (config : NormalizeConfig) (url : List Char) : Prop where
  onlyIndexRemoved : OnlyIndexRemoved crate urlNormalize config url
  idempotent : normalizeUrl crate urlNormalize config (normalizeUrl crate urlNormalize config url) =
    normalizeUrl crate urlNormalize config url

/-- The folder of a URL, the case as it is. -/
def folder (config : NormalizeConfig) (url : List Char) : Option (List Char) :=
  (plainUrl crate urlNormalize config url).map fun u => parentPath (crate.path u)

/-- What two URLs are canonicalised to. -/
structure CanonicalisedPair (config : NormalizeConfig) (url other : List Char) : Prop where
  left : Canonicalised crate urlNormalize config url
  right : Canonicalised crate urlNormalize config other
  same_folder :
    normalizeUrl crate urlNormalize config url = normalizeUrl crate urlNormalize config other →
      folder crate urlNormalize config url = folder crate urlNormalize config other

/-- An index file in a folder without capital letters, which has no query at the root. -/
def IndexSpared (config : NormalizeConfig) (url : List Char) : Prop :=
  ∀ u ∈ plainUrl crate urlNormalize config url,
    isIndexName (lastSegment (crate.path u)) →
      toAsciiLowercase (parentPath (crate.path u)) = parentPath (crate.path u) ∧
        (parentPath (crate.path u) = ['/'] → crate.afterPath u = [])

instance (config : NormalizeConfig) (url : List Char) :
    Decidable (IndexSpared crate urlNormalize config url) :=
  inferInstanceAs (Decidable (∀ u ∈ plainUrl crate urlNormalize config url, _))

variable {crate urlNormalize}

theorem Web.split (laws : UrlLaws crate) {u : υ} (web : Web crate u) :
    ∃ parent segment, '/' ∉ segment ∧ crate.path u = parent ++ '/' :: segment := by
  obtain ⟨rest, rooted⟩ := laws.path_rooted web
  apply exists_split
  rw [rooted]
  exact List.mem_cons_self

/-- What the collapsing does to a URL that is parsed. -/
theorem collapseIndexPath_of_parsed (laws : UrlLaws crate) {u : υ} (web : Web crate u)
    {url : List Char} (parsed : crate.parse url = some u) :
    collapseIndexPath crate url =
      if isIndexName (lastSegment (crate.path u)) then
        let text := crate.beforePath u ++ toAsciiLowercase (parentPath (crate.path u)) ++
          crate.afterPath u
        if parentPath (crate.path u) = ['/'] then text.dropLast else text
      else url := by
  obtain ⟨parent, segment, free, split⟩ := web.split laws
  have last : lastSegment (crate.path u) = segment := by rw [split, lastSegment_append free]
  have front : parentPath (crate.path u) = parent ++ ['/'] := by rw [split, parentPath_append free]
  have lower : toAsciiLowercase parent ++ ['/'] = toAsciiLowercase (parentPath (crate.path u)) := by
    rw [front]
    exact (toAsciiLowercase_append parent []).symm
  rw [collapseIndexPath, parsed]
  simp only [split, collapsed_lowercase free]
  rw [← split, last]
  by_cases index : isIndexName segment
  · rw [if_pos index, if_pos index, lower]
    simp only [laws.setPath_path web, laws.toString_eq (laws.web_setPath web),
      laws.setPath_beforePath web, laws.setPath_afterPath web]
    congr 1
    rw [← lower, front]
    cases parent with
    | nil => rfl
    | cons c parent => simp [toAsciiLowercase]
  · rw [if_neg index, if_neg index]

theorem normalizeUrl_of_absolute {config : NormalizeConfig} {url plain : List Char}
    (absolute : AbsoluteHttp crate url)
    (normalized : urlNormalize (options config) url = some plain) :
    normalizeUrl crate urlNormalize config url = collapseIndexPath crate plain := by
  rw [normalizeUrl, if_pos absolute.1, normalized]
  rfl

/-- A URL in normal form that names no index file is left as it is. -/
theorem Normal.normalizeUrl_eq (laws : UrlLaws crate) {config : NormalizeConfig} {u : υ}
    (normal : Normal crate urlNormalize (options config) u)
    (other : ¬ isIndexName (lastSegment (crate.path u))) :
    normalizeUrl crate urlNormalize config (canonicalText crate u) = canonicalText crate u := by
  rw [normalizeUrl]
  split
  · rw [normal.fixed, Option.getD_some, collapseIndexPath_of_parsed laws normal.web normal.parsed,
      if_neg other]
  · rfl

/-- The text of a folder that has no capital letter. -/
theorem collapse_eq_canonicalText (laws : UrlLaws crate) {u : υ} (web : Web crate u)
    (lower : toAsciiLowercase (parentPath (crate.path u)) = parentPath (crate.path u))
    (bare : parentPath (crate.path u) = ['/'] → crate.afterPath u = []) :
    (let text := crate.beforePath u ++ toAsciiLowercase (parentPath (crate.path u)) ++
        crate.afterPath u
      if parentPath (crate.path u) = ['/'] then text.dropLast else text) =
      canonicalText crate (crate.setPath u (parentPath (crate.path u))) := by
  have path := laws.setPath_path web
  rw [lower] at path ⊢
  rw [canonicalText, path, laws.setPath_afterPath web, laws.setPath_beforePath web]
  by_cases root : parentPath (crate.path u) = ['/']
  · have empty := bare root
    have both : parentPath (crate.path u) = ['/'] ∧ crate.afterPath u = [] := ⟨root, empty⟩
    rw [if_pos both]
    simp only [root, empty, if_true]
    rw [List.append_nil, List.dropLast_concat]
  · have neither : ¬ (parentPath (crate.path u) = ['/'] ∧ crate.afterPath u = []) :=
      fun both => root both.1
    simp only [if_neg root]
    rw [if_neg neither, laws.toString_eq (laws.web_setPath web), path,
      laws.setPath_afterPath web, laws.setPath_beforePath web]

theorem index_parentPath (laws : UrlLaws crate) {u : υ} (web : Web crate u) :
    ¬ isIndexName (lastSegment (parentPath (crate.path u))) ∧
      parentPath (parentPath (crate.path u)) = parentPath (crate.path u) := by
  obtain ⟨parent, segment, free, split⟩ := web.split laws
  rw [split, parentPath_append free, lastSegment_append List.not_mem_nil,
    parentPath_append List.not_mem_nil]
  exact ⟨by decide, rfl⟩

theorem plainUrl_eq {config : NormalizeConfig} {url plain : List Char} {u : υ}
    (normalized : urlNormalize (options config) url = some plain)
    (parsed : crate.parse plain = some u) : plainUrl crate urlNormalize config url = some u := by
  rw [plainUrl, normalized, Option.bind_some, parsed]

/-- A spared URL is canonicalised to one in normal form, of the same folder, that names no index
file. -/
theorem IndexSpared.normalizeUrl_eq (laws : UrlLaws crate) {config : NormalizeConfig}
    (normalized : NormalizeLaws crate urlNormalize (options config)) {url : List Char}
    (absolute : AbsoluteHttp crate url) (spared : IndexSpared crate urlNormalize config url) :
    ∃ v, Normal crate urlNormalize (options config) v ∧
      ¬ isIndexName (lastSegment (crate.path v)) ∧
      folder crate urlNormalize config url = some (parentPath (crate.path v)) ∧
      normalizeUrl crate urlNormalize config url = canonicalText crate v := by
  obtain ⟨u, normal, plain⟩ := normalized.reparseable absolute
  have parsed : plainUrl crate urlNormalize config url = some u := plainUrl_eq plain normal.parsed
  have same : folder crate urlNormalize config url = some (parentPath (crate.path u)) := by
    rw [folder, parsed, Option.map_some]
  rw [normalizeUrl_of_absolute absolute plain,
    collapseIndexPath_of_parsed laws normal.web normal.parsed]
  by_cases index : isIndexName (lastSegment (crate.path u))
  · obtain ⟨lower, bare⟩ := spared u parsed index
    have path := laws.setPath_path normal.web
    rw [lower] at path
    refine ⟨crate.setPath u (parentPath (crate.path u)), normalized.parent normal, ?_, ?_, ?_⟩
    · rw [path]
      exact (index_parentPath laws normal.web).1
    · rw [path, (index_parentPath laws normal.web).2, same]
    · rw [if_pos index]
      exact collapse_eq_canonicalText laws normal.web lower bare
  · refine ⟨u, normal, index, same, ?_⟩
    rw [if_neg index]

theorem onlyIndexRemoved_iff {config : NormalizeConfig} {url plain : List Char} {u : υ}
    (normalized : urlNormalize (options config) url = some plain)
    (parsed : crate.parse plain = some u) :
    OnlyIndexRemoved crate urlNormalize config url ↔
      if isIndexName (lastSegment (crate.path u)) then
        normalizeUrl crate urlNormalize config url =
            crate.beforePath u ++ parentPath (crate.path u) ++ crate.afterPath u ∨
          parentPath (crate.path u) = ['/'] ∧
            normalizeUrl crate urlNormalize config url = crate.beforePath u ++ crate.afterPath u
      else normalizeUrl crate urlNormalize config url = plain := by
  constructor
  · intro ⟨text, w, normalized', parsed', law⟩
    rw [normalized, Option.some.injEq] at normalized'
    rw [← normalized', parsed, Option.some.injEq] at parsed'
    rw [← parsed', ← normalized'] at law
    exact law
  · intro law
    exact ⟨plain, u, normalized, parsed, law⟩

theorem IndexSpared.onlyIndexRemoved (laws : UrlLaws crate) {config : NormalizeConfig}
    (normalized : NormalizeLaws crate urlNormalize (options config)) {url : List Char}
    (absolute : AbsoluteHttp crate url) (spared : IndexSpared crate urlNormalize config url) :
    OnlyIndexRemoved crate urlNormalize config url := by
  obtain ⟨u, normal, plain⟩ := normalized.reparseable absolute
  rw [onlyIndexRemoved_iff plain normal.parsed, normalizeUrl_of_absolute absolute plain,
    collapseIndexPath_of_parsed laws normal.web normal.parsed]
  by_cases index : isIndexName (lastSegment (crate.path u))
  · rw [if_pos index, if_pos index]
    obtain ⟨lower, bare⟩ := spared u (plainUrl_eq plain normal.parsed) index
    rw [lower]
    by_cases root : parentPath (crate.path u) = ['/']
    · right
      simp only [root, bare root, if_true]
      rw [List.append_nil, List.dropLast_concat, List.append_nil]
      exact ⟨trivial, rfl⟩
    · left
      simp only [if_neg root]
  · rw [if_neg index, if_neg index]

theorem IndexSpared.idempotent (laws : UrlLaws crate) {config : NormalizeConfig}
    (normalized : NormalizeLaws crate urlNormalize (options config)) {url : List Char}
    (absolute : AbsoluteHttp crate url) (spared : IndexSpared crate urlNormalize config url) :
    normalizeUrl crate urlNormalize config (normalizeUrl crate urlNormalize config url) =
      normalizeUrl crate urlNormalize config url := by
  obtain ⟨v, normal, other, _, result⟩ := spared.normalizeUrl_eq laws normalized absolute
  rw [result]
  exact normal.normalizeUrl_eq laws other

theorem IndexSpared.same_folder (laws : UrlLaws crate) {config : NormalizeConfig}
    (normalized : NormalizeLaws crate urlNormalize (options config)) {url other : List Char}
    (absolute : AbsoluteHttp crate url) (spared : IndexSpared crate urlNormalize config url)
    (absolute' : AbsoluteHttp crate other) (spared' : IndexSpared crate urlNormalize config other)
    (same : normalizeUrl crate urlNormalize config url =
      normalizeUrl crate urlNormalize config other) :
    folder crate urlNormalize config url = folder crate urlNormalize config other := by
  obtain ⟨v, normal, _, left, result⟩ := spared.normalizeUrl_eq laws normalized absolute
  obtain ⟨w, normal', _, right, result'⟩ := spared'.normalizeUrl_eq laws normalized absolute'
  rw [result, result'] at same
  have parsed := normal.parsed
  rw [same, normal'.parsed, Option.some.injEq] at parsed
  rw [left, right, parsed]

/-- Where more is changed, a capital letter of the folder is lost, or the last character of the
query. -/
theorem OnlyIndexRemoved.indexSpared (laws : UrlLaws crate) {config : NormalizeConfig}
    (normalized : NormalizeLaws crate urlNormalize (options config)) {url : List Char}
    (absolute : AbsoluteHttp crate url) (removed : OnlyIndexRemoved crate urlNormalize config url) :
    IndexSpared crate urlNormalize config url := by
  obtain ⟨u, normal, plain⟩ := normalized.reparseable absolute
  intro v known index
  rw [plainUrl_eq plain normal.parsed, Option.mem_some_iff] at known
  rw [← known] at index ⊢
  have law := (onlyIndexRemoved_iff plain normal.parsed).mp removed
  rw [if_pos index, normalizeUrl_of_absolute absolute plain,
    collapseIndexPath_of_parsed laws normal.web normal.parsed, if_pos index] at law
  by_cases root : parentPath (crate.path u) = ['/']
  · have lower : toAsciiLowercase ['/'] = ['/'] := rfl
    simp only [root, lower, true_and, if_true, List.append_assoc, List.singleton_append] at law ⊢
    intro _
    cases query : crate.afterPath u with
    | nil => rfl
    | cons mark rest =>
        exfalso
        rw [query, List.dropLast_append_of_ne_nil (List.cons_ne_nil _ _),
          List.append_cancel_left_eq, List.append_cancel_left_eq] at law
        cases law with
        | inl kept =>
            have lengths := congrArg List.length kept
            rw [List.length_dropLast] at lengths
            simp only [List.length_cons] at lengths
            omega
        | inr bare =>
            rw [List.dropLast_cons_cons, List.cons.injEq] at bare
            cases laws.afterPath_mark normal.web query with
            | inl question => exact absurd (bare.1.trans question) (by decide)
            | inr hash => exact absurd (bare.1.trans hash) (by decide)
  · simp only [if_neg root] at law
    have kept := law.resolve_right fun both => root both.1
    rw [List.append_cancel_right_eq, List.append_cancel_left_eq] at kept
    exact ⟨kept, fun bare => absurd bare root⟩

/-- Two URLs are canonicalised as they should be exactly when neither is an index file in a folder
with a capital letter, nor one at the root with a query. -/
theorem normalizeUrl_keeps_iff (laws : UrlLaws crate) {config : NormalizeConfig}
    (normalized : NormalizeLaws crate urlNormalize (options config)) {url other : List Char}
    (absolute : AbsoluteHttp crate url) (absolute' : AbsoluteHttp crate other) :
    CanonicalisedPair crate urlNormalize config url other ↔
      IndexSpared crate urlNormalize config url ∧ IndexSpared crate urlNormalize config other := by
  constructor
  · intro pair
    exact ⟨pair.left.onlyIndexRemoved.indexSpared laws normalized absolute,
      pair.right.onlyIndexRemoved.indexSpared laws normalized absolute'⟩
  · intro ⟨spared, spared'⟩
    exact {
      left := ⟨spared.onlyIndexRemoved laws normalized absolute,
        spared.idempotent laws normalized absolute⟩
      right := ⟨spared'.onlyIndexRemoved laws normalized absolute',
        spared'.idempotent laws normalized absolute'⟩
      same_folder := spared.same_folder laws normalized absolute absolute' spared' }

/-! ## A sample -/

/-- A URL of `https://example.com`, the path without its first slash. -/
structure SampleUrl where
  rest : List Char
  query : Option (List Char)
  deriving DecidableEq

def SampleUrl.mark (u : SampleUrl) : List Char :=
  match u.query with
  | none => []
  | some query => '?' :: query

def SampleUrl.text (u : SampleUrl) : List Char :=
  if '/' :: u.rest = ['/'] ∧ u.mark = [] then "https://example.com".toList
  else "https://example.com".toList ++ '/' :: u.rest ++ u.mark

def sampleUrls : List SampleUrl :=
  [⟨"docs/index.html".toList, none⟩, ⟨"docs/".toList, none⟩, ⟨"Docs/index.html".toList, none⟩,
    ⟨"Docs/".toList, none⟩, ⟨"index.html".toList, some "page=2".toList⟩,
    ⟨[], some "page=2".toList⟩]

/-- The URLs of the sample are parsed, and no other text. -/
def sampleCrate : UrlCrate SampleUrl where
  parse text := sampleUrls.find? fun u => u.text = text
  scheme _ := "https".toList
  beforePath _ := "https://example.com".toList
  path u := '/' :: u.rest
  afterPath := SampleUrl.mark
  setPath u path := { u with rest := path.drop 1 }
  toString u := "https://example.com".toList ++ '/' :: u.rest ++ u.mark

/-- The URLs of the sample are in normal form, with their queries. -/
def sampleNormalize (_ : Options) (url : List Char) : Option (List Char) := some url

theorem sampleCrate_laws : UrlLaws sampleCrate where
  toString_eq _ := rfl
  path_rooted _ := ⟨_, rfl⟩
  afterPath_mark := by
    intro u c rest _ mark
    have start : SampleUrl.mark u = c :: rest := mark
    unfold SampleUrl.mark at start
    split at start
    · cases start
    · rw [List.cons.injEq] at start
      exact Or.inl start.1.symm
  web_setPath _ := Or.inr rfl
  setPath_beforePath _ := rfl
  setPath_afterPath _ := rfl
  setPath_path := by
    intro u _
    obtain ⟨parent, segment, free, split⟩ :=
      exists_split (List.mem_cons_self : '/' ∈ '/' :: u.rest)
    have path : sampleCrate.path u = parent ++ '/' :: segment := split
    rw [path, parentPath_append free]
    cases parent with
    | nil => rfl
    | cons c parent =>
        rw [List.cons_append, List.cons.injEq] at split
        rw [← split.1]
        rfl

theorem sampleCrate_parsed {u : SampleUrl} (mem : u ∈ sampleUrls) :
    sampleCrate.parse (canonicalText sampleCrate u) = some u := by
  have every : ∀ u ∈ sampleUrls, sampleCrate.parse (canonicalText sampleCrate u) = some u := by
    decide +kernel
  exact every u mem

theorem sample_normal {opts : Options} {u : SampleUrl} (mem : u ∈ sampleUrls) :
    Normal sampleCrate sampleNormalize opts u :=
  ⟨Or.inr rfl, sampleCrate_parsed mem, rfl⟩

theorem sampleNormalize_laws (opts : Options) :
    NormalizeLaws sampleCrate sampleNormalize opts where
  reparseable := by
    intro url ⟨_, u, parsed, _⟩
    have found : sampleUrls.find? (fun u => u.text = url) = some u := parsed
    have text : canonicalText sampleCrate u = url := of_decide_eq_true (List.find?_some found :)
    refine ⟨u, sample_normal (List.mem_of_find?_eq_some found), ?_⟩
    rw [text]
    rfl
  parent := by
    intro u normal
    have every : ∀ u ∈ sampleUrls,
        sampleCrate.setPath u (parentPath (sampleCrate.path u)) ∈ sampleUrls := by
      decide +kernel
    have found : sampleUrls.find? (fun v => v.text = canonicalText sampleCrate u) = some u :=
      normal.parsed
    exact sample_normal (every u (List.mem_of_find?_eq_some found))

theorem sample_absolute {u : SampleUrl} (mem : u ∈ sampleUrls) :
    AbsoluteHttp sampleCrate (canonicalText sampleCrate u) := by
  have every : ∀ u ∈ sampleUrls, contains (canonicalText sampleCrate u) "://".toList := by
    decide +kernel
  exact ⟨every u mem, u, sampleCrate_parsed mem, Or.inr rfl⟩

/-- An index file and its folder, in lower case. -/
theorem normalizeUrl_keeps_docs :
    CanonicalisedPair sampleCrate sampleNormalize dedupConfig
      "https://example.com/docs/index.html".toList "https://example.com/docs/".toList :=
  (normalizeUrl_keeps_iff sampleCrate_laws (sampleNormalize_laws _)
    (sample_absolute (u := ⟨"docs/index.html".toList, none⟩) (by decide))
    (sample_absolute (u := ⟨"docs/".toList, none⟩) (by decide))).mpr (by decide +kernel)

/-- The folder `Docs` is mistaken for `docs`, and the query of a root loses its last character. -/
theorem docs_and_query_changed :
    ¬ CanonicalisedPair sampleCrate sampleNormalize dedupConfig
        "https://example.com/Docs/index.html".toList "https://example.com/docs/".toList ∧
      ¬ CanonicalisedPair sampleCrate sampleNormalize fetchConfig
        "https://example.com/index.html?page=2".toList
        "https://example.com/index.html?page=2".toList := by
  constructor
  · intro pair
    have same := pair.same_folder (by decide +kernel)
    revert same
    decide +kernel
  · intro pair
    have parsed := sampleCrate_parsed (u := ⟨"index.html".toList, some "page=2".toList⟩) (by decide)
    have law := (onlyIndexRemoved_iff rfl parsed).mp pair.left.onlyIndexRemoved
    revert law
    decide +kernel

end UrlValidation

end Webfang
