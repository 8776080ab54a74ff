import Mathlib.Data.List.Infix
import Webfang.Lib.Pieces
import Webfang.Sitemap.SitemapDiscovery

/-!
# URL patterns

`matches_pattern` of `domain/pattern_matching/mod.rs` on the text of a URL, with `is_excluded` and
`is_allowed` of `application/url_filter.rs`.  The URL parser and the compiler of globs are
parameters; of a URL only its host and its path are read.
-/

namespace Webfang

namespace UrlPatterns

open Sitemap

/-- `Url::parse`, which may give URLs of any kind. -/
abbrev UrlParser (υ : Type) := List Char → Option υ

section Patterns

variable {υ : Type} (parse : UrlParser υ) (parts : UrlParts υ) (glob : Glob)

/-- `matches_pattern`: the universal pattern before the URL is parsed, the others behind it. -/
def matchesPattern (text pattern : List Char) : Bool :=
  if pattern = [] ∨ pattern = ['*'] then true
  else (parse text).any fun url => Sitemap.matchesPattern parts glob url pattern

def isExcluded (text : List Char) (patterns : List (List Char)) : Bool :=
  patterns.any (matchesPattern parse parts glob text)

def matchesInclude (config : CrawlerConfig) (text : List Char) : Bool :=
  config.includePatterns.isEmpty || config.includePatterns.any (matchesPattern parse parts glob text)

def isAllowed (text : List Char) (config : CrawlerConfig) : Bool :=
  if isExcluded parse parts glob text config.excludePatterns then false
  else matchesInclude parse parts glob config text

end Patterns

/-- The labels of a host, of which the last are those of `domain`, and there are others. -/
def IsBelow (domain host : List Char) : Prop :=
  ∃ labels, labels ≠ [] ∧ host.splitOn '.' = labels ++ domain.splitOn '.'

section Hosts

variable {υ : Type} (parse : UrlParser υ) (parts : UrlParts υ)

/-- The text is a URL on a host of the given kind. -/
def OnHost (text : List Char) (kind : List Char → Prop) : Prop :=
  ∃ url host, parse text = some url ∧ parts.hostStr url = some host ∧ kind host

/-- A host as the parser writes it. -/
def IsWritten (host : List Char) : Prop := ∃ text, OnHost parse parts text (· = host)

/-- Hosts as the parser writes them hold no slash. -/
def SlashFree : Prop :=
  ∀ text url host, parse text = some url → parts.hostStr url = some host → '/' ∉ host

end Hosts

/-- A host that is no pattern of more hosts than itself. -/
structure IsPlain (host : List Char) : Prop where
  filled : host ≠ []
  single : host ≠ ['*']
  notBelow : ¬ ['*', '.'] <+: host

/-! ## The shapes of patterns -/

theorem intercalate_append {labels more : List (List Char)} (others : labels ≠ []) (some : more ≠ []) :
    ['.'].intercalate (labels ++ more) =
      ['.'].intercalate labels ++ '.' :: ['.'].intercalate more := by
  induction labels with
  | nil => exact absurd rfl others
  | cons label labels ih =>
      cases labels with
      | nil => rw [List.singleton_append, Pieces.intercalate_cons some, List.intercalate_singleton]
      | cons next labels =>
          rw [List.cons_append,
            Pieces.intercalate_cons (List.append_ne_nil_of_left_ne_nil (List.cons_ne_nil next labels) _),
            Pieces.intercalate_cons (List.cons_ne_nil next labels), ih (List.cons_ne_nil next labels),
            List.append_assoc, List.cons_append]

/-- Below a domain are the hosts that end in it behind a dot. -/
theorem isBelow_iff (domain host : List Char) : IsBelow domain host ↔ '.' :: domain <:+ host := by
  constructor
  · intro given
    rcases given with ⟨labels, others, split⟩
    refine ⟨['.'].intercalate labels, ?_⟩
    have whole : ['.'].intercalate (host.splitOn '.') = host := List.intercalate_splitOn '.'
    rw [← whole, split, intercalate_append others (List.splitOn_ne_nil '.' domain),
      List.intercalate_splitOn]
  · intro given
    rcases given with ⟨before, rfl⟩
    exact ⟨before.splitOn '.', List.splitOn_ne_nil '.' before, List.splitOn_append_cons_self ..⟩

/-- The domain of a pattern behind `*.`, without a closing `/*`. -/
def domainOf (rest : List Char) : List Char :=
  if "/*".toList.isSuffixOf rest then rest.dropLast.dropLast else rest

section Shapes

variable {υ : Type} {parse : UrlParser υ} {parts : UrlParts υ} {glob : Glob} {text : List Char}

theorem matchesPattern_below (rest : List Char) :
    matchesPattern parse parts glob text ('*' :: '.' :: rest) = true ↔
      OnHost parse parts text fun host => '.' :: domainOf rest <:+ host := by
  have plain : ¬ ('*' :: '.' :: rest = [] ∨ '*' :: '.' :: rest = ['*']) := by simp
  rw [matchesPattern, if_neg plain, Option.any_eq_true]
  constructor
  · intro given
    rcases given with ⟨url, parsed, matched⟩
    obtain ⟨host, named, suffix⟩ := (Option.any_eq_true _ _).mp matched
    exact ⟨url, host, parsed, named, List.isSuffixOf_iff_suffix.mp suffix⟩
  · intro given
    rcases given with ⟨url, host, parsed, named, suffix⟩
    exact ⟨url, parsed, (Option.any_eq_true _ _).mpr
      ⟨host, named, List.isSuffixOf_iff_suffix.mpr suffix⟩⟩

/-- A pattern that is not universal, of a path or of subdomains is compared with the host. -/
theorem matchesPattern_host {pattern : List Char} (plain : IsPlain pattern)
    (slash : ¬ ['/'] <+: pattern) (starSlash : ¬ ['*', '/'] <+: pattern) :
    matchesPattern parse parts glob text pattern = true ↔ OnHost parse parts text (· = pattern) := by
  have notPath : ¬ ("/".toList.isPrefixOf pattern || "*/".toList.isPrefixOf pattern) = true := by
    rw [Bool.or_eq_true, List.isPrefixOf_iff_prefix, List.isPrefixOf_iff_prefix]
    exact not_or.mpr ⟨slash, starSlash⟩
  have notBelow : ¬ "*.".toList.isPrefixOf pattern = true := by
    rw [List.isPrefixOf_iff_prefix]
    exact plain.notBelow
  have named (url : υ) : Sitemap.matchesPattern parts glob url pattern =
      (parts.hostStr url).any fun host => host == pattern := by
    rw [Sitemap.matchesPattern, if_neg (by simp [plain.filled, plain.single]), if_neg notPath]
    simp only [notBelow]
    rfl
  rw [matchesPattern, if_neg (not_or.mpr ⟨plain.filled, plain.single⟩), Option.any_eq_true]
  simp only [named, Option.any_eq_true, beq_iff_eq]
  constructor
  · intro given
    rcases given with ⟨url, parsed, host, there, same⟩
    exact ⟨url, host, parsed, there, same⟩
  · intro given
    rcases given with ⟨url, host, parsed, there, same⟩
    exact ⟨url, parsed, host, there, same⟩

theorem domainOf_slashFree {domain : List Char} (free : '/' ∉ domain) : domainOf domain = domain := by
  rw [domainOf, if_neg]
  rw [List.isSuffixOf_iff_suffix]
  intro suffix
  exact free (suffix.subset List.mem_cons_self)

theorem domainOf_slashStar (domain : List Char) : domainOf (domain ++ ['/', '*']) = domain := by
  have closed : "/*".toList.isSuffixOf (domain ++ ['/', '*']) = true :=
    List.isSuffixOf_iff_suffix.mpr (List.suffix_append domain ['/', '*'])
  rw [domainOf, if_pos closed]
  simp

end Shapes

/-! ## Host and path decide -/

section Decided

variable {υ : Type} {parse : UrlParser υ} {parts : UrlParts υ} (glob : Glob) {text other : List Char}

theorem matchesPattern_congr {url url' : υ} (parsed : parse text = some url)
    (parsed' : parse other = some url') (hosts : parts.hostStr url = parts.hostStr url')
    (paths : parts.path url = parts.path url') (pattern : List Char) :
    matchesPattern parse parts glob text pattern = matchesPattern parse parts glob other pattern := by
  have alike : Sitemap.matchesPattern parts glob url pattern =
      Sitemap.matchesPattern parts glob url' pattern := by
    rw [Sitemap.matchesPattern, Sitemap.matchesPattern, hosts, paths]
  rw [matchesPattern, matchesPattern, parsed, parsed', Option.any_some, Option.any_some, alike]

theorem isExcluded_congr (same : matchesPattern parse parts glob text =
    matchesPattern parse parts glob other) (patterns : List (List Char)) :
    isExcluded parse parts glob text patterns = isExcluded parse parts glob other patterns := by
  rw [isExcluded, isExcluded, same]

theorem isAllowed_congr (same : matchesPattern parse parts glob text =
    matchesPattern parse parts glob other) (config : CrawlerConfig) :
    isAllowed parse parts glob text config = isAllowed parse parts glob other config := by
  rw [isAllowed, isAllowed, isExcluded_congr glob same, matchesInclude, matchesInclude, same]

/-- One more pattern, wherever it stands, excludes no less. -/
theorem isExcluded_more {before behind : List (List Char)} (pattern : List Char)
    (excluded : isExcluded parse parts glob text (before ++ behind) = true) :
    isExcluded parse parts glob text (before ++ pattern :: behind) = true := by
  rw [isExcluded, List.any_append, Bool.or_eq_true] at excluded ⊢
  rw [List.any_cons, Bool.or_eq_true]
  exact excluded.imp_right .inr

theorem not_isAllowed_more {before behind : List (List Char)} (pattern : List Char)
    {config : CrawlerConfig} (listed : config.excludePatterns = before ++ behind)
    (refused : isAllowed parse parts glob text config = false) :
    isAllowed parse parts glob text { config with excludePatterns := before ++ pattern :: behind } =
      false := by
  rw [isAllowed, listed] at refused
  split at refused
  · rename_i excluded
    rw [isAllowed, if_pos (isExcluded_more glob pattern excluded)]
  · rw [isAllowed]
    split
    · rfl
    · exact refused

end Decided

section Hosts

variable {υ : Type} (parse : UrlParser υ) (parts : UrlParts υ) (glob : Glob)

/-- A domain as a pattern, alone and behind `*.`. -/
structure MatchesHosts (domain : List Char) : Prop where
  own : IsPlain domain →
    ∀ text, matchesPattern parse parts glob text domain = true ↔ OnHost parse parts text (· = domain)
  below : ∀ text, matchesPattern parse parts glob text ('*' :: '.' :: domain) = true ↔
    OnHost parse parts text (IsBelow domain)
  belowStar : ∀ text,
    matchesPattern parse parts glob text ('*' :: '.' :: (domain ++ ['/', '*'])) = true ↔
      OnHost parse parts text (IsBelow domain)

/-- Whatever else two URLs hold, the same host and path are treated in the same way. -/
structure TreatsAlike (text other : List Char) : Prop where
  one : ∀ pattern, matchesPattern parse parts glob text pattern =
    matchesPattern parse parts glob other pattern
  excluded : ∀ patterns, isExcluded parse parts glob text patterns =
    isExcluded parse parts glob other patterns
  allowed : ∀ config, isAllowed parse parts glob text config = isAllowed parse parts glob other config

variable {parse parts}

theorem matchesHosts (slashFree : SlashFree parse parts) {domain : List Char}
    (written : IsWritten parse parts domain) : MatchesHosts parse parts glob domain := by
  obtain ⟨_, _, _, parsed, named, rfl⟩ := written
  have free := slashFree _ _ _ parsed named
  refine ⟨fun plain text => ?_, fun text => ?_, fun text => ?_⟩
  · refine matchesPattern_host plain (fun slash => free ?_) fun slash => free ?_
    · exact slash.subset List.mem_cons_self
    · exact slash.subset (List.mem_cons_of_mem _ List.mem_cons_self)
  · rw [matchesPattern_below, domainOf_slashFree free]
    simp only [OnHost, isBelow_iff]
  · rw [matchesPattern_below, domainOf_slashStar]
    simp only [OnHost, isBelow_iff]

/-- Host and path decide on every pattern and list of patterns; a plain domain matches just its own
host and any domain, behind `*.`, just the hosts below it; one more exclusion allows nothing more. -/
theorem patterns_decided (slashFree : SlashFree parse parts) :
    (∀ text other url url', parse text = some url → parse other = some url' →
        parts.hostStr url = parts.hostStr url' → parts.path url = parts.path url' →
          TreatsAlike parse parts glob text other) ∧
      (∀ domain, IsWritten parse parts domain → MatchesHosts parse parts glob domain) ∧
      ∀ text config before pattern behind, config.excludePatterns = before ++ behind →
        isAllowed parse parts glob text config = false →
          isAllowed parse parts glob text
            { config with excludePatterns := before ++ pattern :: behind } = false := by
  refine ⟨fun text other url url' parsed parsed' hosts paths => ?_,
    fun domain => matchesHosts glob slashFree,
    fun text config before pattern behind => not_isAllowed_more glob pattern⟩
  have same := matchesPattern_congr glob parsed parsed' hosts paths
  exact ⟨same, isExcluded_congr glob (funext same), isAllowed_congr glob (funext same)⟩

end Hosts

/-! ## Some URLs -/

/-- A URL with what the patterns do not read. -/
structure SampleUrl where
  host : List Char
  path : List Char
  query : List Char
  deriving DecidableEq, Repr

def sampleParts : UrlParts SampleUrl where
  path := SampleUrl.path
  hostStr := fun url => some url.host

/-- Parses a few texts. -/
def sampleParse : UrlParser SampleUrl := fun text =>
  if text = "https://a.example.com/api/users".toList then
    some ⟨"a.example.com".toList, "/api/users".toList, []⟩
  else if text = "https://a.example.com/api/users?q=b.example/x".toList then
    some ⟨"a.example.com".toList, "/api/users".toList, "q=b.example/x".toList⟩
  else if text = "https://example.com/".toList then some ⟨"example.com".toList, ['/'], []⟩
  else if text = "https://*.example.com/".toList then some ⟨"*.example.com".toList, ['/'], []⟩
  else none

/-- The globs that end in their only star. -/
def sampleGlob : Glob := fun pattern =>
  if pattern.getLast? = some '*' ∧ '*' ∉ pattern.dropLast then
    some fun path => pattern.dropLast.isPrefixOf path
  else none

theorem sample_slashFree : SlashFree sampleParse sampleParts := by
  intro text url host parsed named
  rw [sampleParse] at parsed
  split_ifs at parsed
  · cases parsed
    cases named
    decide
  · cases parsed
    cases named
    decide
  · cases parsed
    cases named
    decide
  · cases parsed
    cases named
    decide

theorem sample_patterns_decided :
    TreatsAlike sampleParse sampleParts sampleGlob "https://a.example.com/api/users".toList
        "https://a.example.com/api/users?q=b.example/x".toList ∧
      MatchesHosts sampleParse sampleParts sampleGlob "example.com".toList :=
  ⟨(patterns_decided sampleGlob sample_slashFree).1 _ _ _ _ rfl rfl rfl rfl,
    (patterns_decided sampleGlob sample_slashFree).2.1 _
      ⟨"https://example.com/".toList, _, _, rfl, rfl, rfl⟩⟩

/-- A host may begin with a star, and then it is a pattern of the hosts below another. -/
theorem starred_host_matches_others : ¬ ∀ (υ : Type) (parse : UrlParser υ) (parts : UrlParts υ)
    (glob : Glob), SlashFree parse parts → ∀ domain, domain ≠ [] → IsWritten parse parts domain →
      ∀ text, matchesPattern parse parts glob text domain = true ↔
        OnHost parse parts text (· = domain) := by
  intro all
  have only := (all SampleUrl sampleParse sampleParts sampleGlob sample_slashFree
    "*.example.com".toList (by decide) ⟨"https://*.example.com/".toList, _, _, rfl, rfl, rfl⟩
    "https://a.example.com/api/users".toList).mp rfl
  obtain ⟨_, _, parsed, named, same⟩ := only
  cases parsed
  cases named
  exact absurd same (by decide)

end UrlPatterns

end Webfang
