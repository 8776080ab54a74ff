import Webfang.Crawler.UrlQueue
import Webfang.Sitemap.SitemapOrder

/-!
# Discovery through sitemaps

`crawl_with_sitemap_internal` of `application/crawler/sitemap_discovery.rs`: the URLs of a sitemap
that lie in the section of the base URL, pass the patterns of the configuration and its depth, or,
where the sitemap has none in the section, those of the sitemaps found below the path of the base.
-/

namespace Webfang

namespace Sitemap

/-- What is read of URLs. -/
structure UrlParts (υ : Type) where
  path : υ → List Char
  hostStr : υ → Option (List Char)

/-- `globset`: a pattern compiles to a matcher, or it is an error. -/
abbrev Glob := List Char → Option (List Char → Bool)

structure CrawlerConfig where
  includePatterns : List (List Char)
  excludePatterns : List (List Char)
  maxDepth : Nat

/-- A URL-distinct list of entries, as the parser returns it. -/
structure ParsedSitemap (υ τ : Type) where
  entries : List (SitemapUrl υ τ)
  distinct : (entries.map (·.url)).Nodup

/-- What the parser sorts it returns. -/
def ParsedSitemap.ofSorted {υ τ : Type} [LinearOrder υ] [LinearOrder τ]
    (sortBy : SortBy (SitemapUrl υ τ)) (stably : SortsStably sortBy)
    (permutes : ∀ comparator l, (sortBy comparator l).Perm l) (entries : List (SitemapUrl υ τ)) :
    ParsedSitemap υ τ :=
  ⟨dedupAndSortSitemapUrls sortBy entries, dedupAndSort_distinct stably permutes⟩

inductive DiscoveryError (ε : Type)
  | maxDepthExceeded (current max : Nat)
  | other (e : ε)

/-! ## Patterns -/

section Patterns

variable {υ : Type} (parts : UrlParts υ) (glob : Glob)

/-- `matches_pattern` of a URL, whose text parses to itself. -/
def matchesPattern (url : υ) (pattern : List Char) : Bool :=
  if pattern = [] || pattern = ['*'] then true
  else if "/".toList.isPrefixOf pattern || "*/".toList.isPrefixOf pattern then
    (glob pattern).any fun isMatch => isMatch (parts.path url)
  else
    (parts.hostStr url).any fun host =>
      if "*.".toList.isPrefixOf pattern then
        let rest := pattern.drop 2
        let domain := if "/*".toList.isSuffixOf rest then rest.dropLast.dropLast else rest
        ('.' :: domain).isSuffixOf host
      else host == pattern

def isAllowed (config : CrawlerConfig) (url : υ) : Bool :=
  if config.excludePatterns.any (matchesPattern parts glob url) then false
  else config.includePatterns.isEmpty || config.includePatterns.any (matchesPattern parts glob url)

end Patterns

/-! ## The two branches -/

def canonicalPath (path : List Char) : List Char :=
  if 1 < path.length ∧ path.getLast? = some '/' then path.dropLast else path

section Discovery

variable {υ τ ε : Type} (parts : UrlParts υ)

/-- Whether the filter takes an entry to lie in the section. -/
def isRelevant (targetPath : List Char) (e : SitemapUrl υ τ) : Bool :=
  (canonicalPath targetPath).isPrefixOf (canonicalPath (parts.path e.url))

def filterRelevantUrls (urls : List (SitemapUrl υ τ)) (targetPath : List Char) :
    List (SitemapUrl υ τ) :=
  urls.filter (isRelevant parts targetPath)

variable (glob : Glob) [DecidableEq υ]

/-- The depth gate: the seed is at depth zero, every other URL one hop from it. -/
def atDepth (base : υ) (config : CrawlerConfig) (e : SitemapUrl υ τ) : Option (DiscoveredUrl υ) :=
  let depth := if e.url = base then 0 else 1
  if depth ≤ config.maxDepth then some ⟨e.url, depth, base⟩ else none

def buildDiscoveredUrls (relevantUrls : List (SitemapUrl υ τ)) (base : υ)
    (config : CrawlerConfig) : List (DiscoveredUrl υ) :=
  (relevantUrls.filter fun e => isAllowed parts glob config e.url).filterMap (atDepth base config)

def buildDiscoveredUrlsOrLimitError (relevantUrls : List (SitemapUrl υ τ)) (base : υ)
    (config : CrawlerConfig) : Except (DiscoveryError ε) (List (DiscoveredUrl υ)) :=
  let discovered := buildDiscoveredUrls parts glob relevantUrls base config
  if discovered = [] ∧ config.maxDepth = 0 then .error (.maxDepthExceeded 1 0) else .ok discovered

/-- What the sub-path probes answer: `base.join`, the HEAD request and the parser. -/
structure Probes (υ τ : Type) where
  join : List Char → Option (List Char)
  headSuccess : List Char → Bool
  parse : List Char → Option (ParsedSitemap υ τ)

def trySubpathSitemap (probes : Probes υ τ) (candidate : List Char) :
    Option (List (SitemapUrl υ τ)) :=
  (probes.join candidate).bind fun sitemap =>
    if probes.headSuccess sitemap then (probes.parse sitemap).map (·.entries) else none

/-- The sub-path candidates of a base path, up to three levels deep. -/
def subpathCandidates (path : List Char) : List (List Char) :=
  let segments := (path.splitOn '/').filter (· ≠ [])
  (List.range' 1 (min segments.length 3)).flatMap fun i =>
    ["sitemap.xml", "sitemap_index.xml"].map fun name =>
      '/' :: ['/'].intercalate (segments.take i) ++ '/' :: name.toList

def probeSubpathSitemapsForCrawl (base : υ) (probes : Probes υ τ) : List (SitemapUrl υ τ) :=
  (subpathCandidates (parts.path base)).flatMap fun candidate =>
    (trySubpathSitemap probes candidate).getD []

def crawlWithSubpathSitemaps (base : υ) (probes : Probes υ τ)
    (sitemapMaxDepth sitemapCurrentDepth crawlMaxDepth : Nat) : List (DiscoveredUrl υ) :=
  if sitemapMaxDepth ≤ sitemapCurrentDepth then []
  else if crawlMaxDepth = 0 then []
  else (probeSubpathSitemapsForCrawl parts base probes).map fun e => ⟨e.url, 1, base⟩

/-- `sitemap` is the outcome of finding and parsing the sitemap, `base` the parsed base URL. -/
def crawlWithSitemapInternal (sitemap : Except ε (ParsedSitemap υ τ)) (base : Except ε υ)
    (probes : Probes υ τ) (config : CrawlerConfig) :
    Except (DiscoveryError ε) (List (DiscoveredUrl υ)) :=
  match sitemap, base with
  | .error e, _ => .error (.other e)
  | _, .error e => .error (.other e)
  | .ok urls, .ok base =>
      let relevantUrls := filterRelevantUrls parts urls.entries (parts.path base)
      if relevantUrls.isEmpty then
        .ok (crawlWithSubpathSitemaps parts base probes 3 0 config.maxDepth)
      else buildDiscoveredUrlsOrLimitError parts glob relevantUrls base config

/-! ## The gates of the crawl -/

/-- A path is the section's, or below it at a segment boundary. -/
def InSection (targetPath path : List Char) : Prop :=
  ∃ rest, canonicalPath path = canonicalPath targetPath ++ rest ∧
    (rest = [] ∨ rest.head? = some '/' ∨ canonicalPath targetPath = [] ∨
      (canonicalPath targetPath).getLast? = some '/')

/-- What a crawl asks of the URLs that discovery returns. -/
structure PassesGates (config : CrawlerConfig) (base : υ) (discovered : List (DiscoveredUrl υ)) :
    Prop where
  allowed : ∀ d ∈ discovered, isAllowed parts glob config d.url = true
  shallow : ∀ d ∈ discovered, d.depth ≤ config.maxDepth
  inSection : ∀ d ∈ discovered, InSection (parts.path base) (parts.path d.url)
  once : (discovered.map (·.url)).Nodup

/-- The contents of the sitemaps that pass the gates: in the sitemap, what shares the path of the
section as text and is within the depth and the patterns lies in the section; where nothing shares
it, the sub-path sitemaps list only what is allowed and in the section, and nothing twice. -/
structure ContentsPass (sitemap : ParsedSitemap υ τ) (base : υ) (probes : Probes υ τ)
    (config : CrawlerConfig) : Prop where
  main : ∀ e ∈ sitemap.entries, isRelevant parts (parts.path base) e = true →
    isAllowed parts glob config e.url = true → e.url = base ∨ 0 < config.maxDepth →
      InSection (parts.path base) (parts.path e.url)
  fallback : (∀ e ∈ sitemap.entries, isRelevant parts (parts.path base) e = false) →
    0 < config.maxDepth →
      (∀ e ∈ probeSubpathSitemapsForCrawl parts base probes,
        isAllowed parts glob config e.url = true ∧
          InSection (parts.path base) (parts.path e.url)) ∧
      ((probeSubpathSitemapsForCrawl parts base probes).map (·.url)).Nodup

variable {parts glob} {base : υ} {config : CrawlerConfig} {sitemap : ParsedSitemap υ τ}
  {probes : Probes υ τ}

theorem atDepth_eq_some {e : SitemapUrl υ τ} {d : DiscoveredUrl υ} :
    atDepth base config e = some d ↔ (if e.url = base then 0 else 1) ≤ config.maxDepth ∧
      (⟨e.url, if e.url = base then 0 else 1, base⟩ : DiscoveredUrl υ) = d := by
  rw [atDepth, Option.ite_none_right_eq_some, Option.some.injEq]

theorem mem_buildDiscoveredUrls {relevant : List (SitemapUrl υ τ)} {d : DiscoveredUrl υ} :
    d ∈ buildDiscoveredUrls parts glob relevant base config ↔
      ∃ e ∈ relevant, isAllowed parts glob config e.url = true ∧
        (if e.url = base then 0 else 1) ≤ config.maxDepth ∧
        (⟨e.url, if e.url = base then 0 else 1, base⟩ : DiscoveredUrl υ) = d := by
  simp only [buildDiscoveredUrls, List.mem_filterMap, List.mem_filter, atDepth_eq_some, and_assoc]

theorem filterMap_atDepth_sublist (entries : List (SitemapUrl υ τ)) :
    ((entries.filterMap (atDepth base config)).map (·.url)).Sublist (entries.map (·.url)) := by
  induction entries with
  | nil => exact List.Sublist.refl _
  | cons e entries ih =>
      rw [List.filterMap_cons]
      cases gate : atDepth base config e with
      | none => exact ih.cons _
      | some d =>
          obtain ⟨-, rfl⟩ := atDepth_eq_some.mp gate
          exact ih.cons_cons _

/-- What is built lists the URLs of the entries in their order. -/
theorem buildDiscoveredUrls_sublist (relevant : List (SitemapUrl υ τ)) :
    ((buildDiscoveredUrls parts glob relevant base config).map (·.url)).Sublist
      (relevant.map (·.url)) :=
  (filterMap_atDepth_sublist _).trans (List.filter_sublist.map _)

/-- A depth that the gate lets pass. -/
theorem depth_le_iff {e : SitemapUrl υ τ} :
    (if e.url = base then 0 else 1) ≤ config.maxDepth ↔ e.url = base ∨ 0 < config.maxDepth := by
  by_cases seed : e.url = base
  · rw [if_pos seed]
    exact iff_of_true (Nat.zero_le _) (.inl seed)
  · rw [if_neg seed, or_iff_right seed]
    exact Nat.lt_iff_add_one_le.symm

theorem passesGates_main :
    PassesGates parts glob config base (buildDiscoveredUrls parts glob
        (filterRelevantUrls parts sitemap.entries (parts.path base)) base config) ↔
      ∀ e ∈ sitemap.entries, isRelevant parts (parts.path base) e = true →
        isAllowed parts glob config e.url = true → e.url = base ∨ 0 < config.maxDepth →
          InSection (parts.path base) (parts.path e.url) := by
  constructor
  · intro passes e member relevant allowed deep
    exact passes.inSection _ (mem_buildDiscoveredUrls.mpr ⟨e,
      List.mem_filter.mpr ⟨member, relevant⟩, allowed, depth_le_iff.mpr deep, rfl⟩)
  · intro within
    refine ⟨fun d member => ?_, fun d member => ?_, fun d member => ?_, ?_⟩
    · obtain ⟨e, -, allowed, -, rfl⟩ := mem_buildDiscoveredUrls.mp member
      exact allowed
    · obtain ⟨e, -, -, shallow, rfl⟩ := mem_buildDiscoveredUrls.mp member
      exact shallow
    · obtain ⟨e, listed, allowed, shallow, rfl⟩ := mem_buildDiscoveredUrls.mp member
      obtain ⟨member, relevant⟩ := List.mem_filter.mp listed
      exact within e member relevant allowed (depth_le_iff.mp shallow)
    · exact sitemap.distinct.sublist
        ((buildDiscoveredUrls_sublist _).trans (List.filter_sublist.map _))

omit [DecidableEq υ] in
theorem passesGates_fallback :
    PassesGates parts glob config base
        (crawlWithSubpathSitemaps parts base probes 3 0 config.maxDepth) ↔
      (0 < config.maxDepth →
        (∀ e ∈ probeSubpathSitemapsForCrawl parts base probes,
          isAllowed parts glob config e.url = true ∧
            InSection (parts.path base) (parts.path e.url)) ∧
        ((probeSubpathSitemapsForCrawl parts base probes).map (·.url)).Nodup) := by
  rw [crawlWithSubpathSitemaps, if_neg (by decide)]
  by_cases shallow : config.maxDepth = 0
  · rw [if_pos shallow]
    refine iff_of_true ⟨nofun, nofun, nofun, List.nodup_nil⟩ fun deep => ?_
    exact absurd shallow (Nat.ne_of_gt deep)
  · rw [if_neg shallow]
    have deep := Nat.pos_of_ne_zero shallow
    have urls : ((probeSubpathSitemapsForCrawl parts base probes).map fun e =>
        (⟨e.url, 1, base⟩ : DiscoveredUrl υ)).map (·.url) =
          (probeSubpathSitemapsForCrawl parts base probes).map (·.url) := by
      rw [List.map_map]
      rfl
    constructor
    · intro passes _
      refine ⟨fun e member => ⟨?_, ?_⟩, urls ▸ passes.once⟩
      · exact passes.allowed _ (List.mem_map.mpr ⟨e, member, rfl⟩)
      · exact passes.inSection _ (List.mem_map.mpr ⟨e, member, rfl⟩)
    · intro contents
      obtain ⟨each, once⟩ := contents deep
      refine ⟨fun d member => ?_, fun d member => ?_, fun d member => ?_, urls.symm ▸ once⟩
      · obtain ⟨e, listed, rfl⟩ := List.mem_map.mp member
        exact (each e listed).1
      · obtain ⟨e, -, rfl⟩ := List.mem_map.mp member
        exact deep
      · obtain ⟨e, listed, rfl⟩ := List.mem_map.mp member
        exact (each e listed).2

/-- For every configuration, base URL and contents of the sitemaps, what discovery returns passes
the gates of the crawl exactly where the contents do. -/
theorem crawlWithSitemapInternal_passes_iff (sitemap : ParsedSitemap υ τ) (base : υ)
    (probes : Probes υ τ) (config : CrawlerConfig) :
    (∀ discovered, crawlWithSitemapInternal (ε := ε) parts glob (.ok sitemap) (.ok base) probes config =
        .ok discovered → PassesGates parts glob config base discovered) ↔
      ContentsPass parts glob sitemap base probes config := by
  unfold crawlWithSitemapInternal
  dsimp only
  by_cases none_ : filterRelevantUrls parts sitemap.entries (parts.path base) = []
  · have unrelated : ∀ e ∈ sitemap.entries, isRelevant parts (parts.path base) e = false := by
      intro e member
      exact Bool.eq_false_iff.mpr (List.filter_eq_nil_iff.mp none_ e member)
    rw [none_, if_pos List.isEmpty_nil]
    constructor
    · intro returned
      have fallback := passesGates_fallback.mp (returned _ rfl)
      refine ⟨fun e member relevant => ?_, fun _ => fallback⟩
      rw [unrelated e member] at relevant
      cases relevant
    · intro contents discovered same
      cases same
      exact passesGates_fallback.mpr (contents.fallback unrelated)
  · rw [if_neg (by rwa [List.isEmpty_iff])]
    have related : ¬ ∀ e ∈ sitemap.entries, isRelevant parts (parts.path base) e = false := by
      intro unrelated
      exact none_ (List.filter_eq_nil_iff.mpr fun e member =>
        Bool.eq_false_iff.mp (unrelated e member))
    unfold buildDiscoveredUrlsOrLimitError
    dsimp only
    split
    · rename_i empty
      refine iff_of_true nofun ⟨fun e member relevant allowed deep => ?_, fun unrelated =>
        absurd unrelated related⟩
      have built : (⟨e.url, if e.url = base then 0 else 1, base⟩ : DiscoveredUrl υ) ∈
          buildDiscoveredUrls parts glob
            (filterRelevantUrls parts sitemap.entries (parts.path base)) base config :=
        mem_buildDiscoveredUrls.mpr ⟨e, List.mem_filter.mpr ⟨member, relevant⟩, allowed,
          depth_le_iff.mpr deep, rfl⟩
      exact absurd (empty.1 ▸ built) List.not_mem_nil
    · constructor
      · intro returned
        exact ⟨passesGates_main.mp (returned _ rfl), fun unrelated => absurd unrelated related⟩
      · intro contents discovered same
        cases same
        exact passesGates_main.mpr contents.main

end Discovery

/-- URLs as their paths, on one host. -/
def pathParts : UrlParts (List Char) := ⟨id, fun _ => some "a.b".toList⟩

def noProbes : Probes (List Char) ℕ := ⟨fun _ => none, fun _ => false, fun _ => none⟩

/-- A sitemap that lists a page of another section beside `/docs`. -/
def docsAndOld : ParsedSitemap (List Char) ℕ :=
  ⟨[⟨"/docs-old".toList, none, none, none⟩], List.nodup_singleton _⟩

/-- For the section `/docs` the page `/docs-old` is returned. -/
theorem other_section_returned :
    ∃ discovered, crawlWithSitemapInternal (ε := Unit) pathParts (fun _ => none) (.ok docsAndOld)
        (.ok "/docs".toList) noProbes ⟨[], [], 1⟩ = .ok discovered ∧
      ¬ PassesGates pathParts (fun _ => none) ⟨[], [], 1⟩ "/docs".toList discovered := by
  refine ⟨[⟨"/docs-old".toList, 1, "/docs".toList⟩], rfl, fun passes => ?_⟩
  obtain ⟨rest, beyond, boundary⟩ := passes.inSection _ (List.mem_singleton_self _)
  have cut : rest = "-old".toList := by
    have beyond' : "/docs".toList ++ "-old".toList = "/docs".toList ++ rest := beyond
    exact (List.append_cancel_left beyond').symm
  subst cut
  revert boundary
  decide +kernel

end Sitemap

end Webfang
