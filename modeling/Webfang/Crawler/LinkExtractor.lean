import Webfang.Domain.Record
import Webfang.Domain.UrlNormalization
import Mathlib.Data.List.Perm.Basic

/-!
# Link extraction

`extract_links` of `infrastructure/crawler/link_extractor.rs`.  A document is what the selectors
`base[href]` and `a[href]` find in it, in order.

The list that is returned holds URLs as they are fetched, and a new one is compared with it by its
canonical key.  So the links are deduplicated exactly where the first URL of each key that occurs
more than once is spelled as the key (`extractLinks_dedups_iff`).
-/

namespace Webfang

namespace LinkExtractor

open UrlValidation

/-- An element `a[href]`. -/
structure Anchor where
  href : List Char
  rel : Option (List Char)
  deriving DecidableEq

structure HtmlDocument where
  baseHrefs : List (List Char)
  anchors : List Anchor

/-- `url::Url` with `join`, and the text of an error. -/
structure UrlTools (υ : Type) extends UrlCrate υ where
  join : υ → List Char → Option υ
  parseError : List Char → List Char

/-- `CrawlError`, the variant that is returned. -/
inductive CrawlError
  | invalidUrl (message : List Char)
  deriving DecidableEq

/-- `str::split_whitespace`. -/
def splitWhitespace (text : List Char) : List (List Char) :=
  (text.splitOnP isWhitespace).filter (· ≠ [])

/-- `rel="nofollow"` among other tokens. -/
def Anchor.nofollow (anchor : Anchor) : Bool :=
  (splitWhitespace (anchor.rel.getD [])).any fun token =>
    toAsciiLowercase token = "nofollow".toList

variable {υ : Type} (tools : UrlTools υ) (urlNormalize : Options → List Char → Option (List Char))

/-- The first `<base href>` overrides the base of the caller, unless it cannot be resolved. -/
def documentBase (document : HtmlDocument) (callerBase : υ) : υ :=
  (document.baseHrefs.head?.bind fun href =>
    (tools.parse href).or (tools.join callerBase href)).getD callerBase

/-- The URL that an element leads to, as it is fetched. -/
def fetchUrl (base : υ) (anchor : Anchor) : Option (List Char) :=
  if anchor.nofollow then none else (tools.join base anchor.href).map tools.toString

def dedupKey (url : List Char) : List Char :=
  normalizeUrl tools.toUrlCrate urlNormalize dedupConfig url

/-- One round of the loop: the key is looked for among the URLs. -/
def pushLink (key : List Char → List Char) (links : List (List Char)) (url : List Char) :
    List (List Char) :=
  if links.contains (key url) then links else links ++ [url]

/-- The URLs that the anchors of a document lead to, in order; none for a base URL that is not one. -/
def resolvedUrls (document : HtmlDocument) (baseUrl : List Char) : List (List Char) :=
  match tools.parse baseUrl with
  | none => []
  | some callerBase =>
      document.anchors.filterMap (fetchUrl tools (documentBase tools document callerBase))

def extractLinks (document : HtmlDocument) (baseUrl : List Char) :
    Except CrawlError (List (List Char)) :=
  match tools.parse baseUrl with
  | none => .error (.invalidUrl (tools.parseError baseUrl))
  | some _ =>
      .ok ((resolvedUrls tools document baseUrl).foldl (pushLink (dedupKey tools urlNormalize)) [])

/-! ## The loop -/

section Loop

variable (key : List Char → List Char)

/-- A URL that is spelled as a key has that key. -/
def KeysClosed (urls : List (List Char)) : Prop :=
  ∀ u ∈ urls, ∀ v ∈ urls, u = key v → key u = key v

/-- The URLs of one key, in order. -/
def ofKey (k : List Char) (urls : List (List Char)) : List (List Char) :=
  urls.filter fun url => key url = k

/-- Of the URLs of one key, where there is more than one, the first is spelled as the key. -/
def FirstSpelled (urls : List (List Char)) : Prop :=
  ∀ u ∈ urls, 2 ≤ (ofKey key (key u) urls).length →
    (ofKey key (key u) urls).head? = some (key u)

instance (urls : List (List Char)) : Decidable (KeysClosed key urls) :=
  inferInstanceAs (Decidable (∀ u ∈ urls, ∀ v ∈ urls, u = key v → key u = key v))

instance (urls : List (List Char)) : Decidable (FirstSpelled key urls) :=
  inferInstanceAs (Decidable (∀ u ∈ urls, _ → _))

variable {key} {urls : List (List Char)} {url : List Char}

theorem KeysClosed.of_append (closed : KeysClosed key (urls ++ [url])) : KeysClosed key urls :=
  fun u known v known' => closed u (List.mem_append_left _ known) v (List.mem_append_left _ known')

theorem KeysClosed.of_perm {others : List (List Char)} (closed : KeysClosed key urls)
    (perm : others.Perm urls) : KeysClosed key others :=
  fun u known v known' => closed u (perm.mem_iff.mp known) v (perm.mem_iff.mp known')

/-- A key that is canonical for itself. -/
theorem keysClosed_of_idempotent (idempotent : ∀ v ∈ urls, key (key v) = key v) :
    KeysClosed key urls := by
  intro u _ v known same
  rw [same]
  exact idempotent v known

theorem mem_ofKey {k : List Char} : url ∈ ofKey key k urls ↔ url ∈ urls ∧ key url = k := by
  rw [ofKey, List.mem_filter, decide_eq_true_iff]

theorem ofKey_concat_of_eq {k : List Char} (same : key url = k) :
    ofKey key k (urls ++ [url]) = ofKey key k urls ++ [url] := by
  rw [ofKey, List.filter_append, ofKey]
  congr 1
  exact List.filter_cons_of_pos (decide_eq_true same)

theorem ofKey_concat_of_ne {k : List Char} (other : key url ≠ k) :
    ofKey key k (urls ++ [url]) = ofKey key k urls := by
  rw [ofKey, List.filter_append, ofKey, List.append_right_eq_self]
  exact List.filter_cons_of_neg fun same => other (of_decide_eq_true same)

theorem foldl_pushLink_append (urls : List (List Char)) (url : List Char) :
    (urls ++ [url]).foldl (pushLink key) [] = pushLink key (urls.foldl (pushLink key) []) url := by
  rw [List.foldl_append]
  rfl

theorem pushLink_of_mem {links : List (List Char)} (found : key url ∈ links) :
    pushLink key links url = links :=
  if_pos (List.contains_iff_mem.mpr found)

theorem pushLink_of_notMem {links : List (List Char)} (missing : key url ∉ links) :
    pushLink key links url = links ++ [url] :=
  if_neg fun found => missing (List.contains_iff_mem.mp found)

theorem mem_pushLink_of_mem {links : List (List Char)} {link : List Char} (mem : link ∈ links) :
    link ∈ pushLink key links url := by
  rw [pushLink]
  split
  · exact mem
  · exact List.mem_append_left _ mem

/-- The links are URLs of the document, in their order. -/
theorem links_sublist (urls : List (List Char)) :
    (urls.foldl (pushLink key) []).Sublist urls := by
  induction urls using List.reverseRecOn with
  | nil => exact List.Sublist.refl _
  | append_singleton urls url ih =>
      rw [foldl_pushLink_append, pushLink]
      split
      · exact ih.trans (List.sublist_append_left ..)
      · exact ih.append (List.Sublist.refl _)

/-- Every key has a link. -/
theorem KeysClosed.covers (closed : KeysClosed key urls) (known : url ∈ urls) :
    ∃ link ∈ urls.foldl (pushLink key) [], key link = key url := by
  induction urls using List.reverseRecOn with
  | nil => cases known
  | append_singleton urls last ih =>
      rw [foldl_pushLink_append]
      rcases List.mem_append.mp known with earlier | same
      · obtain ⟨link, mem, shared⟩ := ih closed.of_append earlier
        exact ⟨link, mem_pushLink_of_mem mem, shared⟩
      · rw [List.mem_singleton.mp same]
        by_cases found : key last ∈ urls.foldl (pushLink key) []
        · refine ⟨key last, mem_pushLink_of_mem found, ?_⟩
          exact closed _ (List.mem_append_left _ ((links_sublist urls).mem found)) last
            List.mem_concat_self rfl
        · rw [pushLink_of_notMem found]
          exact ⟨last, List.mem_concat_self, rfl⟩

/-- The keys of the links are the keys of the URLs. -/
theorem KeysClosed.mem_keys (closed : KeysClosed key urls) {k : List Char} :
    k ∈ (urls.foldl (pushLink key) []).map key ↔ ∃ url ∈ urls, key url = k := by
  rw [List.mem_map]
  constructor
  · intro ⟨link, mem, same⟩
    exact ⟨link, (links_sublist urls).mem mem, same⟩
  · intro ⟨url, known, same⟩
    obtain ⟨link, mem, shared⟩ := closed.covers known
    exact ⟨link, mem, shared.trans same⟩

/-- The first URL of a key is a link. -/
theorem KeysClosed.first_mem (closed : KeysClosed key urls) {k first : List Char}
    (head : (ofKey key k urls).head? = some first) : first ∈ urls.foldl (pushLink key) [] := by
  induction urls using List.reverseRecOn with
  | nil => cases head
  | append_singleton urls last ih =>
      rw [foldl_pushLink_append]
      by_cases of : key last = k
      · rw [ofKey_concat_of_eq of, List.head?_append] at head
        cases earlier : (ofKey key k urls).head? with
        | some u =>
            rw [earlier, Option.some_or, Option.some.injEq] at head
            exact mem_pushLink_of_mem (ih closed.of_append (earlier.trans (congrArg some head)))
        | none =>
            rw [earlier, Option.none_or, List.head?_cons, Option.some.injEq] at head
            have missing : key last ∉ urls.foldl (pushLink key) [] := by
              intro found
              have known := (links_sublist urls).mem found
              have shared := closed _ (List.mem_append_left _ known) last List.mem_concat_self rfl
              have member := mem_ofKey.mpr ⟨known, shared.trans of⟩
              rw [List.head?_eq_none_iff.mp earlier] at member
              cases member
            rw [pushLink_of_notMem missing, ← head]
            exact List.mem_concat_self
      · rw [ofKey_concat_of_ne of] at head
        exact mem_pushLink_of_mem (ih closed.of_append head)

theorem FirstSpelled.of_append (spelled : FirstSpelled key (urls ++ [url])) :
    FirstSpelled key urls := by
  intro u known two
  have longer := spelled u (List.mem_append_left _ known)
  by_cases of : key url = key u
  · rw [ofKey_concat_of_eq of, List.length_append] at longer
    have nonempty : ofKey key (key u) urls ≠ [] := List.ne_nil_of_length_pos (by omega)
    rw [List.head?_append_of_ne_nil _ nonempty] at longer
    exact longer (by omega)
  · rw [ofKey_concat_of_ne of] at longer
    exact longer two

/-- Where the first URL of a repeated key is spelled as the key, no second one becomes a link. -/
theorem KeysClosed.nodup (closed : KeysClosed key urls) (spelled : FirstSpelled key urls) :
    ((urls.foldl (pushLink key) []).map key).Nodup := by
  induction urls using List.reverseRecOn with
  | nil => exact List.nodup_nil
  | append_singleton urls last ih =>
      have earlier := ih closed.of_append spelled.of_append
      rw [foldl_pushLink_append]
      by_cases found : key last ∈ urls.foldl (pushLink key) []
      · rw [pushLink_of_mem found]
        exact earlier
      · rw [pushLink_of_notMem found, List.map_append, List.map_singleton, ← List.concat_eq_append]
        refine earlier.concat ?_
        intro shared
        obtain ⟨link, mem, same⟩ := List.mem_map.mp shared
        have known := mem_ofKey.mpr ⟨(links_sublist urls).mem mem, same⟩
        have head := spelled last List.mem_concat_self
        rw [ofKey_concat_of_eq rfl, List.length_append, List.length_singleton,
          List.head?_append_of_ne_nil _ (List.ne_nil_of_mem known)] at head
        have one := List.length_pos_of_mem known
        exact found (closed.of_append.first_mem (head (by omega)))

/-- The only URL of a key is spelled as the key, if the key is one of the URLs. -/
theorem KeysClosed.head?_of_mem (closed : KeysClosed key urls) (spelled : FirstSpelled key urls)
    (known : url ∈ urls) (found : key url ∈ urls) :
    (ofKey key (key url) urls).head? = some (key url) := by
  have among := mem_ofKey.mpr ⟨found, closed _ found url known rfl⟩
  cases rows : ofKey key (key url) urls with
  | nil =>
      rw [rows] at among
      cases among
  | cons first others =>
      cases others with
      | nil =>
          rw [rows, List.mem_singleton] at among
          rw [among, List.head?_cons]
      | cons second others =>
          rw [← rows]
          apply spelled url known
          rw [rows]
          exact Nat.le_add_left 2 others.length

/-- A second URL of a key becomes a link unless the first is spelled as the key. -/
theorem KeysClosed.firstSpelled (closed : KeysClosed key urls)
    (distinct : ((urls.foldl (pushLink key) []).map key).Nodup) : FirstSpelled key urls := by
  induction urls using List.reverseRecOn with
  | nil =>
      intro u known
      cases known
  | append_singleton urls last ih =>
      rw [foldl_pushLink_append] at distinct
      have spelled : FirstSpelled key urls := by
        apply ih closed.of_append
        refine distinct.sublist (List.Sublist.map key ?_)
        rw [pushLink]
        split
        · exact List.Sublist.refl _
        · exact List.sublist_append_left ..
      intro u known two
      by_cases of : key last = key u
      · rw [ofKey_concat_of_eq of] at two ⊢
        rw [List.length_append, List.length_singleton] at two
        have nonempty : ofKey key (key u) urls ≠ [] := List.ne_nil_of_length_pos (by omega)
        rw [List.head?_append_of_ne_nil _ nonempty]
        obtain ⟨first, head⟩ := Option.ne_none_iff_exists'.mp
          fun none => nonempty (List.head?_eq_none_iff.mp none)
        obtain ⟨present, same⟩ := mem_ofKey.mp (List.mem_of_head? head)
        by_cases found : key last ∈ urls.foldl (pushLink key) []
        · rw [← same]
          apply closed.of_append.head?_of_mem spelled present
          rw [same, ← of]
          exact (links_sublist urls).mem found
        · exfalso
          have link := closed.of_append.first_mem head
          rw [pushLink_of_notMem found, List.map_append, List.map_singleton,
            List.nodup_append] at distinct
          exact distinct.2.2 _ (List.mem_map_of_mem link) _ (List.mem_singleton_self _)
            (same.trans of.symm)
      · rw [ofKey_concat_of_ne of] at two ⊢
        apply spelled u _ two
        rcases List.mem_append.mp known with earlier | same
        · exact earlier
        · rw [List.mem_singleton.mp same] at of
          exact absurd rfl of

/-- With a URL first that is spelled as a key which it does not have, that key gets no link. -/
theorem notMem_keys_of_first {first : List Char} (other : key first ≠ first) :
    first ∉ ((first :: urls).foldl (pushLink key) []).map key := by
  have kept : first ∈ (first :: urls).foldl (pushLink key) [] ∧
      ∀ link ∈ (first :: urls).foldl (pushLink key) [], key link ≠ first := by
    induction urls using List.reverseRecOn with
    | nil =>
        rw [List.foldl_cons, List.foldl_nil, pushLink_of_notMem List.not_mem_nil, List.nil_append]
        refine ⟨List.mem_singleton_self _, ?_⟩
        intro link same
        rw [List.mem_singleton.mp same]
        exact other
    | append_singleton urls last ih =>
        rw [← List.cons_append, foldl_pushLink_append]
        refine ⟨mem_pushLink_of_mem ih.1, ?_⟩
        intro link mem
        rw [pushLink] at mem
        split at mem
        · exact ih.2 link mem
        · rename_i missing
          rcases List.mem_append.mp mem with earlier | same
          · exact ih.2 link earlier
          · rw [List.mem_singleton.mp same]
            intro spelled
            rw [spelled] at missing
            exact missing (List.contains_iff_mem.mpr ih.1)
  intro mem
  obtain ⟨link, among, same⟩ := List.mem_map.mp mem
  exact kept.2 link among same

end Loop

/-! ## Documents -/

/-- The links of a document have distinct keys, among them the key of every resolvable `href`, and
another order of the anchors leads to the same keys. -/
structure Deduplicated (document : HtmlDocument) (baseUrl : List Char)
    (links : List (List Char)) : Prop where
  distinct : (links.map (dedupKey tools urlNormalize)).Nodup
  covers : ∀ url ∈ resolvedUrls tools document baseUrl,
    ∃ link ∈ links, dedupKey tools urlNormalize link = dedupKey tools urlNormalize url
  order_independent : ∀ anchors links', anchors.Perm document.anchors →
    extractLinks tools urlNormalize { document with anchors } baseUrl = .ok links' →
    ∀ key, key ∈ links'.map (dedupKey tools urlNormalize) ↔
      key ∈ links.map (dedupKey tools urlNormalize)

variable {tools urlNormalize}

theorem extractLinks_eq_ok {document : HtmlDocument} {baseUrl : List Char}
    {links : List (List Char)} :
    extractLinks tools urlNormalize document baseUrl = .ok links ↔
      (tools.parse baseUrl).isSome ∧
        (resolvedUrls tools document baseUrl).foldl (pushLink (dedupKey tools urlNormalize)) [] =
          links := by
  rw [extractLinks]
  cases tools.parse baseUrl with
  | none =>
      refine iff_of_false (fun error => nomatch error) ?_
      intro ⟨parsed, _⟩
      cases parsed
  | some callerBase =>
      rw [Except.ok.injEq]
      exact (and_iff_right rfl).symm

theorem resolvedUrls_perm {document : HtmlDocument} {anchors : List Anchor} {baseUrl : List Char}
    (perm : anchors.Perm document.anchors) :
    (resolvedUrls tools { document with anchors } baseUrl).Perm
      (resolvedUrls tools document baseUrl) := by
  rw [resolvedUrls, resolvedUrls]
  cases tools.parse baseUrl with
  | none => exact List.Perm.refl _
  | some callerBase => exact perm.filterMap _

/-- Any of the resolved URLs comes first in some order of the anchors. -/
theorem exists_first {document : HtmlDocument} {baseUrl url : List Char}
    (known : url ∈ resolvedUrls tools document baseUrl) :
    ∃ anchors others, anchors.Perm document.anchors ∧
      resolvedUrls tools { document with anchors } baseUrl = url :: others := by
  rw [resolvedUrls] at known
  cases parsed : tools.parse baseUrl with
  | none =>
      rw [parsed] at known
      cases known
  | some callerBase =>
      rw [parsed] at known
      obtain ⟨anchor, mem, fetched⟩ := List.mem_filterMap.mp known
      obtain ⟨before, after, split⟩ := List.append_of_mem mem
      refine ⟨anchor :: (before ++ after),
        (before ++ after).filterMap (fetchUrl tools (documentBase tools document callerBase)),
        ?_, ?_⟩
      · rw [split]
        exact List.perm_middle.symm
      · rw [resolvedUrls, parsed]
        exact List.filterMap_cons_some fetched

/-- The links that are returned are deduplicated exactly when a URL spelled as the key of another
one has that key, and the first URL of each key that is repeated is spelled as the key. -/
theorem extractLinks_dedups_iff (document : HtmlDocument) (baseUrl : List Char) :
    (∀ links, extractLinks tools urlNormalize document baseUrl = .ok links →
      Deduplicated tools urlNormalize document baseUrl links) ↔
      KeysClosed (dedupKey tools urlNormalize) (resolvedUrls tools document baseUrl) ∧
        FirstSpelled (dedupKey tools urlNormalize) (resolvedUrls tools document baseUrl) := by
  constructor
  · intro deduplicated
    by_cases parsed : (tools.parse baseUrl).isSome
    · have law := deduplicated _ (extractLinks_eq_ok.mpr ⟨parsed, rfl⟩)
      have closed : KeysClosed (dedupKey tools urlNormalize)
          (resolvedUrls tools document baseUrl) := by
        intro u known v known' spelled
        by_contra other
        rw [← spelled] at other
        obtain ⟨anchors, others, perm, order⟩ := exists_first known
        obtain ⟨link, among, same⟩ := law.covers v known'
        have reordered := law.order_independent anchors _ perm
          (extractLinks_eq_ok.mpr ⟨parsed, rfl⟩) u
        rw [order] at reordered
        have missing : u ∉ ((u :: others).foldl (pushLink (dedupKey tools urlNormalize)) []).map
            (dedupKey tools urlNormalize) := notMem_keys_of_first other
        apply missing
        rw [reordered, spelled, ← same]
        exact List.mem_map_of_mem among
      exact ⟨closed, closed.firstSpelled law.distinct⟩
    · have none : resolvedUrls tools document baseUrl = [] := by
        rw [resolvedUrls, Option.not_isSome_iff_eq_none.mp parsed]
      rw [none]
      exact ⟨fun u known => absurd known List.not_mem_nil,
        fun u known => absurd known List.not_mem_nil⟩
  · intro ⟨closed, spelled⟩ links extracted
    obtain ⟨parsed, same⟩ := extractLinks_eq_ok.mp extracted
    rw [← same]
    exact {
      distinct := closed.nodup spelled
      covers := fun url known => closed.covers known
      order_independent := by
        intro anchors links' perm extracted' key
        rw [← (extractLinks_eq_ok.mp extracted').2]
        have perm' : (resolvedUrls tools { document with anchors } baseUrl).Perm
            (resolvedUrls tools document baseUrl) := resolvedUrls_perm perm
        rw [closed.mem_keys, (closed.of_perm perm').mem_keys]
        exact exists_congr fun url => and_congr_left fun _ => perm'.mem_iff }

/-- The first part of the condition holds of http(s) URLs that the collapsing of index files
spares. -/
theorem keysClosed_of_spared (laws : UrlLaws tools.toUrlCrate)
    (normalized : NormalizeLaws tools.toUrlCrate urlNormalize (options dedupConfig))
    {urls : List (List Char)} (absolute : ∀ url ∈ urls, AbsoluteHttp tools.toUrlCrate url)
    (spared : ∀ url ∈ urls, IndexSpared tools.toUrlCrate urlNormalize dedupConfig url) :
    KeysClosed (dedupKey tools urlNormalize) urls := by
  apply keysClosed_of_idempotent
  intro url known
  exact (spared url known).idempotent laws normalized (absolute url known)

def sampleTools : UrlTools SampleUrl where
  toUrlCrate := sampleCrate
  join base href :=
    if base = ⟨"docs/".toList, none⟩ ∧ href = "index.html".toList then
      some ⟨"docs/index.html".toList, none⟩
    else none
  parseError _ := "relative URL without a base".toList

/-- Two links to the index file of a folder: the key is the folder, which is not in the list. -/
theorem index_link_repeated :
    ¬ ∀ links, extractLinks sampleTools sampleNormalize
        ⟨[], [⟨"index.html".toList, none⟩, ⟨"index.html".toList, none⟩]⟩
        "https://example.com/docs/".toList = .ok links →
      Deduplicated sampleTools sampleNormalize
        ⟨[], [⟨"index.html".toList, none⟩, ⟨"index.html".toList, none⟩]⟩
        "https://example.com/docs/".toList links := by
  intro law
  have parsed : (sampleTools.parse "https://example.com/docs/".toList).isSome := by decide +kernel
  have distinct := (law _ (extractLinks_eq_ok.mpr ⟨parsed, rfl⟩)).distinct
  revert distinct
  decide +kernel

end LinkExtractor

end Webfang
