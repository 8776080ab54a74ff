import Webfang.Domain.CookieBridge
import Webfang.Lib.CookieScope

/-!
# From a response to the jar

The cookies that a response sets come into the jar with their `Domain` and `Path` as they were sent,
empty or a slash where they were not.  The jar reads a leading dot as "subdomains too" and a path as a
prefix, so that a cookie keeps its scope just when it was sent with a dotted domain in lower case, or
an address, and a path between slashes.
-/

namespace Webfang.Cookies

open Wreq (Cookie FetchedPage Url WreqDownloader parseSetCookie)
open KeyedRows CookieScope

/-! ## The two passes -/

/-- A cookie of `response.cookies()`, as the first pass of `extract_cookies` stores it. -/
def ofResponse (header : SetCookie) : Cookie where
  name := header.name
  value := header.value
  domain := header.domain.getD []
  path := header.path.getD ['/']
  httpOnly := header.httpOnly
  secure := header.secure

structure CdpCookie where
  name : List Char
  value : List Char
  domain : List Char
  path : List Char
  httpOnly : Bool
  secure : Bool
  deriving DecidableEq

def CookieBridge.toCdpCookies (bridge : CookieBridge) : List CdpCookie :=
  bridge.cookies.map fun c => ⟨c.name, c.value, c.domain, c.path, c.httpOnly, c.secure⟩

def location (url : Url) : Location := ⟨url.hostStr.getD [], url.path⟩

/-- What is in the response: `response.cookies()` has read the headers, each of them. -/
structure ReadsHeaders (d : WreqDownloader) (url : Url) (r : Wreq.Response)
    (headers : List SetCookie) : Prop where
  cookies : r.cookies = headers.map ofResponse
  named : ∀ text, ("set-cookie", some text) ∈ r.headers → ∀ c,
    parseSetCookie d.tools.toLowercase text.toList url = some c → c.name ∈ headers.map SetCookie.name

/-- The second pass adds nothing. -/
theorem ReadsHeaders.extractCookies {d : WreqDownloader} {url : Url} {r : Wreq.Response}
    {headers : List SetCookie} (reads : ReadsHeaders d url r headers) :
    d.extractCookies url r = headers.map ofResponse := by
  have names : r.cookies.map Cookie.name = headers.map SetCookie.name := by
    rw [reads.cookies, List.map_map]
    rfl
  rw [WreqDownloader.extractCookies, names, reads.cookies]
  refine (congrArg (headers.map ofResponse ++ ·) ?_).trans (List.append_nil _)
  rw [List.filterMap_eq_nil_iff]
  intro header member
  split
  · rename_i same
    rw [Option.bind_eq_none_iff]
    intro text there
    rw [Option.filter_eq_none_iff]
    intro c parsed
    have known : (header.1, header.2) ∈ r.headers := member
    rw [same, there] at known
    rw [List.contains_iff_mem.mpr (reads.named text known c parsed)]
    exact fun absent => by cases absent
  · rfl

/-! ## The scope in the jar -/

/-- The jar has the cookie of a header with its path and its scope, and so has the browser. -/
structure HandedOver (hosts : Hosts) (bridge : CookieBridge) (url : Url) (header : SetCookie) :
    Prop where
  kept : ofResponse header ∈ bridge.cookies
  path : (ofResponse header).path = header.cookiePath (location url)
  returned : ∀ v : Url, hosts.Valid (location v) →
    (ofResponse header ∈ bridge.cookiesForUrl v ↔ header.SentTo hosts (location url) (location v))
  injected : ∃ cdp ∈ bridge.toCdpCookies, cdp.name = header.name ∧ cdp.value = header.value ∧
    ∀ v : Url, hosts.Valid (location v) →
      (CookieBridge.domainMatches (location v).host cdp.domain = true ∧
        CookieBridge.pathMatches v.path cdp.path = true ↔
          header.SentTo hosts (location url) (location v))

/-- `Domain` was sent in lower case, with a dot in front or as an address. -/
def DomainFits (hosts : Hosts) (header : SetCookie) : Prop :=
  ∃ d, header.domain = some d ∧ (∀ c ∈ d, c.toLower = c) ∧
    ((∃ base, d = '.' :: base ∧ base ≠ []) ∨ hosts.IsHost d ∧ hosts.IsIp d)

/-- `Path` was sent from slash to slash, or the default is a slash. -/
def PathFits (url : Location) (header : SetCookie) : Prop :=
  match header.path with
  | none => defaultPath url.path = ['/']
  | some path => path.head? = some '/' ∧ path.getLast? = some '/'

section Scope

variable {hosts : Hosts} {url : Location} {header : SetCookie}

theorem pathFits_iff (rooted : url.path.head? = some '/') :
    PathFits url header ↔ (ofResponse header).path = header.cookiePath url ∧
      (header.cookiePath url).getLast? = some '/' := by
  have default := head?_defaultPath rooted
  rw [PathFits, ofResponse, SetCookie.cookiePath]
  cases header.path with
  | none =>
      change _ ↔ ['/'] = _ ∧ _
      constructor
      · intro root
        rw [root]
        exact ⟨rfl, rfl⟩
      · exact fun both => both.1.symm
  | some path =>
      change _ ↔ path = _ ∧ _
      dsimp only
      split
      · rename_i slash
        exact and_congr (iff_of_true slash rfl) Iff.rfl
      · rename_i bare
        refine iff_of_false (fun both => bare both.1) fun both => ?_
        rw [← both.1] at default
        exact bare default

/-- The texts that the jar takes the domain of a cookie for. -/
theorem domainMatches_tail {host domain : List Char} :
    CookieBridge.domainMatches host domain = true ↔
      host = domain ∨ ∃ base, domain = '.' :: base ∧ (host = base ∨ Tail host base) := by
  rw [domainMatches_iff]
  refine or_congr_right (exists_congr fun base => and_congr_right fun _ => or_congr_right ?_)
  exact exists_congr fun sub => eq_comm

theorem map_toLower {text : List Char} (lower : ∀ c ∈ text, c.toLower = c) :
    text.map Char.toLower = text :=
  (List.map_congr_left lower).trans (List.map_id text)

theorem domainAttribute_dotted {base : List Char} (sent : header.domain = some ('.' :: base)) :
    header.domainAttribute = base.map Char.toLower := by
  rw [SetCookie.domainAttribute, sent]
  rfl

theorem domainAttribute_bare {d : List Char} (sent : header.domain = some d)
    (bare : d.head? ≠ some '.') : header.domainAttribute = d.map Char.toLower := by
  rw [SetCookie.domainAttribute, sent, Option.getD_some, if_neg bare]

theorem domainMatches_bare {host d : List Char} (bare : d.head? ≠ some '.') :
    CookieBridge.domainMatches host d = true ↔ host = d := by
  rw [domainMatches_tail]
  refine ⟨?_, .inl⟩
  intro given
  rcases given with same | ⟨base, rfl, -⟩
  · exact same
  · exact absurd rfl bare

theorem domainMatches_dotted {host base : List Char} :
    CookieBridge.domainMatches host ('.' :: base) = true ↔ host = base ∨ Tail host base := by
  rw [domainMatches_tail]
  constructor
  · intro given
    rcases given with rfl | ⟨base', same, found⟩
    · exact .inr List.suffix_rfl
    · rwa [(List.cons.inj same).2]
  · exact fun found => .inr ⟨base, rfl, found⟩

/-- A name with a label in front ends as the name does. -/
theorem tail_label {host d : List Char} (found : host = d ∨ Tail host d) :
    Tail ('x' :: '.' :: host) d := by
  rcases found with rfl | tail
  · exact List.suffix_cons 'x' _
  · exact tail.trans ((List.suffix_cons '.' host).trans (List.suffix_cons 'x' _))

theorem label_ne (host : List Char) : 'x' :: '.' :: host ≠ host := by
  intro same
  have sizes := congrArg List.length same
  rw [List.length_cons, List.length_cons] at sizes
  omega

/-- A dotted domain in lower case is read as it is meant. -/
theorem domainMatches_scope_dotted (canonical : hosts.Canonical) (valid : hosts.IsHost url.host)
    (accepted : header.Accepted hosts url) {base : List Char}
    (sent : header.domain = some ('.' :: base)) (more : base ≠ [])
    (lower : ∀ c ∈ base, c.toLower = c) {host : List Char} (isHost : hosts.IsHost host) :
    CookieBridge.domainMatches host ('.' :: base) = true ↔ header.HostScope hosts url host := by
  have cleaned : header.domainAttribute = base :=
    (domainAttribute_dotted sent).trans (map_toLower lower)
  rw [SetCookie.Accepted, cleaned] at accepted
  rw [domainMatches_dotted, SetCookie.HostScope, cleaned, if_neg more, DomainMatch]
  refine or_congr_right ⟨fun tail => ⟨fun isIp => ?_, tail⟩, And.right⟩
  -- an address would end like the host that the header is from
  rcases accepted.resolve_left more with same | ⟨named, named_tail⟩
  · by_cases base_ip : hosts.IsIp base
    · exact canonical.whole host base isHost isIp (.inr ⟨same ▸ valid, base_ip⟩) tail
    · exact canonical.apart base host base (same ▸ valid) base_ip isHost isIp (.inr tail) (.inl rfl)
  · exact canonical.apart url.host host base valid named isHost isIp (.inr tail) (.inr named_tail)

theorem DomainFits.reads (canonical : hosts.Canonical) (valid : hosts.IsHost url.host)
    (accepted : header.Accepted hosts url) (fits : DomainFits hosts header) {host : List Char}
    (isHost : hosts.IsHost host) :
    CookieBridge.domainMatches host (ofResponse header).domain = true ↔
      header.HostScope hosts url host := by
  obtain ⟨d, sent, lower, shape⟩ := fits
  have same : (ofResponse header).domain = d := by
    rw [ofResponse, sent]
    rfl
  rw [same]
  by_cases dotted : ∃ base, d = '.' :: base
  · obtain ⟨base, rfl⟩ := dotted
    have more : base ≠ [] := by
      rintro rfl
      rcases shape with ⟨base, same, more⟩ | ⟨isHost', isIp⟩
      · exact more (List.cons.inj same).2.symm
      · exact canonical.whole ['.'] [] isHost' isIp (.inl rfl) List.suffix_rfl
    exact domainMatches_scope_dotted canonical valid accepted sent more
      (fun c member => lower c (List.mem_cons_of_mem _ member)) isHost
  · have bare : d.head? ≠ some '.' := by
      intro head
      obtain ⟨base, whole⟩ := List.head?_eq_some_iff.mp head
      exact dotted ⟨base, whole⟩
    obtain ⟨isHost', isIp⟩ := shape.resolve_left fun ⟨base, whole, _⟩ => dotted ⟨base, whole⟩
    have cleaned : header.domainAttribute = d :=
      (domainAttribute_bare sent bare).trans (map_toLower lower)
    rw [domainMatches_bare bare, SetCookie.HostScope, cleaned,
      if_neg (canonical.ne_nil d isHost'), DomainMatch]
    refine ⟨.inl, ?_⟩
    intro given
    rcases given with same | ⟨named, tail⟩
    · exact same
    · exact absurd (.inr tail) (canonical.apart host d d isHost named isHost' isIp (.inl rfl))

theorem DomainFits.of_reads (canonical : hosts.Canonical) (valid : hosts.IsHost url.host)
    (accepted : header.Accepted hosts url) (reads : ∀ host, hosts.IsHost host →
      (CookieBridge.domainMatches host (ofResponse header).domain = true ↔
        header.HostScope hosts url host)) : DomainFits hosts header := by
  have own := (reads url.host valid).mpr accepted.hostScope
  rw [ofResponse] at own reads
  cases sent : header.domain with
  | none =>
      rw [sent, Option.getD_none, domainMatches_bare (by exact fun same => by cases same)] at own
      exact absurd own (canonical.ne_nil _ valid)
  | some d =>
      rw [sent, Option.getD_some] at own reads
      by_cases dotted : ∃ base, d = '.' :: base
      · obtain ⟨base, rfl⟩ := dotted
        rw [domainMatches_dotted] at own
        have inside : ∀ c ∈ base, c.toLower = c := by
          intro c member
          refine canonical.lower url.host valid c ?_
          rcases own with same | tail
          · rwa [same]
          · exact tail.subset (List.mem_cons_of_mem _ member)
        refine ⟨_, sent, List.forall_mem_cons.mpr ⟨rfl, inside⟩, .inl ⟨base, rfl, ?_⟩⟩
        rintro rfl
        -- a lone dot is no domain, and is read as the end of a host
        have cleaned : header.domainAttribute = [] := domainAttribute_dotted sent
        have tail : Tail url.host [] := own.resolve_left (canonical.ne_nil _ valid)
        by_cases isIp : hosts.IsIp url.host
        · exact canonical.whole url.host [] valid isIp (.inl rfl) tail
        · obtain ⟨isHost, -⟩ := canonical.label url.host valid isIp
          have scope := (reads _ isHost).mp (domainMatches_dotted.mpr (.inr (tail_label own)))
          rw [SetCookie.HostScope, if_pos cleaned] at scope
          exact label_ne _ scope
      · have bare : d.head? ≠ some '.' := by
          intro head
          obtain ⟨base, whole⟩ := List.head?_eq_some_iff.mp head
          exact dotted ⟨base, whole⟩
        rw [domainMatches_bare bare] at own
        have lower := canonical.lower d (own ▸ valid)
        refine ⟨d, sent, lower, .inr ⟨own ▸ valid, ?_⟩⟩
        by_contra named
        -- the jar leaves out the subdomains of a name
        obtain ⟨isHost, named'⟩ := canonical.label d (own ▸ valid) named
        have cleaned : header.domainAttribute = d :=
          (domainAttribute_bare sent bare).trans (map_toLower lower)
        have scope : header.HostScope hosts url ('x' :: '.' :: d) := by
          rw [SetCookie.HostScope, cleaned, if_neg (canonical.ne_nil d (own ▸ valid))]
          exact .inr ⟨named', tail_label (.inl rfl)⟩
        have taken := (reads _ isHost).mpr scope
        rw [domainMatches_bare bare] at taken
        exact label_ne d taken

theorem pathMatches_begin {path p : List Char} (rooted : path.head? = some '/') :
    CookieBridge.pathMatches path p = true ↔ p <+: path :=
  (pathMatches_iff ⟨true, [], [], false, path, rooted⟩ p).trans List.isPrefixOf_iff_prefix

/-- The jar reads a cookie as it is meant just when it has its domain and a path that ends with a
slash. -/
theorem scope_iff (canonical : hosts.Canonical) (valid : hosts.Valid url)
    (accepted : header.Accepted hosts url) :
    (∀ v : Location, hosts.Valid v →
      (CookieBridge.domainMatches v.host (ofResponse header).domain = true ∧
        CookieBridge.pathMatches v.path (header.cookiePath url) = true ↔ header.SentTo hosts url v)) ↔
      DomainFits hosts header ∧ (header.cookiePath url).getLast? = some '/' := by
  have rooted : (header.cookiePath url).head? = some '/' := head?_cookiePath valid.rooted
  constructor
  · intro reads
    have domain (host : List Char) (isHost : hosts.IsHost host) :
        CookieBridge.domainMatches host (ofResponse header).domain = true ↔
          header.HostScope hosts url host := by
      have there := reads ⟨host, header.cookiePath url⟩ ⟨isHost, rooted⟩
      rwa [pathMatches_begin rooted, and_iff_left List.prefix_rfl, SetCookie.SentTo,
        and_iff_left (.inl rfl)] at there
    refine ⟨.of_reads canonical valid.host accepted domain, ?_⟩
    by_contra cut
    have rooted' : (header.cookiePath url ++ ['x']).head? = some '/' := by
      rw [List.head?_append, rooted]
      rfl
    have there := reads ⟨url.host, header.cookiePath url ++ ['x']⟩ ⟨valid.host, rooted'⟩
    rw [pathMatches_begin rooted'] at there
    have sent := there.mp ⟨(domain _ valid.host).mpr accepted.hostScope, List.prefix_append _ _⟩
    exact not_pathMatch_concat cut sent.2
  · rintro ⟨fits, slash⟩ v valid'
    rw [fits.reads canonical valid.host accepted valid'.host, pathMatches_begin valid'.rooted,
      SetCookie.SentTo, pathMatch_of_slash slash]

end Scope

/-! ## The jar behind a response -/

theorem lastOf_append {ρ κ : Type*} {key : ρ → κ} {before written : List ρ} {row : ρ}
    (there : key row ∈ written.map key) :
    LastOf key (before ++ written) row ↔ LastOf key written row := by
  constructor
  · intro given
    rcases given with ⟨front, after, whole, others⟩
    rcases List.append_eq_append_iff.mp whole with ⟨as, -, rest⟩ | ⟨bs, -, rest⟩
    · exact ⟨as, after, rest, others⟩
    · cases bs with
      | nil => exact ⟨[], after, rest.symm, others⟩
      | cons first bs =>
          -- a later row has the key
          obtain ⟨-, rfl⟩ := List.cons.inj rest
          obtain ⟨other, member, same⟩ := List.mem_map.mp there
          exact absurd same (others other (List.mem_append_right _ member))
  · intro given
    rcases given with ⟨front, after, rfl, others⟩
    exact ⟨before ++ front, after, (List.append_assoc ..).symm, others⟩

theorem mem_cookiesForUrl_url {bridge : CookieBridge} {v : Url} {c : Cookie} :
    c ∈ bridge.cookiesForUrl v ↔ c ∈ bridge.cookies ∧
      CookieBridge.domainMatches (location v).host c.domain = true ∧
        CookieBridge.pathMatches v.path c.path = true := by
  rw [CookieBridge.cookiesForUrl, List.mem_filter, Bool.and_eq_true]
  rfl

section Jar

variable {hosts : Hosts} {url : Url} {header : SetCookie} {headers : List SetCookie}
  {bridge : CookieBridge}

theorem handedOver_iff (canonical : hosts.Canonical) (valid : hosts.Valid (location url))
    (accepted : header.Accepted hosts (location url))
    (jar : ofResponse header ∈ bridge.cookies ↔
      LastOf CookieBridge.key (headers.map ofResponse) (ofResponse header)) :
    HandedOver hosts bridge url header ↔ DomainFits hosts header ∧
      PathFits (location url) header ∧
      LastOf CookieBridge.key (headers.map ofResponse) (ofResponse header) := by
  have scope := scope_iff canonical valid accepted
  rw [pathFits_iff valid.rooted]
  constructor
  · intro handed
    have reads : ∀ v : Location, hosts.Valid v →
        (CookieBridge.domainMatches v.host (ofResponse header).domain = true ∧
          CookieBridge.pathMatches v.path (header.cookiePath (location url)) = true ↔
            header.SentTo hosts (location url) v) := by
      intro v valid'
      have there := handed.returned ⟨[], some v.host, v.path⟩ valid'
      rwa [mem_cookiesForUrl_url, and_iff_right handed.kept, handed.path] at there
    obtain ⟨domain, slash⟩ := scope.mp reads
    exact ⟨domain, ⟨handed.path, slash⟩, jar.mp handed.kept⟩
  · intro given
    rcases given with ⟨domain, ⟨path, slash⟩, last⟩
    have kept := jar.mpr last
    have reads := scope.mpr ⟨domain, slash⟩
    rw [← path] at reads
    refine ⟨kept, path, fun v valid' => ?_, ?_⟩
    · rw [mem_cookiesForUrl_url, and_iff_right kept]
      exact reads (location v) valid'
    · exact ⟨_, List.mem_map_of_mem kept, rfl, rfl, fun v valid' => reads (location v) valid'⟩

/-- The jar behind a page and any calls before it. -/
theorem mem_run_ingest (calls : List Call) (page : FetchedPage) {c : Cookie}
    (there : CookieBridge.key c ∈ page.cookies.map CookieBridge.key) :
    c ∈ (run (calls ++ [.ingest page])).cookies ↔ LastOf CookieBridge.key page.cookies c := by
  have written : stored (calls ++ [.ingest page]) = stored calls ++ page.cookies := by
    rw [stored, List.flatMap_append, List.flatMap_singleton]
    rfl
  rw [cookies_run, (@foldl_upsert _ _ _ CookieBridge.key _).2, written, lastOf_append there]

/-- Whatever was in the jar before, it hands the cookies of a response over just when each header
whose cookie is kept was sent with a domain and a path that fit, and no later one takes its place. -/
theorem all_handedOver_iff {d : WreqDownloader} {r : Wreq.Response} (canonical : hosts.Canonical)
    (valid : hosts.Valid (location url)) (reads : ReadsHeaders d url r headers)
    (accepted : ∀ header ∈ headers, header.Accepted hosts (location url)) (calls : List Call)
    {page : FetchedPage} (built : page.cookies = d.extractCookies url r) :
    (∀ header, LastOf (SetCookie.storeKey (location url)) headers header →
      HandedOver hosts (run (calls ++ [.ingest page])) url header) ↔
    ∀ header, LastOf (SetCookie.storeKey (location url)) headers header →
      DomainFits hosts header ∧ PathFits (location url) header ∧
        LastOf CookieBridge.key (headers.map ofResponse) (ofResponse header) := by
  refine forall_congr' fun header => forall_congr' fun last => ?_
  have member : header ∈ headers := by
    obtain ⟨before, after, rfl, -⟩ := last
    exact List.mem_append_right before List.mem_cons_self
  have cookies : page.cookies = headers.map ofResponse := built.trans reads.extractCookies
  have jar := mem_run_ingest calls page (c := ofResponse header) (by
    rw [cookies]
    exact List.mem_map_of_mem (List.mem_map_of_mem member))
  rw [cookies] at jar
  exact handedOver_iff canonical valid (accepted header member) jar

end Jar

/-! ## A site with one cookie -/

/-- Names in lower case, and no addresses. -/
def sampleHosts : Hosts where
  IsHost host := host ≠ [] ∧ ∀ c ∈ host, c.toLower = c
  IsIp _ := False

theorem sampleHosts_canonical : sampleHosts.Canonical where
  ne_nil _ isHost := isHost.1
  lower _ isHost := isHost.2
  label host isHost _ := by
    refine ⟨⟨List.cons_ne_nil _ _, ?_⟩, id⟩
    exact List.forall_mem_cons.mpr ⟨rfl, List.forall_mem_cons.mpr ⟨rfl, isHost.2⟩⟩
  apart _ _ _ _ _ _ isIp := isIp.elim
  whole _ _ _ isIp := isIp.elim

/-- `https://example.com/`. -/
def sampleSite : Url where
  asStr := "https://example.com/".toList
  hostStr := some "example.com".toList
  path := ['/']

theorem sampleSite_valid : sampleHosts.Valid (location sampleSite) where
  host := ⟨by decide, @of_decide_eq_true _ (List.decidableBAll _ _) rfl⟩
  rooted := rfl

def sampleDownloader : WreqDownloader where
  tools :=
    { inspect := fun _ _ => { isBlocked := false, evidenceChain := "" }
      decode := fun _ bytes => String.ofList (bytes.map fun b => Char.ofNat b.toNat)
      parseUrl := fun _ => .ok sampleSite
      toLowercase := fun text => text.map Char.toLower }
  timeoutSecs := 30
  pinnedUa := none
  maxRetries := 0
  maxPageBytes := 50000000
  ignoreWaf := false

def sampleResponse (text : String) (header : SetCookie) : Wreq.Response where
  status := 200
  uri := "https://example.com/"
  headers := [("set-cookie", some text)]
  cookies := [ofResponse header]
  chunks := []

def samplePage (text : String) (header : SetCookie) : FetchedPage where
  url := sampleSite
  html := ""
  status := 200
  headers := ∅
  cookies := sampleDownloader.extractCookies sampleSite (sampleResponse text header)

def dottedCookie : SetCookie :=
  ⟨"sid".toList, "1".toList, some ".example.com".toList, some ['/'], false, false⟩

theorem dotted_reads : ReadsHeaders sampleDownloader sampleSite
    (sampleResponse "sid=1; Domain=.example.com; Path=/" dottedCookie) [dottedCookie] where
  cookies := rfl
  named text there c parsed := by
    obtain ⟨-, same⟩ := Prod.mk.inj (List.mem_singleton.mp there)
    rw [Option.some.inj same] at parsed
    have known : (parseSetCookie sampleDownloader.tools.toLowercase
        "sid=1; Domain=.example.com; Path=/".toList sampleSite).map Cookie.name =
          some "sid".toList := by decide
    rw [parsed] at known
    rw [Option.some.inj known]
    exact List.mem_singleton_self _

theorem dotted_handedOver_iff :
    (∀ header, LastOf (SetCookie.storeKey (location sampleSite)) [dottedCookie] header →
      HandedOver sampleHosts
        (run ([] ++ [.ingest (samplePage "sid=1; Domain=.example.com; Path=/" dottedCookie)]))
        sampleSite header) ↔
    ∀ header, LastOf (SetCookie.storeKey (location sampleSite)) [dottedCookie] header →
      DomainFits sampleHosts header ∧ PathFits (location sampleSite) header ∧
        LastOf CookieBridge.key ([dottedCookie].map ofResponse) (ofResponse header) := by
  refine all_handedOver_iff sampleHosts_canonical sampleSite_valid dotted_reads ?_ [] rfl
  refine List.forall_mem_singleton.mpr (.inr (.inl ?_))
  decide

/-- A cookie without attributes. -/
def plainCookie : SetCookie := ⟨"sid".toList, "1".toList, none, none, false, false⟩

/-- It is not returned for the URL that set it. -/
theorem plain_cookie_lost :
    ¬ ∀ header, LastOf (SetCookie.storeKey (location sampleSite)) [plainCookie] header →
      HandedOver sampleHosts (run [.ingest (samplePage "sid=1" plainCookie)]) sampleSite header := by
  intro handed
  have own := handed plainCookie ⟨[], [], rfl, fun r member => absurd member List.not_mem_nil⟩
  have sent : plainCookie.SentTo sampleHosts (location sampleSite) (location sampleSite) :=
    ⟨rfl, .inl rfl⟩
  have returned := (own.returned sampleSite sampleSite_valid).mpr sent
  revert returned
  decide

end Webfang.Cookies
