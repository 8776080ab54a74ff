import Webfang.Downloader.WreqDownloader
import Webfang.Lib.KeyedRows

/-!
# The cookie jar

`domain/cookie_bridge.rs`: cookies of fetched pages and of the command line are kept in a jar, one
for each name, domain and path, and those for a URL are picked from it by its host and its path.
-/

namespace Webfang.Cookies

open Wreq (Cookie FetchedPage Url)
open KeyedRows

/-! ## The jar -/

structure CookieBridge where
  cookies : List Cookie

namespace CookieBridge

/-- What a cookie replaces another by. -/
def key (c : Cookie) : List Char × List Char × List Char := (c.name, c.domain, c.path)

def new : CookieBridge := ⟨[]⟩

def upsert (bridge : CookieBridge) (cookie : Cookie) : CookieBridge :=
  ⟨KeyedRows.upsert key cookie bridge.cookies⟩

def ingest (bridge : CookieBridge) (page : FetchedPage) : CookieBridge :=
  page.cookies.foldl upsert bridge

def add (bridge : CookieBridge) (cookie : Cookie) : CookieBridge := bridge.upsert cookie

/-- The cookie that is seeded. -/
def seeded (name value domain : List Char) : Cookie where
  name := name
  value := value
  domain := domain
  path := "/".toList
  httpOnly := true
  secure := true

def seed (bridge : CookieBridge) (name value domain : List Char) : CookieBridge :=
  bridge.add (seeded name value domain)

def domainMatches (requestDomain cookieDomain : List Char) : Bool :=
  if ['.'].isPrefixOf cookieDomain then
    requestDomain = cookieDomain.drop 1 || cookieDomain.isSuffixOf requestDomain
  else requestDomain = cookieDomain

def pathMatches (requestPath cookiePath : List Char) : Bool :=
  if cookiePath = ['/'] then true else cookiePath.isPrefixOf requestPath

def cookiesForUrl (bridge : CookieBridge) (url : Url) : List Cookie :=
  let domain := url.hostStr.getD []
  bridge.cookies.filter fun c => domainMatches domain c.domain && pathMatches url.path c.path

end CookieBridge

/-! ## Calls -/

/-- The calls that change the jar. -/
inductive Call
  | ingest (page : FetchedPage)
  | add (cookie : Cookie)
  | seed (name value domain : List Char)

namespace Call

def apply (bridge : CookieBridge) : Call → CookieBridge
  | ingest page => bridge.ingest page
  | add cookie => bridge.add cookie
  | seed name value domain => bridge.seed name value domain

/-- The cookies that a call stores, in order. -/
def stores : Call → List Cookie
  | ingest page => page.cookies
  | add cookie => [cookie]
  | seed name value domain => [CookieBridge.seeded name value domain]

end Call

/-- The jar behind some calls. -/
def run (calls : List Call) : CookieBridge := calls.foldl Call.apply .new

/-- The cookies that some calls store, in order. -/
def stored (calls : List Call) : List Cookie := calls.flatMap Call.stores

/-! ## What is promised -/

/-- A URL of the web: its path begins with a slash. -/
structure WebUrl where
  https : Bool
  asStr : List Char
  host : List Char
  /-- The host is an IP address. -/
  isIp : Bool
  path : List Char
  rooted : path.head? = some '/'

def WebUrl.toUrl (url : WebUrl) : Url := ⟨url.asStr, some url.host, url.path⟩

/-- The host is that of the cookie, or a subdomain of it where its domain has a leading dot. -/
def DomainAllows (url : WebUrl) (domain : List Char) : Prop :=
  url.host = domain ∨ ∃ base, domain = '.' :: base ∧
    (url.host = base ∨ url.isIp = false ∧ ∃ sub, url.host = sub ++ '.' :: base)

/-- The path is that of the cookie, or one below it. -/
def PathAllows (url : WebUrl) (path : List Char) : Prop :=
  url.path = path ∨ ∃ rest, url.path = path ++ rest ∧
    (path.getLast? = some '/' ∨ rest.head? = some '/')

/-- The cookie may be sent to the URL. -/
def Allowed (url : WebUrl) (c : Cookie) : Prop :=
  DomainAllows url c.domain ∧ PathAllows url c.path ∧ (c.secure = true → url.https = true)

/-- The jar has the last cookie of each name, domain and path, and gives out those that may be sent
to the URL, in the order of the jar. -/
structure KeepsScope (calls : List Call) (url : WebUrl) : Prop where
  distinct : ((run calls).cookies.map CookieBridge.key).Nodup
  last : ∀ c, c ∈ (run calls).cookies ↔ LastOf CookieBridge.key (stored calls) c
  sublist : ((run calls).cookiesForUrl url.toUrl).Sublist (run calls).cookies
  scope : ∀ c, c ∈ (run calls).cookiesForUrl url.toUrl ↔ c ∈ (run calls).cookies ∧ Allowed url c

/-- The cookie is given out beyond its scope: its path is cut off within a segment of the path of
the URL, it is a secure one and the connection is not, or its domain is the end of an address. -/
def Strays (url : WebUrl) (c : Cookie) : Prop :=
  CookieBridge.domainMatches url.host c.domain = true ∧ c.path.isPrefixOf url.path = true ∧
    ((∃ d rest, url.path = c.path ++ d :: rest ∧ d ≠ '/' ∧ c.path.getLast? ≠ some '/') ∨
      (c.secure = true ∧ url.https = false) ∨
      (url.isIp = true ∧ url.host ≠ c.domain ∧ '.' :: url.host ≠ c.domain))

/-! ## The scope of a cookie -/

theorem domainMatches_iff {host domain : List Char} :
    CookieBridge.domainMatches host domain = true ↔ host = domain ∨ ∃ base, domain = '.' :: base ∧
      (host = base ∨ ∃ sub, host = sub ++ '.' :: base) := by
  unfold CookieBridge.domainMatches
  split
  case isTrue dotted =>
    obtain ⟨base, rfl⟩ := List.isPrefixOf_iff_prefix.mp dotted
    rw [Bool.or_eq_true, decide_eq_true_eq, List.isSuffixOf_iff_suffix]
    constructor
    · rintro (same | ⟨sub, whole⟩)
      · exact .inr ⟨base, rfl, .inl same⟩
      · exact .inr ⟨base, rfl, .inr ⟨sub, whole.symm⟩⟩
    · rintro (same | ⟨base', same, found⟩)
      · exact .inr (same ▸ List.suffix_refl _)
      · obtain ⟨-, rfl⟩ := List.cons.inj same
        exact found.imp id fun ⟨sub, whole⟩ => ⟨sub, whole.symm⟩
  case isFalse bare =>
    rw [decide_eq_true_eq]
    refine ⟨.inl, ?_⟩
    rintro (same | ⟨base, rfl, -⟩)
    · exact same
    · exact absurd rfl bare

theorem pathMatches_iff (url : WebUrl) (path : List Char) :
    CookieBridge.pathMatches url.path path = true ↔ path.isPrefixOf url.path = true := by
  unfold CookieBridge.pathMatches
  split
  case isTrue root =>
    obtain ⟨rest, rooted⟩ := List.head?_eq_some_iff.mp url.rooted
    rw [root, rooted]
    exact iff_of_true rfl (List.isPrefixOf_iff_prefix.mpr ⟨rest, rfl⟩)
  case isFalse => rfl

/-- What is given out of the jar. -/
theorem mem_cookiesForUrl {bridge : CookieBridge} {url : WebUrl} {c : Cookie} :
    c ∈ bridge.cookiesForUrl url.toUrl ↔ c ∈ bridge.cookies ∧
      CookieBridge.domainMatches url.host c.domain = true ∧ c.path.isPrefixOf url.path = true := by
  unfold CookieBridge.cookiesForUrl
  rw [List.mem_filter, Bool.and_eq_true]
  exact and_congr_right fun _ => and_congr_right fun _ => pathMatches_iff url c.path

theorem PathAllows.isPrefixOf {url : WebUrl} {path : List Char} (allows : PathAllows url path) :
    path.isPrefixOf url.path = true := by
  refine List.isPrefixOf_iff_prefix.mpr ?_
  rcases allows with same | ⟨rest, whole, -⟩
  · exact same ▸ List.prefix_refl _
  · exact ⟨rest, whole.symm⟩

/-- What may be sent is given out. -/
theorem Allowed.matches {url : WebUrl} {c : Cookie} (allowed : Allowed url c) :
    CookieBridge.domainMatches url.host c.domain = true ∧ c.path.isPrefixOf url.path = true := by
  obtain ⟨domain, path, -⟩ := allowed
  refine ⟨domainMatches_iff.mpr ?_, path.isPrefixOf⟩
  exact domain.imp id fun ⟨base, dotted, found⟩ => ⟨base, dotted, found.imp id And.right⟩

/-- What strays may not be sent. -/
theorem Strays.not_allowed {url : WebUrl} {c : Cookie} (strays : Strays url c) : ¬ Allowed url c := by
  rintro ⟨domain, path, secure⟩
  obtain ⟨-, -, ⟨d, rest, whole, within, open'⟩ | ⟨isSecure, plain⟩ | ⟨isIp, other, dotted⟩⟩ := strays
  · rcases path with same | ⟨rest', whole', boundary⟩
    · rw [same] at whole
      exact absurd (List.self_eq_append_right.mp whole) (List.cons_ne_nil d rest)
    · rw [whole] at whole'
      obtain rfl := List.append_cancel_left whole'
      rcases boundary with atEnd | atRest
      · exact open' atEnd
      · exact within (Option.some.inj atRest)
  · rw [secure isSecure] at plain
    cases plain
  · rcases domain with same | ⟨base, whole, same | ⟨named, -⟩⟩
    · exact other same
    · exact dotted (by rw [whole, same])
    · rw [isIp] at named
      cases named

/-- What is given out may be sent or strays. -/
theorem allowed_of_not_strays {url : WebUrl} {c : Cookie}
    (domain : CookieBridge.domainMatches url.host c.domain = true)
    (path : c.path.isPrefixOf url.path = true) (keeps : ¬ Strays url c) : Allowed url c := by
  refine ⟨?_, ?_, fun isSecure => ?_⟩
  · rcases domainMatches_iff.mp domain with same | ⟨base, dotted, same | ⟨sub, whole⟩⟩
    · exact .inl same
    · exact .inr ⟨base, dotted, .inl same⟩
    · by_cases identical : url.host = c.domain ∨ '.' :: url.host = c.domain
      · rcases identical with same | same
        · exact .inl same
        · rw [dotted] at same
          exact .inr ⟨base, dotted, .inl (List.cons.inj same).2⟩
      · refine .inr ⟨base, dotted, .inr ⟨Bool.eq_false_iff.mpr fun isIp => keeps ?_, sub, whole⟩⟩
        exact ⟨domain, path, .inr (.inr ⟨isIp, not_or.mp identical⟩)⟩
  · obtain ⟨rest, whole⟩ := List.isPrefixOf_iff_prefix.mp path
    cases rest with
    | nil => exact .inl (by rw [← whole, List.append_nil])
    | cons d rest =>
        refine .inr ⟨d :: rest, whole.symm, ?_⟩
        by_contra within
        obtain ⟨open', other⟩ := not_or.mp within
        exact keeps ⟨domain, path, .inl ⟨d, rest, whole.symm, fun same => other (same ▸ rfl), open'⟩⟩
  · by_contra plain
    exact keeps ⟨domain, path, .inr (.inl ⟨isSecure, Bool.eq_false_iff.mpr plain⟩)⟩

/-! ## The jar behind some calls -/

theorem cookies_foldl_upsert (bridge : CookieBridge) (cookies : List Cookie) :
    (cookies.foldl CookieBridge.upsert bridge).cookies =
      cookies.foldl (fun rows row => KeyedRows.upsert CookieBridge.key row rows) bridge.cookies := by
  induction cookies generalizing bridge with
  | nil => rfl
  | cons c cookies ih => exact ih (bridge.upsert c)

theorem cookies_apply (bridge : CookieBridge) (call : Call) :
    (call.apply bridge).cookies = call.stores.foldl
      (fun rows row => KeyedRows.upsert CookieBridge.key row rows) bridge.cookies := by
  cases call with
  | ingest page => exact cookies_foldl_upsert bridge page.cookies
  | add cookie => rfl
  | seed name value domain => rfl

theorem cookies_run (calls : List Call) :
    (run calls).cookies = (stored calls).foldl
      (fun rows row => KeyedRows.upsert CookieBridge.key row rows) [] := by
  have general (bridge : CookieBridge) : (calls.foldl Call.apply bridge).cookies =
      (stored calls).foldl (fun rows row => KeyedRows.upsert CookieBridge.key row rows)
        bridge.cookies := by
    induction calls generalizing bridge with
    | nil => rfl
    | cons call calls ih =>
        have split : stored (call :: calls) = call.stores ++ stored calls := List.flatMap_cons
        rw [List.foldl_cons, ih, cookies_apply, split, List.foldl_append]
  exact general .new

/-- The jar keeps the last cookie of each name, domain and path; what it gives out for a URL stays in
scope just when no cookie that it keeps strays. -/
theorem keepsScope_iff (calls : List Call) (url : WebUrl) :
    KeepsScope calls url ↔
      ∀ c, LastOf CookieBridge.key (stored calls) c → ¬ Strays url c := by
  obtain ⟨distinct, last⟩ := @foldl_upsert _ _ _ CookieBridge.key (stored calls)
  rw [← cookies_run] at distinct last
  constructor
  · intro keeps c stored strays
    have given := mem_cookiesForUrl.mpr ⟨(last c).mpr stored, strays.1, strays.2.1⟩
    exact strays.not_allowed ((keeps.scope c).mp given).2
  · intro keeps
    refine ⟨distinct, last, List.filter_sublist, fun c => ?_⟩
    rw [mem_cookiesForUrl]
    constructor
    · rintro ⟨member, domain, path⟩
      exact ⟨member, allowed_of_not_strays domain path (keeps c ((last c).mp member))⟩
    · rintro ⟨member, allowed⟩
      exact ⟨member, allowed.matches⟩

/-- The cookie of an administration. -/
def adminCookie : Cookie where
  name := "session".toList
  value := "1".toList
  domain := "site.test".toList
  path := "/admin".toList
  httpOnly := false
  secure := false

def administrator : WebUrl where
  https := true
  asStr := "https://site.test/administrator".toList
  host := "site.test".toList
  isIp := false
  path := "/administrator".toList
  rooted := rfl

/-- It is given out for a page that its path is no folder of. -/
theorem admin_cookie_strays : ¬ KeepsScope [.add adminCookie] administrator := by
  intro keeps
  have given : adminCookie ∈ (run [.add adminCookie]).cookiesForUrl administrator.toUrl := by decide
  have strays : Strays administrator adminCookie :=
    ⟨by decide, by decide, .inl ⟨'i', "strator".toList, by decide, by decide, by decide⟩⟩
  exact strays.not_allowed ((keeps.scope adminCookie).mp given).2

end Webfang.Cookies
