import Mathlib.Data.List.Basic

/-!
# The scope of a cookie

RFC 6265: which `Set-Cookie` headers a user agent accepts from a URL, and the URLs that it sends their
cookies to.  Hosts are those of parsed URLs; which texts are hosts, and which of them addresses, is
left to the parser.
-/

namespace CookieScope

/-- The hosts of a parser of URLs. -/
structure Hosts where
  IsHost : List Char → Prop
  /-- The host is an address and no name. -/
  IsIp : List Char → Prop

/-- Behind a dot. -/
def Tail (host d : List Char) : Prop := ('.' :: d) <:+ host

/-- What a parser promises: a host is there and in lower case, a name with a label in front is a name,
and addresses are told from names by their ends. -/
structure Hosts.Canonical (hosts : Hosts) : Prop where
  ne_nil : ∀ host, hosts.IsHost host → host ≠ []
  lower : ∀ host, hosts.IsHost host → ∀ c ∈ host, c.toLower = c
  label : ∀ host, hosts.IsHost host → ¬ hosts.IsIp host →
    hosts.IsHost ('x' :: '.' :: host) ∧ ¬ hosts.IsIp ('x' :: '.' :: host)
  apart : ∀ name host d, hosts.IsHost name → ¬ hosts.IsIp name → hosts.IsHost host →
    hosts.IsIp host → host = d ∨ Tail host d → ¬ (name = d ∨ Tail name d)
  whole : ∀ host d, hosts.IsHost host → hosts.IsIp host →
    d = [] ∨ hosts.IsHost d ∧ hosts.IsIp d → ¬ Tail host d

/-- What is read of a URL. -/
structure Location where
  host : List Char
  path : List Char

structure Hosts.Valid (hosts : Hosts) (url : Location) : Prop where
  host : hosts.IsHost url.host
  rooted : url.path.head? = some '/'

/-- A `Set-Cookie` header, the attributes as they are sent or absent. -/
structure SetCookie where
  name : List Char
  value : List Char
  domain : Option (List Char)
  path : Option (List Char)
  httpOnly : Bool
  secure : Bool
  deriving DecidableEq

section Scope

variable (hosts : Hosts)

/-- Section 5.1.3. -/
def DomainMatch (host d : List Char) : Prop := host = d ∨ ¬ hosts.IsIp host ∧ Tail host d

/-- Section 5.1.4. -/
def PathMatch (path p : List Char) : Prop :=
  path = p ∨ ∃ rest, path = p ++ rest ∧ (p.getLast? = some '/' ∨ rest.head? = some '/')

/-- The path of a URL up to its last slash, without it. -/
def defaultPath (path : List Char) : List Char :=
  let folder := ((path.reverse.dropWhile (· ≠ '/')).drop 1).reverse
  if folder = [] then ['/'] else folder

/-- Section 5.2.3: the `Domain` attribute, empty where there is none. -/
def SetCookie.domainAttribute (header : SetCookie) : List Char :=
  let sent := header.domain.getD []
  (if sent.head? = some '.' then sent.drop 1 else sent).map Char.toLower

/-- Section 5.2.4: the `Path` attribute. -/
def SetCookie.cookiePath (header : SetCookie) (url : Location) : List Char :=
  match header.path with
  | none => defaultPath url.path
  | some path => if path.head? = some '/' then path else defaultPath url.path

def SetCookie.cookieDomain (header : SetCookie) (url : Location) : List Char :=
  if header.domainAttribute = [] then url.host else header.domainAttribute

/-- What a cookie replaces another by. -/
def SetCookie.storeKey (url : Location) (header : SetCookie) :
    List Char × List Char × List Char :=
  (header.name, header.cookieDomain url, header.cookiePath url)

def SetCookie.Accepted (url : Location) (header : SetCookie) : Prop :=
  header.domainAttribute = [] ∨ DomainMatch hosts url.host header.domainAttribute

/-- The hosts that the cookie is sent to. -/
def SetCookie.HostScope (url : Location) (header : SetCookie) (host : List Char) : Prop :=
  if header.domainAttribute = [] then host = url.host
  else DomainMatch hosts host header.domainAttribute

/-- The URLs that the cookie is sent to, whether secure or not. -/
def SetCookie.SentTo (url : Location) (header : SetCookie) (there : Location) : Prop :=
  header.HostScope hosts url there.host ∧ PathMatch there.path (header.cookiePath url)

variable {hosts}

/-- The cookie is sent to the host that it is from. -/
theorem SetCookie.Accepted.hostScope {url : Location} {header : SetCookie}
    (accepted : header.Accepted hosts url) : header.HostScope hosts url url.host := by
  rw [HostScope]
  split
  · rfl
  · rename_i sent
    exact accepted.resolve_left sent

theorem PathMatch.begins {path p : List Char} (found : PathMatch path p) : p <+: path := by
  rcases found with rfl | ⟨rest, rfl, -⟩
  · exact List.prefix_rfl
  · exact List.prefix_append p rest

/-- A path that ends with a slash takes in all that it begins. -/
theorem pathMatch_of_slash {path p : List Char} (slash : p.getLast? = some '/') :
    PathMatch path p ↔ p <+: path := by
  refine ⟨PathMatch.begins, ?_⟩
  intro given
  rcases given with ⟨rest, rfl⟩
  exact .inr ⟨rest, rfl, .inl slash⟩

/-- Any other leaves out some that it begins. -/
theorem not_pathMatch_concat {p : List Char} (cut : p.getLast? ≠ some '/') :
    ¬ PathMatch (p ++ ['x']) p := by
  intro given
  rcases given with same | ⟨rest, same, slash | slash⟩
  · exact List.append_ne_nil_of_right_ne_nil [] (List.cons_ne_nil 'x' [])
      (List.append_cancel_left (same.trans (List.append_nil p).symm))
  · exact cut slash
  · rw [← List.append_cancel_left same] at slash
    cases slash

theorem head?_defaultPath {path : List Char} (rooted : path.head? = some '/') :
    (defaultPath path).head? = some '/' := by
  have folder : ((path.reverse.dropWhile (· ≠ '/')).drop 1).reverse <+: path := by
    rw [← List.reverse_suffix, List.reverse_reverse]
    exact (List.drop_suffix _ _).trans (List.dropWhile_suffix _)
  rw [defaultPath]
  split
  · rfl
  · rename_i some
    obtain ⟨rest, whole⟩ := folder
    rw [← whole, List.head?_append_of_ne_nil _ some] at rooted
    exact rooted

theorem head?_cookiePath {header : SetCookie} {url : Location} (rooted : url.path.head? = some '/') :
    (header.cookiePath url).head? = some '/' := by
  rw [SetCookie.cookiePath]
  split
  · exact head?_defaultPath rooted
  · split
    · assumption
    · exact head?_defaultPath rooted

end Scope

end CookieScope
