import Webfang.Lib.Execution
import Webfang.Lib.JsonText
import Webfang.Lib.Traversal

/-!
# Validated URLs (`domain/value_objects.rs`)

A `ValidUrl` is made of a parsed URL by `tryFromUrl`, or is deserialized: alone, or with a document
that it is part of.  The `url` crate is a parameter.
-/

namespace Webfang.ValidUrls

/-! ## The url crate -/

/-- What is used of `url::Url`.  The setters are `none` when they fail. -/
structure UrlCrate (U : Type) where
  parse : List Char → Except (List Char) U
  scheme : U → List Char
  username : U → List Char
  password : U → Option (List Char)
  hostStr : U → Option (List Char)
  asStr : U → List Char
  setUsername : U → List Char → Option U
  setPassword : U → Option (List Char) → Option U

variable {U : Type} (crate : UrlCrate U)

def IsHttp (u : U) : Prop := crate.scheme u = "http".toList ∨ crate.scheme u = "https".toList

/-- A URL has a place for credentials when it has a host that is not empty and is no file. -/
def HasAuthority (u : U) : Prop :=
  (∃ c rest, crate.hostStr u = some (c :: rest)) ∧ crate.scheme u ≠ "file".toList

/-- Two URLs that differ in their credentials at most. -/
def SameBut (u v : U) : Prop :=
  crate.scheme v = crate.scheme u ∧ crate.hostStr v = crate.hostStr u

/-- What is known of the url crate. -/
structure UrlLaws : Prop where
  host : ∀ u, IsHttp crate u → ∃ c rest, crate.hostStr u = some (c :: rest)
  setUsername : ∀ u, HasAuthority crate u → ∃ v, crate.setUsername u [] = some v ∧
    SameBut crate u v ∧ crate.username v = [] ∧ crate.password v = crate.password u
  setPassword : ∀ u, HasAuthority crate u → ∃ v, crate.setPassword u none = some v ∧
    SameBut crate u v ∧ crate.username v = crate.username u ∧ crate.password v = none
  parse_asStr : ∀ u, IsHttp crate u → crate.parse (crate.asStr u) = .ok u

/-! ## Construction -/

inductive ScraperError
  | invalidUrl (message : List Char)
  deriving DecidableEq

/-- `ValidUrl::try_from_url`; what the setters return is ignored. -/
def tryFromUrl (url : U) : Except ScraperError U :=
  if crate.scheme url = "http".toList ∨ crate.scheme url = "https".toList then
    let url := (crate.setUsername url []).getD url
    let url := (crate.setPassword url none).getD url
    .ok url
  else .error (.invalidUrl ("Scheme '".toList ++ crate.scheme url ++
    "' no soportado. Solo http:// y https://".toList))

/-- `TryFrom<url::Url>` -/
def tryFrom (url : U) : Except ScraperError U := tryFromUrl crate url

/-- `ValidUrl::parse` -/
def parse (s : List Char) : Except ScraperError U :=
  match crate.parse s with
  | .error e => .error (.invalidUrl e)
  | .ok url => tryFromUrl crate url

/-! ## Serde -/

def readString : Json.Value → Option (List Char)
  | .string text => some text
  | _ => none

/-- The derived `Deserialize` of `ValidUrl`, which is that of `url::Url`. -/
def deserialize (node : Json.Value) : Option U :=
  (readString node).bind fun text => (crate.parse text).toOption

/-- The derived `Serialize` of `ValidUrl`. -/
def serialize (url : U) : Json.Value := .string (crate.asStr url)

/-- `serde_json::to_string` of a `ValidUrl`. -/
def toJsonText (url : U) : List Char := Json.quote (crate.asStr url)

/-- `serde_json::from_str` to a `ValidUrl`. -/
def fromJsonText (text : List Char) : Option U := (Json.parse text).bind (deserialize crate)

structure DownloadedAsset where
  url : List Char
  localPath : List Char
  assetType : List Char
  size : UInt64
  deriving DecidableEq

/-- `ScrapedContent`, without the fields that serde skips. -/
structure ScrapedContent (U : Type) where
  title : List Char
  content : List Char
  url : U
  excerpt : Option (List Char)
  author : Option (List Char)
  date : Option (List Char)
  html : Option (List Char)
  assets : List DownloadedAsset
  deriving DecidableEq

/-- What a document has for a field of a struct: a value, no member of its name, or too few
elements. -/
inductive Slot
  | given (node : Json.Value)
  | unnamed
  | short

/-- The derived readers take a struct as an object, in which no field is repeated, or as an array
of its fields in order. -/
def slot (node : Json.Value) (index : Nat) (name : List Char) : Option Slot :=
  match node with
  | .object members =>
      match members.filter fun m => decide (m.1 = name) with
      | [] => some .unnamed
      | [m] => some (.given m.2)
      | _ => none
  | .array elements =>
      match elements[index]? with
      | some v => some (.given v)
      | none => some .short
  | _ => none

/-- No element is left over behind the fields. -/
def fits (fields : Nat) : Json.Value → Bool
  | .array elements => elements.length ≤ fields
  | _ => true

def required {α : Type} (read : Json.Value → Option α) : Slot → Option α
  | .given v => read v
  | _ => none

/-- A field of an `Option` type. -/
def optional {α : Type} (read : Json.Value → Option α) : Slot → Option (Option α)
  | .given .null => some none
  | .given v => (read v).map some
  | .unnamed => some none
  | .short => none

/-- A field with `serde(default)`. -/
def defaulted {α : Type} (default : α) (read : Json.Value → Option α) : Slot → Option α
  | .given v => read v
  | _ => some default

def readList {α : Type} (read : Json.Value → Option α) : Json.Value → Option (List α)
  | .array elements => elements.mapM read
  | _ => none

def readSize (node : Json.Value) : Option UInt64 :=
  node.nat?.bind fun n => if n < 18446744073709551616 then some (.ofNat n) else none

def readAsset (node : Json.Value) : Option DownloadedAsset := do
  if fits 4 node then
    let url ← (slot node 0 "url".toList).bind (required readString)
    let localPath ← (slot node 1 "local_path".toList).bind (required readString)
    let assetType ← (slot node 2 "asset_type".toList).bind (required readString)
    let size ← (slot node 3 "size".toList).bind (required readSize)
    some { url, localPath, assetType, size }
  else none

def readContent (node : Json.Value) : Option (ScrapedContent U) := do
  if fits 8 node then
    let title ← (slot node 0 "title".toList).bind (required readString)
    let content ← (slot node 1 "content".toList).bind (required readString)
    let url ← (slot node 2 "url".toList).bind (required (deserialize crate))
    let excerpt ← (slot node 3 "excerpt".toList).bind (optional readString)
    let author ← (slot node 4 "author".toList).bind (optional readString)
    let date ← (slot node 5 "date".toList).bind (optional readString)
    let html ← (slot node 6 "html".toList).bind (optional readString)
    let assets ← (slot node 7 "assets".toList).bind (defaulted [] (readList readAsset))
    some { title, content, url, excerpt, author, date, html, assets }
  else none

/-- `serde_json::from_str::<Vec<ScrapedContent>>` -/
def readContents (text : List Char) : Option (List (ScrapedContent U)) :=
  (Json.parse text).bind (readList (readContent crate))

def nullable : Option (List Char) → Json.Value
  | some text => .string text
  | none => .null

def assetJson (asset : DownloadedAsset) : Json.Value :=
  .object [("url".toList, .string asset.url), ("local_path".toList, .string asset.localPath),
    ("asset_type".toList, .string asset.assetType),
    ("size".toList, .number (Json.ofNat asset.size.toNat))]

/-- The derived `Serialize`: no `html` when there is none, and no `assets` when they are empty. -/
def contentJson (c : ScrapedContent U) : Json.Value :=
  .object ([("title".toList, .string c.title), ("content".toList, .string c.content),
    ("url".toList, serialize crate c.url), ("excerpt".toList, nullable c.excerpt),
    ("author".toList, nullable c.author), ("date".toList, nullable c.date)] ++
    (match c.html with
      | some html => [("html".toList, .string html)]
      | none => []) ++
    if c.assets.isEmpty then [] else [("assets".toList, .array (c.assets.map assetJson))])

def contentsJson (contents : List (ScrapedContent U)) : Json.Value :=
  .array (contents.map (contentJson crate))

/-! ## Reading back -/

variable {crate} {u v : U}

theorem deserialize_serialize (same : crate.parse (crate.asStr u) = .ok u) :
    deserialize crate (serialize crate u) = some u := by
  rw [serialize, deserialize, readString, Option.bind_some, same]
  rfl

/-- A URL that is parsed back is read back from its JSON text. -/
theorem fromJsonText_toJsonText (same : crate.parse (crate.asStr u) = .ok u) :
    fromJsonText crate (toJsonText crate u) = some u := by
  have read : Json.parse (Json.quote (crate.asStr u)) = some (.string (crate.asStr u)) := by
    have front := Json.value_quote (2 * (Json.quote (crate.asStr u)).length + 1) (crate.asStr u) []
    rw [List.append_nil] at front
    rw [Json.parse, Json.fuelFor, front]
    rfl
  rw [fromJsonText, toJsonText, read]
  exact deserialize_serialize same

theorem readAsset_assetJson (asset : DownloadedAsset) :
    readAsset (assetJson asset) = some asset := by
  have size : readSize (.number (Json.ofNat asset.size.toNat)) = some asset.size := by
    rw [readSize, Json.nat?_ofNat, Option.bind_some, if_pos asset.size.toNat_lt, UInt64.ofNat_toNat]
  have read : readAsset (assetJson asset) =
      (readSize (.number (Json.ofNat asset.size.toNat))).bind fun size =>
        some ⟨asset.url, asset.localPath, asset.assetType, size⟩ := rfl
  rw [read, size]
  rfl

theorem mapM_map_eq_some {α β : Type} {f : α → β} {read : β → Option α}
    {xs : List α} (back : ∀ x ∈ xs, read (f x) = some x) : (xs.map f).mapM read = some xs := by
  induction xs with
  | nil => rfl
  | cons x xs ih =>
      rcases List.forall_mem_cons.mp back with ⟨here, later⟩
      rw [List.map_cons, List.mapM_cons, here, ih later]
      rfl

theorem optional_nullable (text : Option (List Char)) :
    optional readString (.given (nullable text)) = some text := by
  cases text <;> rfl

theorem readContent_contentJson (c : ScrapedContent U)
    (same : crate.parse (crate.asStr c.url) = .ok c.url) :
    readContent crate (contentJson crate c) = some c := by
  obtain ⟨title, content, url, excerpt, author, date, html, assets⟩ := c
  have back : (assets.map assetJson).mapM readAsset = some assets :=
    mapM_map_eq_some fun asset _ => readAsset_assetJson asset
  have url' := deserialize_serialize same
  have read : readContent crate (contentJson crate
      ⟨title, content, url, excerpt, author, date, html, assets⟩) =
        (deserialize crate (serialize crate url)).bind fun url =>
        (optional readString (.given (nullable excerpt))).bind fun excerpt =>
        (optional readString (.given (nullable author))).bind fun author =>
        (optional readString (.given (nullable date))).bind fun date =>
        (readList readAsset (.array (assets.map assetJson))).bind fun assets =>
        some ⟨title, content, url, excerpt, author, date, html, assets⟩ := by
    cases html
    · cases assets
      · rfl
      · rfl
    · cases assets
      · rfl
      · rfl
  rw [read, url', optional_nullable, optional_nullable, optional_nullable, readList, back]
  rfl

/-! ## Hardening -/

variable (crate) in
/-- The scheme is http or https, and there are no credentials. -/
structure Hardened (u : U) : Prop where
  scheme : IsHttp crate u
  username : crate.username u = []
  password : crate.password u = none

theorem IsHttp.hasAuthority (laws : UrlLaws crate) (http : IsHttp crate u) :
    HasAuthority crate u := by
  refine ⟨laws.host u http, ?_⟩
  rcases http with plain | secure
  · rw [plain]
    decide
  · rw [secure]
    decide

theorem HasAuthority.of_sameBut (same : SameBut crate u v) (has : HasAuthority crate u) :
    HasAuthority crate v := by
  rw [HasAuthority, same.1, same.2]
  exact has

/-- The setters whose results are ignored do not fail. -/
theorem hardened_of_tryFromUrl (laws : UrlLaws crate) (made : tryFromUrl crate u = .ok v) :
    Hardened crate v := by
  rw [tryFromUrl] at made
  split_ifs at made with http
  · have authority := IsHttp.hasAuthority laws http
    rcases laws.setUsername u authority with ⟨w, first, same, username, -⟩
    rcases laws.setPassword w (authority.of_sameBut same) with
      ⟨x, second, same', username', password⟩
    dsimp only at made
    rw [first, Option.getD_some, second, Option.getD_some] at made
    cases made
    refine ⟨?_, username'.trans username, password⟩
    rw [IsHttp, same'.1, same.1]
    exact http

theorem hardened_of_parse (laws : UrlLaws crate) {text : List Char}
    (made : parse crate text = .ok v) : Hardened crate v := by
  rw [parse] at made
  cases parsed : crate.parse text with
  | error e =>
      rw [parsed] at made
      cases made
  | ok u =>
      rw [parsed] at made
      exact hardened_of_tryFromUrl laws made

theorem Hardened.reads_back (laws : UrlLaws crate) (hardened : Hardened crate u) :
    fromJsonText crate (toJsonText crate u) = some u :=
  fromJsonText_toJsonText (laws.parse_asStr u hardened.scheme)

/-! ## The system -/

/-- All values that have been made, and the text of `results.json`. -/
structure State (U : Type) where
  held : List U
  resultsJson : Option (List Char)

/-- Calls of the public interface.  A document is deserialized to a type that tells the places of
its URLs; `saveAsJson` says whether its write goes through, and `replaceFile` is what others do to
`results.json`. -/
inductive Action (U : Type)
  | parse (text : List Char)
  | tryFromUrl (url : U)
  | tryFrom (url : U)
  | deserialize (places : Json.Value → Option (List Json.Value)) (text : List Char)
  | saveAsJson (results : List (ScrapedContent U)) (written : Bool)
  | replaceFile (text : Option (List Char))

variable (crate) in
/-- The URLs of a document, unless it does not fit its type. -/
def readPlaces (places : Json.Value → Option (List Json.Value)) (text : List Char) :
    Option (List U) :=
  ((Json.parse text).bind places).bind fun nodes => nodes.mapM (ValidUrls.deserialize crate)

def State.keep (s : State U) (made : List U) : State U := { s with held := made ++ s.held }

variable (crate) in
/-- What `results.json` holds before it is written again, `none` when it is not read. -/
def existing (s : State U) : Option (List (ScrapedContent U)) :=
  match s.resultsJson with
  | none => some []
  | some text => readContents crate text

variable [DecidableEq U] (toStringPretty : Json.Value → List Char)

/-- `save_as_json` -/
def saveAsJson (crate : UrlCrate U) (results : List (ScrapedContent U)) (written : Bool)
    (s : State U) : State U :=
  match existing crate s with
  | none => s
  | some contents =>
      { held := contents.map (·.url) ++ s.held
        resultsJson :=
          if written then some (toStringPretty (contentsJson crate (contents ++ results)))
          else s.resultsJson }

/-- A call with a value that has not been made is refused. -/
def step (crate : UrlCrate U) (s : State U) : Action U → Option (State U)
  | .parse text => some (s.keep (parse crate text).toOption.toList)
  | .tryFromUrl url => some (s.keep (tryFromUrl crate url).toOption.toList)
  | .tryFrom url => some (s.keep (tryFrom crate url).toOption.toList)
  | .deserialize places text => some (s.keep ((readPlaces crate places text).getD []))
  | .saveAsJson results written =>
      if results.all fun c => decide (c.url ∈ s.held) then
        some (saveAsJson toStringPretty crate results written s)
      else none
  | .replaceFile text => some { s with resultsJson := text }

/-! ## Runs -/

variable (crate) in
/-- No document that the call deserializes has a URL of another scheme or with credentials. -/
def Clean (s : State U) : Action U → Prop
  | .deserialize places text =>
      ∀ urls, readPlaces crate places text = some urls → ∀ u ∈ urls, Hardened crate u
  | .saveAsJson results _ => (∀ c ∈ results, c.url ∈ s.held) →
      ∀ contents, existing crate s = some contents → ∀ c ∈ contents, Hardened crate c.url
  | _ => True

variable (crate) in
/-- What is promised of a value: it is hardened, and it is the same when it is written and read. -/
def Kept (u : U) : Prop := Hardened crate u ∧ fromJsonText crate (toJsonText crate u) = some u

variable (crate) in
def State.Good (s : State U) : Prop := ∀ u ∈ s.held, Kept crate u

omit [DecidableEq U] in
theorem Hardened.kept (laws : UrlLaws crate) (hardened : Hardened crate u) : Kept crate u :=
  ⟨hardened, hardened.reads_back laws⟩

omit [DecidableEq U] in
theorem good_append (laws : UrlLaws crate) {s : State U} (good : s.Good crate) (made : List U)
    (resultsJson : Option (List Char)) :
    State.Good crate ⟨made ++ s.held, resultsJson⟩ ↔ ∀ u ∈ made, Hardened crate u := by
  constructor
  · intro all u member
    exact (all u (List.mem_append_left _ member)).1
  · intro hardened u member
    rcases List.mem_append.mp member with new | old
    · exact (hardened u new).kept laws
    · exact good u old

omit [DecidableEq U] in
theorem good_keep (laws : UrlLaws crate) {s : State U} (good : s.Good crate)
    {made : Except ScraperError U} (hardened : ∀ u, made = .ok u → Hardened crate u) :
    (s.keep made.toOption.toList).Good crate := by
  refine (good_append laws good _ _).mpr ?_
  intro u member
  cases made with
  | error e => cases member
  | ok w =>
      rw [List.mem_singleton.mp member]
      exact hardened w rfl

/-- A call makes values that are all hardened just when its documents are clean. -/
theorem step_good_iff (laws : UrlLaws crate) {s s' : State U} {a : Action U} (good : s.Good crate)
    (next : step toStringPretty crate s a = some s') : s'.Good crate ↔ Clean crate s a := by
  cases a with
  | parse text =>
      cases next
      exact iff_of_true (good_keep laws good fun u => hardened_of_parse laws) trivial
  | tryFromUrl url =>
      cases next
      exact iff_of_true (good_keep laws good fun u => hardened_of_tryFromUrl laws) trivial
  | tryFrom url =>
      cases next
      exact iff_of_true (good_keep laws good fun u => hardened_of_tryFromUrl laws) trivial
  | deserialize places text =>
      cases next
      rw [State.keep, good_append laws good, Clean]
      cases readPlaces crate places text with
      | none =>
          refine iff_of_true ?_ ?_
          · intro u member
            cases member
          · intro urls read
            cases read
      | some urls =>
          rw [Option.getD_some]
          constructor
          · intro all urls' same
            cases same
            exact all
          · intro all
            exact all urls rfl
  | saveAsJson results written =>
      rw [step] at next
      split_ifs at next with made
      cases next
      have held : ∀ c ∈ results, c.url ∈ s.held := by
        intro c member
        exact of_decide_eq_true (List.all_eq_true.mp made c member)
      rw [saveAsJson, Clean]
      cases existing crate s with
      | none =>
          refine iff_of_true good ?_
          intro _ contents read
          cases read
      | some contents =>
          dsimp only
          rw [good_append laws good]
          constructor
          · intro all _ contents' same c member
            cases same
            exact all c.url (List.mem_map_of_mem member)
          · intro all u member
            rcases List.mem_map.mp member with ⟨c, inside, same⟩
            rw [← same]
            exact all held contents rfl c inside
  | replaceFile text =>
      cases next
      exact iff_of_true good trivial

omit [DecidableEq U] in
/-- What is saved over clean results is clean again. -/
theorem existing_saved (laws : UrlLaws crate)
    (printed : ∀ contents, Json.parse (toStringPretty (contentsJson crate contents)) =
      some (contentsJson crate contents))
    {s : State U} {results contents : List (ScrapedContent U)} (good : s.Good crate)
    (held : ∀ c ∈ results, c.url ∈ s.held) (read : existing crate s = some contents)
    (clean : ∀ c ∈ contents, Hardened crate c.url) :
    existing crate (saveAsJson toStringPretty crate results true s) = some (contents ++ results) ∧
      ∀ c ∈ contents ++ results, Hardened crate c.url := by
  have hardened : ∀ c ∈ contents ++ results, Hardened crate c.url := by
    intro c member
    rcases List.mem_append.mp member with old | new
    · exact clean c old
    · exact (good c.url (held c new)).1
  refine ⟨?_, hardened⟩
  have back : ((contents ++ results).map (contentJson crate)).mapM (readContent crate) =
      some (contents ++ results) := by
    apply mapM_map_eq_some
    intro c member
    exact readContent_contentJson c (laws.parse_asStr c.url (hardened c member).scheme)
  rw [saveAsJson, read]
  dsimp only
  rw [if_pos rfl, existing]
  dsimp only
  rw [readContents, printed, Option.bind_some, contentsJson, readList, back]

/-- All values made in a run are hardened, and the same when they are written and read, just when
no document that is deserialized in the run has a URL of another scheme or with credentials. -/
theorem held_hardened_iff (laws : UrlLaws crate) (resultsJson : Option (List Char))
    (actions : List (Action U)) :
    (∀ t, StepSystem.Reached (step toStringPretty crate) ⟨[], resultsJson⟩ actions t →
        ∀ u ∈ t.held, Kept crate u) ↔
      StepSystem.Along (step toStringPretty crate) (Clean crate) ⟨[], resultsJson⟩ actions := by
  refine StepSystem.reached_good_iff (I := fun _ => True) ?_ ?_ ?_ ?_ ?_ actions
  · intro s a s' _ _
    trivial
  · intro s a s' _ good next
    exact step_good_iff toStringPretty laws good next
  · intro s a refused
    cases a with
    | saveAsJson results written =>
        intro held
        rw [step, if_pos] at refused
        · cases refused
        · refine List.all_eq_true.mpr fun c member => ?_
          exact decide_eq_true (held c member)
    | _ => cases refused
  · trivial
  · intro u member
    cases member

/-! ## A results file with credentials -/

/-- `https://example.com/x`, with a user and a password or not, and a URL of another scheme. -/
inductive SampleUrl
  | web (user password : Bool)
  | data
  deriving DecidableEq

def SampleUrl.text : SampleUrl → List Char
  | .web false false => "https://".toList ++ "example.com/x".toList
  | .web true false => "https://user@".toList ++ "example.com/x".toList
  | .web false true => "https://:secret@".toList ++ "example.com/x".toList
  | .web true true => "https://user:".toList ++ "secret@".toList ++ "example.com/x".toList
  | .data => "data:text/plain,x".toList

def sampleUrls : List SampleUrl :=
  [.web false false, .web true false, .web false true, .web true true, .data]

def sampleCrate : UrlCrate SampleUrl where
  parse text :=
    match sampleUrls.find? fun u => decide (u.text = text) with
    | some u => .ok u
    | none => .error "relative URL without a base".toList
  scheme
    | .web _ _ => "https".toList
    | .data => "data".toList
  username
    | .web true _ => "user".toList
    | _ => []
  password
    | .web _ true => some "secret".toList
    | _ => none
  hostStr
    | .web _ _ => some "example.com".toList
    | .data => none
  asStr := SampleUrl.text
  setUsername
    | .web _ password, [] => some (.web false password)
    | _, _ => none
  setPassword
    | .web user _, none => some (.web user false)
    | _, _ => none

theorem sampleCrate_laws : UrlLaws sampleCrate := by
  refine ⟨?_, ?_, ?_, ?_⟩
  · intro u http
    cases u with
    | web user password => exact ⟨_, _, rfl⟩
    | data => rcases http with scheme | scheme <;> exact absurd scheme (by decide)
  · intro u authority
    cases u with
    | web user password =>
        refine ⟨.web false password, rfl, ⟨rfl, rfl⟩, rfl, ?_⟩
        cases password <;> rfl
    | data =>
        rcases authority.1 with ⟨c, rest, host⟩
        cases host
  · intro u authority
    cases u with
    | web user password =>
        refine ⟨.web user false, rfl, ⟨rfl, rfl⟩, ?_, rfl⟩
        cases user <;> rfl
    | data =>
        rcases authority.1 with ⟨c, rest, host⟩
        cases host
  · intro u _
    cases u with
    | web user password => cases user <;> cases password <;> rfl
    | data => rfl

def leakyResults : List Char :=
  "[\n  \x7b\n".toList ++ "    \"title\": \"t\",\n".toList ++ "    \"content\": \"c\",\n".toList ++
    "    \"url\": \"".toList ++ "https://user:".toList ++ "secret@".toList ++
    "example.com/x".toList ++ "\",\n".toList ++ "    \"excerpt\": null,\n".toList ++
    "    \"author\": null,\n".toList ++ "    \"date\": null\n".toList ++ "  \x7d\n]".toList

def leakyContent : ScrapedContent SampleUrl :=
  ⟨"t".toList, "c".toList, .web true true, none, none, none, none, []⟩

theorem readContents_leakyResults :
    readContents sampleCrate leakyResults = some [leakyContent] := by
  decide +kernel

theorem step_saveAsJson {s : State U} {results : List (ScrapedContent U)} {written : Bool}
    (held : (results.all fun c => decide (c.url ∈ s.held)) = true) :
    step toStringPretty crate s (.saveAsJson results written) =
      some (saveAsJson toStringPretty crate results written s) := if_pos held

/-- `save_as_json` of nothing over the file. -/
def leakyRun : List (Action SampleUrl) := [.saveAsJson [] true]

theorem step_leakyRun : StepSystem.Reached (step (fun _ => leakyResults) sampleCrate)
    ⟨[], some leakyResults⟩ leakyRun ⟨[.web true true], some leakyResults⟩ := by
  have read : existing sampleCrate ⟨[], some leakyResults⟩ = some [leakyContent] := by
    rw [existing]
    exact readContents_leakyResults
  have saved : saveAsJson (fun _ => leakyResults) sampleCrate [] true ⟨[], some leakyResults⟩ =
      ⟨[.web true true], some leakyResults⟩ := by
    rw [saveAsJson, read]
    dsimp only
    rw [if_pos rfl, List.append_nil, List.map_singleton, leakyContent]
  refine ⟨leakyRun, List.prefix_rfl, StepSystem.execute_cons_eq_some.mpr ⟨_, ?_, rfl⟩⟩
  rw [step_saveAsJson _ rfl, saved]

theorem leakyRun_hardened_iff :
    (∀ t, StepSystem.Reached (step (fun _ => leakyResults) sampleCrate) ⟨[], some leakyResults⟩
        leakyRun t → ∀ u ∈ t.held, Kept sampleCrate u) ↔
      StepSystem.Along (step (fun _ => leakyResults) sampleCrate) (Clean sampleCrate)
        ⟨[], some leakyResults⟩ leakyRun :=
  held_hardened_iff (fun _ => leakyResults) sampleCrate_laws (some leakyResults) leakyRun

/-- A URL with a password is held that no constructor would have made. -/
theorem leaky_url_held :
    tryFromUrl sampleCrate (.web true true) = .ok (.web false false) ∧
      ¬ ∀ t, StepSystem.Reached (step (fun _ => leakyResults) sampleCrate) ⟨[], some leakyResults⟩
        leakyRun t → ∀ u ∈ t.held, Kept sampleCrate u := by
  refine ⟨rfl, ?_⟩
  intro all
  have hardened := (all _ step_leakyRun (.web true true) List.mem_cons_self).1
  cases hardened.password

end Webfang.ValidUrls
