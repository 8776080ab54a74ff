import Webfang.Http.HttpClient

/-!
# The pooled downloader

`infrastructure/downloader/wreq_downloader.rs` and `domain/downloader_port.rs`: a page is fetched
with one attempt and as many retries as are configured, and a first 403 is asked again under another
User-Agent.  The answers to the requests are given beforehand, and a result stands before the number
of requests sent for it.  The delays between attempts are left out.
-/

namespace Webfang.Wreq

/-! ## Errors -/

/-- `std::io::ErrorKind`; the kinds that pass are named. -/
inductive IoKind
  | connectionReset
  | connectionAborted
  | brokenPipe
  | timedOut
  | unexpectedEof
  | other (kind : String)
  deriving DecidableEq, Repr

inductive DownloadError
  | network (message : String)
  | dns (message : String)
  | tls (message : String)
  | io (kind : IoKind) (message : String)
  | http (status : Nat) (message : String)
  | wafChallenge (evidence : String)
  | spaDetected (framework : String)
  | invalidUrl (message : String)
  | timeout (seconds : Nat)
  | internal (message : String)
  | resourceExhausted (message : String)
  | featureGated (message : String)
  | cancelled
  | bodyTooLarge (limit : Nat)
  deriving DecidableEq, Repr

/-- `is_transient_io`. -/
def IoKind.isTransient : IoKind → Bool
  | .other _ => false
  | _ => true

/-- Any 5xx. -/
def isServerError (status : Nat) : Prop := 500 ≤ status ∧ status ≤ 599

instance (status : Nat) : Decidable (isServerError status) := inferInstanceAs (Decidable (_ ∧ _))

def DownloadError.classify : DownloadError → ErrorClass
  | .io kind _ => if kind.isTransient then .transientRetriable else .internalFatal
  | .dns _ | .tls _ => .permanentFatal
  | .timeout _ => .transientBackoff
  | .http status _ =>
      if isServerError status then .transientRetriable
      else if status = 429 then .transientBackoff
      else .permanentFatal
  | .wafChallenge _ | .spaDetected _ | .invalidUrl _ => .permanentFatal
  | .network _ | .internal _ | .resourceExhausted _ => .internalFatal
  | .featureGated _ => .permanentFatal
  | .cancelled => .internalFatal
  | .bodyTooLarge _ => .permanentFatal

/-- The loop gives up on the error at once. -/
def DownloadError.Permanent (e : DownloadError) : Prop := e.classify = .permanentFatal

instance (e : DownloadError) : Decidable e.Permanent :=
  inferInstanceAs (Decidable (e.classify = .permanentFatal))

/-- A link of the chain of causes. -/
inductive Source
  | io (kind : IoKind) (message : String)
  | other (message : String)
  deriving DecidableEq, Repr

/-- `wreq::Error`. -/
structure TransportError where
  message : String
  isTimeout : Bool
  isBuilder : Bool
  sources : List Source
  deriving DecidableEq, Repr

/-- `str::to_lowercase`, as far as it bears on the markers: they have no letter that is the lower
case of one outside ASCII but `k` and `i`, and no `k`, and an `i` comes with a dot of its own. -/
def lower (text : String) : List Char := text.toList.map Char.toLower

/-- `str::contains`. -/
def contains (text : List Char) (pat : String) : Bool := text.tails.any (pat.toList.isPrefixOf ·)

def stripDisplayMarker (payload : String) (marker : String) : String :=
  let stripped :=
    if marker.toList.isPrefixOf (lower payload) then
      (payload.toList.drop marker.length).dropWhile fun c => c = ':' || c = ' '
    else payload.toList
  if stripped.isEmpty then
    if "dns".toList.isPrefixOf marker.toList then "name resolution failed" else "handshake failed"
  else String.ofList stripped

/-- The loop of `From<wreq::Error>` over the chain of causes. -/
def ofSources (message : String) : List Source → DownloadError
  | [] => .network message
  | .io kind message :: _ => .io kind message
  | .other cause :: sources =>
      if contains (lower cause) "dns" || contains (lower cause) "resolve" then
        .dns (stripDisplayMarker cause "dns error")
      else if contains (lower cause) "tls" || contains (lower cause) "certificate" ||
          contains (lower cause) "ssl" then
        .tls (stripDisplayMarker cause "tls error")
      else ofSources message sources

/-- `From<wreq::Error>`. -/
def DownloadError.ofTransport (e : TransportError) : DownloadError :=
  if e.isBuilder then .invalidUrl e.message else ofSources e.message e.sources

/-! ## Responses and pages -/

/-- What is read of a parsed URL. -/
structure Url where
  asStr : List Char
  hostStr : Option (List Char)
  path : List Char
  deriving DecidableEq

structure Cookie where
  name : List Char
  value : List Char
  domain : List Char
  path : List Char
  httpOnly : Bool
  secure : Bool
  deriving DecidableEq

/-- A response: names of headers are in lower case, a value is there when it is visible ASCII, the
cookies are those the client reads in it, and the body comes in chunks and may break off. -/
structure Response where
  status : Nat
  uri : String
  headers : List (String × Option String)
  cookies : List Cookie
  chunks : List (Except TransportError (List UInt8))

structure FetchedPage where
  url : Url
  html : String
  status : Nat
  headers : Std.ExtTreeMap String String
  cookies : List Cookie

/-- What the downloader uses: the inspector, the decoding of a body under a charset label (UTF-8
where the label is unknown), the parser of URLs and `str::to_lowercase`. -/
structure Tools where
  inspect : String → Http.InspectionContext → Http.WafVerdict
  decode : String → List UInt8 → String
  parseUrl : String → Except String Url
  toLowercase : List Char → List Char

structure WreqDownloader where
  tools : Tools
  timeoutSecs : Nat
  pinnedUa : Option String
  maxRetries : Nat
  maxPageBytes : Nat
  ignoreWaf : Bool

/-- `WAF_SNIFF_MAX_BYTES` -/
def wafSniffMaxBytes : Nat := 8 * 1024

inductive BoundedRead
  | abort
  | truncate
  deriving DecidableEq, Repr

namespace Response

def isSuccess (r : Response) : Prop := 200 ≤ r.status ∧ r.status ≤ 299

instance (r : Response) : Decidable r.isSuccess := inferInstanceAs (Decidable (_ ∧ _))

/-- `is_t2_blocking_status`. -/
def isT2BlockingStatus (r : Response) : Prop :=
  r.status = 403 ∨ r.status = 429 ∨ r.status = 503 ∨ 520 ≤ r.status ∧ r.status ≤ 529

instance (r : Response) : Decidable r.isT2BlockingStatus := inferInstanceAs (Decidable (_ ∨ _))

/-- The charset of the `Content-Type`, read as the other client reads it. -/
def charset (r : Response) : String :=
  Http.Response.charset { status := r.status, headers := r.headers, chunks := [] }

/-- `lowercase_headers`. -/
def lowercaseHeaders (r : Response) : Std.ExtTreeMap String String :=
  r.headers.foldl (fun map header =>
    match header.2 with
    | some value => map.insert header.1 value
    | none => map) ∅

/-- The headers of a page: a value that is not visible ASCII is empty there. -/
def pageHeaders (r : Response) : Std.ExtTreeMap String String :=
  r.headers.foldl (fun map header => map.insert header.1 (header.2.getD "")) ∅

/-- `InspectionContext::from_lowercase_headers`, where the inspector is not to be ignored. -/
def inspectionContext (r : Response) : Http.InspectionContext where
  status := some r.status
  contentType := r.lowercaseHeaders["content-type"]?
  headers := r.lowercaseHeaders
  ignoreWaf := false

end Response

/-- The loop of `read_body_bounded`. -/
def readBounded (limit : Nat) (onOverflow : BoundedRead) :
    List (Except TransportError (List UInt8)) → List UInt8 → Except DownloadError (List UInt8)
  | [], buf => .ok buf
  | .error e :: _, _ => .error (.ofTransport e)
  | .ok chunk :: rest, buf =>
      if limit < buf.length + chunk.length then
        match onOverflow with
        | .abort => .error (.bodyTooLarge limit)
        | .truncate => .ok (buf ++ chunk.take (limit - buf.length))
      else readBounded limit onOverflow rest (buf ++ chunk)

/-! ## Cookies -/

/-- One attribute of a `Set-Cookie` header. -/
def Cookie.withAttribute (toLowercase : List Char → List Char) (cookie : Cookie)
    (part : List Char) : Cookie :=
  let part := toLowercase (Http.Response.trim part)
  if "domain=".toList.isPrefixOf part then { cookie with domain := Http.Response.trim (part.drop 7) }
  else if "path=".toList.isPrefixOf part then { cookie with path := Http.Response.trim (part.drop 5) }
  else if part = "httponly".toList then { cookie with httpOnly := true }
  else if part = "secure".toList then { cookie with secure := true }
  else cookie

def parseSetCookie (toLowercase : List Char → List Char) (header : List Char) (url : Url) :
    Option Cookie :=
  match header.splitOn ';' with
  | [] => none
  | first :: attributes =>
      let nameValue := Http.Response.trim first
      let name := Http.Response.trim (nameValue.takeWhile (· ≠ '='))
      if '=' ∉ nameValue ∨ name = [] then none
      else
        some (attributes.foldl (Cookie.withAttribute toLowercase)
          { name := name
            value := Http.Response.trim ((nameValue.dropWhile (· ≠ '=')).drop 1)
            domain := url.hostStr.getD []
            path := ['/']
            httpOnly := false
            secure := false })

namespace WreqDownloader

variable (d : WreqDownloader) (answers : Nat → Except TransportError Response) (url : Url)

def extractCookies (r : Response) : List Cookie :=
  let existing := r.cookies.map Cookie.name
  r.cookies ++ (r.headers.filterMap fun header =>
    if header.1 = "set-cookie" then
      header.2.bind fun value =>
        (parseSetCookie d.tools.toLowercase value.toList url).filter fun cookie =>
          !existing.contains cookie.name
    else none)

/-! ## Requests -/

def sendFailure (e : TransportError) : DownloadError :=
  if e.isTimeout then .timeout d.timeoutSecs else .ofTransport e

/-- `send_request`, for the answer to it. -/
def sendRequest (answer : Except TransportError Response) : Except DownloadError Response :=
  match answer with
  | .ok r => .ok r
  | .error e => .error (d.sendFailure e)

/-- `read_body_bounded`. -/
def readBodyBounded (r : Response) (limit : Nat) (onOverflow : BoundedRead) :
    Except DownloadError String :=
  (readBounded limit onOverflow r.chunks []).map (d.tools.decode r.charset)

/-- `read_body_capped`. -/
def readBodyCapped (r : Response) : Except DownloadError String :=
  d.readBodyBounded r d.maxPageBytes .abort

/-- `read_body_snippet`. -/
def readBodySnippet (r : Response) : Except DownloadError String :=
  d.readBodyBounded r wafSniffMaxBytes .truncate

def buildPage (r : Response) : Except DownloadError FetchedPage :=
  match d.tools.parseUrl r.uri with
  | .error e => .error (.invalidUrl e)
  | .ok finalUrl =>
      (d.readBodyCapped r).map fun html =>
        { url := finalUrl
          html := html
          status := r.status
          headers := r.pageHeaders
          cookies := d.extractCookies url r }

/-- The verdict of the inspector. -/
def verdict (r : Response) (body : String) : Http.WafVerdict :=
  d.tools.inspect body r.inspectionContext

/-- The inspection of a response that is no 2xx. -/
def inspectFailure (r : Response) : Except DownloadError Unit :=
  if d.ignoreWaf then .ok ()
  else if (d.verdict r "").isBlocked then .error (.wafChallenge (d.verdict r "").evidenceChain)
  else if ¬ r.isT2BlockingStatus then .ok ()
  else
    match d.readBodySnippet r with
    | .error e => .error e
    | .ok snippet =>
        if (d.verdict r snippet).isBlocked then
          .error (.wafChallenge (d.verdict r snippet).evidenceChain)
        else .ok ()

/-! ## The loop -/

/-- A status that ends the call. -/
def terminal (status : Nat) : DownloadError := .http status s!"HTTP {status}"

/-- The failure of a call whose attempts have run out at a status. -/
def exhausted (status : Nat) : DownloadError :=
  .http status s!"retries exhausted at status {status}"

/-- The loop of `fetch_inner`, with this many rounds left. -/
def fetchLoop : Nat → Nat → Nat → Nat → Option DownloadError →
    Except DownloadError FetchedPage × Nat
  | 0, _, next, lastStatus, lastError => (.error (lastError.getD (exhausted lastStatus)), next)
  | rounds + 1, attempt, next, lastStatus, _ =>
      match d.sendRequest (answers next) with
      | .error e =>
          if e.Permanent then (.error e, next + 1)
          else fetchLoop rounds (attempt + 1) (next + 1) lastStatus (some e)
      | .ok r =>
          if r.isSuccess then (d.buildPage url r, next + 1)
          else
            match d.inspectFailure r with
            | .error e => (.error e, next + 1)
            | .ok () =>
                if r.status = 403 ∧ attempt = 0 ∧ d.pinnedUa = none then
                  match d.sendRequest (answers (next + 1)) with
                  | .error e => (.error e, next + 2)
                  | .ok rotated =>
                      if rotated.isSuccess then (d.buildPage url rotated, next + 2)
                      else fetchLoop rounds (attempt + 1) (next + 2) rotated.status none
                else if r.status = 429 ∨ isServerError r.status then
                  fetchLoop rounds (attempt + 1) (next + 1) r.status none
                else (.error (terminal r.status), next + 1)

/-- `fetch`, which is `fetch_inner` in a box. -/
def fetch : Except DownloadError FetchedPage × Nat :=
  d.fetchLoop answers url (d.maxRetries + 1) 0 0 0 none

end WreqDownloader

end Webfang.Wreq
