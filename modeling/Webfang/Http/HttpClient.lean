import Mathlib.Data.List.DropRight
import Std.Data.ExtTreeMap
import Webfang.Domain.Record

/-!
# The hardened HTTP client

`application/http_client` and `domain/body_cap.rs`: a page is fetched with a bounded number of
attempts.  The answers of the server, one for each send, are given beforehand; a function that
sends takes the number of the next answer and returns it behind its result.
-/

namespace Webfang.Http

/-! ## Answers -/

/-- A response: names of headers are in lower case, a value is there when it is visible ASCII, and
the body comes in chunks and may break off. -/
structure Response where
  status : Nat
  headers : List (String × Option String)
  chunks : List (Except String (List UInt8))

/-- A transport error of a send. -/
inductive SendError
  | timeout
  | connect (message : String)
  | other (message : String)
  deriving DecidableEq, Repr

def SendError.isTimeout : SendError → Bool
  | .timeout => true
  | _ => false

inductive HttpError
  | forbidden
  | rateLimited (retryAfter : Nat)
  | clientError (code : Nat)
  | serverError (code : Nat)
  | timeout
  | connection (message : String)
  | request (message : String)
  | wafChallenge (evidence : String)
  | domainBanned (domain : String)
  | bodyTooLarge (limit : Nat)
  deriving DecidableEq, Repr

structure InspectionContext where
  status : Option Nat
  contentType : Option String
  headers : Std.ExtTreeMap String String
  ignoreWaf : Bool

structure WafVerdict where
  isBlocked : Bool
  evidenceChain : String

structure HttpClientConfig where
  maxRetries : Nat
  maxPageBytes : Nat
  ignoreWaf : Bool

/-- What the client uses: the inspector, the decoding of a body under a charset label or as `text`
does it, and the parsers of URLs, for their scheme, and of numbers. -/
structure HttpTools where
  inspect : String → InspectionContext → WafVerdict
  decode : String → List UInt8 → String
  text : List (String × Option String) → List UInt8 → String
  parseUrl : String → Except String String
  parseU64 : String → Option Nat

structure HttpClient where
  tools : HttpTools
  config : HttpClientConfig
  userAgents : List String

/-! ## Bodies -/

namespace Response

/-- `HeaderMap::get` and `to_str`. -/
def header (r : Response) (name : String) : Option String :=
  (r.headers.find? fun header => header.1 = name).bind Prod.snd

def isSuccess (r : Response) : Prop := 200 ≤ r.status ∧ r.status ≤ 299

def isServerError (r : Response) : Prop := 500 ≤ r.status ∧ r.status ≤ 599

instance (r : Response) : Decidable r.isSuccess := inferInstanceAs (Decidable (_ ∧ _))

instance (r : Response) : Decidable r.isServerError := inferInstanceAs (Decidable (_ ∧ _))

/-- `str::trim`. -/
def trim (text : List Char) : List Char :=
  (text.dropWhile isWhitespace).rdropWhile isWhitespace

/-- The charset of a `Content-Type`. -/
def charset (r : Response) : String :=
  let labelled := (r.header "content-type").bind fun value =>
    (value.toList.splitOn ';').findSome? fun part =>
      let part := trim part
      if "charset=".toList.isPrefixOf part then
        let label := (part.drop 8).dropWhile (· = '\"') |>.rdropWhile (· = '\"')
        some (String.ofList ((trim label).map Char.toLower))
      else none
  labelled.getD "utf-8"

/-- The loop of `read_body_capped`. -/
def readCapped (limit : Nat) : List (Except String (List UInt8)) → List UInt8 →
    Except HttpError (List UInt8)
  | [], buf => .ok buf
  | .error e :: _, _ => .error (.request e)
  | .ok chunk :: rest, buf =>
      if limit < buf.length + chunk.length then .error (.bodyTooLarge limit)
      else readCapped limit rest (buf ++ chunk)

/-- All bytes of the body. -/
def bytes : List (Except String (List UInt8)) → Except String (List UInt8)
  | [] => .ok []
  | .error e :: _ => .error e
  | .ok chunk :: rest => (bytes rest).map (chunk ++ ·)

end Response

namespace HttpClient

variable (client : HttpClient) (answers : Nat → Except SendError Response)

/-- `read_body_capped`. -/
def readBodyCapped (r : Response) : Except HttpError String :=
  (Response.readCapped client.config.maxPageBytes r.chunks []).map (client.tools.decode r.charset)

/-- `Response::text`. -/
def readText (r : Response) : Except HttpError String :=
  match Response.bytes r.chunks with
  | .ok bytes => .ok (client.tools.text r.headers bytes)
  | .error e => .error (.request e)

/-- `inspection_context`. -/
def inspectionContext (r : Response) : InspectionContext :=
  let headers := r.headers.foldl (fun map header =>
    match header.2 with
    | some value => map.insert header.1 value
    | none => map) (∅ : Std.ExtTreeMap String String)
  { status := some r.status
    contentType := headers["content-type"]?
    headers := headers
    ignoreWaf := client.config.ignoreWaf }

/-- The verdict of the inspector. -/
def verdict (r : Response) (body : String) : WafVerdict :=
  client.tools.inspect body (client.inspectionContext r)

/-- `waf_block_error`. -/
def wafBlockError (r : Response) (body : String) : Option HttpError :=
  if (client.verdict r body).isBlocked then
    some (.wafChallenge (client.verdict r body).evidenceChain)
  else none

/-! ## Sending -/

/-- `map_send_error`. -/
def mapSendError : SendError → HttpError
  | .timeout => .timeout
  | .connect message => .connection message
  | .other message => .request message

/-- `send_with_timeout_retry`, with this many retries left. -/
def sendWithTimeoutRetry : Nat → Nat → Except HttpError Response × Nat
  | left, next =>
      match answers next with
      | .ok r => (.ok r, next + 1)
      | .error e =>
          if e.isTimeout then
            match left with
            | 0 => (.error .timeout, next + 1)
            | left + 1 => sendWithTimeoutRetry left (next + 1)
          else (.error (mapSendError e), next + 1)

/-- `RetryPolicy` -/
structure RetryPolicy where
  retryable : Nat → Bool
  exhausted : HttpError

/-- `retry_with_backoff`, with this many attempts left. -/
def retryWithBackoff (policy : RetryPolicy) : Nat → Bool → Nat → Except HttpError String × Nat
  | 0, lastFailureWasTimeout, next =>
      (.error (if lastFailureWasTimeout then .timeout else policy.exhausted), next)
  | left + 1, lastFailureWasTimeout, next =>
      match answers next with
      | .ok r =>
          if r.isSuccess then (client.readText r, next + 1)
          else if policy.retryable r.status then
            retryWithBackoff policy left lastFailureWasTimeout (next + 1)
          else (.error (.clientError r.status), next + 1)
      | .error e => retryWithBackoff policy left e.isTimeout (next + 1)

def handleSuccess (r : Response) (next : Nat) : Except HttpError String × Nat :=
  match client.readBodyCapped r with
  | .error e => (.error e, next)
  | .ok body =>
      match client.wafBlockError r body with
      | some err => (.error err, next)
      | none => (.ok body, next)

/-- Any 5xx. -/
def serverErrors (code : Nat) : Bool := 500 ≤ code && code ≤ 599

def rateLimitPolicy (r : Response) : RetryPolicy where
  retryable code := code == 429 || serverErrors code
  exhausted := .rateLimited (((r.header "retry-after").bind client.tools.parseU64).getD 0)

def handleRateLimited (r : Response) (next : Nat) : Except HttpError String × Nat :=
  client.retryWithBackoff answers (client.rateLimitPolicy r) client.config.maxRetries false next

def serverErrorPolicy (r : Response) : RetryPolicy where
  retryable := serverErrors
  exhausted := .serverError r.status

/-- The body of a 5xx response, empty when it cannot be read. -/
def serverErrorBody (r : Response) : String :=
  match client.readBodyCapped r with
  | .ok body => body
  | .error _ => ""

def handleServerError (r : Response) (next : Nat) : Except HttpError String × Nat :=
  match client.wafBlockError r (client.serverErrorBody r) with
  | some err => (.error err, next)
  | none =>
      client.retryWithBackoff answers (serverErrorPolicy r) client.config.maxRetries false next

/-- The loop of `get_inner` with one user agent; a first 403 goes `again`. -/
def getWith (uaIndex : Nat) (again : Nat → Except HttpError String × Nat) (next : Nat) :
    Except HttpError String × Nat :=
  if client.userAgents.length ≤ uaIndex ∧ 0 < uaIndex then (.error .forbidden, next)
  else
    match sendWithTimeoutRetry answers client.config.maxRetries next with
    | (.error e, next) => (.error e, next)
    | (.ok r, next) =>
        if r.isSuccess then client.handleSuccess r next
        else if r.status = 403 then
          if uaIndex = 0 then again next else (.error .forbidden, next)
        else if r.status = 429 then client.handleRateLimited answers r next
        else if r.isServerError then client.handleServerError answers r next
        else if 300 ≤ r.status ∧ r.status ≤ 499 then (.error (.clientError r.status), next)
        else (.error (.serverError r.status), next)

def getInner : Except HttpError String × Nat :=
  client.getWith answers 0 (client.getWith answers 1 fun next => (.error .forbidden, next)) 0

/-- `get`; the session pool, where there is one, grants a domain a session or bans it. -/
def get (session : Option (String × Bool)) (url : String) : Except HttpError String × Nat :=
  match client.tools.parseUrl url with
  | .error e => (.error (.request s!"Invalid URL: {e}"), 0)
  | .ok scheme =>
      if scheme ≠ "http" ∧ scheme ≠ "https" then
        (.error (.request "URL must use http or https scheme"), 0)
      else
        match session with
        | some (domain, false) => (.error (.domainBanned domain), 0)
        | _ => client.getInner answers

end HttpClient

end Webfang.Http
