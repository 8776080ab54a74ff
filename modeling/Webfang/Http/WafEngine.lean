import Webfang.Http.HttpClient
import Webfang.Lib.Occurrences

/-!
# The inspection of a body

`infrastructure/http/waf_engine.rs`: one search for all signatures, whose matches are filtered by
their neighbours; a challenge ends the search, and fingerprints block only at a correlated status.
A body is its bytes.  The entropy is a floating-point number, and it is left open which bodies are
above the limit.
-/

namespace Webfang.Waf

open Http (InspectionContext WafVerdict Response)
open Occurrences (Match)

inductive WafTier
  | challenge
  | fingerprint
  deriving DecidableEq

def WafTier.labelEs : WafTier → String
  | .challenge => "desafío"
  | .fingerprint => "huella"

inductive EvidenceSource
  | body
  | header
  deriving DecidableEq

structure WafEvidence where
  provider : String
  tier : WafTier
  matchedPattern : String
  source : EvidenceSource
  deriving DecidableEq

inductive BoundaryMode
  | bare
  | exempt
  | phrase
  deriving DecidableEq

structure Signature where
  pattern : String
  provider : String
  tier : WafTier
  boundary : BoundaryMode
  deriving DecidableEq

def wafControlHeaders : List (String × String) :=
  [("x-datadome-response", "DataDome"), ("cf-mitigated", "Cloudflare"),
    ("x-akamai-edge-auth", "Akamai")]

def wafBodySignatures : List Signature :=
  [ ⟨"cf-turnstile", "Cloudflare Turnstile", .challenge, .phrase⟩,
    ⟨"challenge-platform", "Cloudflare JS Challenge", .challenge, .phrase⟩,
    ⟨"Just a moment...", "Cloudflare", .challenge, .phrase⟩,
    ⟨"Checking your browser", "Cloudflare", .fingerprint, .phrase⟩,
    ⟨"__cf_chl_f_tk", "Cloudflare", .challenge, .exempt⟩,
    ⟨"cf-browser-verification", "Cloudflare", .challenge, .phrase⟩,
    ⟨"_cf_chl_opt", "Cloudflare", .challenge, .phrase⟩,
    ⟨"cloudflare", "Cloudflare", .fingerprint, .bare⟩,
    ⟨"g-recaptcha", "reCAPTCHA", .challenge, .phrase⟩,
    ⟨"recaptcha/api.js", "reCAPTCHA", .challenge, .phrase⟩,
    ⟨"grecaptcha.execute", "reCAPTCHA", .challenge, .phrase⟩,
    ⟨"recaptcha.net", "reCAPTCHA", .fingerprint, .phrase⟩,
    ⟨"recaptcha Enterprise", "reCAPTCHA", .challenge, .phrase⟩,
    ⟨"hcaptcha.com", "hCaptcha", .fingerprint, .phrase⟩,
    ⟨"h-captcha", "hCaptcha", .challenge, .phrase⟩,
    ⟨"hcaptcha-api", "hCaptcha", .challenge, .phrase⟩,
    ⟨"hcaptcha.js", "hCaptcha", .challenge, .phrase⟩,
    ⟨"hcaptcha", "hCaptcha", .fingerprint, .bare⟩,
    ⟨"h-captcha-response", "hCaptcha", .challenge, .phrase⟩,
    ⟨"datadome", "DataDome", .fingerprint, .bare⟩,
    ⟨"dd-captcha", "DataDome", .challenge, .phrase⟩,
    ⟨"datadome.co", "DataDome", .fingerprint, .phrase⟩,
    ⟨"perimeterx", "PerimeterX", .fingerprint, .bare⟩,
    ⟨"_pxCaptcha", "PerimeterX", .challenge, .exempt⟩,
    ⟨"px-captcha", "PerimeterX", .challenge, .phrase⟩,
    ⟨"perimeterx.net", "PerimeterX", .fingerprint, .phrase⟩,
    ⟨"human-security", "HUMAN", .fingerprint, .phrase⟩,
    ⟨"px-init", "PerimeterX", .fingerprint, .phrase⟩,
    ⟨"_abck", "Akamai Bot Manager", .fingerprint, .exempt⟩,
    ⟨"SensorData", "Akamai Bot Manager", .fingerprint, .phrase⟩,
    ⟨"akamai-bot-manager", "Akamai Bot Manager", .fingerprint, .phrase⟩,
    ⟨"akamai.net", "Akamai", .fingerprint, .phrase⟩,
    ⟨"akamai", "Akamai", .fingerprint, .bare⟩,
    ⟨"imperva", "Imperva", .fingerprint, .bare⟩,
    ⟨"incapsula", "Imperva", .fingerprint, .phrase⟩,
    ⟨"_Incapsula_Resource", "Imperva", .fingerprint, .phrase⟩,
    ⟨"visid_incap", "Imperva Incapsula", .fingerprint, .exempt⟩,
    ⟨"incap_ses", "Imperva Incapsula", .fingerprint, .exempt⟩,
    ⟨"sucuri", "Sucuri", .fingerprint, .bare⟩,
    ⟨"sucuri.net", "Sucuri", .fingerprint, .phrase⟩,
    ⟨"BIGipServer", "F5", .fingerprint, .phrase⟩,
    ⟨"Please verify you are a human", "Generic Challenge", .challenge, .phrase⟩,
    ⟨"verify you are human", "Generic Challenge", .challenge, .phrase⟩,
    ⟨"checking your browser", "Browser Verification", .challenge, .phrase⟩,
    ⟨"captcha-delivery", "Challenge Delivery", .challenge, .phrase⟩,
    ⟨"__js_challenge__", "JS Challenge", .challenge, .phrase⟩,
    ⟨"challenge.js", "Generic Challenge", .challenge, .phrase⟩,
    ⟨"captcha.js", "Generic Challenge", .challenge, .phrase⟩,
    ⟨"challenge-running", "Cloudflare", .challenge, .phrase⟩,
    ⟨"data-sitekey", "Generic Captcha", .fingerprint, .phrase⟩,
    ⟨"awsWafCookieDomainList", "AWS WAF", .challenge, .phrase⟩,
    ⟨"AwsWafIntegration", "AWS WAF", .challenge, .phrase⟩,
    ⟨"gokuProps", "AWS WAF", .challenge, .phrase⟩,
    ⟨"aws-waf-token", "AWS WAF", .challenge, .phrase⟩ ]

def suspiciousSizeThreshold : Nat := 100000

def silentChallengeMaxBytes : Nat := 1500

def silentChallengeMinScripts : Nat := 5

def maxEvidencePerBody : Nat := 64

/-! ## The search -/

/-- `str::as_bytes`. -/
def asBytes (text : String) : List UInt8 := text.toByteArray.data.toList

def Signature.word (sig : Signature) : List UInt8 := asBytes sig.pattern

/-- `WAF_AC.find_iter`. -/
def findIter (body : List UInt8) : List (Match Signature) :=
  Occurrences.findIter Signature.word wafBodySignatures body

def isAlphanumeric (b : UInt8) : Bool :=
  (0x30 ≤ b && b ≤ 0x39) || (0x41 ≤ b && b ≤ 0x5A) || (0x61 ≤ b && b ≤ 0x7A)

def isIdentChar (b : UInt8) : Bool := isAlphanumeric b || b == 0x5F || b == 0x24

def isWs (b : UInt8) : Bool := b == 0x20 || b == 0x09 || b == 0x0A || b == 0x0C || b == 0x0D

/-- The match fills the value of an entry with a key.  What stands before a place is read
backwards. -/
def isConfigStringMatch (body : List UInt8) (mat : Match Signature) : Bool :=
  match (body.take mat.start).reverse, body[mat.stop]? with
  | 0x22 :: beforeQuote, some 0x22 =>
      match beforeQuote.dropWhile isWs with
      | 0x3A :: beforeColon =>
          match beforeColon.dropWhile isWs with
          | 0x22 :: beforeKey =>
              (beforeKey.dropWhile isIdentChar).head? == some 0x22 &&
                !(beforeKey.takeWhile isIdentChar).isEmpty
          | _ => false
      | _ => false
  | _, _ => false

/-- A byte that a bare name must not be next to. -/
def continuesName (b : UInt8) : Bool := isAlphanumeric b || b == 0x5F

def passesBoundaryFilter (body : List UInt8) (mat : Match Signature) : Bool :=
  if mat.pattern.tier != .fingerprint || mat.pattern.boundary != .bare then true
  else if (body.take mat.start).getLast?.any continuesName then false
  else !body[mat.stop]?.any continuesName

/-! ## The evidence -/

def bodyEvidence (sig : Signature) : WafEvidence := ⟨sig.provider, sig.tier, sig.pattern, .body⟩

/-- The loop of `collect_body_evidence` over the matches. -/
def collectFrom (body : List UInt8) (evidences : List WafEvidence) (hasGenuineFingerprint : Bool) :
    List (Match Signature) → List WafEvidence × Bool
  | [] => (evidences, hasGenuineFingerprint)
  | mat :: rest =>
      if !passesBoundaryFilter body mat then
        collectFrom body evidences hasGenuineFingerprint rest
      else
        match mat.pattern.tier with
        | .challenge => ([bodyEvidence mat.pattern], true)
        | .fingerprint =>
            collectFrom body
              (if evidences.length < maxEvidencePerBody then evidences ++ [bodyEvidence mat.pattern]
              else evidences)
              (hasGenuineFingerprint || !isConfigStringMatch body mat) rest

def collectBodyEvidence (body : List UInt8) : List WafEvidence × Bool :=
  collectFrom body [] false (findIter body)

/-- The type of a `Content-Type`, without its parameters. -/
def mime (contentType : String) : List Char :=
  (Response.trim ((contentType.toList.splitOn ';').headD [])).map Char.toLower

def shouldScanBody (ctx : InspectionContext) : Bool :=
  match ctx.contentType with
  | none => true
  | some raw =>
      let mime := mime raw
      if mime == "application/xhtml+xml".toList then true
      else if "+json".toList.isSuffixOf mime || mime == "application/json".toList ||
          mime == "text/json".toList then false
      else if "+xml".toList.isSuffixOf mime || mime == "application/xml".toList ||
          mime == "text/xml".toList then false
      else if "image/".toList.isPrefixOf mime || "font/".toList.isPrefixOf mime then false
      else if mime == "application/wasm".toList || mime == "application/javascript".toList then
        false
      else true

def collectHeaderEvidence (ctx : InspectionContext) : List WafEvidence :=
  (wafControlHeaders.filter fun header => ctx.headers.contains header.1).map fun header =>
    ⟨header.2, .fingerprint, header.1, .header⟩

def isT2BlockingStatus (status : Option Nat) : Bool :=
  status.any fun s => s == 403 || s == 429 || s == 503 || (520 ≤ s && s ≤ 529)

def is5xx (status : Option Nat) : Bool := status.any fun s => 500 ≤ s && s ≤ 599

/-- Whether `decide` stops at an evidence. -/
def blocks (ctx : InspectionContext) (ev : WafEvidence) : Bool :=
  match ev.tier with
  | .challenge => true
  | .fingerprint =>
      isT2BlockingStatus ctx.status && !(is5xx ctx.status && ev.source == .body)

def decide (evidences : List WafEvidence) (ctx : InspectionContext) : Bool :=
  evidences.any (blocks ctx)

def isHtmlContentType (contentType : String) : Bool :=
  mime contentType == "text/html".toList || mime contentType == "application/xhtml+xml".toList

/-- `body.matches("<script").count()`. -/
def scriptCount (body : List UInt8) : Nat :=
  (Occurrences.findIter (fun _ => asBytes "<script") [()] body).length

section Inspect

variable (highEntropy : List UInt8 → Bool)

def entropyEvidence (body : List UInt8) (ctx : InspectionContext) (hasGenuineFingerprint : Bool) :
    Option WafEvidence :=
  if suspiciousSizeThreshold < body.length && highEntropy body &&
      (ctx.status != some 200 || hasGenuineFingerprint) then
    some ⟨"Obfuscated WAF", .challenge, "high-entropy body (>100KB, >5.5 b/B)", .body⟩
  else if body.length < silentChallengeMaxBytes && silentChallengeMinScripts < scriptCount body &&
      (!ctx.status.any (fun s => 200 ≤ s && s ≤ 299) ||
        (ctx.status == some 200 && ctx.contentType.any isHtmlContentType)) then
    some ⟨"Silent Challenge", .challenge, "script-density (<1500B, >5 <script>)", .body⟩
  else none

/-- The evidence of a body and its context. -/
def evidence (body : List UInt8) (ctx : InspectionContext) : List WafEvidence :=
  let scanned := if shouldScanBody ctx then collectBodyEvidence body else ([], false)
  let headers := collectHeaderEvidence ctx
  let genuine := scanned.2 || !headers.isEmpty
  let entropy := if shouldScanBody ctx then entropyEvidence highEntropy body ctx genuine else none
  scanned.1 ++ headers ++ entropy.toList

def evidenceChain (evidences : List WafEvidence) : String :=
  if evidences.isEmpty then "WAF desconocido"
  else
    "; ".intercalate (evidences.map fun e =>
      s!"{e.provider} (patrón: {e.matchedPattern}, tier: {e.tier.labelEs})")

def inspect (body : List UInt8) (ctx : InspectionContext) : WafVerdict :=
  let evidences := if ctx.ignoreWaf then [] else evidence highEntropy body ctx
  ⟨decide evidences ctx, evidenceChain evidences⟩

end Inspect

end Webfang.Waf
