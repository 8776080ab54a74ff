import Webfang.Lib.Execution
import Webfang.Lib.Unordered
import Webfang.Scrape.ExitCodes

/-!
# The scrape phase

`cli/scrape_flow.rs`: `scrape_urls` runs the pages of the URLs through `buffer_unordered`, sorts
what they give by their index and counts it.  A page that has not begun when the shutdown is
requested is skipped; one that has begun goes on to its end.
-/

namespace Webfang.ScrapeRun

open StepSystem Unordered

variable {υ γ : Type}

/-- What `scrape_one_url` returns; `none` is a page that robots.txt disallows. -/
abbrev PageResult (γ : Type) := Except ScraperError (Option γ)

/-- The parts of the run that do not change.  `guard` is the text of a rejection by
`reject_forbidden_literal_url`, `captured` tells the URLs whose body the discovery has. -/
structure ScrapeContext (υ : Type) where
  concurrency : Nat
  maxPages : Option Nat
  ignoreRobots : Bool
  rateLimited : Bool
  guard : υ → Option String
  captured : υ → Bool
  asStr : υ → String

/-- Where the future of a page waits. -/
inductive PageStage
  /-- not polled yet -/
  | queued
  /-- for the rate limiter -/
  | throttled
  /-- for the verdict of robots.txt -/
  | robots
  /-- for the page, or for the extraction of its captured body -/
  | fetching
  deriving DecidableEq, Repr

/-- The tasks and what they have given (`none` for a page skipped), with a record of what the pages
asked for: the URLs requested over HTTP, the verdicts of robots.txt and the outcomes of the pages
that were fetched or extracted. -/
structure ScrapeState (υ γ : Type) where
  buffer : Buffer υ (υ × PageStage) (Option (υ × PageResult γ))
  cancelled : Bool
  requests : List υ
  verdicts : List (υ × Bool)
  answers : List (υ × Except ScraperError γ)

/-- `k` is a place among the running pages. -/
inductive ScrapeAction (γ : Type)
  | draw
  | poll (k : Nat)
  /-- the limiter grants a permit -/
  | permit (k : Nat)
  /-- the wait for the limiter ends with the shutdown -/
  | abandon (k : Nat)
  | robots (k : Nat) (allowed : Bool)
  | answer (k : Nat) (outcome : Except ScraperError γ)
  | cancel

def applyMaxPagesLimit (urls : List υ) (maxPages : Option Nat) : List υ :=
  match maxPages with
  | some max => urls.take max
  | none => urls

namespace ScrapeState

def init (ctx : ScrapeContext υ) (urls : List υ) : ScrapeState υ γ :=
  ⟨.start (applyMaxPagesLimit urls ctx.maxPages), false, [], [], []⟩

def goOn (s : ScrapeState υ γ) (k i : Nat) (url : υ) (stage : PageStage) : ScrapeState υ γ :=
  { s with buffer := s.buffer.advance k (i, url, stage) }

def give (s : ScrapeState υ γ) (k i : Nat) (outcome : Option (υ × PageResult γ)) :
    ScrapeState υ γ :=
  { s with buffer := s.buffer.complete k (i, outcome) }

/-- Behind robots.txt: a captured body saves the request. -/
def fetch (ctx : ScrapeContext υ) (s : ScrapeState υ γ) (k i : Nat) (url : υ) :
    ScrapeState υ γ :=
  { s.goOn k i url .fetching with
    requests := if ctx.captured url then s.requests else s.requests ++ [url] }

/-- The entry of `scrape_one_url`. -/
def enter (ctx : ScrapeContext υ) (s : ScrapeState υ γ) (k i : Nat) (url : υ) :
    ScrapeState υ γ :=
  match ctx.guard url with
  | some rejection => s.give k i (some (url, .error (.invalidUrl rejection)))
  | none => if ctx.ignoreRobots then s.fetch ctx k i url else s.goOn k i url .robots

end ScrapeState

def scrapeStep (ctx : ScrapeContext υ) (s : ScrapeState υ γ) :
    ScrapeAction γ → Option (ScrapeState υ γ)
  | .draw =>
      (s.buffer.draw ctx.concurrency (·, .queued)).map fun buffer => { s with buffer := buffer }
  | .poll k =>
      match s.buffer.running[k]? with
      | some (i, url, .queued) =>
          if s.cancelled then some (s.give k i none)
          else if ctx.rateLimited then some (s.goOn k i url .throttled)
          else some (s.enter ctx k i url)
      | _ => none
  | .permit k =>
      match s.buffer.running[k]? with
      | some (i, url, .throttled) => some (s.enter ctx k i url)
      | _ => none
  | .abandon k =>
      match s.buffer.running[k]? with
      | some (i, _, .throttled) => if s.cancelled then some (s.give k i none) else none
      | _ => none
  | .robots k allowed =>
      match s.buffer.running[k]? with
      | some (i, url, .robots) =>
          let s := { s with verdicts := s.verdicts ++ [(url, allowed)] }
          some (if allowed then s.fetch ctx k i url else s.give k i (some (url, .ok none)))
      | _ => none
  | .answer k outcome =>
      match s.buffer.running[k]? with
      | some (i, url, .fetching) =>
          some { s.give k i (some (url, outcome.map some)) with
            answers := s.answers ++ [(url, outcome)] }
      | _ => none
  | .cancel => some { s with cancelled := true }

/-! ## The counts -/

/-- `results`, `failures`, `blocked` and `skipped`. -/
structure ScrapeReport (γ : Type) where
  results : List γ
  failures : Failures
  blocked : Nat
  skipped : Nat
  deriving DecidableEq, Repr

/-- One round of the loop over the ordered slots. -/
def ScrapeReport.add (asStr : υ → String) (report : ScrapeReport γ) :
    Option (υ × PageResult γ) → ScrapeReport γ
  | none => { report with skipped := report.skipped + 1 }
  | some (_, .ok (some content)) => { report with results := report.results ++ [content] }
  | some (_, .ok none) => { report with blocked := report.blocked + 1 }
  | some (url, .error e) => { report with failures := report.failures ++ [(asStr url, e)] }

/-- What `scrape_urls` returns, when all pages have ended. -/
def ScrapeState.report (ctx : ScrapeContext υ) (s : ScrapeState υ γ) : ScrapeReport γ :=
  s.buffer.restored.foldl (ScrapeReport.add ctx.asStr) ⟨[], [], 0, 0⟩

end Webfang.ScrapeRun
