import Webfang.Crawler.Scheduler

/-!
# Crawl tasks

`application/crawler/crawl_task.rs`: one task per dispatched URL, from the rate limiter to the
last link it pushes.  A task stands at one of the points where the other tasks and the engine
may run; a move takes it to the next one and has at most one effect on what is shared.  What
the outside answers (a session, a fetch, the pipeline, robots.txt) is part of the move.
-/

namespace Webfang

/-- What a crawl knows of URLs, and the configuration it reads. -/
structure CrawlConfig (υ κ η : Type) where
  canonical : υ → κ
  /-- `Url::host_str` -/
  host : υ → Option η
  seedUrl : υ
  maxDepth : Nat
  maxPages : Nat
  concurrency : Nat
  checkpointInterval : Nat
  /-- a checkpoint path is set -/
  checkpointing : Bool
  /-- `is_allowed` of the seed -/
  seedAllowed : Bool
  /-- `is_internal_link` and `is_allowed` of a link -/
  followed : υ → Bool

/-- How a task ended. -/
inductive TaskEnd
  /-- the page was fetched and processed -/
  | done
  /-- no session was available -/
  | skipped
  /-- an error other than `CrawlError::Cancelled`, or a panic -/
  | failed
  | cancelled
  | aborted
  deriving DecidableEq, Repr

/-- What the page fetcher answers; a page with the links that are extracted from it. -/
inductive FetchOutcome (υ : Type)
  | page (finalUrl : υ) (links : List υ)
  | failed (wafChallenge : Bool)
  deriving DecidableEq, Repr

/-- Where a task stands. -/
inductive TaskPc (υ : Type)
  | rateLimit
  | session
  | fetch
  | fetched (finalUrl : υ) (links : List υ)
  | collect (finalUrl : υ) (links : List υ)
  /-- the result is counted, not sent yet -/
  | send (finalUrl : υ) (links : List υ)
  | extract (finalUrl : υ) (links : List υ)
  /-- the link is in the seen set, not on the heap yet -/
  | pushing (finalUrl : υ) (link : DiscoveredUrl υ) (links : List υ)
  | ended (result : TaskEnd)
  deriving DecidableEq, Repr

structure CrawlTask (υ : Type) where
  discovered : DiscoveredUrl υ
  pc : TaskPc υ
  deriving DecidableEq, Repr

/-- A move of a task, with what the outside answers. -/
inductive TaskMove (υ : Type)
  | ready
  | cancelWait
  | acquire (available : Bool)
  | fetch (outcome : FetchOutcome υ)
  | pipeline (passed : Bool)
  | count
  | send
  | link (robots : Bool)
  | push
  | finish
  | panic
  | abort
  deriving DecidableEq, Repr

/-- What a move does to what the tasks and the engine share. -/
inductive TaskEffect (υ : Type)
  | quiet
  | ban
  | fetched
  | counted
  | sent (finalUrl : υ)
  | marked (link : υ)
  | pushed (link : DiscoveredUrl υ)
  deriving DecidableEq, Repr

def TaskPc.isEnded {υ : Type} : TaskPc υ → Bool
  | .ended _ => true
  | _ => false

section Moves

variable {υ κ η : Type} [DecidableEq κ] (cfg : CrawlConfig υ κ η)

/-- One move of `run_crawl_task`: the cancellation token, the abort of the join set and the
seen set of the queue are read, the rest is the task's own. -/
def taskMove (cancelled aborting : Bool) (seen : List κ) (d : DiscoveredUrl υ) :
    TaskPc υ → TaskMove υ → Option (TaskPc υ × TaskEffect υ)
  | .rateLimit, .ready => some (.session, .quiet)
  | .rateLimit, .cancelWait => if cancelled then some (.ended .cancelled, .quiet) else none
  | .session, .acquire available => some (if available then .fetch else .ended .skipped, .quiet)
  | .fetch, .fetch (.failed waf) => some (.ended .failed, if waf then .ban else .quiet)
  | .fetch, .fetch (.page finalUrl links) => some (.fetched finalUrl links, .fetched)
  | .fetched finalUrl links, .pipeline passed =>
      some (if passed then .collect finalUrl links else .ended .done, .quiet)
  | .collect finalUrl links, .count => some (.send finalUrl links, .counted)
  | .send finalUrl links, .send =>
      -- at the depth limit no link is looked at
      some (.extract finalUrl (if d.depth < cfg.maxDepth then links else []), .sent finalUrl)
  | .extract finalUrl (link :: links), .link robots =>
      if cfg.followed link && robots && !seen.contains (cfg.canonical link) then
        some (.pushing finalUrl ⟨link, d.depth + 1, finalUrl⟩ links, .marked link)
      else some (.extract finalUrl links, .quiet)
  | .pushing finalUrl link links, .push => some (.extract finalUrl links, .pushed link)
  | .extract _ [], .finish => some (.ended .done, .quiet)
  | .ended _, _ => none
  | _, .panic => some (.ended .failed, .quiet)
  | _, .abort => if aborting then some (.ended .aborted, .quiet) else none
  | _, _ => none

end Moves

end Webfang
