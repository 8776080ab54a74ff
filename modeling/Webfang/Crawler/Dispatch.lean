import Mathlib.Data.String.Basic
import Webfang.Crawler.EngineSteps

/-!
# At most one dispatch for each document

Whatever the tasks push and however often a crawl is resumed, `next_url` returns no two URLs
with the same canonical form: the visited set keeps the form of every dispatch, and every
checkpoint carries it on.
-/

set_option linter.unusedSectionVars false

namespace Webfang

open StepSystem

section Dispatch

variable {υ κ η : Type} [LinearOrder υ] [DecidableEq κ] [DecidableEq η] {cfg : CrawlConfig υ κ η}

namespace CrawlState

/-- The dispatches of the crawl are distinct and visited, in memory and on disk. -/
structure Dispatches (cfg : CrawlConfig υ κ η) (s : CrawlState υ κ η) : Prop where
  mirrored : s.scheduler.Mirrored cfg.canonical
  visited : ∀ url ∈ s.trace.log.dispatched, cfg.canonical url ∈ s.scheduler.visited
  distinct : (s.trace.log.dispatched.map cfg.canonical).Nodup
  saved : ∀ checkpoint log, s.disk = some (checkpoint, log) →
    (log.dispatched.map cfg.canonical).Nodup ∧
      ∀ url ∈ log.dispatched, ∃ known ∈ checkpoint.visited, cfg.canonical known = cfg.canonical url

/-- Steps that leave the visited set, the dispatches and the disk alone. -/
theorem Dispatches.frame {s t : CrawlState υ κ η} (dispatches : s.Dispatches cfg)
    (visited : t.scheduler.visited = s.scheduler.visited)
    (visitedUrls : t.scheduler.visitedUrls = s.scheduler.visitedUrls)
    (dispatched : t.trace.log.dispatched = s.trace.log.dispatched)
    (disk : t.disk = s.disk ∨ t.disk = none) : t.Dispatches cfg where
  mirrored key := by rw [visited, visitedUrls]; exact dispatches.mirrored key
  visited := by rw [visited, dispatched]; exact dispatches.visited
  distinct := by rw [dispatched]; exact dispatches.distinct
  saved checkpoint log held := by
    rcases disk with same | none
    · exact dispatches.saved checkpoint log (same ▸ held)
    · rw [none] at held
      cases held

theorem Dispatches.saveCheckpoint {s : CrawlState υ κ η} (dispatches : s.Dispatches cfg)
    (saved : Bool) : (s.saveCheckpoint cfg saved).Dispatches cfg := by
  unfold CrawlState.saveCheckpoint
  split
  · refine ⟨dispatches.mirrored, dispatches.visited, dispatches.distinct, ?_⟩
    rintro checkpoint log ⟨⟩
    exact ⟨dispatches.distinct,
      fun url member => (dispatches.mirrored _).mp (dispatches.visited url member)⟩
  · exact dispatches

/-- A dispatch is new among the visited forms, hence among the dispatched ones. -/
theorem Dispatches.spawnNext {s : CrawlState υ κ η} {limit : Nat} (dispatches : s.Dispatches cfg)
    (fewer : s.tasks.length < limit) : (s.spawnNext cfg limit).Dispatches cfg := by
  rcases spawnNext_cases cfg fewer with
    ⟨next, -⟩ | ⟨skipped, d, rest, next, -, fresh, -⟩
  · rw [next]
    exact dispatches.frame rfl rfl rfl (.inl rfl)
  · rw [next]
    refine ⟨?_, ?_, ?_, dispatches.saved⟩
    · have recorded := dispatches.mirrored.recordVisit d.url
      unfold CrawlScheduler.recordVisit at recorded
      rw [if_neg fresh] at recorded
      exact recorded
    · intro url member
      rcases List.mem_append.mp member with old | new
      · exact List.mem_cons_of_mem _ (dispatches.visited url old)
      · rw [List.mem_singleton.mp new]
        exact List.mem_cons_self ..
    · rw [List.map_append, List.map_singleton]
      refine dispatches.distinct.append (List.nodup_singleton _) ?_
      rw [List.disjoint_singleton]
      intro member
      obtain ⟨url, old, same⟩ := List.mem_map.mp member
      exact fresh (same ▸ dispatches.visited url old)

theorem Dispatches.engineMoved {s t : CrawlState υ κ η} (dispatches : s.Dispatches cfg)
    (moved : EngineMoved cfg s t) : t.Dispatches cfg := by
  cases moved with
  | pass cancelled saved passes fires =>
      refine Dispatches.saveCheckpoint ?_ saved
      exact dispatches.frame rfl rfl rfl (.inl rfl)
  | reap found ended here => exact dispatches.frame rfl rfl rfl (.inl rfl)
  | joined found ended here pending => exact dispatches.frame rfl rfl rfl (.inl rfl)
  | drain here => exact dispatches.frame rfl rfl rfl (.inl rfl)
  | spawn here room fewer => exact dispatches.spawnNext fewer
  | delete here running pending notFull =>
      refine dispatches.frame rfl rfl rfl ?_
      cases cfg.checkpointing with
      | true => exact .inr rfl
      | false => exact .inl rfl

/-- A new process knows the dispatches its checkpoint was saved after. -/
theorem dispatches_startProcess {disk : Option (CrawlCheckpoint υ η × CrawlLog υ)}
    {everBanned : List η}
    (saved : ∀ checkpoint log, disk = some (checkpoint, log) → (log.dispatched.map cfg.canonical).Nodup ∧
      ∀ url ∈ log.dispatched, ∃ known ∈ checkpoint.visited, cfg.canonical known = cfg.canonical url) :
    (startProcess cfg disk everBanned).Dispatches cfg := by
  obtain ⟨-, -, mirrored, visited, -⟩ :=
    startProcess_scheduler cfg disk everBanned
  cases disk with
  | none =>
      exact ⟨mirrored, fun url member => (nomatch member), List.nodup_nil,
        fun checkpoint log held => nomatch held⟩
  | some file =>
      obtain ⟨distinct, known⟩ := saved file.1 file.2 rfl
      refine ⟨mirrored, fun url member => (visited _).mpr (known url member), distinct, ?_⟩
      rintro checkpoint log ⟨⟩
      exact ⟨distinct, known⟩

end CrawlState

theorem dispatches_crawlStep {s t : CrawlState υ κ η} {a : CrawlAction υ}
    (dispatches : s.Dispatches cfg) (step : crawlStep cfg s a = some t) : t.Dispatches cfg := by
  rcases crawlStep_cases step with ⟨i, move, -, moved⟩ | ⟨move, -, moved⟩ | ⟨-, rfl⟩ | ⟨-, rfl⟩ |
    ⟨-, rfl⟩
  · have same := CrawlState.taskStep_sameEngine moved
    exact dispatches.frame same.visited same.visitedUrls same.dispatched (.inl same.disk)
  · exact dispatches.engineMoved moved
  · exact dispatches.frame rfl rfl rfl (.inl rfl)
  · exact dispatches.frame rfl rfl rfl (.inl rfl)
  · exact CrawlState.dispatches_startProcess dispatches.saved

theorem dispatches_of_run {as : List (CrawlAction υ)} {t : CrawlState υ κ η}
    (run : execute (crawlStep cfg) (.init cfg) as = some t) : t.Dispatches cfg :=
  execute_invariant (fun _ _ _ dispatches step => dispatches_crawlStep dispatches step) run
    (CrawlState.dispatches_startProcess fun _ _ held => nomatch held)

/-- In every history no two URLs that `next_url` returned, in this process and in the ones its
checkpoint comes from, have the same canonical form. -/
theorem dispatched_at_most_once {as : List (CrawlAction υ)} {t : CrawlState υ κ η}
    (run : execute (crawlStep cfg) (.init cfg) as = some t) :
    (t.trace.log.dispatched.map cfg.canonical).Nodup :=
  (dispatches_of_run run).distinct

end Dispatch

/-! ## A crawl of one site -/

/-- A site of one host, every page of it its own canonical form. -/
def sampleConfig (maxDepth : Nat) : CrawlConfig String String String where
  canonical := id
  host _ := some "site.test"
  seedUrl := "https://site.test/"
  maxDepth := maxDepth
  maxPages := 10
  concurrency := 2
  checkpointInterval := 0
  checkpointing := true
  seedAllowed := true
  followed _ := true

/-- A turn of the loop that reaps these tasks and calls `next_url` this often. -/
def loopTurn (reaped : List Nat) (spawns : Nat) : List (CrawlAction String) :=
  .engine (.head true) :: (reaped.map fun i => .engine (.reap i)) ++
    [.engine .reapDone, .engine .recheck, .engine .drain, .engine (.periodic true)] ++
    List.replicate spawns (.engine (.spawn 2)) ++ [.engine (.wait 2 none)]

/-- The task at `i` fetches its page, up to the links. -/
def fetchPage (i : Nat) (finalUrl : String) (links : List String) : List (CrawlAction String) :=
  [.task i .ready, .task i (.acquire true), .task i (.fetch (.page finalUrl links)),
    .task i (.pipeline true), .task i .count, .task i .send]

/-- The task at `i` pushes this many new links and finishes. -/
def pushLinks (i links : Nat) : List (CrawlAction String) :=
  (List.replicate links [.task i (.link true), .task i .push]).flatten ++ [.task i .finish]

/-- The loop stops, the tasks are joined and the final checkpoint is saved. -/
def stopCrawl (tasks : Nat) : List (CrawlAction String) :=
  .engine (.head true) :: List.replicate tasks (.engine (.join 0)) ++
    [.engine .drained, .engine (.final true)]

/-- The seed is fetched, the crawl is shut down and resumed, and its link is dispatched. -/
def resumedCrawl : List (CrawlAction String) :=
  loopTurn [] 2 ++ fetchPage 0 "https://site.test/" ["https://site.test/a"] ++ pushLinks 0 1 ++
    [.signal] ++ stopCrawl 1 ++ [.restart] ++ loopTurn [] 2

theorem dispatched_at_most_once_resumed :
    ∃ t, execute (crawlStep (sampleConfig 1)) (.init (sampleConfig 1)) resumedCrawl = some t ∧
      t.trace.log.dispatched = ["https://site.test/", "https://site.test/a"] ∧
      (t.trace.log.dispatched.map (sampleConfig 1).canonical).Nodup := by
  have succeeds : (execute (crawlStep (sampleConfig 1)) (.init (sampleConfig 1)) resumedCrawl).any
      (·.trace.log.dispatched == ["https://site.test/", "https://site.test/a"]) = true := by
    decide +kernel
  obtain ⟨t, run, both⟩ := (Option.any_eq_true _ _).mp succeeds
  exact ⟨t, run, beq_iff_eq.mp both, dispatched_at_most_once run⟩

end Webfang
